/-
What the letter case of header names does to a proxy.

Both parsers compare names with `strcasecmp`; `proxy_request` and `handle_html` look them up literally, in maps whose
keys are case-sensitive. A header in another spelling is then not the one that is overwritten, or not the one that is
found. So a request and a response are handled alike in all spellings exactly when none of the headers that are looked
up is there to be spelled in two ways (`case_blind_iff`).

- `single_insert_iff`: a header that is set is the only one of its name when the name was there in no other spelling.
- `proxyRequest_decision`: what `proxy_request` does with a response it has read.
- `case_lowerHost`: a `host:` of the client is forwarded next to the proxy's own.
-/
import BlogServer.Proxy.Forwarding
import BlogServer.Proxy.Redirects

namespace BlogServer.Proxy

open BlogServer.Http BlogServer.Byte

/-! ## Spellings -/

/-- the same headers, their names in another letter case -/
def CaseVariant (hs hs' : List Header) : Prop :=
  List.Forall₂ (fun h h' => Bytes.strcasecmp h.name h'.name = true ∧ h.value = h'.value) hs hs'

/-- some header has the name in some spelling, and such a value -/
def Spelled (hs : List Header) (name : Bytes) (P : Bytes → Prop) : Prop :=
  ∃ h ∈ hs, Bytes.strcasecmp h.name name = true ∧ P h.value

theorem strcasecmp_trans {a b c : Bytes} (hab : Bytes.strcasecmp a b = true) (hbc : Bytes.strcasecmp b c = true) :
    Bytes.strcasecmp a c = true := by
  rw [Bytes.strcasecmp_iff] at hab hbc ⊢
  exact hab.trans hbc

theorem strcasecmp_symm {a b : Bytes} (h : Bytes.strcasecmp a b = true) : Bytes.strcasecmp b a = true := by
  rw [Bytes.strcasecmp_iff] at h ⊢
  exact h.symm

theorem CaseVariant.refl (hs : List Header) : CaseVariant hs hs :=
  List.forall₂_same.2 fun h _ => ⟨Bytes.strcasecmp_self h.name, rfl⟩

theorem CaseVariant.symm {hs hs' : List Header} (h : CaseVariant hs hs') : CaseVariant hs' hs := by
  refine List.Forall₂.flip (h.imp fun a b hab => ?_)
  exact ⟨strcasecmp_symm hab.1, hab.2.symm⟩

/-- what is spelled in a variant was spelled before -/
theorem CaseVariant.spelled {hs hs' : List Header} (h : CaseVariant hs hs') {name : Bytes} {P : Bytes → Prop}
    (hs'P : Spelled hs' name P) : Spelled hs name P := by
  obtain ⟨x', hx', hname, hP⟩ := hs'P
  induction h with
  | nil => cases hx'
  | @cons x y l l' hxy hrest ih =>
    rcases List.mem_cons.1 hx' with rfl | hx'
    · exact ⟨x, List.mem_cons_self, strcasecmp_trans hxy.1 hname, hxy.2 ▸ hP⟩
    · obtain ⟨z, hz, hzP⟩ := ih hx'
      exact ⟨z, List.mem_cons_of_mem x hz, hzP⟩

/-- the names in lower case -/
def lowerNames (hs : List Header) : List Header := hs.map fun h => ⟨h.name.map toLower, h.value⟩

theorem toLower_toLower (c : UInt8) : toLower (toLower c) = toLower c := by
  unfold toLower
  split_ifs with hupper hagain
  · simp only [Bool.and_eq_true, decide_eq_true_eq, UInt8.le_iff_toNat_le, UInt8.toNat_add, UInt8.reduceToNat] at *
    omega
  · rfl
  · rfl

theorem strcasecmp_lower (name : Bytes) : Bytes.strcasecmp name (name.map toLower) = true := by
  rw [Bytes.strcasecmp_iff, List.map_map]
  exact List.map_congr_left fun c _ => (toLower_toLower c).symm

theorem caseVariant_lowerNames (hs : List Header) : CaseVariant hs (lowerNames hs) := by
  unfold CaseVariant lowerNames
  rw [List.forall₂_map_right_iff]
  exact List.forall₂_same.2 fun h _ => ⟨strcasecmp_lower h.name, rfl⟩

/-- one header under the name, the others in lower case -/
theorem caseVariant_respelled {hs : List Header} {name : Bytes} {P : Bytes → Prop} (h : Spelled hs name P) :
    ∃ pre post value, P value ∧ CaseVariant hs (lowerNames pre ++ ⟨name, value⟩ :: lowerNames post) := by
  obtain ⟨x, hx, hname, hP⟩ := h
  obtain ⟨pre, post, rfl⟩ := List.append_of_mem hx
  refine ⟨pre, post, x.value, hP, ?_⟩
  exact List.rel_append (caseVariant_lowerNames pre) (.cons ⟨hname, rfl⟩ (caseVariant_lowerNames post))

/-! ## Lookups -/

/-- a name with a capital is not found among names in lower case -/
theorem not_mem_lowerNames {hs : List Header} {name : Bytes} (hname : name.map toLower ≠ name) {h : Header}
    (hh : h ∈ lowerNames hs) : h.name ≠ name := by
  rintro rfl
  obtain ⟨x, -, rfl⟩ := List.mem_map.1 hh
  refine hname ?_
  rw [List.map_map]
  exact List.map_congr_left fun c _ => toLower_toLower c

theorem find?_headerMap_eq_none {hs : List Header} {name : Bytes} (h : ∀ x ∈ hs, x.name ≠ name) :
    (headerMap hs).find? name = none := by
  rw [SortedMap.find?_eq_none_iff, SortedMap.mem_keys_iff]
  rintro ⟨value, hvalue⟩
  obtain ⟨x, hx, heq⟩ := List.mem_map.1 (SortedMap.mem_of_mem_ofAssignments (SortedMap.mem_entries_iff.2 hvalue))
  exact h x hx (congrArg Prod.fst heq)

theorem find?_lowerNames {hs : List Header} {name : Bytes} (hname : name.map toLower ≠ name) :
    (headerMap (lowerNames hs)).find? name = none :=
  find?_headerMap_eq_none fun _ hx => not_mem_lowerNames hname hx

theorem find?_respelled {pre post : List Header} {name value : Bytes} (hname : name.map toLower ≠ name) :
    (headerMap (lowerNames pre ++ ⟨name, value⟩ :: lowerNames post)).find? name = some value := by
  rw [headerMap, List.map_append, List.map_cons]
  apply SortedMap.find?_ofAssignments_last
  intro e he
  obtain ⟨x, hx, rfl⟩ := List.mem_map.1 he
  exact not_mem_lowerNames hname hx

/-! ## The request -/

/-- of the headers with the name, letter case aside, there is one, and it has the value -/
def Single (headers : HeaderMap) (name value : Bytes) : Prop :=
  (headers.headers.filter fun h => Bytes.strcasecmp h.name name).map Header.value = [value]

/-- a header that is set is single when the name was there in no other spelling -/
theorem single_insert_iff (m : HeaderMap) (name value : Bytes) :
    Single (m.insert name value) name value ↔ ∀ k ∈ m.keys, Bytes.strcasecmp k name = true → k = name := by
  have hself : ⟨name, value⟩ ∈ (HeaderMap.headers (m.insert name value)).filter
      fun h => Bytes.strcasecmp h.name name := by
    rw [List.mem_filter, mem_headers_iff, SortedMap.mem_insert_iff]
    exact ⟨Or.inl rfl, Bytes.strcasecmp_self name⟩
  constructor
  · intro hsingle k hk hname
    obtain ⟨h, hfilter, hvalue⟩ := List.map_eq_singleton_iff.1 hsingle
    by_contra hne
    obtain ⟨v, hv⟩ := SortedMap.mem_keys_iff.1 hk
    -- the other spelling is a second header
    have hother : ⟨k, v⟩ ∈ (HeaderMap.headers (m.insert name value)).filter
        fun h => Bytes.strcasecmp h.name name := by
      rw [List.mem_filter, mem_headers_iff, SortedMap.mem_insert_iff]
      exact ⟨Or.inr ⟨SortedMap.mem_entries_iff.2 hv, hne⟩, hname⟩
    rw [hfilter, List.mem_singleton] at hself hother
    rw [← hself] at hother
    exact hne (congrArg Header.name hother)
  · intro honly
    have hnodup : (HeaderMap.headers (m.insert name value)).Nodup :=
      List.Nodup.of_map Header.name (by
        rw [HeaderMap.headers, List.map_map]
        exact (m.insert name value).keys_nodup)
    have hsame : ∀ h ∈ (HeaderMap.headers (m.insert name value)).filter fun h => Bytes.strcasecmp h.name name,
        h = ⟨name, value⟩ := by
      intro h hh
      rw [List.mem_filter, mem_headers_iff, SortedMap.mem_insert_iff] at hh
      obtain ⟨hmem | ⟨hmem, hne⟩, hname⟩ := hh
      · exact Header.ext_iff.2 (Prod.mk.inj hmem)
      · exact absurd (honly h.name (SortedMap.mem_keys_iff.2 ⟨h.value, SortedMap.mem_entries_iff.1 hmem⟩) hname) hne
    have hfilter : (HeaderMap.headers (m.insert name value)).filter (fun h => Bytes.strcasecmp h.name name) =
        [⟨name, value⟩] := by
      rw [← List.perm_singleton, List.perm_ext_iff_of_nodup (hnodup.filter _) (List.nodup_singleton _)]
      intro h
      rw [List.mem_singleton]
      constructor
      · exact hsame h
      · rintro rfl
        exact hself
    rw [Single, hfilter]
    rfl

/-- another header that is set leaves it as it was -/
theorem single_insert_of_other (m : HeaderMap) {name other : Bytes} (value v : Bytes)
    (hother : Bytes.strcasecmp other name = false) : Single (m.insert other v) name value ↔ Single m name value := by
  have hfilter : (HeaderMap.headers (m.insert other v)).filter (fun h => Bytes.strcasecmp h.name name) =
      (HeaderMap.headers m).filter fun h => Bytes.strcasecmp h.name name := by
    rw [HeaderMap.headers, HeaderMap.headers, List.filter_map, List.filter_map]
    exact congrArg _ (SortedMap.filter_insert m other v (p := fun k => Bytes.strcasecmp k name) hother)
  rw [Single, Single, hfilter]

theorem forall_keys_headerMap {hs : List Header} {P : Bytes → Prop} :
    (∀ k ∈ (headerMap hs).keys, P k) ↔ ∀ h ∈ hs, P h.name := by
  constructor
  · intro hkeys h hh
    apply hkeys
    by_contra hnot
    rw [← SortedMap.find?_eq_none_iff, headerMap, SortedMap.find?_ofAssignments, Option.map_eq_none_iff,
      List.find?_eq_none] at hnot
    exact hnot (h.name, h.value) (List.mem_reverse.2 (List.mem_map_of_mem hh)) (by simp)
  · intro hnames k hk
    obtain ⟨value, hvalue⟩ := SortedMap.mem_keys_iff.1 hk
    obtain ⟨h, hh, heq⟩ := List.mem_map.1 (SortedMap.mem_of_mem_ofAssignments (SortedMap.mem_entries_iff.2 hvalue))
    rw [← show h.name = k from congrArg Prod.fst heq]
    exact hnames h hh

/-- the request forwarded for a client that sent the headers -/
def forwardedFor (request : Request) (hs : List Header) (uri url : Bytes) (port : ℤ) : Request :=
  forwardedRequest { request with headers := headerMap hs } uri url port

/-- the proxy's own headers are single in a forwarded request -/
structure OwnHeaders (forwarded : Request) (url : Bytes) (port : ℤ) : Prop where
  host : Single forwarded.headers (ascii "Host") (url ++ ascii ":" ++ Decimal.toString port)
  acceptEncoding : Single forwarded.headers (ascii "Accept-Encoding") (ascii "gzip, identity")

/-- **The proxy's headers are single** when the client spells theirs as the proxy does. -/
theorem ownHeaders_iff (request : Request) (hs : List Header) (uri url : Bytes) (port : ℤ) :
    OwnHeaders (forwardedFor request hs uri url port) url port ↔
      (∀ h ∈ hs, Bytes.strcasecmp h.name (ascii "Host") = true → h.name = ascii "Host") ∧
        ∀ h ∈ hs, Bytes.strcasecmp h.name (ascii "Accept-Encoding") = true → h.name = ascii "Accept-Encoding" := by
  have hhost : Single (forwardedFor request hs uri url port).headers (ascii "Host")
      (url ++ ascii ":" ++ Decimal.toString port) ↔
        ∀ h ∈ hs, Bytes.strcasecmp h.name (ascii "Host") = true → h.name = ascii "Host" := by
    rw [forwardedFor, forwardedRequest, single_insert_of_other _ _ _ (by decide), single_insert_iff,
      forall_keys_headerMap]
  have haccept : Single (forwardedFor request hs uri url port).headers (ascii "Accept-Encoding")
      (ascii "gzip, identity") ↔
        ∀ h ∈ hs, Bytes.strcasecmp h.name (ascii "Accept-Encoding") = true → h.name = ascii "Accept-Encoding" := by
    rw [forwardedFor, forwardedRequest, single_insert_iff]
    constructor
    · intro hkeys
      refine forall_keys_headerMap.1 fun k hk => hkeys k ?_
      exact SortedMap.mem_keys_insert.2 (Or.inr hk)
    · intro hnames k hk hname
      rcases SortedMap.mem_keys_insert.1 hk with rfl | hk
      · exact absurd hname (by decide)
      · exact (forall_keys_headerMap (P := fun name => Bytes.strcasecmp name _ = true → name = _)).2 hnames k hk hname
  constructor
  · intro hown
    exact ⟨hhost.1 hown.host, haccept.1 hown.acceptEncoding⟩
  · intro hnames
    exact ⟨hhost.2 hnames.1, haccept.2 hnames.2⟩

/-- a header of the client has the name, in some spelling -/
abbrev Named (hs : List Header) (name : Bytes) : Prop := Spelled hs name fun _ => True

/-- all spellings are the proxy's exactly when there is nothing to spell -/
theorem all_spellings_iff {hs : List Header} {name : Bytes} (hname : name.map toLower ≠ name) :
    (∀ hs', CaseVariant hs hs' → ∀ h ∈ hs', Bytes.strcasecmp h.name name = true → h.name = name) ↔
      ¬ Named hs name := by
  constructor
  · intro hall hnamed
    obtain ⟨h, hh, hsame, -⟩ := hnamed
    have hlower : ⟨h.name.map toLower, h.value⟩ ∈ lowerNames hs := List.mem_map_of_mem hh
    have heq := hall _ (caseVariant_lowerNames hs) _ hlower
      (strcasecmp_trans (strcasecmp_symm (strcasecmp_lower h.name)) hsame)
    exact not_mem_lowerNames hname hlower heq
  · intro hnot hs' hvariant h hh hsame
    exact absurd (hvariant.spelled ⟨h, hh, hsame, trivial⟩) hnot

/-! ## The response -/

/-- what a proxy decides on a response -/
inductive Decision where
  /-- go on to the target, unless its port is no number -/
  | redirect (target : Option (Bytes × Bytes × ℤ))
  /-- rewrite the page; whether it has an encoding, and whether that is gzip -/
  | rewrite (encoding : Option Bool)
  | relay
deriving DecidableEq, Repr

/-- what `proxy_request` decides on a response from a host at a port -/
def decision (url : Bytes) (port : ℤ) (response : Response) : Decision :=
  if isRedirect response then .redirect (redirectTarget (response.headers.getD (ascii "Location") []) url port)
  else if isHtml response then
    .rewrite ((response.headers.find? (ascii "Content-Encoding")).map (Bytes.includes (ascii "gzip")))
  else .relay

/-- a page has a type that says so -/
theorem isHtml_iff (response : Response) :
    isHtml response = true ↔ ∃ value, response.headers.find? (ascii "Content-Type") = some value ∧
      Bytes.includes (ascii "text/html") value = true := by
  have hempty : Bytes.includes (ascii "text/html") [] = false := by decide
  unfold isHtml SortedMap.getD
  cases response.headers.find? (ascii "Content-Type") with
  | none => simp [hempty]
  | some value => simp

/-- a page with a type keeps its headers until it is rewritten, and is unpacked when it is packed -/
theorem relayed_html (html : Html) (h : ProxyHandler) {response : Response} (hhtml : isHtml response = true) :
    (relayed html h response).code = response.code ∧
      (relayed html h response).body =
        html.rewrite h
          (if (response.headers.find? (ascii "Content-Encoding")).map (Bytes.includes (ascii "gzip")) = some true
            then html.decompressGzip response.body else response.body) := by
  obtain ⟨value, hvalue, -⟩ := (isHtml_iff response).1 hhtml
  rw [relayed, if_pos hhtml, hvalue]
  refine ⟨rfl, ?_⟩
  simp only [handleHtml, page, htmlContent]
  cases response.headers.find? (ascii "Content-Encoding") with
  | none => rfl
  | some encoding => simp only [Option.map_some, Option.some.injEq]

/-- **What is done with a response** is what is decided on it. -/
theorem proxyRequest_decision {net : Network} {html : Html} {junk : ℕ → ResponseUninit} {h : ProxyHandler} {fuel : ℕ}
    {request : Request} {uri url : Bytes} {port : ℤ} {reads : List Bytes} {response : Response}
    (hnet : net url h.serverPortNum (buildRequestString (forwardedRequest request uri url port)) = some reads)
    (hread : readResponse (ResponseParser.fresh (junk fuel)) reads = some response) :
    match decision url port response with
    | .redirect none => proxyRequest net html junk h (fuel + 1) request uri url port = .error .escaped
    | .redirect (some (newUri, newUrl, newPort)) =>
      proxyRequest net html junk h (fuel + 1) request uri url port =
        proxyRequest net html junk h fuel request newUri newUrl newPort
    | .rewrite encoding => ∃ headers,
      proxyRequest net html junk h (fuel + 1) request uri url port =
        .ok ⟨response.code, headers,
          html.rewrite h (if encoding = some true then html.decompressGzip response.body else response.body)⟩
    | .relay => ∃ headers,
      proxyRequest net html junk h (fuel + 1) request uri url port = .ok ⟨response.code, headers, response.body⟩ := by
  have hcall := @proxyRequest_succ net html h request junk fuel ⟨uri, url, port⟩
  simp only [reply, hnet, hread] at hcall
  unfold decision
  by_cases hredirect : isRedirect response
  · rw [if_pos hredirect]
    rw [if_pos hredirect] at hcall
    cases htarget : redirectTarget (response.headers.getD (ascii "Location") []) url port with
    | none =>
      simp only [htarget] at hcall ⊢
      exact hcall
    | some target =>
      simp only [htarget] at hcall ⊢
      exact hcall
  · rw [if_neg hredirect]
    rw [if_neg hredirect] at hcall
    simp only [Reply.next] at hcall
    by_cases hhtml : isHtml response = true
    · rw [if_pos hhtml]
      obtain ⟨hcode, hbody⟩ := relayed_html html h hhtml
      refine ⟨(relayed html h response).headers, ?_⟩
      rw [← hcode, ← hbody]
      exact hcall
    · rw [if_neg hhtml]
      rw [relayed, if_neg hhtml] at hcall
      exact ⟨_, hcall⟩

/-- in a variant without the name in its own spelling, nothing is found -/
theorem not_spelled_find? {rs rs' : List Header} {name : Bytes} {P : Bytes → Prop} (hnot : ¬ Spelled rs name P)
    (hvariant : CaseVariant rs rs') {value : Bytes} (hvalue : (headerMap rs').find? name = some value) : ¬ P value := by
  intro hP
  obtain ⟨h, hh, heq⟩ := List.mem_map.1 (SortedMap.mem_of_mem_ofAssignments (SortedMap.mem_entries_iff.2 hvalue))
  rw [Prod.mk.injEq] at heq
  refine hnot (hvariant.spelled ⟨h, hh, ?_, ?_⟩)
  · rw [heq.1]
    exact Bytes.strcasecmp_self name
  · rw [heq.2]
    exact hP

/-- the values found under a name in all spellings are alike for a property exactly when none has it -/
theorem all_values_iff {rs : List Header} {name : Bytes} (hname : name.map toLower ≠ name) (P : Bytes → Prop) :
    (∀ rs', CaseVariant rs rs' → ∀ value, (headerMap rs').find? name = some value → ¬ P value) ↔
      ¬ Spelled rs name P := by
  constructor
  · intro hall hspelled
    obtain ⟨pre, post, value, hP, hvariant⟩ := caseVariant_respelled hspelled
    exact hall _ hvariant value (find?_respelled hname) hP
  · intro hnot rs' hvariant value hvalue
    exact not_spelled_find? hnot hvariant hvalue

/-- the response of a host that sent the headers -/
def responseWith (response : Response) (rs : List Header) : Response := { response with headers := headerMap rs }

/-- a URI of an absolute location begins with a slash -/
theorem redirectTarget_uri_ne_nil {location url newUri newUrl : Bytes} {port newPort : ℤ} (hlocation : location ≠ [])
    (h : redirectTarget location url port = some (newUri, newUrl, newPort)) : newUri ≠ [] := by
  unfold redirectTarget at h
  cases hpos : Bytes.find (ascii "//") location with
  | none =>
    rw [hpos] at h
    rw [← (Prod.mk.inj (Option.some.inj h)).1]
    exact hlocation
  | some pos =>
    rw [hpos] at h
    simp only at h
    cases hslash : Bytes.find [SLASH] (location.drop (pos + 2)) with
    | none =>
      rw [hslash] at h
      simp only at h
      have huri : ascii "/" = newUri := by
        cases hcolon : Bytes.find [COLON] (location.drop (pos + 2)) with
        | none =>
          rw [hcolon] at h
          exact (Prod.mk.inj (Option.some.inj h)).1
        | some colon =>
          rw [hcolon] at h
          obtain ⟨_, -, heq⟩ := Option.map_eq_some_iff.1 h
          exact (Prod.mk.inj heq).1
      rw [← huri]
      decide
    | some slash =>
      rw [hslash] at h
      simp only at h
      have huri : (location.drop (pos + 2)).drop slash = newUri := by
        cases hcolon : Bytes.find [COLON] ((location.drop (pos + 2)).take slash) with
        | none =>
          rw [hcolon] at h
          exact (Prod.mk.inj (Option.some.inj h)).1
        | some colon =>
          rw [hcolon] at h
          obtain ⟨_, -, heq⟩ := Option.map_eq_some_iff.1 h
          exact (Prod.mk.inj heq).1
      rw [← huri]
      exact (Bytes.find_begins hslash).ne_nil (List.cons_ne_nil _ _)

/-- only the empty location leads to the empty URI -/
theorem redirectTarget_eq_iff {location url : Bytes} {port : ℤ} :
    redirectTarget location url port = redirectTarget [] url port ↔ location = [] := by
  constructor
  · intro heq
    by_contra hne
    exact redirectTarget_uri_ne_nil hne heq rfl
  · rintro rfl
    rfl

/-- without a location that leads on, without a page, the decision is that on a response with no headers -/
theorem decision_bare_iff (url : Bytes) (port : ℤ) (response : Response) (rs : List Header) :
    decision url port (responseWith response rs) = decision url port (responseWith response []) ↔
      if isRedirect response then ∀ value, (headerMap rs).find? (ascii "Location") = some value → ¬ value ≠ []
      else ∀ value, (headerMap rs).find? (ascii "Content-Type") = some value →
        ¬ Bytes.includes (ascii "text/html") value = true := by
  unfold decision
  by_cases hredirect : isRedirect response
  · have hcode : ∀ l, isRedirect (responseWith response l) := fun _ => hredirect
    rw [if_pos hredirect, if_pos (hcode rs), if_pos (hcode [])]
    rw [Decision.redirect.injEq]
    refine redirectTarget_eq_iff.trans ?_
    simp only [responseWith, SortedMap.getD]
    cases (headerMap rs).find? (ascii "Location") with
    | none => simp
    | some value => simp
  · have hcode : ∀ l, ¬ isRedirect (responseWith response l) := fun _ => hredirect
    have hbare : isHtml (responseWith response []) = false := by
      rw [← Bool.not_eq_true, isHtml_iff]
      rintro ⟨value, hvalue, -⟩
      cases hvalue
    rw [if_neg hredirect, if_neg (hcode rs), if_neg (hcode []), hbare, if_neg Bool.false_ne_true]
    have hpage := isHtml_iff (responseWith response rs)
    constructor
    · intro heq value hvalue hincludes
      rw [if_pos (hpage.2 ⟨value, hvalue, hincludes⟩)] at heq
      cases heq
    · intro hnone
      rw [if_neg]
      rw [hpage]
      rintro ⟨value, hvalue, hincludes⟩
      exact hnone value hvalue hincludes

/-- the decision is the same in all spellings exactly when there is no location to find, or no page -/
theorem decision_iff (url : Bytes) (port : ℤ) (response : Response) (rs : List Header) :
    (∀ rs', CaseVariant rs rs' → decision url port (responseWith response rs') =
      decision url port (responseWith response rs)) ↔
      if isRedirect response then ¬ Spelled rs (ascii "Location") (· ≠ [])
      else ¬ Spelled rs (ascii "Content-Type") fun value => Bytes.includes (ascii "text/html") value = true := by
  -- in lower case nothing is found
  have hlower : decision url port (responseWith response (lowerNames rs)) =
      decision url port (responseWith response []) := by
    rw [decision_bare_iff, find?_lowerNames (by decide), find?_lowerNames (by decide)]
    split_ifs
    · intro value hvalue
      cases hvalue
    · intro value hvalue
      cases hvalue
  have hbare : (∀ rs', CaseVariant rs rs' → decision url port (responseWith response rs') =
      decision url port (responseWith response rs)) ↔
      ∀ rs', CaseVariant rs rs' → decision url port (responseWith response rs') =
        decision url port (responseWith response []) := by
    constructor
    · intro hall rs' hvariant
      rw [hall rs' hvariant, ← hall _ (caseVariant_lowerNames rs), hlower]
    · intro hall rs' hvariant
      rw [hall rs' hvariant, hall rs (.refl rs)]
  rw [hbare]
  simp only [decision_bare_iff]
  split_ifs
  · exact all_values_iff (by decide) _
  · exact all_values_iff (by decide) _

/-! ## Both -/

/-- for every spelling of the names in a request and in a response, the proxy's headers are single in what is forwarded,
and the decision on the response is the same -/
def CaseBlind (request : Request) (hs : List Header) (uri url : Bytes) (port : ℤ) (response : Response)
    (rs : List Header) : Prop :=
  ∀ hs' rs', CaseVariant hs hs' → CaseVariant rs rs' →
    OwnHeaders (forwardedFor request hs' uri url port) url port ∧
      decision url port (responseWith response rs') = decision url port (responseWith response rs)

/-- **Whether letter case matters.** It does not exactly when the client sent no `Host` and no `Accept-Encoding` in any
spelling, and the response has, if it is a redirect, no location but empty ones, and otherwise no type of a page. -/
theorem case_blind_iff (request : Request) (hs : List Header) (uri url : Bytes) (port : ℤ) (response : Response)
    (rs : List Header) :
    CaseBlind request hs uri url port response rs ↔
      ¬ Named hs (ascii "Host") ∧ ¬ Named hs (ascii "Accept-Encoding") ∧
        if isRedirect response then ¬ Spelled rs (ascii "Location") (· ≠ [])
        else ¬ Spelled rs (ascii "Content-Type") fun value => Bytes.includes (ascii "text/html") value = true := by
  have hhostName : (ascii "Host").map toLower ≠ ascii "Host" := by decide
  have hacceptName : (ascii "Accept-Encoding").map toLower ≠ ascii "Accept-Encoding" := by decide
  rw [← all_spellings_iff hhostName, ← all_spellings_iff hacceptName, ← decision_iff url port response rs]
  constructor
  · intro hblind
    refine ⟨fun hs' hvariant => ?_, fun hs' hvariant => ?_, fun rs' hvariant => ?_⟩
    · exact ((ownHeaders_iff request hs' uri url port).1 (hblind hs' rs hvariant (.refl rs)).1).1
    · exact ((ownHeaders_iff request hs' uri url port).1 (hblind hs' rs hvariant (.refl rs)).1).2
    · exact (hblind hs rs' (.refl hs) hvariant).2
  · rintro ⟨hhost, haccept, hdecision⟩ hs' rs' hrequest hresponse
    refine ⟨(ownHeaders_iff request hs' uri url port).2 ⟨hhost hs' hrequest, haccept hs' hrequest⟩, ?_⟩
    exact hdecision rs' hresponse

/-! ## A host in lower case -/

/-- **Two hosts.** A request with `host: a` is accepted and forwarded with that header next to the proxy's own; a page
whose type is spelled `content-type` is relayed as it is. -/
theorem case_lowerHost :
    ∃ t, RequestParser.parse (RequestParser.fresh, .fresh ⟨0, 0, 0⟩) (ascii "GET / HTTP/1.1\r\nhost: a\r\n\r\n") =
        (.good, [], t) ∧
      ¬ OwnHeaders (forwardedRequest (t.2.buildRequest .GET) (ascii "/") (ascii "h") 80) (ascii "h") 80 ∧
      (∀ response rs, ¬ CaseBlind (t.2.buildRequest .GET) t.2.headers (ascii "/") (ascii "h") 80 response rs) ∧
      decision (ascii "h") 80 (responseWith ⟨200, SortedMap.empty, []⟩ [⟨ascii "content-type", ascii "text/html"⟩]) =
        .relay ∧
      decision (ascii "h") 80 (responseWith ⟨200, SortedMap.empty, []⟩ [⟨ascii "Content-Type", ascii "text/html"⟩]) =
        .rewrite none := by
  have hparse : ∃ t, RequestParser.parse (RequestParser.fresh, .fresh ⟨0, 0, 0⟩)
      (ascii "GET / HTTP/1.1\r\nhost: a\r\n\r\n") = (.good, [], t) ∧
        t.2.headers = [⟨ascii "host", ascii "a"⟩] :=
    ⟨(RequestParser.parse (RequestParser.fresh, .fresh ⟨0, 0, 0⟩) (ascii "GET / HTTP/1.1\r\nhost: a\r\n\r\n")).2.2,
      by decide +kernel, by decide +kernel⟩
  obtain ⟨t, hgood, hheaders⟩ := hparse
  have hown : ¬ OwnHeaders (forwardedFor (t.2.buildRequest .GET) t.2.headers (ascii "/") (ascii "h") 80) (ascii "h") 80 := by
    rw [ownHeaders_iff, hheaders]
    rintro ⟨hhost, -⟩
    exact absurd (hhost _ List.mem_cons_self (by decide)) (by decide)
  refine ⟨t, hgood, hown, fun response rs hblind => ?_, by decide +kernel, by decide +kernel⟩
  exact hown (hblind _ _ (.refl _) (.refl _)).1

end BlogServer.Proxy
