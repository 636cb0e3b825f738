/-
What a client can make of a relayed response.

The response that `proxy_request` returns is written with its body as it stands: de-chunked, perhaps unzipped and
rewritten. Its framing headers are those the upstream sent, repaired for HTML only and only under the exact spelling
`Transfer-Encoding` and `Content-Length`. `Relayable` says when that is enough, in terms of the response read from the
upstream (`relayed_accepted_iff`).

- `relay_chunked`: a chunked response that is not HTML is sent on without its chunks and with the header that announces
  them.
-/
import BlogServer.Proxy.Forwarding

namespace BlogServer.Proxy

open BlogServer.Http BlogServer.Byte BlogServer.Scan BlogServer.Decimal RequestParser
open ResponseParser (isChunked AcceptedAs sentCode HeadersRead headersDone)

/-! ## The headers of a response that was read -/

theorem readResponse_headers {s : ResponseParser.St} {reads : List Bytes} {r : Response} (h : HeadersRead s)
    (hr : readResponse s reads = some r) : ∀ x ∈ r.headers.headers, x.Sendable ∧ Measured x := by
  induction reads generalizing s with
  | nil => cases hr
  | cons data reads ih =>
    rw [readResponse] at hr
    rcases hp : ResponseParser.parse s data with ⟨v, rest, s'⟩
    have hread : v ≠ .bad → HeadersRead s' := fun hv => by
      have := ResponseParser.parse_headersRead h (by rw [hp]; exact hv)
      rwa [hp] at this
    rw [hp] at hr
    cases v with
    | bad => cases hr
    | indeterminate => exact ih (hread (by simp)) hr
    | good =>
      have hdone := ResponseParser.parse_headersDone (by rw [hp])
      rw [hp] at hdone
      obtain rfl : s'.2.buildResponse = r := Option.some.inj hr
      intro x hx
      exact ResponseParser.headers_of_done (hread (by simp)) hdone x (mem_headers_of_built hx)

/-! ## The last Content-Length of a map -/

/-- the last Content-Length of a map is the one that is greatest in byte order -/
theorem lastLength_greatest {m : HeaderMap} {x : Header} (h : lastLength (HeaderMap.headers m) = some x) :
    ∀ y ∈ HeaderMap.headers m, isContentLength y.name = true → y.name ≤ x.name := by
  obtain ⟨-, as, bs, hsplit, has⟩ := List.find?_eq_some_iff_append.1 h
  have hsplit' : HeaderMap.headers m = bs.reverse ++ x :: as.reverse := by
    rw [← List.reverse_reverse (HeaderMap.headers m), hsplit]
    simp
  have hsorted : (HeaderMap.headers m).Pairwise fun a b => a.name < b.name := by
    rw [HeaderMap.headers, List.pairwise_map]
    exact m.sorted
  rw [hsplit'] at hsorted ⊢
  intro y hy hl
  rcases List.mem_append.1 hy with hy | hy
  · exact le_of_lt ((List.pairwise_append.1 hsorted).2.2 y hy x (by simp))
  · rcases List.mem_cons.1 hy with rfl | hy
    · exact le_rfl
    · exact absurd hl (by simpa using has y (List.mem_reverse.1 hy))

theorem headers_name_injective {m : HeaderMap} {x y : Header} (hx : x ∈ HeaderMap.headers m)
    (hy : y ∈ HeaderMap.headers m) (h : x.name = y.name) : x = y := by
  rw [mem_headers_iff, SortedMap.mem_entries_iff] at hx hy
  rw [h, hy] at hx
  exact Header.ext_iff.2 ⟨h, (Option.some.inj hx).symm⟩

/-- a Content-Length that is set governs unless one that follows it in byte order was there -/
theorem lastLength_set (m : HeaderMap) {name : Bytes} (hname : isContentLength name = true) (value : Bytes) :
    lastLength (HeaderMap.headers (m.insert name value)) =
      some ((lastLength (HeaderMap.headers m)).elim ⟨name, value⟩ fun x => if name < x.name then x else ⟨name, value⟩) := by
  have hset : ⟨name, value⟩ ∈ HeaderMap.headers (m.insert name value) :=
    mem_headers_iff.2 (SortedMap.mem_insert_iff.2 (Or.inl rfl))
  obtain ⟨z, hz⟩ := lastLength_isSome hset hname
  obtain ⟨hzmem, hzl⟩ := lastLength_mem hz
  have hgreatest := lastLength_greatest hz
  have hset_le := hgreatest _ hset hname
  rw [hz, Option.some.injEq]
  cases hx : lastLength (HeaderMap.headers m) with
  | none =>
    rcases mem_headers_insert hzmem with rfl | hzm
    · rfl
    · obtain ⟨z', hz'⟩ := lastLength_isSome hzm hzl
      rw [hx] at hz'
      cases hz'
  | some x =>
    obtain ⟨hxmem, hxl⟩ := lastLength_mem hx
    have hbefore := lastLength_greatest hx
    simp only [Option.elim_some]
    split_ifs with hlt
    · have hxset : x ∈ HeaderMap.headers (m.insert name value) :=
        mem_headers_iff.2 (SortedMap.mem_insert_iff.2 (Or.inr ⟨mem_headers_iff.1 hxmem, ne_of_gt hlt⟩))
      have hxz := hgreatest x hxset hxl
      rcases mem_headers_insert hzmem with rfl | hzm
      · exact absurd hlt (not_lt.2 hxz)
      · exact headers_name_injective hzm hxmem (le_antisymm (hbefore z hzm hzl) hxz)
    · rcases mem_headers_insert hzmem with rfl | hzm
      · rfl
      · have hzx := hbefore z hzm hzl
        have hnz : name = z.name := le_antisymm hset_le (hzx.trans (not_lt.1 hlt))
        exact headers_name_injective hzmem hset hnz.symm

/-! ## When a relayed response can be read -/

/-- the response can be relayed: a status line exists for its code; no header that is left announces chunks; and the
Content-Length that governs what is sent is the size of the body that is sent -/
def Relayable (html : Html) (h : ProxyHandler) (r : Response) : Prop :=
  (r.code = StatusCode.ok ∨ r.code = StatusCode.bad_request ∨ r.code = StatusCode.not_found) ∧
    if isHtml r = true then
      (∀ x ∈ r.headers.headers, x.name ≠ ascii "Transfer-Encoding" → isChunked x = false) ∧
        (page html h r).length < 2147483648 ∧
        ∀ x, lastLength r.headers.headers = some x → ascii "Content-Length" < x.name →
          stoi x.value = some ((page html h r).length : ℤ)
    else
      (∀ x ∈ r.headers.headers, isChunked x = false) ∧
        ∃ x, lastLength r.headers.headers = some x ∧ stoi x.value = some (r.body.length : ℤ)

/-- an unreadable Content-Length anywhere spoils the announcement -/
theorem announced_none {hs : List Header} {x : Header} (hx : x ∈ hs) (hbad : ∀ n, announce n x = none) (n : ℤ) :
    hs.foldlM announce n = none := by
  induction hs generalizing n with
  | nil => simp at hx
  | cons y hs ih =>
    rw [List.foldlM_cons, Option.bind_eq_bind]
    rcases List.mem_cons.1 hx with rfl | hx
    · rw [hbad]; rfl
    · cases announce n y with
      | none => rfl
      | some n' => exact ih hx n'

/-- readable headers announce a size whatever was announced before exactly when the last Content-Length is that size -/
theorem announced_always_iff {hs : List Header} (hm : ∀ x ∈ hs, Measured x) (k : ℤ) :
    (∀ n, hs.foldlM announce n = some k) ↔ ∃ x, lastLength hs = some x ∧ stoi x.value = some k := by
  simp only [announced_eq hm, Option.some.injEq]
  cases hl : lastLength hs with
  | none =>
    simp only [Option.bind_none, Option.getD_none, reduceCtorEq, false_and, exists_false, iff_false, not_forall]
    exact ⟨k + 1, by omega⟩
  | some x =>
    obtain ⟨hmem, hname⟩ := lastLength_mem hl
    obtain ⟨k', hk', -⟩ := hm x hmem hname
    simp [hk']

theorem sentCode_iff {r : Response} (hcode : r.code ≠ StatusCode.moved_temporarily) :
    sentCode r.code = r.code ↔
      r.code = StatusCode.ok ∨ r.code = StatusCode.bad_request ∨ r.code = StatusCode.not_found := by
  unfold sentCode
  split_ifs with h
  · simp only [true_iff]
    tauto
  · constructor
    · exact fun hr => Or.inr (Or.inl hr.symm)
    · tauto

theorem sendable_contentType : (⟨ascii "Content-Type", []⟩ : Header).Sendable :=
  ⟨by decide, by decide, by decide⟩

/-- **Relaying what is not HTML.** -/
theorem relay_plain {r : Response} (hok : ∀ x ∈ r.headers.headers, x.Sendable ∧ Measured x)
    {headers : HeaderMap} (hheaders : headers = r.headers ∨ headers = r.headers.insert (ascii "Content-Type") [])
    (hkeep : ∀ x ∈ r.headers.headers, x ∈ headers.headers) :
    AcceptedAs ⟨r.code, headers, r.body⟩ (toBuffers ⟨r.code, headers, r.body⟩) ↔
      sentCode r.code = r.code ∧ (∀ x ∈ r.headers.headers, isChunked x = false) ∧
        ∃ x, lastLength r.headers.headers = some x ∧ stoi x.value = some (r.body.length : ℤ) := by
  have hmem : ∀ x ∈ headers.headers, x = ⟨ascii "Content-Type", []⟩ ∨ x ∈ r.headers.headers := by
    rcases hheaders with rfl | rfl
    · exact fun x hx => Or.inr hx
    · exact fun x hx => mem_headers_insert hx
  have hlast : lastLength headers.headers = lastLength r.headers.headers := by
    rcases hheaders with rfl | rfl
    · rfl
    · exact lastLength_insert _ (by decide) _
  have hsend : ∀ x ∈ headers.headers, x.Sendable ∧ Measured x := by
    intro x hx
    rcases hmem x hx with rfl | hx
    · exact ⟨sendable_contentType, fun hl => absurd hl (by decide)⟩
    · exact hok x hx
  rw [ResponseParser.serialized_accepts_iff fun x hx => (hsend x hx).1,
    announced_always_iff fun x hx => (hsend x hx).2, hlast]
  have hchunked : (∀ x ∈ headers.headers, isChunked x = false) ↔ ∀ x ∈ r.headers.headers, isChunked x = false := by
    refine ⟨fun h x hx => h x (hkeep x hx), fun h x hx => ?_⟩
    rcases hmem x hx with rfl | hx
    · decide
    · exact h x hx
  rw [hchunked]

/-- the map that `handle_html` starts its repairs from -/
def identityEncoded (m : HeaderMap) : HeaderMap :=
  match m.find? (ascii "Content-Encoding") with
  | some _ => m.insert (ascii "Content-Encoding") (ascii "identity")
  | none => m

theorem mem_identityEncoded {m : HeaderMap} {x : Header} (hx : x ∈ HeaderMap.headers (identityEncoded m)) :
    x = ⟨ascii "Content-Encoding", ascii "identity"⟩ ∨ x ∈ HeaderMap.headers m := by
  unfold identityEncoded at hx
  split at hx
  · exact mem_headers_insert hx
  · exact Or.inr hx

theorem mem_headers_insert_of_ne {m : HeaderMap} {name value : Bytes} {x : Header} (hx : x ∈ HeaderMap.headers m)
    (hne : x.name ≠ name) : x ∈ HeaderMap.headers (m.insert name value) :=
  mem_headers_iff.2 (SortedMap.mem_insert_iff.2 (Or.inr ⟨mem_headers_iff.1 hx, hne⟩))

theorem lastLength_identityEncoded (m : HeaderMap) :
    lastLength (HeaderMap.headers (identityEncoded m)) = lastLength (HeaderMap.headers m) := by
  unfold identityEncoded
  split
  · exact lastLength_insert _ (by decide) _
  · rfl

/-- a header that announces chunks is a transfer encoding -/
theorem isChunked_name {x : Header} (hx : isChunked x = true) :
    Bytes.strcasecmp x.name (ascii "Transfer-Encoding") = true := by
  unfold isChunked at hx
  exact (Bool.and_eq_true_iff.1 hx).1

theorem sendable_of_not_ctl {name value : Bytes} (hname : name ≠ [] ∧ ∀ c ∈ name, isToken c = true)
    (hvalue : ∀ c ∈ value, isCtl c = false) : (⟨name, value⟩ : Header).Sendable := ⟨hname.1, hname.2, hvalue⟩

section Html

variable {html : Html} {h : ProxyHandler} {r : Response}

/-- the repairs of an HTML response, on its headers -/
theorem handleHtml_headers : (handleHtml html h r).headers =
    ((identityEncoded r.headers).insert (ascii "Transfer-Encoding") (ascii "identity")).insert
      (ascii "Content-Length") (decimal (page html h r).length) := rfl

theorem mem_handleHtml {x : Header} (hx : x ∈ (handleHtml html h r).headers.headers) :
    x = ⟨ascii "Content-Length", decimal (page html h r).length⟩ ∨
      x = ⟨ascii "Transfer-Encoding", ascii "identity"⟩ ∨
        x = ⟨ascii "Content-Encoding", ascii "identity"⟩ ∨ x ∈ r.headers.headers := by
  rw [handleHtml_headers] at hx
  rcases mem_headers_insert hx with hx | hx
  · exact Or.inl hx
  · rcases mem_headers_insert hx with hx | hx
    · exact Or.inr (Or.inl hx)
    · exact Or.inr (Or.inr (mem_identityEncoded hx))

theorem handleHtml_sendable (hsend : ∀ x ∈ r.headers.headers, x.Sendable) :
    ∀ x ∈ (handleHtml html h r).headers.headers, x.Sendable := by
  intro x hx
  rcases mem_handleHtml hx with rfl | rfl | rfl | hx
  · exact sendable_of_not_ctl (by decide) fun c hc => not_isCtl_of_isDigit (isDigit_decimal _ c hc)
  · exact sendable_of_not_ctl (by decide) (by decide)
  · exact sendable_of_not_ctl (by decide) (by decide)
  · exact hsend x hx

/-- the repairs leave a transfer encoding of another spelling where it is -/
theorem handleHtml_chunked :
    (∀ x ∈ (handleHtml html h r).headers.headers, isChunked x = false) ↔
      ∀ x ∈ r.headers.headers, x.name ≠ ascii "Transfer-Encoding" → isChunked x = false := by
  constructor
  · intro hall x hx hne
    by_contra hc
    rw [Bool.not_eq_false] at hc
    have hname := isChunked_name hc
    have hkept : x ∈ (handleHtml html h r).headers.headers := by
      rw [handleHtml_headers]
      refine mem_headers_insert_of_ne (mem_headers_insert_of_ne ?_ hne) ?_
      · unfold identityEncoded
        split
        · refine mem_headers_insert_of_ne hx fun he => ?_
          rw [he] at hname
          exact absurd hname (by decide)
        · exact hx
      · intro he
        rw [he] at hname
        exact absurd hname (by decide)
    rw [hall x hkept] at hc
    cases hc
  · intro hall x hx
    rcases mem_handleHtml hx with rfl | rfl | rfl | hx'
    · rw [isChunked, (by decide : Bytes.strcasecmp (ascii "Content-Length") (ascii "Transfer-Encoding") = false)]
      rfl
    · decide
    · decide
    · by_cases hte : x.name = ascii "Transfer-Encoding"
      · -- under the exact spelling only the repaired value is left
        have hset : ⟨ascii "Transfer-Encoding", ascii "identity"⟩ ∈ (handleHtml html h r).headers.headers := by
          rw [handleHtml_headers]
          exact mem_headers_insert_of_ne (mem_headers_iff.2 (SortedMap.mem_insert_iff.2 (Or.inl rfl))) (by decide)
        rw [headers_name_injective hx hset hte]
        decide
      · exact hall x hx' hte

/-- the last length is the one set, unless another spelling comes behind it -/
theorem handleHtml_lastLength : lastLength (handleHtml html h r).headers.headers =
    some ((lastLength r.headers.headers).elim ⟨ascii "Content-Length", decimal (page html h r).length⟩ fun x =>
      if ascii "Content-Length" < x.name then x
      else ⟨ascii "Content-Length", decimal (page html h r).length⟩) := by
  rw [handleHtml_headers, lastLength_set _ (by decide), lastLength_insert _ (by decide), lastLength_identityEncoded]

/-- a page that is too long has a length that is no number -/
theorem handleHtml_tooLong (hlong : ¬ (page html h r).length < 2147483648) :
    (handleHtml html h r).headers.headers.foldlM announce 0 = none := by
  have hset : ⟨ascii "Content-Length", decimal (page html h r).length⟩ ∈ (handleHtml html h r).headers.headers :=
    mem_headers_iff.2 (SortedMap.mem_insert_iff.2 (Or.inl rfl))
  refine announced_none hset (fun n => ?_) 0
  rw [announce, if_pos (by decide : isContentLength (ascii "Content-Length") = true), stoi_decimal,
    narrow_none (by omega)]
  rfl

/-- **Relaying HTML.** -/
theorem relay_html (html : Html) (h : ProxyHandler) {r : Response}
    (hok : ∀ x ∈ r.headers.headers, x.Sendable ∧ Measured x) :
    AcceptedAs (handleHtml html h r) (toBuffers (handleHtml html h r)) ↔
      sentCode r.code = r.code ∧
        (∀ x ∈ r.headers.headers, x.name ≠ ascii "Transfer-Encoding" → isChunked x = false) ∧
          (page html h r).length < 2147483648 ∧
            ∀ x, lastLength r.headers.headers = some x → ascii "Content-Length" < x.name →
              stoi x.value = some ((page html h r).length : ℤ) := by
  rw [ResponseParser.serialized_accepts_iff (handleHtml_sendable fun x hx => (hok x hx).1), handleHtml_chunked]
  refine and_congr Iff.rfl (and_congr Iff.rfl ?_)
  by_cases hlt : (page html h r).length < 2147483648
  · have hstoi : stoi (decimal (page html h r).length) = some ((page html h r).length : ℤ) := by
      rw [stoi_decimal, narrow_natCast hlt]
    have hmeasured : ∀ x ∈ (handleHtml html h r).headers.headers, Measured x := by
      intro x hx
      rcases mem_handleHtml hx with rfl | rfl | rfl | hx
      · exact fun _ => ⟨_, hstoi, by omega⟩
      · exact fun hl => absurd hl (by decide)
      · exact fun hl => absurd hl (by decide)
      · exact (hok x hx).2
    rw [announced_always_iff hmeasured, handleHtml_lastLength]
    simp only [hlt, true_and, Option.some.injEq, exists_eq_left']
    cases hx : lastLength r.headers.headers with
    | none => exact iff_of_true hstoi (by simp)
    | some x =>
      simp only [Option.elim_some, Option.some.injEq, forall_eq']
      split_ifs with hgt
      · exact ⟨fun hs _ => hs, fun hs => hs hgt⟩
      · exact iff_of_true hstoi fun hgt' => absurd hgt' hgt
  · refine iff_of_false (fun hall => ?_) fun hcond => hlt hcond.1
    have hnone := handleHtml_tooLong hlt
    rw [hall 0] at hnone
    cases hnone

end Html

/-- an HTML response has a Content-Type, so that reading it inserts nothing -/
theorem isHtml_contentType {r : Response} (hr : isHtml r = true) :
    ∃ v, r.headers.find? (ascii "Content-Type") = some v := by
  cases hv : r.headers.find? (ascii "Content-Type") with
  | some v => exact ⟨v, rfl⟩
  | none =>
    rw [isHtml, SortedMap.getD, hv] at hr
    exact absurd hr (by decide)

theorem relayed_accepted {html : Html} {h : ProxyHandler} {r : Response}
    (hok : ∀ x ∈ r.headers.headers, x.Sendable ∧ Measured x) (hcode : r.code ≠ StatusCode.moved_temporarily) :
    AcceptedAs (relayed html h r) (toBuffers (relayed html h r)) ↔ Relayable html h r := by
  unfold Relayable
  rw [← sentCode_iff hcode]
  by_cases hr : isHtml r = true
  · obtain ⟨v, hv⟩ := isHtml_contentType hr
    have hrelayed : relayed html h r = handleHtml html h r := by simp only [relayed, hv, hr, if_true]
    rw [hrelayed, if_pos hr]
    exact relay_html html h hok
  · rw [if_neg hr]
    cases hv : r.headers.find? (ascii "Content-Type") with
    | some v =>
      have hrelayed : relayed html h r = ⟨r.code, r.headers, r.body⟩ := by
        simp only [relayed, hv, hr, if_false, Bool.false_eq_true]
      rw [hrelayed]
      exact relay_plain hok (Or.inl rfl) fun x hx => hx
    | none =>
      have hrelayed : relayed html h r = ⟨r.code, r.headers.insert (ascii "Content-Type") [], r.body⟩ := by
        simp only [relayed, hv, hr, if_false, Bool.false_eq_true]
      rw [hrelayed]
      refine relay_plain hok (Or.inr rfl) fun x hx => mem_headers_insert_of_ne hx fun hname => ?_
      rw [mem_headers_iff, hname, SortedMap.mem_entries_iff, hv] at hx
      cases hx

/-- **Framing of relayed responses.** What `proxy_request` returns for an upstream response that is no redirect is
accepted by every client parser as one response with its status and its body exactly when the upstream response is
relayable. -/
theorem relayed_accepted_iff {net : Network} {html : Html} {junk : ℕ → ResponseUninit} {h : ProxyHandler} {fuel : ℕ}
    {request : Request} {uri url : Bytes} {port : ℤ} {reads : List Bytes} {r : Response}
    (hnet : net url h.serverPortNum (buildRequestString (forwardedRequest request uri url port)) = some reads)
    (hread : readResponse (ResponseParser.fresh (junk fuel)) reads = some r)
    (hcode : r.code ≠ StatusCode.moved_permanently ∧ r.code ≠ StatusCode.moved_temporarily) :
    ∃ out, proxyRequest net html junk h (fuel + 1) request uri url port = .ok out ∧
      (AcceptedAs out (toBuffers out) ↔ Relayable html h r) := by
  have hok : ∀ x ∈ r.headers.headers, x.Sendable ∧ Measured x :=
    readResponse_headers (s := ResponseParser.fresh (junk fuel)) (fun x hx => by cases hx) hread
  exact ⟨relayed html h r, proxyRequest_relayed hnet hread hcode, relayed_accepted hok hcode.2⟩

/-- a chunked text response -/
def chunkedText : Bytes :=
  ascii "HTTP/1.1 200 OK\r\nContent-Type: text/plain\r\nTransfer-Encoding: chunked\r\n\r\n1\r\nA\r\n0\r\n\r\n"

/-- the response read from it -/
def chunkedTextResponse : Response :=
  ⟨200, headerMap [⟨ascii "Content-Type", ascii "text/plain"⟩, ⟨ascii "Transfer-Encoding", ascii "chunked"⟩], ascii "A"⟩

/-- a proxy for `/` on a host that needs no path -/
def plainProxy : ProxyHandler := .init (ascii "/") (ascii "upstream", 80)

/-- libraries that change nothing -/
def plainHtml : Html := ⟨id, fun _ content => content⟩

theorem chunkedText_read :
    readResponse (ResponseParser.fresh ⟨0, 0, 0, 0, 0⟩) [chunkedText] = some chunkedTextResponse := by decide +kernel

theorem chunkedText_relayed : relayed plainHtml plainProxy chunkedTextResponse = chunkedTextResponse := by
  have hhtml : isHtml chunkedTextResponse = false := by decide
  have htype : chunkedTextResponse.headers.find? (ascii "Content-Type") = some (ascii "text/plain") := by decide
  simp only [relayed, hhtml, htype, Bool.false_eq_true, if_false]

/-- an upstream that answers every request with the chunked text -/
def chunkedUpstream : Network := fun _ _ _ => some [chunkedText]

/-- **De-chunked and still announced as chunked.** The response is read with the body `A`; what is sent on says
chunked, and a client does not accept it. -/
theorem relay_chunked :
    ∃ out, proxyRequest chunkedUpstream plainHtml (fun _ => ⟨0, 0, 0, 0, 0⟩) plainProxy 1 postOneByte
        (ascii "/") (ascii "upstream") 80 = .ok out ∧ out.body = ascii "A" ∧
      ⟨ascii "Transfer-Encoding", ascii "chunked"⟩ ∈ out.headers.headers ∧ ¬ AcceptedAs out (toBuffers out) := by
  have hcall : proxyRequest chunkedUpstream plainHtml (fun _ => ⟨0, 0, 0, 0, 0⟩) plainProxy (0 + 1) postOneByte
      (ascii "/") (ascii "upstream") 80 = .ok (relayed plainHtml plainProxy chunkedTextResponse) :=
    proxyRequest_relayed rfl chunkedText_read ⟨by decide, by decide⟩
  rw [chunkedText_relayed] at hcall
  refine ⟨chunkedTextResponse, hcall, rfl, by decide, fun haccepted => ?_⟩
  obtain ⟨t, ht, -⟩ := haccepted ⟨0, 0, 0, 0, 0⟩
  have hbad : (feed ResponseParser.consume (ResponseParser.fresh ⟨0, 0, 0, 0, 0⟩)
      (toBuffers chunkedTextResponse)).1 ≠ .good := by decide +kernel
  rw [ht] at hbad
  exact hbad rfl

/-- the theorem at that upstream -/
theorem relayed_accepted_iff_chunked :
    ∃ out, proxyRequest chunkedUpstream plainHtml (fun _ => ⟨0, 0, 0, 0, 0⟩) plainProxy 1 postOneByte
        (ascii "/") (ascii "upstream") 80 = .ok out ∧
      (AcceptedAs out (toBuffers out) ↔ Relayable plainHtml plainProxy chunkedTextResponse) :=
  relayed_accepted_iff rfl chunkedText_read ⟨by decide, by decide⟩

end BlogServer.Proxy
