/-
The links of a page that a proxy hands on, and what is asked upstream when one of them is followed.

`modify_html_doc` goes through the tree of a page and puts the location of the proxy before the links that are relative
to the root. A request under the location is asked upstream without the location, after the path of the configured
host. So a link comes back with that path before it: it leads back to what was linked exactly when the host has no path
(`askedUri_link_iff`).

- `links_modifyHtmlDoc`: every `href` and `src` of the page is rewritten, and nothing else becomes a link.
- `handleRequest_asks`: what `handle_request` asks for.
-/
import Mathlib.Data.List.TakeWhile
import BlogServer.Proxy.ProxyHandler

namespace BlogServer.Proxy

open BlogServer.Http BlogServer.Byte

/-! ## `handle_property` -/

/-- a C string holds a text up to its first NUL -/
def cString (s : Bytes) : Bytes := s.takeWhile fun c => c != NUL

/-- what `handle_property` makes of a property; `none` when it is left as it is -/
def rewrittenLink (h : ProxyHandler) (prop : Bytes) : Option Bytes :=
  if 1 < prop.length ∧ prop.head? = some HASH then none
  else if 2 < prop.length ∧ prop.take 2 = ascii "//" then none
  else if 4 < prop.length ∧ prop.take 4 = ascii "http" then none
  else
    let prop := if prop.head? = some SLASH then prop else SLASH :: prop
    some (cString (h.clientLocationPath ++ prop))

/-- the properties of an element -/
abbrev Properties := List (Bytes × Bytes)

/-- `xmlSetProp`, of a property that is there -/
def xmlSetProp (properties : Properties) (property value : Bytes) : Properties :=
  properties.map fun entry => if entry.1 = property then (property, value) else entry

/-- `handle_property`, on the properties of the node -/
def handleProperty (h : ProxyHandler) (property : Bytes) (properties : Properties) : Properties :=
  match properties.lookup property with
  | none => properties
  | some prop =>
    match rewrittenLink h prop with
    | none => properties
    | some value => xmlSetProp properties property value

theorem lookup_xmlSetProp {properties : Properties} {property prop : Bytes}
    (h : properties.lookup property = some prop) (value : Bytes) :
    (xmlSetProp properties property value).lookup property = some value := by
  induction properties with
  | nil => cases h
  | cons entry properties ih =>
    obtain ⟨name, old⟩ := entry
    by_cases hname : name = property
    · subst hname
      simp [xmlSetProp]
    · have hne : (property == name) = false := beq_eq_false_iff_ne.2 (Ne.symm hname)
      rw [List.lookup_cons, hne] at h
      rw [xmlSetProp, List.map_cons, if_neg hname, List.lookup_cons, hne]
      exact ih h

theorem lookup_xmlSetProp_of_ne (properties : Properties) {property other : Bytes} (value : Bytes)
    (hne : other ≠ property) : (xmlSetProp properties property value).lookup other = properties.lookup other := by
  induction properties with
  | nil => rfl
  | cons entry properties ih =>
    obtain ⟨name, old⟩ := entry
    rw [xmlSetProp, List.map_cons]
    by_cases hname : name = property
    · rw [if_pos hname, List.lookup_cons, List.lookup_cons, beq_eq_false_iff_ne.2 hne,
        beq_eq_false_iff_ne.2 (fun heq => hne (heq.trans hname))]
      exact ih
    · rw [if_neg hname, List.lookup_cons, List.lookup_cons]
      cases other == name with
      | true => rfl
      | false => exact ih

/-- the property after the call is what was made of it -/
theorem handleProperty_lookup (h : ProxyHandler) (property : Bytes) (properties : Properties) :
    (handleProperty h property properties).lookup property =
      (properties.lookup property).map fun prop => (rewrittenLink h prop).getD prop := by
  unfold handleProperty
  cases hprop : properties.lookup property with
  | none => exact hprop
  | some prop =>
    cases hlink : rewrittenLink h prop with
    | none => simp only [hlink, hprop, Option.map_some, Option.getD_none]
    | some value =>
      simp only [hlink, Option.map_some, Option.getD_some]
      exact lookup_xmlSetProp hprop value

/-- the other properties are what they were -/
theorem handleProperty_lookup_of_ne (h : ProxyHandler) {property other : Bytes} (properties : Properties)
    (hne : other ≠ property) : (handleProperty h property properties).lookup other = properties.lookup other := by
  unfold handleProperty
  cases properties.lookup property with
  | none => rfl
  | some prop =>
    cases hlink : rewrittenLink h prop with
    | none => simp only [hlink]
    | some value =>
      simp only [hlink]
      exact lookup_xmlSetProp_of_ne properties value hne

/-! ## `modify_html_doc` -/

/-- `xmlNode`: an element or another node, with the first of its children and the next of its siblings -/
inductive XmlNode where
  | null
  | node (isElement : Bool) (properties : Properties) (children next : XmlNode)

/-- `modify_html_doc` -/
def modifyHtmlDoc (h : ProxyHandler) : XmlNode → XmlNode
  | .null => .null
  | .node isElement properties children next =>
    .node isElement
      (if isElement then handleProperty h (ascii "src") (handleProperty h (ascii "href") properties) else properties)
      (modifyHtmlDoc h children) (modifyHtmlDoc h next)

/-- the links of the elements, in the order of the page -/
def XmlNode.links : XmlNode → List Bytes
  | .null => []
  | .node isElement properties children next =>
    (if isElement then (properties.lookup (ascii "href")).toList ++ (properties.lookup (ascii "src")).toList else []) ++
      children.links ++ next.links

/-- **Every link of a page is rewritten**, and no other is there after. -/
theorem links_modifyHtmlDoc (h : ProxyHandler) (page : XmlNode) :
    (modifyHtmlDoc h page).links = page.links.map fun prop => (rewrittenLink h prop).getD prop := by
  induction page with
  | null => rfl
  | node isElement properties children next ihchildren ihnext =>
    have hne : ascii "href" ≠ ascii "src" := by decide
    simp only [modifyHtmlDoc, XmlNode.links, List.map_append, ihchildren, ihnext]
    cases isElement with
    | false => rfl
    | true =>
      simp only [if_true, List.map_append, handleProperty_lookup, handleProperty_lookup_of_ne h _ hne,
        handleProperty_lookup_of_ne h _ hne.symm]
      cases properties.lookup (ascii "href") <;> cases properties.lookup (ascii "src") <;> rfl

/-- libxml2 and gzip; `ω` is what a document holds besides the tree from its root element on -/
structure Libraries (ω : Type) where
  decompressGzip : Bytes → Bytes
  /-- `htmlReadMemory` with the given base URL -/
  htmlReadMemory : Bytes → Bytes → ω × XmlNode
  htmlDocDumpMemory : ω × XmlNode → Bytes

/-- what `handle_html` uses of them -/
def Libraries.html {ω : Type} (lib : Libraries ω) : Html where
  decompressGzip := lib.decompressGzip
  rewrite h content :=
    let (document, root) := lib.htmlReadMemory h.serverUrl content
    lib.htmlDocDumpMemory (document, modifyHtmlDoc h root)

/-! ## What is asked upstream -/

/-- the URI that `handle_request` asks for; `none` is the exception of `substr` -/
def askedUri (h : ProxyHandler) (requestUri : Bytes) : Option Bytes :=
  if requestUri.length < h.clientLocationPath.length then none
  else
    let uri := h.serverLocationPath ++ requestUri.drop h.clientLocationPath.length
    some (if uri = [] then ascii "/" else uri)

/-- **What a proxy asks upstream**: the configured host at the configured port, for that URI. -/
theorem handleRequest_asks (net : Network) (html : Html) (junk : ℕ → ResponseUninit) (h : ProxyHandler) (fuel : ℕ)
    (request : Request) :
    handleRequest net html junk h fuel request =
      match askedUri h request.uri with
      | none => .error .escaped
      | some uri => proxyRequest net html junk h fuel request uri h.serverUrl h.serverPortNum := by
  unfold handleRequest askedUri
  split_ifs <;> rfl

/-! ## The path of the host -/

/-- a configured host has a path: something follows its first slash -/
def HasPath (host : Bytes) : Prop := ∃ pos, Bytes.find [SLASH] host = some pos ∧ pos + 1 < host.length

theorem init_clientLocationPath (locationPath : Bytes) (entry : Bytes × ℤ) :
    (ProxyHandler.init locationPath entry).clientLocationPath = locationPath := by
  unfold ProxyHandler.init
  simp only
  cases Bytes.find [SLASH] entry.1 <;> rfl

/-- `Init` keeps a path exactly when the host has one -/
theorem init_serverLocationPath_iff (locationPath host : Bytes) (port : ℤ) :
    (ProxyHandler.init locationPath (host, port)).serverLocationPath = [] ↔ ¬ HasPath host := by
  unfold ProxyHandler.init HasPath
  simp only
  cases hpos : Bytes.find [SLASH] host with
  | none => simp
  | some pos =>
    have hle : pos + 1 ≤ host.length := Bytes.find_add_length_le hpos
    have hlength : (host.drop pos).length = host.length - pos := List.length_drop
    simp only [Option.some.injEq, exists_eq_left', not_lt]
    split_ifs with hlast
    · rw [List.eq_nil_iff_length_eq_zero, List.length_take, hlength]
      omega
    · constructor
      · intro hnil
        rw [hnil] at hlength
        simp only [List.length_nil] at hlength
        omega
      · intro hshort
        -- the first slash would be the last byte
        refine absurd ?_ hlast
        obtain ⟨rest, hrest⟩ := Bytes.find_begins hpos
        have hnil : rest = [] := by
          have hcount := congrArg List.length hrest
          rw [List.length_append, hlength, List.length_singleton] at hcount
          exact List.eq_nil_of_length_eq_zero (by omega)
        rw [← hrest, hnil]
        rfl

/-! ## Following a link -/

/-- a link that begins with a single slash, as `xmlGetProp` returns it -/
structure RootRelative (p : Bytes) : Prop where
  slash : p.head? = some SLASH
  single : p.tail.head? ≠ some SLASH
  noNul : NUL ∉ p

theorem RootRelative.eq_cons {p : Bytes} (h : RootRelative p) : ∃ rest, p = SLASH :: rest := by
  obtain ⟨rest, hrest⟩ := List.head?_eq_some_iff.1 h.slash
  exact ⟨rest, hrest⟩

/-- such a link is put behind the location -/
theorem rewrittenLink_rootRelative (h : ProxyHandler) {p : Bytes} (hp : RootRelative p) :
    rewrittenLink h p = some (cString (h.clientLocationPath ++ p)) := by
  obtain ⟨rest, rfl⟩ := hp.eq_cons
  unfold rewrittenLink
  have hdouble : ¬ (2 < (SLASH :: rest).length ∧ (SLASH :: rest).take 2 = ascii "//") := by
    rintro ⟨-, htake⟩
    cases rest with
    | nil => exact absurd htake (by decide)
    | cons c rest =>
      refine hp.single ?_
      rw [List.tail_cons, List.head?_cons]
      simp only [List.take_succ_cons, List.take_zero, ascii] at htake
      simpa using htake
  have hscheme : ¬ (4 < (SLASH :: rest).length ∧ (SLASH :: rest).take 4 = ascii "http") := by
    rintro ⟨-, htake⟩
    rw [List.take_succ_cons] at htake
    exact absurd (List.head_eq_of_cons_eq htake) (by decide)
  have hfragment : ¬ (1 < (SLASH :: rest).length ∧ (SLASH :: rest).head? = some HASH) := by
    rintro ⟨-, hhead⟩
    rw [List.head?_cons] at hhead
    exact absurd hhead (by decide)
  rw [if_neg hfragment, if_neg hdouble, if_neg hscheme]
  rfl

theorem cString_eq {s : Bytes} (h : NUL ∉ s) : cString s = s := by
  rw [cString, List.takeWhile_eq_self_iff]
  intro c hc
  rw [bne_iff_ne]
  rintro rfl
  exact h hc

theorem not_mem_cString (s : Bytes) : NUL ∉ cString s := by
  intro h
  have := List.mem_takeWhile_imp h
  simp at this

/-- a URI under the location is asked for after the path of the host -/
theorem askedUri_append (h : ProxyHandler) {p : Bytes} (hp : p ≠ []) :
    askedUri h (h.clientLocationPath ++ p) = some (h.serverLocationPath ++ p) := by
  unfold askedUri
  rw [if_neg (by simp), List.drop_left]
  simp only [List.append_eq_nil_iff, hp, and_false, if_false]

/-- **Where a link leads.** A root-relative link of a page that a proxy handed on leads back to itself exactly when the
configured host has no path. -/
theorem askedUri_link_iff (locationPath host : Bytes) (port : ℤ) {p uri : Bytes} (hp : RootRelative p)
    (huri : rewrittenLink (.init locationPath (host, port)) p = some uri) (hlocation : NUL ∉ locationPath) :
    askedUri (.init locationPath (host, port)) uri = some p ↔ ¬ HasPath host := by
  have hclient := init_clientLocationPath locationPath (host, port)
  have hne : p ≠ [] := by
    obtain ⟨rest, rfl⟩ := hp.eq_cons
    exact List.cons_ne_nil _ _
  have hnul : NUL ∉ locationPath ++ p := by
    rw [List.mem_append, not_or]
    exact ⟨hlocation, hp.noNul⟩
  rw [rewrittenLink_rootRelative _ hp, hclient, cString_eq hnul, Option.some.injEq] at huri
  rw [← huri, ← init_serverLocationPath_iff locationPath host port]
  have hasked := askedUri_append (.init locationPath (host, port)) hne
  rw [hclient] at hasked
  rw [hasked, Option.some.injEq, List.append_left_eq_self]

end BlogServer.Proxy
