/-
Requests on the wire (`proxy_request_handler::build_request_string`) and back through the request parser.

One run lemma per part of a request says what reading that part does to parser and builder: method, URI, version, a
header line, the header section, the body. Framing is `announce`: what a header line makes of the announced body size.
A serialized request is then accepted exactly when the size announced at the end of its headers is the size of its body
(`serialized_accepts_iff`).

- `request_roundTrip`: a request whose one Content-Length is the size of its body is read back unchanged, good exactly
  at the last byte.
- `headersRead_of_accepts`: the headers of an accepted request can be sent again, and their Content-Lengths are
  readable.
-/
import BlogServer.Http.RequestParser

namespace BlogServer.Http

open BlogServer.Byte BlogServer.Scan BlogServer.Decimal

/-- `proxy_request_handler::build_request_string` -/
def buildRequestString (request : Request) : Bytes :=
  request.method.name ++ ascii " " ++ request.uri ++ ascii " " ++ request.version ++ CRLF ++
    (request.headers.headers.flatMap Header.line ++ CRLF ++ request.body)

/-- the body size announced after header `h`, if `n` was announced before it; `none` is a size the parser refuses -/
def announce (n : ℤ) (h : Header) : Option ℤ :=
  if isContentLength h.name then (stoi h.value).filter (0 ≤ ·) else some n

namespace RequestParser

/-! ## Reading the request line -/

theorem reads_method {m : Bytes} (hne : m ≠ []) (hm : ∀ c ∈ m, isToken c = true) (n : ℤ) (b : RequestBuilder) :
    Reads consume (⟨.methodStart, n⟩, b) (m ++ [SP])
      (⟨.uri, n⟩, { b with method := b.method ++ m, fullmessage := b.fullmessage ++ (m ++ [SP]) }) := by
  obtain ⟨c, m, rfl⟩ := List.exists_cons_of_ne_nil hne
  have hloop : Reads consume _ m _ := Reads.loop_mem
    (fun u => (⟨.method, n⟩, { b with method := b.method ++ c :: u, fullmessage := b.fullmessage ++ c :: u }))
    fun u a ha => (Moves.method (hm a (by simp [ha]))).consume_eq.trans (by simp [saw])
  refine Reads.cons (Moves.methodStart (hm c (by simp))).consume_eq ?_
  exact hloop.snoc (Moves.methodEnd.consume_eq.trans (by simp [saw]))

theorem reads_uri {v : Bytes} (hv : ∀ c ∈ v, c ≠ SP ∧ isCtl c = false) (n : ℤ) (b : RequestBuilder) :
    Reads consume (⟨.uri, n⟩, b) (v ++ [SP])
      (⟨.httpVersionH, n⟩, { b with uri := b.uri ++ v, fullmessage := b.fullmessage ++ (v ++ [SP]) }) := by
  have hloop : Reads consume _ v _ := Reads.loop_mem
    (fun u => (⟨.uri, n⟩, { b with uri := b.uri ++ u, fullmessage := b.fullmessage ++ u }))
    fun u a ha => (Moves.uri (hv a ha).1 (hv a ha).2).consume_eq.trans (by simp [saw])
  have h0 : b = { b with uri := b.uri ++ [], fullmessage := b.fullmessage ++ [] } := by simp
  rw [h0]
  simpa [saw] using hloop.snoc Moves.uriEnd.consume_eq

theorem reads_http (n : ℤ) (b : RequestBuilder) :
    Reads consume (⟨.httpVersionH, n⟩, b) (ascii "HTTP/")
      (⟨.httpVersionMajorStart, n⟩,
        { b with httpVersionMajor := 0, httpVersionMinor := 0, fullmessage := b.fullmessage ++ ascii "HTTP/" }) := by
  refine .cons Moves.versionH.consume_eq (.cons Moves.versionT1.consume_eq (.cons Moves.versionT2.consume_eq
    (.cons Moves.versionP.consume_eq (.cons (Moves.versionSlash.consume_eq.trans ?_) (.nil _)))))
  simp [saw, ascii]

theorem int32_value_append (u : Bytes) {c : UInt8} (hc : isDigit c = true) :
    int32 (int32 (value u) * 10 + (c.toNat : ℤ) - 48) = int32 (value (u ++ [c])) := by
  rw [int32_digit_step _ hc, value_append]

/-- a number of the version, up to the byte that ends it -/
theorem reads_major {ds : Bytes} (hne : ds ≠ []) (hd : ∀ c ∈ ds, isDigit c = true) (n : ℤ) {b : RequestBuilder}
    (h0 : b.httpVersionMajor = 0) :
    Reads consume (⟨.httpVersionMajorStart, n⟩, b) (ds ++ [DOT])
      (⟨.httpVersionMinorStart, n⟩,
        { b with httpVersionMajor := int32 (value ds), fullmessage := b.fullmessage ++ (ds ++ [DOT]) }) := by
  obtain ⟨c, ds, rfl⟩ := List.exists_cons_of_ne_nil hne
  have hstart := int32_value_append [] (hd c (by simp))
  have hloop : Reads consume _ ds _ := Reads.loop_mem
    (fun u => (⟨.httpVersionMajor, n⟩,
      { b with httpVersionMajor := int32 (value (c :: u)), fullmessage := b.fullmessage ++ c :: u }))
    fun u a ha => (Moves.major (hd a (by simp [ha]))).consume_eq.trans
      (by simp [saw, int32_value_append _ (hd a (by simp [ha]))])
  refine Reads.cons ((Moves.majorStart (hd c (by simp))).consume_eq.trans ?_)
    (hloop.snoc (Moves.majorEnd.consume_eq.trans (by simp [saw])))
  simp only [h0]
  simpa [saw, value] using hstart

theorem reads_minor {ds : Bytes} (hne : ds ≠ []) (hd : ∀ c ∈ ds, isDigit c = true) (n : ℤ) {b : RequestBuilder}
    (h0 : b.httpVersionMinor = 0) :
    Reads consume (⟨.httpVersionMinorStart, n⟩, b) (ds ++ CRLF)
      (⟨.headerLineStart, n⟩,
        { b with httpVersionMinor := int32 (value ds), fullmessage := b.fullmessage ++ (ds ++ CRLF) }) := by
  obtain ⟨c, ds, rfl⟩ := List.exists_cons_of_ne_nil hne
  have hstart := int32_value_append [] (hd c (by simp))
  have hloop : Reads consume _ ds _ := Reads.loop_mem
    (fun u => (⟨.httpVersionMinor, n⟩,
      { b with httpVersionMinor := int32 (value (c :: u)), fullmessage := b.fullmessage ++ c :: u }))
    fun u a ha => (Moves.minor (hd a (by simp [ha]))).consume_eq.trans
      (by simp [saw, int32_value_append _ (hd a (by simp [ha]))])
  refine Reads.cons ((Moves.minorStart (hd c (by simp))).consume_eq.trans ?_)
    (hloop.append (.cons Moves.minorEnd.consume_eq (.cons (Moves.newline1.consume_eq.trans (by simp [saw])) (.nil _))))
  simp only [h0]
  simpa [saw, value] using hstart

theorem reads_version (x y : ℕ) (n : ℤ) (b : RequestBuilder) :
    Reads consume (⟨.httpVersionH, n⟩, b) (ascii "HTTP/" ++ decimal x ++ ascii "." ++ decimal y ++ CRLF)
      (⟨.headerLineStart, n⟩,
        { b with
          httpVersionMajor := int32 x
          httpVersionMinor := int32 y
          fullmessage := b.fullmessage ++ (ascii "HTTP/" ++ decimal x ++ ascii "." ++ decimal y ++ CRLF) }) := by
  have hmajor := reads_major (decimal_ne_nil x) (isDigit_decimal x) n
    (b := { b with httpVersionMajor := 0, httpVersionMinor := 0, fullmessage := b.fullmessage ++ ascii "HTTP/" }) rfl
  have hminor := reads_minor (decimal_ne_nil y) (isDigit_decimal y) n
    (b := { b with
      httpVersionMajor := int32 (value (decimal x))
      httpVersionMinor := 0
      fullmessage := b.fullmessage ++ ascii "HTTP/" ++ (decimal x ++ [DOT]) }) rfl
  have := ((reads_http n b).append hmajor).append hminor
  simpa [value_decimal, ascii] using this

/-! ## Reading the header section -/

/-- the header lines leave everything of the builder alone but `headers`, `bodysize`, `keep_alive` and `fullmessage` -/
def ReadsHeaders (s : St) (w : Bytes) (n : ℤ) (hs : List Header) : Prop :=
  ∃ z k f, Reads consume s w
    (⟨.headerLineStart, n⟩, { s.2 with headers := s.2.headers ++ hs, bodysize := z, keepAlive := k, fullmessage := f })

theorem noteKeepAlive_eq (b : RequestBuilder) : ∃ k, noteKeepAlive b = { b with keepAlive := k } := by
  unfold noteKeepAlive; split_ifs
  · exact ⟨true, rfl⟩
  · exact ⟨b.keepAlive, rfl⟩

/-- a header line up to its CR -/
theorem reads_header {h : Header} (hs : h.Sendable) (n : ℤ) (b : RequestBuilder) :
    Reads consume (⟨.headerLineStart, n⟩, b) (h.name ++ ascii ": " ++ h.value)
      (⟨.headerValue, n⟩,
        { b with
          headers := b.headers ++ [h]
          fullmessage := b.fullmessage ++ (h.name ++ ascii ": " ++ h.value) }) := by
  obtain ⟨name, value⟩ := h
  obtain ⟨hne, hname, hvalue⟩ := hs
  obtain ⟨c, name, rfl⟩ := List.exists_cons_of_ne_nil hne
  have hstart := (Moves.nameStart (n := n) (b := b) (hname c (by simp))).consume_eq
  have hloop : Reads consume _ name _ := Reads.loop_mem
    (fun u => (⟨.headerName, n⟩,
      { b with headers := b.headers ++ [⟨c :: u, []⟩], fullmessage := b.fullmessage ++ c :: u }))
    fun u a ha => (Moves.name (hname a (by simp [ha]))).consume_eq.trans
      (by simp [saw, addName, List.modifyLast_concat])
  have hvalues : Reads consume _ value _ := Reads.loop_mem
    (fun u => (⟨.headerValue, n⟩,
      { b with
        headers := b.headers ++ [⟨c :: name, u⟩]
        fullmessage := b.fullmessage ++ (c :: name ++ ascii ": " ++ u) }))
    fun u a ha => (Moves.value (hvalue a ha)).consume_eq.trans
      (by simp [saw, addValue, List.modifyLast_concat])
  have hsep := (hloop.snoc Moves.nameEnd.consume_eq).snoc Moves.valueStart.consume_eq
  have := (Reads.cons hstart (by simpa [saw] using hsep)).append (by simpa [saw, ascii] using hvalues)
  simpa [ascii] using this

theorem announce_length {h : Header} {n n' : ℤ} (hl : isContentLength h.name = true) :
    announce n h = some n' ↔ stoi h.value = some n' ∧ 0 ≤ n' := by
  simp [announce, hl, Option.filter_eq_some_iff]

/-- the end of a header line, where its announcement is read -/
theorem reads_lineEnd {n n' : ℤ} {b : RequestBuilder} (hn : announce n (back b.headers) = some n') :
    ∃ z k f, Reads consume (⟨.headerValue, n⟩, b) CRLF
      (⟨.headerLineStart, n'⟩, { b with bodysize := z, keepAlive := k, fullmessage := f }) := by
  by_cases hl : isContentLength (back b.headers).name = true
  · obtain ⟨hk, h0⟩ := (announce_length hl).1 hn
    obtain ⟨k, hnote⟩ := noteKeepAlive_eq { saw b CR with bodysize := n' }
    have hend := (Moves.lengthEnd (n := n) hl hk h0).consume_eq
    rw [hnote] at hend
    exact ⟨n', k, _, .cons hend (.cons Moves.newline2.consume_eq (.nil _))⟩
  · obtain rfl : n = n' := by simpa [announce, hl] using hn
    obtain ⟨k, hnote⟩ := noteKeepAlive_eq (saw b CR)
    have hend := (Moves.valueEnd (n := n) (by simpa using hl)).consume_eq
    rw [hnote] at hend
    exact ⟨b.bodysize, k, _, .cons hend (.cons Moves.newline2.consume_eq (.nil _))⟩

theorem rejects_lineEnd {n : ℤ} {b : RequestBuilder} (hn : announce n (back b.headers) = none) :
    Rejects consume (⟨.headerValue, n⟩, b) CRLF := by
  have hl : isContentLength (back b.headers).name = true := by
    by_contra hl; simp [announce, hl] at hn
  rw [announce, if_pos hl] at hn
  cases hk : stoi (back b.headers).value with
  | none => simp [Rejects, feed, consume, readContentLength, hl, hk]
  | some k =>
    have h0 : ¬ 0 ≤ k := by simpa [hk, Option.filter_some] using hn
    simp [Rejects, feed, consume, readContentLength, hl, hk, h0]

/-- **A header line.** A readable one is added to the headers and announces its size. -/
theorem reads_headerLine {h : Header} (hs : h.Sendable) {n n' : ℤ} (hn : announce n h = some n')
    (b : RequestBuilder) : ReadsHeaders (⟨.headerLineStart, n⟩, b) h.line n' [h] := by
  obtain ⟨z, k, f, hend⟩ := reads_lineEnd (b := { b with
    headers := b.headers ++ [h]
    fullmessage := b.fullmessage ++ (h.name ++ ascii ": " ++ h.value) }) (by simpa using hn)
  exact ⟨z, k, f, (reads_header hs n b).append hend⟩

/-- **The header section** is read with the announcements of its lines, one after the other. -/
theorem reads_headerLines {hs : List Header} (hok : ∀ h ∈ hs, h.Sendable) {n n' : ℤ}
    (hn : hs.foldlM announce n = some n') (b : RequestBuilder) :
    ReadsHeaders (⟨.headerLineStart, n⟩, b) (hs.flatMap Header.line) n' hs := by
  induction hs generalizing n b with
  | nil =>
    obtain rfl : n = n' := by simpa using hn
    exact ⟨b.bodysize, b.keepAlive, b.fullmessage, by simpa using Reads.nil _⟩
  | cons h hs ih =>
    rw [List.foldlM_cons, Option.bind_eq_bind, Option.bind_eq_some_iff] at hn
    obtain ⟨n₁, hn₁, hn⟩ := hn
    obtain ⟨z₁, k₁, f₁, h₁⟩ := reads_headerLine (hok h (by simp)) hn₁ b
    obtain ⟨z, k, f, h₂⟩ := ih (fun x hx => hok x (by simp [hx])) hn _
    exact ⟨z, k, f, by simpa using h₁.append h₂⟩

/-- a header section with an unreadable size is refused -/
theorem rejects_headerLines {hs : List Header} (hok : ∀ h ∈ hs, h.Sendable) {n : ℤ}
    (hn : hs.foldlM announce n = none) (b : RequestBuilder) :
    Rejects consume (⟨.headerLineStart, n⟩, b) (hs.flatMap Header.line) := by
  induction hs generalizing n b with
  | nil => simp at hn
  | cons h hs ih =>
    rw [List.flatMap_cons]
    cases hn₁ : announce n h with
    | none =>
      have hend := rejects_lineEnd (b := { b with
        headers := b.headers ++ [h]
        fullmessage := b.fullmessage ++ (h.name ++ ascii ": " ++ h.value) }) (by simpa using hn₁)
      exact ((reads_header (hok h (by simp)) n b).rejects hend).append _
    | some n₁ =>
      obtain ⟨z₁, k₁, f₁, h₁⟩ := reads_headerLine (hok h (by simp)) hn₁ b
      refine h₁.rejects (ih (fun x hx => hok x (by simp [hx])) ?_ _)
      simpa [hn₁] using hn

/-! ## Reading the body -/

/-- the countdown over a part of the body that does not complete it -/
theorem reads_body {w : Bytes} {n : ℤ} (hlt : (w.length : ℤ) < n) (hn : n < 2147483648) (b : RequestBuilder) :
    Reads consume (⟨.expectingBody, n⟩, b) w
      (⟨.expectingBody, n - w.length⟩, { b with body := b.body ++ w, fullmessage := b.fullmessage ++ w }) := by
  have hloop : Reads consume _ w _ := Reads.loop
    (fun u => (⟨.expectingBody, n - u.length⟩, { b with body := b.body ++ u, fullmessage := b.fullmessage ++ u })) ?_
  · simpa using hloop
  · intro u a v hw
    have hlen : (u.length : ℤ) + 1 ≤ w.length := by rw [hw]; simp
    have h32 : int32 (n - u.length - 1) = n - u.length - 1 := int32_of_range (by omega) (by omega)
    refine (Moves.body (by rw [h32]; omega)).consume_eq.trans ?_
    simp [saw, h32]
    omega

/-- a body of the announced size is complete at its last byte -/
theorem accepts_body {w : Bytes} (hne : w ≠ []) (hlt : w.length < 2147483648) (b : RequestBuilder) :
    Accepts consume (⟨.expectingBody, w.length⟩, b) w
      (⟨.expectingBody, 0⟩, { b with body := b.body ++ w, fullmessage := b.fullmessage ++ w }) := by
  obtain ⟨u, c, rfl⟩ := (List.eq_nil_or_concat w).resolve_left hne
  rw [List.concat_eq_append] at *
  refine accepts_snoc (reads_body (by simp) (by exact_mod_cast hlt) b) ?_
  simp [consume]

/-- **The rest of a request.** A blank line and a body complete the request exactly when the body has the announced
size. -/
theorem accepts_rest {w : Bytes} {n : ℤ} (h0 : 0 ≤ n) (hn : n < 2147483648) {b : RequestBuilder} (hb : b.body = [])
    {t : St} :
    Accepts consume (⟨.headerLineStart, n⟩, b) (CRLF ++ w) t ↔
      n = w.length ∧ t = (⟨if w = [] then .expectingNewline3 else .expectingBody, 0⟩,
        { b with body := w, fullmessage := b.fullmessage ++ (CRLF ++ w) }) := by
  have hcr : Reads consume (⟨.headerLineStart, n⟩, b) [CR] (⟨.expectingNewline3, n⟩, saw b CR) :=
    .cons Moves.blankLine.consume_eq (.nil _)
  rw [Accepts, show CRLF ++ w = [CR] ++ (LF :: w) from rfl, feed_append hcr]
  by_cases hz : n = 0
  · subst hz
    have hgood : consume (⟨.expectingNewline3, 0⟩, saw b CR) LF = (.good, ⟨.expectingNewline3, 0⟩, saw (saw b CR) LF) := by
      simp [consume, saw]
    rw [feed_cons_answer hgood (by decide)]
    constructor
    · intro h
      obtain rfl : w = [] := by simp at h; exact h.2
      simp at h
      simp [← h, saw, hb]
    · rintro ⟨hw, rfl⟩
      obtain rfl : w = [] := List.length_eq_zero_iff.1 (by omega)
      simp [saw, hb]
  · rw [feed_cons_indeterminate (Moves.newline3 hz).consume_eq]
    rcases lt_trichotomy (w.length : ℤ) n with hlt | rfl | hgt
    · rw [reads_body hlt hn]
      simp; omega
    · have hne : w ≠ [] := by rintro rfl; exact hz rfl
      rw [accepts_body hne (by omega)]
      simp [hne, saw, hb, eq_comm]
    · have hlen : (w.take n.toNat).length = n.toNat := by simp; omega
      have htake := accepts_body (w := w.take n.toNat) (by rw [← List.length_pos_iff]; omega) (by omega)
        (saw (saw b CR) LF)
      rw [hlen, show ((n.toNat : ℕ) : ℤ) = n by omega] at htake
      rw [← List.take_append_drop n.toNat w, feed_stop htake (by decide)]
      have hrest : w.drop n.toNat ≠ [] := by rw [← List.length_pos_iff, List.length_drop]; omega
      simp [hrest]; omega

/-! ## Reading a serialized request -/

theorem announce_range {n n' : ℤ} {h : Header} (hn : announce n h = some n') (h0 : 0 ≤ n) (h1 : n < 2147483648) :
    0 ≤ n' ∧ n' < 2147483648 := by
  by_cases hl : isContentLength h.name = true
  · obtain ⟨hk, h0⟩ := (announce_length hl).1 hn
    exact ⟨h0, (stoi_range hk).2⟩
  · obtain rfl : n = n' := by simpa [announce, hl] using hn
    exact ⟨h0, h1⟩

theorem announced_range {n n' : ℤ} {hs : List Header} (hn : hs.foldlM announce n = some n') (h0 : 0 ≤ n)
    (h1 : n < 2147483648) : 0 ≤ n' ∧ n' < 2147483648 := by
  induction hs generalizing n with
  | nil =>
    obtain rfl : n = n' := by simpa using hn
    exact ⟨h0, h1⟩
  | cons h hs ih =>
    rw [List.foldlM_cons, Option.bind_eq_bind, Option.bind_eq_some_iff] at hn
    obtain ⟨n₁, hn₁, hn⟩ := hn
    obtain ⟨h0', h1'⟩ := announce_range hn₁ h0 h1
    exact ih hn h0' h1'

theorem reads_requestLine (m : MethodEnum) {uri : Bytes} (huri : ∀ c ∈ uri, c ≠ SP ∧ isCtl c = false) (x y : ℕ) (n : ℤ)
    (b : RequestBuilder) :
    ∃ f, Reads consume (⟨.methodStart, n⟩, b)
      (m.name ++ ascii " " ++ uri ++ ascii " " ++ (ascii "HTTP/" ++ decimal x ++ ascii "." ++ decimal y) ++ CRLF)
      (⟨.headerLineStart, n⟩,
        { b with
          method := b.method ++ m.name
          uri := b.uri ++ uri
          httpVersionMajor := int32 x
          httpVersionMinor := int32 y
          fullmessage := f }) := by
  have hm := reads_method m.name_token.1 m.name_token.2 n b
  have := (hm.append (reads_uri huri n _)).append (reads_version x y n _)
  exact ⟨_, by simpa [ascii] using this⟩

/-- the builder has read the request `r` of version `x`.`y` -/
structure HasRead (r : Request) (x y : ℕ) (b : RequestBuilder) : Prop where
  method : b.method = r.method.name
  uri : b.uri = r.uri
  major : b.httpVersionMajor = int32 x
  minor : b.httpVersionMinor = int32 y
  headers : b.headers = r.headers.headers
  body : b.body = r.body

/-- what `build_request_string` needs to be read as it is written, the body size apart -/
structure Serializable (r : Request) (x y : ℕ) : Prop where
  uri : ∀ c ∈ r.uri, c ≠ SP ∧ isCtl c = false
  version : r.version = ascii "HTTP/" ++ decimal x ++ ascii "." ++ decimal y
  headers : ∀ h ∈ r.headers.headers, h.Sendable

/-- **A serialized request is accepted exactly when its headers announce the size of its body.** -/
theorem serialized_accepts_iff {r : Request} {x y : ℕ} (hr : Serializable r x y) (u : Uninit) :
    (∃ t, Accepts consume (fresh, .fresh u) (buildRequestString r) t) ↔
      r.headers.headers.foldlM announce 0 = some (r.body.length : ℤ) := by
  obtain ⟨f, hline⟩ := reads_requestLine r.method hr.uri x y 0 (.fresh u)
  simp only [Accepts, buildRequestString, hr.version]
  rw [fresh, feed_append hline, List.append_assoc]
  cases hn : r.headers.headers.foldlM announce 0 with
  | none =>
    simp only [reduceCtorEq, iff_false, not_exists]
    exact fun t => ((rejects_headerLines hr.headers hn _).append _).not_accepts
  | some n =>
    obtain ⟨z, k, f', hheaders⟩ := reads_headerLines hr.headers hn _
    obtain ⟨h0, h1⟩ := announced_range hn le_rfl (by decide)
    rw [feed_append hheaders]
    constructor
    · rintro ⟨t, ht⟩
      rw [((accepts_rest h0 h1 rfl).1 ht).1]
    · intro h
      exact ⟨_, (accepts_rest h0 h1 rfl).2 ⟨Option.some.inj h, rfl⟩⟩

/-- an accepted serialized request is in the builder unchanged -/
theorem serialized_hasRead {r : Request} {x y : ℕ} (hr : Serializable r x y) {u : Uninit} {t : St}
    (h : Accepts consume (fresh, .fresh u) (buildRequestString r) t) : HasRead r x y t.2 := by
  have hn := (serialized_accepts_iff hr u).1 ⟨t, h⟩
  obtain ⟨f, hline⟩ := reads_requestLine r.method hr.uri x y 0 (.fresh u)
  obtain ⟨z, k, f', hheaders⟩ := reads_headerLines hr.headers hn _
  obtain ⟨h0, h1⟩ := announced_range hn le_rfl (by decide)
  rw [Accepts, buildRequestString, hr.version, fresh, feed_append hline, List.append_assoc, feed_append hheaders,
    ← Accepts] at h
  obtain ⟨-, rfl⟩ := (accepts_rest h0 h1 rfl).1 h
  exact ⟨rfl, rfl, rfl, rfl, rfl, rfl⟩

theorem buildRequest_hasRead {r : Request} {x y : ℕ} {b : RequestBuilder} (h : HasRead r x y b) (hr : Serializable r x y)
    (hx : x < 2147483648) (hy : y < 2147483648) (m₀ : MethodEnum) : b.buildRequest m₀ = r := by
  have hversion : versionString b.httpVersionMajor b.httpVersionMinor = r.version := by
    rw [versionString, h.major, h.minor, int32_of_range (by omega) (by omega), int32_of_range (by omega) (by omega),
      toString_natCast, toString_natCast, hr.version]
  rw [RequestBuilder.buildRequest, hversion, h.method, methodOf_name, h.uri, h.headers, headerMap_headers, h.body]

/-! ## Which header announces the size -/

/-- if the header is a Content-Length, its value is a size -/
def Measured (h : Header) : Prop := isContentLength h.name = true → ∃ k, stoi h.value = some k ∧ 0 ≤ k

/-- the last Content-Length, whatever its letter case -/
def lastLength (hs : List Header) : Option Header := hs.reverse.find? fun h => isContentLength h.name

theorem lastLength_snoc (hs : List Header) (h : Header) :
    lastLength (hs ++ [h]) = if isContentLength h.name = true then some h else lastLength hs := by
  simp only [lastLength, List.reverse_append, List.reverse_singleton, List.singleton_append, List.find?_cons]
  split <;> simp_all

/-- **The last Content-Length governs.** -/
theorem announced_eq {hs : List Header} (hm : ∀ h ∈ hs, Measured h) (n : ℤ) :
    hs.foldlM announce n = some (((lastLength hs).bind fun h => stoi h.value).getD n) := by
  induction hs using List.reverseRecOn with
  | nil => rfl
  | append_singleton hs h ih =>
    rw [List.foldlM_append, ih fun x hx => hm x (by simp [hx]), lastLength_snoc]
    by_cases hl : isContentLength h.name = true
    · obtain ⟨k, hk, h0⟩ := hm h (by simp) hl
      simp [announce, hl, hk, h0, Option.filter_some]
    · simp [announce, hl]

theorem lastLength_filter (hs : List Header) :
    lastLength (hs.filter fun h => isContentLength h.name) = lastLength hs := by
  rw [lastLength, ← List.filter_reverse, List.find?_filter, lastLength]
  simp

/-- inserting another header does not change which Content-Length is last -/
theorem lastLength_insert (m : HeaderMap) {name : Bytes} (hname : isContentLength name = false) (value : Bytes) :
    lastLength (HeaderMap.headers (m.insert name value)) = lastLength (HeaderMap.headers m) := by
  rw [← lastLength_filter, ← lastLength_filter (HeaderMap.headers m)]
  simp only [HeaderMap.headers, List.filter_map, Function.comp_def]
  rw [SortedMap.filter_insert m name value hname]

theorem lastLength_mem {hs : List Header} {h : Header} (hl : lastLength hs = some h) :
    h ∈ hs ∧ isContentLength h.name = true := by
  unfold lastLength at hl
  have hmem := List.mem_of_find?_eq_some hl
  have hname := List.find?_some hl
  exact ⟨by simpa using hmem, hname⟩

theorem lastLength_isSome {hs : List Header} {h : Header} (hmem : h ∈ hs) (hl : isContentLength h.name = true) :
    ∃ h', lastLength hs = some h' := by
  rw [← Option.isSome_iff_exists, lastLength, List.find?_isSome]
  exact ⟨h, by simpa using hmem, hl⟩

/-- the body is empty and no size is announced, or exactly one header announces a size and it is that of the body -/
def Framed (r : Request) : Prop :=
  (r.body = [] ∧ ∀ h ∈ r.headers.headers, isContentLength h.name = false) ∨
    r.body.length < 2147483648 ∧ ∃ name, isContentLength name = true ∧
      ⟨name, decimal r.body.length⟩ ∈ r.headers.headers ∧
      ∀ h ∈ r.headers.headers, isContentLength h.name = true → h = ⟨name, decimal r.body.length⟩

/-- one Content-Length announces its size, whatever was announced before -/
theorem announced_single {hs : List Header} {name : Bytes} {k : ℕ} (hlt : k < 2147483648)
    (hname : isContentLength name = true) (hmem : ⟨name, decimal k⟩ ∈ hs)
    (honly : ∀ h ∈ hs, isContentLength h.name = true → h = ⟨name, decimal k⟩) (n : ℤ) :
    hs.foldlM announce n = some (k : ℤ) := by
  have hstoi : stoi (decimal k) = some (k : ℤ) := by rw [stoi_decimal, narrow_natCast hlt]
  obtain ⟨h, hlast⟩ := lastLength_isSome hmem hname
  obtain ⟨hh, hl⟩ := lastLength_mem hlast
  rw [announced_eq, hlast, honly h hh hl]
  · simp [hstoi]
  · intro h hh hl
    rw [honly h hh hl]
    exact ⟨_, hstoi, by omega⟩

theorem announced_framed {r : Request} (hr : Framed r) :
    r.headers.headers.foldlM announce 0 = some (r.body.length : ℤ) := by
  rcases hr with ⟨hbody, hnone⟩ | ⟨hlt, name, hname, hmem, honly⟩
  · have hlast : lastLength r.headers.headers = none := by
      rw [lastLength, List.find?_eq_none]
      intro h hh
      simp [hnone h (by simpa using hh)]
    rw [announced_eq fun h hh hl => by simp [hnone h hh] at hl, hlast, hbody]
    rfl
  · exact announced_single hlt hname hmem honly 0

/-- **Request round trip.** A request with canonical version, sendable headers and one true Content-Length is read back
unchanged; the parser says good at its last byte and nothing before it. -/
theorem request_roundTrip (r : Request) (x y : ℕ) (hr : Serializable r x y) (hx : x < 2147483648)
    (hy : y < 2147483648) (hframed : Framed r) (u : Uninit) (m₀ : MethodEnum) :
    (∀ v w, buildRequestString r = v ++ w → w ≠ [] → (parse (fresh, .fresh u) v).1 = .indeterminate) ∧
      ∃ t, parse (fresh, .fresh u) (buildRequestString r) = (.good, [], t) ∧ t.2.buildRequest m₀ = r := by
  obtain ⟨t, ht⟩ := (serialized_accepts_iff hr u).2 (announced_framed hframed)
  refine ⟨fun v w hvw hw => ?_, t, parse_good_iff.2 ⟨rfl, ht⟩, ?_⟩
  · obtain ⟨s, hs⟩ := ht.reads_prefix hvw hw
    rw [parse_eq_feed, hs]
    rfl
  · exact buildRequest_hasRead (serialized_hasRead hr ht) hr hx hy m₀

/-- a POST of one body byte -/
def postOneByte : Request :=
  ⟨.POST, ascii "/", ascii "HTTP/1.1", headerMap [⟨ascii "Content-Length", ascii "1"⟩], ascii "B"⟩

theorem postOneByte_headers : postOneByte.headers.headers = [⟨ascii "Content-Length", ascii "1"⟩] := by decide +kernel

/-- the theorem at that POST -/
theorem request_roundTrip_post :
    ∃ t, parse (fresh, .fresh ⟨7, 7, 7⟩) (buildRequestString postOneByte) = (.good, [], t) ∧
      t.2.buildRequest .GET = postOneByte :=
  (request_roundTrip postOneByte 1 1
    ⟨by decide +kernel, by decide +kernel, fun h hh => by
      rw [postOneByte_headers, List.mem_singleton] at hh
      subst hh
      exact ⟨by decide, by decide +kernel, by decide +kernel⟩⟩
    (by decide) (by decide)
    (.inr ⟨by decide, ascii "Content-Length", by decide +kernel, by decide +kernel, fun h hh _ => by
      rw [postOneByte_headers, List.mem_singleton] at hh
      rw [hh]
      decide +kernel⟩) ⟨7, 7, 7⟩ .GET).2

/-! ## The headers of an accepted request -/

/-- the headers read so far: the last one may still be growing in the states in its name and value -/
def HeadersRead (s : St) : Prop :=
  match s.1.state with
  | .headerName | .spaceBeforeHeaderValue | .headerValue =>
    ∃ hs h, s.2.headers = hs ++ [h] ∧ (∀ x ∈ hs, x.Sendable ∧ Measured x) ∧ h.Sendable
  | .headerLws => s.2.headers ≠ [] ∧ ∀ x ∈ s.2.headers, x.Sendable ∧ Measured x
  | _ => ∀ x ∈ s.2.headers, x.Sendable ∧ Measured x

theorem noteKeepAlive_headers (b : RequestBuilder) : (noteKeepAlive b).headers = b.headers := by
  unfold noteKeepAlive; split_ifs <;> rfl

/-- **Step lemma.** Every step keeps the headers sendable and their sizes readable. -/
theorem step_headersRead {s s' : St} {c : UInt8} (h : HeadersRead s) (hs : consume s c = (.indeterminate, s')) :
    HeadersRead s' := by
  have hmeasured : ∀ {l : List Header} {x : Header}, (∀ y ∈ l, y.Sendable ∧ Measured y) → x.Sendable → Measured x →
      ∀ y ∈ l ++ [x], y.Sendable ∧ Measured y := by
    intro l x hl h1 h2 y hy
    rcases List.mem_append.1 hy with hy | hy
    · exact hl y hy
    · rw [List.mem_singleton.1 hy]; exact ⟨h1, h2⟩
  cases consume_moves hs with
  | fold hne hc => exact ⟨hne, h⟩
  | nameStart hc => exact ⟨_, _, rfl, h, ⟨by simp, by simpa using hc, by simp⟩⟩
  | lwsEnd => exact h.2
  | lws hc => exact h
  | @lwsValue n b c hsp hc =>
    obtain ⟨hne, h⟩ := h
    obtain ⟨hs, x, hb⟩ := (List.eq_nil_or_concat b.headers).resolve_left hne
    rw [List.concat_eq_append] at hb
    simp only at h
    rw [hb] at h
    obtain ⟨hx, -⟩ := h x (by simp)
    refine ⟨hs, ⟨x.name, x.value ++ [c]⟩, ?_, fun y hy => h y (by simp [hy]), hx.name_ne, hx.name_token, ?_⟩
    · simp [addValue, saw, hb, List.modifyLast_concat]
    · exact forall_mem_snoc hx.value_ok hc
  | nameEnd => exact h
  | @name n b c hc =>
    obtain ⟨hs, x, hb, h, hx⟩ := h
    refine ⟨hs, ⟨x.name ++ [c], x.value⟩, ?_, h, by simp, forall_mem_snoc hx.name_token hc, hx.value_ok⟩
    simp only at hb
    simp [addName, saw, hb, List.modifyLast_concat]
  | valueStart => exact h
  | @value n b c hc =>
    obtain ⟨hs, x, hb, h, hx⟩ := h
    refine ⟨hs, ⟨x.name, x.value ++ [c]⟩, ?_, h, hx.name_ne, hx.name_token, forall_mem_snoc hx.value_ok hc⟩
    simp only at hb
    simp [addValue, saw, hb, List.modifyLast_concat]
  | @valueEnd n b hl =>
    obtain ⟨hs, x, hb, h, hx⟩ := h
    simp only at hb
    simp only [HeadersRead, noteKeepAlive_headers, saw, hb]
    rw [hb, back_append] at hl
    exact hmeasured h hx fun hl' => absurd (hl.symm.trans hl') (by decide)
  | @lengthEnd n b k hl hk h0 =>
    obtain ⟨hs, x, hb, h, hx⟩ := h
    simp only at hb
    simp only [HeadersRead, noteKeepAlive_headers, saw, hb]
    rw [hb, back_append] at hk
    exact hmeasured h hx fun _ => ⟨k, hk, h0⟩
  | _ => exact h

/-- **The headers of an accepted request** can be sent again, and every Content-Length among them is readable. -/
theorem headersRead_of_accepts {u : Uninit} {w : Bytes} {t : St} (h : Accepts consume (fresh, .fresh u) w t) :
    ∀ x ∈ t.2.headers, x.Sendable ∧ Measured x := by
  obtain ⟨v, c, r, -, hr, hs⟩ := h.last
  have hread : HeadersRead r :=
    hr.invariant (fun _ s => HeadersRead s) (by simp [HeadersRead, fresh, RequestBuilder.fresh])
      fun _ _ _ _ hp hs => step_headersRead hp hs
  rcases consume_good hs with ⟨hst, -, -, rfl⟩ | ⟨hst, -, rfl⟩
  all_goals
    rw [HeadersRead, hst] at hread
    exact hread

end RequestParser

end BlogServer.Http
