/-
Responses on the wire (`ResponseHelperLibrary::to_buffers`) and back through the response parser.

One run lemma per part, as for requests: status line, header line, header section, body. What differs is framing: a
header that announces chunks outweighs every Content-Length, and the size starts from whatever an uninitialised
`contentsize` holds.

- `chunked_body_length`: the body read from chunks is shorter than the chunks.
- `serialized_accepts_iff`: a serialized response is accepted as one response with its status and body exactly when
  there is a status line for it, no header announces chunks, and the headers announce the size of the body.
-/
import BlogServer.Http.ResponseParser
import BlogServer.Http.ResponseHelper

namespace BlogServer.Http

open BlogServer.Byte BlogServer.Scan BlogServer.Decimal

namespace ResponseParser

/-! ## Reading the status line -/

/-- the status that a client reads from the status line -/
def sentCode (status : ℤ) : ℤ :=
  if status = StatusCode.ok ∨ status = StatusCode.not_found ∨ status = StatusCode.moved_temporarily then status
  else StatusCode.bad_request

/-- a byte of the reason phrase -/
def isReason (c : UInt8) : Bool := isChar c && !isCtl c && (!isTspecial c || c == SP)

theorem not_isReason (c : UInt8) : (!isChar c || isCtl c || (isTspecial c && c != SP)) = !isReason c := by
  simp [isReason, Bool.or_assoc, bne]

theorem isReason_ne {c d : UInt8} (hc : isReason c = true) (hd : isReason d = false) : c ≠ d := by
  rintro rfl; simp [hc] at hd

theorem reads_http (u : ResponseUninit) :
    Reads consume (fresh u) (ascii "HTTP/1.0 ")
      (.statusCode1, { ResponseBuilder.fresh u with
        httpVersionMajor := 1
        httpVersionMinor := 0
        fullmessage := ascii "HTTP/1.0 " }) := by
  simp [Reads, feed, consume, fresh, ResponseBuilder.fresh, ascii, isDigit, (by decide : int32 1 = 1)]

theorem reads_code {x y z : UInt8} (hx : (49 ≤ x && x ≤ 53) = true) (hy : isDigit y = true) (hz : isDigit z = true)
    (b : ResponseBuilder) :
    Reads consume (.statusCode1, b) [x, y, z, SP]
      (.reasonPhrase, { b with
        code := int32 (int32 (((x.toNat : ℤ) - 48) * 10 + (y.toNat : ℤ) - 48) * 10 + (z.toNat : ℤ) - 48)
        fullmessage := b.fullmessage ++ [x, y, z, SP] }) := by
  simp only [Bool.and_eq_true, decide_eq_true_eq] at hx
  simp [Reads, feed, consume, hx, hy, hz]

theorem reads_reason {p : Bytes} (hp : ∀ c ∈ p, isReason c = true) (b : ResponseBuilder) :
    Reads consume (.reasonPhrase, b) (p ++ CRLF)
      (.headerLineStart, { b with
        reasonphrase := b.reasonphrase ++ p
        fullmessage := b.fullmessage ++ (p ++ CRLF) }) := by
  have hloop : Reads consume _ p _ := Reads.loop_mem
    (fun u => (.reasonPhrase, { b with reasonphrase := b.reasonphrase ++ u, fullmessage := b.fullmessage ++ u }))
    fun u a ha => by simp [consume, not_isReason, hp a ha, isReason_ne (hp a ha) (d := CR) (by decide)]
  have hend : Reads consume (.reasonPhrase, { b with
      reasonphrase := b.reasonphrase ++ p, fullmessage := b.fullmessage ++ p }) CRLF
      (.headerLineStart, { b with
        reasonphrase := b.reasonphrase ++ p
        fullmessage := b.fullmessage ++ (p ++ CRLF) }) := by
    simp [Reads, feed, consume]
  have hstart : ({ b with reasonphrase := b.reasonphrase ++ [], fullmessage := b.fullmessage ++ [] } :
      ResponseBuilder) = b := by simp
  rw [hstart] at hloop
  exact hloop.append hend

/-- **The status line** of `to_buffer` is read with the status it was written for, where there is a line for it. -/
theorem reads_statusLine (status : ℤ) (u : ResponseUninit) :
    ∃ p f, Reads consume (fresh u) (toBuffer status)
      (.headerLineStart, { ResponseBuilder.fresh u with
        httpVersionMajor := 1
        httpVersionMinor := 0
        code := sentCode status
        reasonphrase := p
        fullmessage := f }) := by
  have hline : ∀ {x y z : UInt8} {p : Bytes} {k : ℤ}, (49 ≤ x && x ≤ 53) = true → isDigit y = true →
      isDigit z = true → (∀ c ∈ p, isReason c = true) →
      int32 (int32 (((x.toNat : ℤ) - 48) * 10 + (y.toNat : ℤ) - 48) * 10 + (z.toNat : ℤ) - 48) = k →
      ∃ p' f, Reads consume (fresh u) (ascii "HTTP/1.0 " ++ [x, y, z, SP] ++ (p ++ CRLF))
        (.headerLineStart, { ResponseBuilder.fresh u with
          httpVersionMajor := 1
          httpVersionMinor := 0
          code := k
          reasonphrase := p'
          fullmessage := f }) := by
    rintro x y z p k hx hy hz hp rfl
    exact ⟨_, _, ((reads_http u).append (reads_code hx hy hz _)).append (reads_reason hp _)⟩
  have hbad := hline (x := 52) (y := 48) (z := 48) (p := ascii "Bad Request") (k := 400) (by decide) (by decide)
    (by decide) (by decide +kernel) (by decide)
  by_cases h200 : status = StatusCode.ok
  · subst h200
    exact hline (x := 50) (y := 48) (z := 48) (p := ascii "OK") (by decide) (by decide) (by decide)
      (by decide +kernel) (by decide)
  by_cases h404 : status = StatusCode.not_found
  · subst h404
    exact hline (x := 52) (y := 48) (z := 52) (p := ascii "Not Found") (by decide) (by decide) (by decide)
      (by decide +kernel) (by decide)
  by_cases h302 : status = StatusCode.moved_temporarily
  · subst h302
    exact hline (x := 51) (y := 48) (z := 50) (p := ascii "Moved Temporarily") (by decide) (by decide) (by decide)
      (by decide +kernel) (by decide)
  have hdefault : toBuffer status = ascii "HTTP/1.0 400 Bad Request\r\n" := by simp [toBuffer, h200, h404, h302]
  have hsent : sentCode status = 400 := by simp [sentCode, h200, h404, h302]
  rw [hdefault, hsent]
  exact hbad

/-! ## Reading the header section -/

/-- a header line up to its CR -/
theorem reads_header {h : Header} (hs : h.Sendable) (b : ResponseBuilder) :
    Reads consume (.headerLineStart, b) (h.name ++ ascii ": " ++ h.value)
      (.headerValue, { b with
        headers := b.headers ++ [h]
        fullmessage := b.fullmessage ++ (h.name ++ ascii ": " ++ h.value) }) := by
  obtain ⟨name, value⟩ := h
  obtain ⟨hne, hname, hvalue⟩ := hs
  obtain ⟨c, name, rfl⟩ := List.exists_cons_of_ne_nil hne
  have hc := hname c (by simp)
  have hstart : consume (.headerLineStart, b) c = (.indeterminate, .headerName,
      { b with headers := b.headers ++ [⟨[c], []⟩], fullmessage := b.fullmessage ++ [c] }) := by
    simp [consume, not_isToken, hc, isToken_ne hc (d := SP) (by decide), isToken_ne hc (d := HT) (by decide),
      isToken_ne hc (d := CR) (by decide)]
  have hloop : Reads consume _ name _ := Reads.loop_mem
    (fun u => (.headerName,
      { b with headers := b.headers ++ [⟨c :: u, []⟩], fullmessage := b.fullmessage ++ c :: u }))
    fun u a ha => by
      have ht := hname a (by simp [ha])
      simp [consume, not_isToken, ht, isToken_ne ht (d := COLON) (by decide), List.modifyLast_concat]
  have hvalues : Reads consume _ value _ := Reads.loop_mem
    (fun u => (.headerValue,
      { b with
        headers := b.headers ++ [⟨c :: name, u⟩]
        fullmessage := b.fullmessage ++ (c :: name ++ ascii ": " ++ u) }))
    fun u a ha => by
      have hv := hvalue a ha
      simp [consume, hv, isCtl_ne hv (d := CR) (by decide), List.modifyLast_concat]
  have hsep : Reads consume (.headerName,
      { b with headers := b.headers ++ [⟨c :: name, []⟩], fullmessage := b.fullmessage ++ c :: name })
      (ascii ": ") (.headerValue,
        { b with
          headers := b.headers ++ [⟨c :: name, []⟩]
          fullmessage := b.fullmessage ++ (c :: name ++ ascii ": " ++ []) }) := by
    simp [Reads, feed, consume, ascii]
  simpa using (Reads.cons hstart hloop).append (hsep.append hvalues)

/-- the end of a header line, where its announcement is read -/
theorem reads_lineEnd {n : ℤ} {b : ResponseBuilder}
    (hn : announce b.contentsize (RequestParser.back b.headers) = some n) :
    ∃ k f, Reads consume (.headerValue, b) CRLF
      (.headerLineStart, { b with
        contentsize := n
        chunked := b.chunked || isChunked (RequestParser.back b.headers)
        keepAlive := k
        fullmessage := f }) := by
  by_cases hl : isContentLength (RequestParser.back b.headers).name = true
  · obtain ⟨hk, h0⟩ := (RequestParser.announce_length hl).1 hn
    exact ⟨_, _, by simp [Reads, feed, consume, readContentLength, hl, hk, h0, noteFlags_eq]; exact ⟨rfl, rfl⟩⟩
  · obtain rfl : b.contentsize = n := by simpa [announce, hl] using hn
    exact ⟨_, _, by simp [Reads, feed, consume, readContentLength, hl, noteFlags_eq]; exact ⟨rfl, rfl⟩⟩

theorem rejects_lineEnd {b : ResponseBuilder}
    (hn : announce b.contentsize (RequestParser.back b.headers) = none) :
    Rejects consume (.headerValue, b) CRLF := by
  have hl : isContentLength (RequestParser.back b.headers).name = true := by
    by_contra hl; simp [announce, hl] at hn
  rw [announce, if_pos hl] at hn
  cases hk : stoi (RequestParser.back b.headers).value with
  | none => simp [Rejects, feed, consume, readContentLength, hl, hk]
  | some k =>
    have h0 : ¬ 0 ≤ k := by simpa [hk, Option.filter_some] using hn
    simp [Rejects, feed, consume, readContentLength, hl, hk, h0]

/-- **The header section** is read with the announcements of its lines, one after the other. -/
theorem reads_headerLines {hs : List Header} (hok : ∀ h ∈ hs, h.Sendable) {b : ResponseBuilder} {n : ℤ}
    (hn : hs.foldlM announce b.contentsize = some n) :
    ∃ k f, Reads consume (.headerLineStart, b) (hs.flatMap Header.line)
      (.headerLineStart, { b with
        headers := b.headers ++ hs
        contentsize := n
        chunked := b.chunked || hs.any isChunked
        keepAlive := k
        fullmessage := f }) := by
  induction hs generalizing b with
  | nil =>
    obtain rfl : b.contentsize = n := by simpa using hn
    exact ⟨b.keepAlive, b.fullmessage, by simpa using Reads.nil _⟩
  | cons h hs ih =>
    rw [List.foldlM_cons, Option.bind_eq_bind, Option.bind_eq_some_iff] at hn
    obtain ⟨n₁, hn₁, hn⟩ := hn
    obtain ⟨k₁, f₁, h₁⟩ := reads_lineEnd (b := { b with
      headers := b.headers ++ [h]
      fullmessage := b.fullmessage ++ (h.name ++ ascii ": " ++ h.value) }) (by simpa using hn₁)
    obtain ⟨k, f, h₂⟩ := ih (fun x hx => hok x (by simp [hx])) (b := { b with
      headers := b.headers ++ [h]
      contentsize := n₁
      chunked := b.chunked || isChunked h
      keepAlive := k₁
      fullmessage := f₁ }) hn
    have hline := (reads_header (hok h (by simp)) b).append h₁
    rw [RequestParser.back_append] at hline
    exact ⟨k, f, by simpa [Header.line, Bool.or_assoc] using hline.append h₂⟩

/-- a header section with an unreadable size is refused -/
theorem rejects_headerLines {hs : List Header} (hok : ∀ h ∈ hs, h.Sendable) {b : ResponseBuilder}
    (hn : hs.foldlM announce b.contentsize = none) :
    Rejects consume (.headerLineStart, b) (hs.flatMap Header.line) := by
  induction hs generalizing b with
  | nil => simp at hn
  | cons h hs ih =>
    have hread := reads_header (hok h (by simp)) b
    rw [List.flatMap_cons]
    cases hn₁ : announce b.contentsize h with
    | none =>
      have hend := rejects_lineEnd (b := { b with
        headers := b.headers ++ [h]
        fullmessage := b.fullmessage ++ (h.name ++ ascii ": " ++ h.value) }) (by simpa using hn₁)
      exact (hread.rejects hend).append _
    | some n₁ =>
      obtain ⟨k₁, f₁, h₁⟩ := reads_lineEnd (b := { b with
        headers := b.headers ++ [h]
        fullmessage := b.fullmessage ++ (h.name ++ ascii ": " ++ h.value) }) (by simpa using hn₁)
      refine (hread.append h₁).rejects (ih (fun x hx => hok x (by simp [hx])) ?_)
      simpa [hn₁] using hn

/-! ## Reading the body -/

/-- the countdown over a part of the body that does not complete it -/
theorem reads_body {w : Bytes} {b : ResponseBuilder} (hlt : (w.length : ℤ) < b.contentsize)
    (hn : b.contentsize < 2147483648) :
    Reads consume (.expectingBody, b) w
      (.expectingBody, { b with
        contentsize := b.contentsize - w.length
        body := b.body ++ w
        fullmessage := b.fullmessage ++ w }) := by
  have hloop : Reads consume _ w _ := Reads.loop
    (fun u => (.expectingBody, { b with
      contentsize := b.contentsize - u.length, body := b.body ++ u, fullmessage := b.fullmessage ++ u })) ?_
  · simpa using hloop
  · intro u a v hw
    have hlen : (u.length : ℤ) + 1 ≤ w.length := by rw [hw]; simp
    have h32 : int32 (b.contentsize - u.length - 1) = b.contentsize - u.length - 1 :=
      int32_of_range (by omega) (by omega)
    have hne : b.contentsize - u.length - 1 ≠ 0 := by omega
    simp [consume, h32, hne]
    omega

/-- a body of the announced size is complete at its last byte -/
theorem accepts_body {w : Bytes} (hne : w ≠ []) {b : ResponseBuilder} (hb : b.contentsize = w.length)
    (hlt : w.length < 2147483648) :
    Accepts consume (.expectingBody, b) w
      (.expectingBody, { b with contentsize := 0, body := b.body ++ w, fullmessage := b.fullmessage ++ w }) := by
  obtain ⟨u, c, rfl⟩ := (List.eq_nil_or_concat w).resolve_left hne
  rw [List.concat_eq_append] at *
  refine accepts_snoc (reads_body (by rw [hb]; simp) (by rw [hb]; exact_mod_cast hlt)) ?_
  simp [consume, hb]

theorem readContentLength_body (b : ResponseBuilder) : (readContentLength b).2.body = b.body := by
  unfold readContentLength
  split_ifs
  · cases stoi (RequestParser.back b.headers).value <;> rfl
  · rfl

/-- a step adds at most the byte it reads to the body -/
theorem consume_body_length (s : St) (c : UInt8) : (consume s c).2.2.body.length ≤ s.2.body.length + 1 := by
  obtain ⟨st, b⟩ := s
  cases st with
  | headerValue =>
    simp only [consume]
    split_ifs
    · have hbody := readContentLength_body { b with fullmessage := b.fullmessage ++ [c] }
      rcases hread : readContentLength { b with fullmessage := b.fullmessage ++ [c] } with ⟨ok, b'⟩
      rw [hread] at hbody
      simp only at hbody
      cases ok <;> simp [noteFlags_eq, hbody]
    · simp
    · simp
  | chunkSize =>
    simp only [consume]
    split_ifs
    · simp
    · cases stoiHex b.chunksizehex <;> simp
    · simp
  | expectingBody => simp [consume]
  | _ =>
    simp only [consume]
    split_ifs <;> simp

theorem feed_body_length (s : St) (w : Bytes) :
    (feed consume s w).2.1.2.body.length ≤ s.2.body.length + w.length := by
  induction w generalizing s with
  | nil => simp
  | cons c w ih =>
    have hstep := consume_body_length s c
    rcases hs : consume s c with ⟨v, s'⟩
    rw [hs] at hstep
    simp only at hstep
    by_cases hv : v = .indeterminate
    · subst hv
      rw [feed_cons_indeterminate hs, List.length_cons]
      have := ih s'
      omega
    · rw [feed_cons_answer hs hv, List.length_cons]
      simp only
      omega

/-- **A chunked body is shorter than its chunks.** -/
theorem chunked_body_length {w : Bytes} (hne : w ≠ []) (b : ResponseBuilder) :
    (feed consume (.chunkSizeStart, b) w).2.1.2.body.length < b.body.length + w.length := by
  obtain ⟨c, w, rfl⟩ := List.exists_cons_of_ne_nil hne
  rw [List.length_cons]
  by_cases hc : isHex c = true
  · have hs : consume (.chunkSizeStart, b) c = (.indeterminate, .chunkSize,
        { b with fullmessage := b.fullmessage ++ [c], chunksizehex := [c] }) := by simp [consume, hc]
    have := feed_body_length (.chunkSize, { b with fullmessage := b.fullmessage ++ [c], chunksizehex := [c] }) w
    rw [feed_cons_indeterminate hs]
    simp only at this
    omega
  · have hs : consume (.chunkSizeStart, b) c = (.bad, .chunkSizeStart,
        { b with fullmessage := b.fullmessage ++ [c] }) := by simp [consume, hc]
    rw [feed_cons_answer hs (by decide)]
    simp only
    omega

/-! ## The blank line -/

theorem reads_blankLine_cr (b : ResponseBuilder) : Reads consume (.headerLineStart, b) [CR]
    (.expectingNewline3, { b with fullmessage := b.fullmessage ++ [CR] }) := by
  simp [Reads, feed, consume]

/-- after the blank line the first chunk is expected -/
theorem reads_blankLine_chunked {b : ResponseBuilder} (hchunked : b.chunked = true) :
    Reads consume (.headerLineStart, b) CRLF
      (.chunkSizeStart, { b with fullmessage := b.fullmessage ++ [CR] ++ [LF] }) :=
  (reads_blankLine_cr b).snoc (by simp [consume, hchunked])

/-- after the blank line a body is expected -/
theorem reads_blankLine {b : ResponseBuilder} (hchunked : b.chunked = false) (hsize : b.contentsize ≠ 0) :
    Reads consume (.headerLineStart, b) CRLF
      (.expectingBody, { b with fullmessage := b.fullmessage ++ [CR] ++ [LF] }) :=
  (reads_blankLine_cr b).snoc (by simp [consume, hchunked, hsize])

/-- the blank line ends a response without a body -/
theorem accepts_blankLine {b : ResponseBuilder} (hchunked : b.chunked = false) (hsize : b.contentsize = 0) :
    Accepts consume (.headerLineStart, b) CRLF
      (.expectingNewline3, { b with fullmessage := b.fullmessage ++ [CR] ++ [LF] }) := by
  apply (reads_blankLine_cr b).accepts
  simp [Accepts, feed, consume, hchunked, hsize]

/-- **The rest of a response.** A blank line and a body complete the response, with that body, exactly when chunks were
not announced and the body has the announced size. -/
theorem accepts_rest_iff {w : Bytes} {b : ResponseBuilder} (h0 : 0 ≤ b.contentsize) (hn : b.contentsize < 2147483648)
    (hb : b.body = []) (code : ℤ) :
    (∃ t, Accepts consume (.headerLineStart, b) (CRLF ++ w) t ∧ t.2.code = code ∧ t.2.body = w) ↔
      b.code = code ∧ b.chunked = false ∧ b.contentsize = w.length := by
  by_cases hchunked : b.chunked = true
  · simp only [Accepts, feed_append (reads_blankLine_chunked hchunked)]
    refine iff_of_false ?_ fun h => absurd (hchunked.symm.trans h.2.1) (by decide)
    rintro ⟨t, ht, -, hbody⟩
    have hne : w ≠ [] := by
      rintro rfl
      cases ht
    have := chunked_body_length hne { b with fullmessage := b.fullmessage ++ [CR] ++ [LF] }
    rw [ht, hb] at this
    simp only [hbody, List.length_nil] at this
    omega
  · rw [Bool.not_eq_true] at hchunked
    by_cases hz : b.contentsize = 0
    · simp only [Accepts, feed_stop (accepts_blankLine hchunked hz) (by decide), List.nil_append]
      constructor
      · rintro ⟨t, ht, hcode, -⟩
        obtain ⟨rfl, rfl⟩ : _ = t ∧ w = [] := by simpa using ht
        exact ⟨hcode, hchunked, hz⟩
      · rintro ⟨hcode, -, hw⟩
        obtain rfl : w = [] := List.length_eq_zero_iff.1 (by omega)
        exact ⟨_, rfl, hcode, hb⟩
    · simp only [Accepts, feed_append (reads_blankLine hchunked hz)]
      rcases lt_trichotomy (w.length : ℤ) b.contentsize with hlt | heq | hgt
      · rw [reads_body (b := { b with fullmessage := b.fullmessage ++ [CR] ++ [LF] }) hlt hn]
        simp; omega
      · have hne : w ≠ [] := by rintro rfl; exact hz heq.symm
        rw [accepts_body hne (b := { b with fullmessage := b.fullmessage ++ [CR] ++ [LF] }) heq.symm (by omega)]
        simp [hchunked, heq, hb]
      · have hlen : (w.take b.contentsize.toNat).length = b.contentsize.toNat := by simp; omega
        have htake := accepts_body (w := w.take b.contentsize.toNat)
          (b := { b with fullmessage := b.fullmessage ++ [CR] ++ [LF] })
          (by rw [← List.length_pos_iff]; omega) (by rw [hlen]; simp only; omega) (by omega)
        rw [← List.take_append_drop b.contentsize.toNat w, feed_stop htake (by decide)]
        have hrest : w.drop b.contentsize.toNat ≠ [] := by rw [← List.length_pos_iff, List.length_drop]; omega
        simp [hrest]; omega

/-! ## Reading a serialized response -/

/-- the bytes are one response with the status and the body of `r` for every new parser and builder -/
def AcceptedAs (r : Response) (w : Bytes) : Prop :=
  ∀ u, ∃ t, Accepts consume (fresh u) w t ∧ t.2.code = r.code ∧ t.2.body = r.body

/-- what one builder makes of a serialized response -/
theorem serialized_accepts {r : Response} (hok : ∀ h ∈ r.headers.headers, h.Sendable) {u : ResponseUninit} {n : ℤ}
    (hn : r.headers.headers.foldlM announce u.contentsize = some n) (h0 : 0 ≤ n) (h1 : n < 2147483648) :
    (∃ t, Accepts consume (fresh u) (toBuffers r) t ∧ t.2.code = r.code ∧ t.2.body = r.body) ↔
      sentCode r.code = r.code ∧ r.headers.headers.any isChunked = false ∧ n = r.body.length := by
  obtain ⟨p, f, hline⟩ := reads_statusLine r.code u
  obtain ⟨k, f', hheaders⟩ := reads_headerLines hok (b := { ResponseBuilder.fresh u with
    httpVersionMajor := 1
    httpVersionMinor := 0
    code := sentCode r.code
    reasonphrase := p
    fullmessage := f }) hn
  simp only [Accepts, toBuffers, feed_append hline, List.append_assoc, feed_append hheaders]
  exact accepts_rest_iff h0 h1 rfl r.code

theorem not_serialized_accepts {r : Response} (hok : ∀ h ∈ r.headers.headers, h.Sendable) {u : ResponseUninit}
    (hn : r.headers.headers.foldlM announce u.contentsize = none) (t : St) :
    ¬ Accepts consume (fresh u) (toBuffers r) t := by
  obtain ⟨p, f, hline⟩ := reads_statusLine r.code u
  rw [toBuffers, List.append_assoc]
  exact (hline.rejects ((rejects_headerLines hok hn).append _)).not_accepts

/-- either some Content-Length governs or the size announced before stands -/
theorem announced_const (hs : List Header) :
    (∀ n, hs.foldlM announce n = some n) ∨ ∀ n, hs.foldlM announce n = hs.foldlM announce 0 := by
  induction hs with
  | nil => exact Or.inl fun n => rfl
  | cons h hs ih =>
    by_cases hl : isContentLength h.name = true
    · exact Or.inr fun n => by simp [announce, hl]
    · rcases ih with ih | ih
      · exact Or.inl fun n => by simp [announce, hl, ih]
      · exact Or.inr fun n => by simp [announce, hl, ih n]

/-- **A serialized response is accepted as one response with its status and its body**, by every new parser and builder,
exactly when there is a status line for it, no header announces chunks, and the headers announce the size of the body
whatever the builder started from. -/
theorem serialized_accepts_iff {r : Response} (hok : ∀ h ∈ r.headers.headers, h.Sendable) :
    AcceptedAs r (toBuffers r) ↔
      sentCode r.code = r.code ∧ (∀ h ∈ r.headers.headers, isChunked h = false) ∧
        ∀ n, r.headers.headers.foldlM announce n = some (r.body.length : ℤ) := by
  have hany : r.headers.headers.any isChunked = false ↔ ∀ h ∈ r.headers.headers, isChunked h = false := by simp
  rw [← hany]
  constructor
  · intro h
    have hstart : ∀ n₀ : ℤ, 0 ≤ n₀ → n₀ < 2147483648 →
        sentCode r.code = r.code ∧ r.headers.headers.any isChunked = false ∧
          r.headers.headers.foldlM announce n₀ = some (r.body.length : ℤ) := by
      intro n₀ h0 h1
      obtain ⟨t, ht⟩ := h ⟨0, 0, 0, n₀, 0⟩
      cases hn : r.headers.headers.foldlM announce n₀ with
      | none => exact absurd ht.1 (not_serialized_accepts hok (u := ⟨0, 0, 0, n₀, 0⟩) hn t)
      | some n =>
        obtain ⟨h0', h1'⟩ := RequestParser.announced_range hn h0 h1
        obtain ⟨hcode, hchunked, rfl⟩ := (serialized_accepts hok (u := ⟨0, 0, 0, n₀, 0⟩) hn h0' h1').1 ⟨t, ht⟩
        exact ⟨hcode, hchunked, rfl⟩
    obtain ⟨hcode, hchunked, hzero⟩ := hstart 0 le_rfl (by decide)
    refine ⟨hcode, hchunked, ?_⟩
    rcases announced_const r.headers.headers with hid | hconst
    · -- no header announces a size: builders that start from 0 and from 1 cannot both be right
      have hone := (hstart 1 (by decide) (by decide)).2.2
      rw [hid] at hzero hone
      rw [← hone] at hzero
      exact absurd (Option.some.inj hzero) (by decide)
    · intro n
      rw [hconst, hzero]
  · rintro ⟨hcode, hchunked, hlen⟩ u
    obtain ⟨h0, h1⟩ := RequestParser.announced_range (hlen 0) le_rfl (by decide)
    exact (serialized_accepts hok (hlen u.contentsize) h0 h1).2 ⟨hcode, hchunked, rfl⟩

end ResponseParser

end BlogServer.Http
