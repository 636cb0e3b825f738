/-
The response parser (`include/response_parser.h`, `src/response_parser.cc`) and the builder it fills
(`include/response_builder.h`).

The sizes live in the builder here, the parser itself has only its state. The loop of the header file differs from that
of the request parser: it stops early at a bad byte and at a good last chunk, but reads on after any other good byte.

- `consume_moves`: what a step that gives no answer can do, one constructor of `Moves` per transition.
- `consume_finishes`: the three steps that complete a response.
- `header_simulation`: in the header section the two parsers take the same steps.
- `parse_headersRead`, `headers_of_done`: what has been parsed without a bad byte has sendable headers with readable
  sizes.
-/
import BlogServer.Http.RequestCodec

namespace BlogServer.Http

open BlogServer.Byte BlogServer.Scan BlogServer.Decimal

/-! ## The builder -/

/-- the members of a default-initialised `response_builder` that hold arbitrary values -/
structure ResponseUninit where
  httpVersionMajor : ℤ
  httpVersionMinor : ℤ
  code : ℤ
  contentsize : ℤ
  chunksize : ℤ

/-- `class response_builder` -/
structure ResponseBuilder where
  httpVersionMajor : ℤ
  httpVersionMinor : ℤ
  code : ℤ
  reasonphrase : Bytes
  headers : List Header
  body : Bytes
  fullmessage : Bytes
  keepAlive : Bool
  chunked : Bool
  contentsize : ℤ
  chunksizehex : Bytes
  chunksize : ℤ
deriving DecidableEq

/-- a new `response_builder` -/
def ResponseBuilder.fresh (u : ResponseUninit) : ResponseBuilder :=
  ⟨u.httpVersionMajor, u.httpVersionMinor, u.code, [], [], [], [], false, false, u.contentsize, [], u.chunksize⟩

/-- `response_builder::build_response` -/
def ResponseBuilder.buildResponse (b : ResponseBuilder) : Response where
  code := b.code
  headers := headerMap b.headers
  body := b.body

/-! ## The parser -/

namespace ResponseParser

/-- `response_parser::state` -/
inductive State where
  | httpVersionH
  | httpVersionT1
  | httpVersionT2
  | httpVersionP
  | httpVersionSlash
  | httpVersionMajorStart
  | httpVersionMajor
  | httpVersionMinorStart
  | httpVersionMinor
  | statusCode1
  | statusCode2
  | statusCode3
  | spaceBeforeReasonPhrase
  | reasonPhrase
  | expectingNewline1
  | headerLineStart
  | headerLws
  | headerName
  | spaceBeforeHeaderValue
  | headerValue
  | expectingNewline2
  | expectingNewline3
  | expectingBody
  | chunkSizeStart
  | chunkSize
  | expectingNewline4
  | expectingChunk
  | expectingNewline5
deriving DecidableEq, Repr

/-- a parser, which is its state, and the builder passed to it -/
abbrev St := State × ResponseBuilder

/-- a new `response_parser` and a new builder -/
def fresh (u : ResponseUninit) : St := (.httpVersionH, .fresh u)

/-- the `try` block of `header_value`; `false` is the `catch` -/
def readContentLength (res : ResponseBuilder) : Bool × ResponseBuilder :=
  if isContentLength (RequestParser.back res.headers).name then
    match stoi (RequestParser.back res.headers).value with
    | none => (false, res)
    -- a negative size converted to `size_t` exceeds `max_size`: `reserve` throws
    | some n => (decide (0 ≤ n), { res with contentsize := n })
  else (true, res)

/-- the header is `Transfer-Encoding: chunked`, whatever the letter case -/
def isChunked (h : Header) : Bool :=
  Bytes.strcasecmp h.name (ascii "Transfer-Encoding") && Bytes.strcasecmp h.value (ascii "chunked")

/-- the two `if`s of `header_value` that set `chunked` and `keep_alive` -/
def noteFlags (res : ResponseBuilder) : ResponseBuilder :=
  let res := if isChunked (RequestParser.back res.headers) then { res with chunked := true } else res
  if RequestParser.isKeepAlive (RequestParser.back res.headers) then { res with keepAlive := true } else res

/-- `response_parser::consume` -/
def consume (s : St) (input : UInt8) : Verdict × St :=
  let st := s.1
  let res := { s.2 with fullmessage := s.2.fullmessage ++ [input] }
  match st with
  | .httpVersionH => if input = 72 then (.indeterminate, .httpVersionT1, res) else (.bad, st, res)
  | .httpVersionT1 => if input = 84 then (.indeterminate, .httpVersionT2, res) else (.bad, st, res)
  | .httpVersionT2 => if input = 84 then (.indeterminate, .httpVersionP, res) else (.bad, st, res)
  | .httpVersionP => if input = 80 then (.indeterminate, .httpVersionSlash, res) else (.bad, st, res)
  | .httpVersionSlash =>
    if input = SLASH then
      (.indeterminate, .httpVersionMajorStart, { res with httpVersionMajor := 0, httpVersionMinor := 0 })
    else (.bad, st, res)
  | .httpVersionMajorStart =>
    if isDigit input then
      (.indeterminate, .httpVersionMajor,
        { res with httpVersionMajor := int32 (res.httpVersionMajor * 10 + (input.toNat : ℤ) - 48) })
    else (.bad, st, res)
  | .httpVersionMajor =>
    if input = DOT then (.indeterminate, .httpVersionMinorStart, res)
    else if isDigit input then
      (.indeterminate, st, { res with httpVersionMajor := int32 (res.httpVersionMajor * 10 + (input.toNat : ℤ) - 48) })
    else (.bad, st, res)
  | .httpVersionMinorStart =>
    if isDigit input then
      (.indeterminate, .httpVersionMinor,
        { res with httpVersionMinor := int32 (res.httpVersionMinor * 10 + (input.toNat : ℤ) - 48) })
    else (.bad, st, res)
  | .httpVersionMinor =>
    if input = SP then (.indeterminate, .statusCode1, res)
    else if isDigit input then
      (.indeterminate, st, { res with httpVersionMinor := int32 (res.httpVersionMinor * 10 + (input.toNat : ℤ) - 48) })
    else (.bad, st, res)
  | .statusCode1 =>
    if 49 ≤ input && input ≤ 53 then (.indeterminate, .statusCode2, { res with code := (input.toNat : ℤ) - 48 })
    else (.bad, st, res)
  | .statusCode2 =>
    if isDigit input then
      (.indeterminate, .statusCode3, { res with code := int32 (res.code * 10 + (input.toNat : ℤ) - 48) })
    else (.bad, st, res)
  | .statusCode3 =>
    if isDigit input then
      (.indeterminate, .spaceBeforeReasonPhrase, { res with code := int32 (res.code * 10 + (input.toNat : ℤ) - 48) })
    else (.bad, st, res)
  | .spaceBeforeReasonPhrase => if input = SP then (.indeterminate, .reasonPhrase, res) else (.bad, st, res)
  | .reasonPhrase =>
    if input = CR then (.indeterminate, .expectingNewline1, res)
    else if !isChar input || isCtl input || (isTspecial input && input != SP) then (.bad, st, res)
    else (.indeterminate, st, { res with reasonphrase := res.reasonphrase ++ [input] })
  | .expectingNewline1 => if input = LF then (.indeterminate, .headerLineStart, res) else (.bad, st, res)
  | .headerLineStart =>
    if input = CR then (.indeterminate, .expectingNewline3, res)
    else if !res.headers.isEmpty && (input == SP || input == HT) then (.indeterminate, .headerLws, res)
    else if !isChar input || isCtl input || isTspecial input then (.bad, st, res)
    else (.indeterminate, .headerName, { res with headers := res.headers ++ [⟨[input], []⟩] })
  | .headerLws =>
    if input = CR then (.indeterminate, .expectingNewline2, res)
    else if input == SP || input == HT then (.indeterminate, st, res)
    else if isCtl input then (.bad, st, res)
    else
      (.indeterminate, .headerValue,
        { res with headers := res.headers.modifyLast fun h => { h with value := h.value ++ [input] } })
  | .headerName =>
    if input = COLON then (.indeterminate, .spaceBeforeHeaderValue, res)
    else if !isChar input || isCtl input || isTspecial input then (.bad, st, res)
    else
      (.indeterminate, st,
        { res with headers := res.headers.modifyLast fun h => { h with name := h.name ++ [input] } })
  | .spaceBeforeHeaderValue => if input = SP then (.indeterminate, .headerValue, res) else (.bad, st, res)
  | .headerValue =>
    if input = CR then
      match readContentLength res with
      | (false, res) => (.bad, st, res)
      | (true, res) => (.indeterminate, .expectingNewline2, noteFlags res)
    else if isCtl input then (.bad, st, res)
    else
      (.indeterminate, st,
        { res with headers := res.headers.modifyLast fun h => { h with value := h.value ++ [input] } })
  | .expectingNewline2 => if input = LF then (.indeterminate, .headerLineStart, res) else (.bad, st, res)
  | .expectingNewline3 =>
    if input ≠ LF then (.bad, st, res)
    else if res.chunked then (.indeterminate, .chunkSizeStart, res)
    else if res.contentsize = 0 then (if input = LF then .good else .bad, st, res)
    else (.indeterminate, .expectingBody, res)
  | .expectingBody =>
    let res := { res with contentsize := int32 (res.contentsize - 1), body := res.body ++ [input] }
    (if res.contentsize = 0 then .good else .indeterminate, st, res)
  | .chunkSizeStart =>
    if isHex input then (.indeterminate, .chunkSize, { res with chunksizehex := [input] }) else (.bad, st, res)
  | .chunkSize =>
    if isHex input then (.indeterminate, st, { res with chunksizehex := res.chunksizehex ++ [input] })
    else if input = CR then
      match stoiHex res.chunksizehex with
      | none => (.bad, .expectingNewline4, res)
      | some n =>
        let res := { res with chunksize := n }
        (if res.chunksize = 0 then .good else .indeterminate, .expectingNewline4, res)
    else (.bad, st, res)
  | .expectingNewline4 => if input = LF then (.indeterminate, .expectingChunk, res) else (.bad, st, res)
  | .expectingChunk =>
    let res := { res with chunksize := int32 (res.chunksize - 1) }
    if input = CR ∧ res.chunksize = -1 then (.indeterminate, .expectingNewline5, res)
    else (.indeterminate, st, { res with body := res.body ++ [input] })
  | .expectingNewline5 => if input = LF then (.indeterminate, .chunkSizeStart, res) else (.bad, st, res)

/-- the loop of `response_parser::parse`; `result` is the verdict of the byte before -/
def parseLoop (s : St) (result : Verdict) : Bytes → Verdict × Bytes × St
  | [] => (result, [], s)
  | input :: rest =>
    let (result, s') := consume s input
    if result = .bad then (result, rest, s')
    else if result = .good ∧ s'.2.chunked = true ∧ s'.2.chunksize = 0 then (result, rest, s')
    else parseLoop s' result rest

/-- `response_parser::parse`; the second component is what the returned iterator has not passed -/
def parse (s : St) (data : Bytes) : Verdict × Bytes × St := parseLoop s .indeterminate data

/-! ## What a step can do -/

/-- the builder after `fullmessage.push_back` -/
def saw (b : ResponseBuilder) (c : UInt8) : ResponseBuilder := { b with fullmessage := b.fullmessage ++ [c] }

def addName (b : ResponseBuilder) (c : UInt8) : ResponseBuilder :=
  { b with headers := b.headers.modifyLast fun h => { h with name := h.name ++ [c] } }

def addValue (b : ResponseBuilder) (c : UInt8) : ResponseBuilder :=
  { b with headers := b.headers.modifyLast fun h => { h with value := h.value ++ [c] } }

def addBody (b : ResponseBuilder) (c : UInt8) : ResponseBuilder := { b with body := b.body ++ [c] }

/-- the transitions of the parser that give no answer -/
inductive Moves : St → UInt8 → St → Prop where
  | versionH {b} : Moves (.httpVersionH, b) 72 (.httpVersionT1, saw b 72)
  | versionT1 {b} : Moves (.httpVersionT1, b) 84 (.httpVersionT2, saw b 84)
  | versionT2 {b} : Moves (.httpVersionT2, b) 84 (.httpVersionP, saw b 84)
  | versionP {b} : Moves (.httpVersionP, b) 80 (.httpVersionSlash, saw b 80)
  | versionSlash {b} :
      Moves (.httpVersionSlash, b) SLASH
        (.httpVersionMajorStart, { saw b SLASH with httpVersionMajor := 0, httpVersionMinor := 0 })
  | majorStart {b c} (hc : isDigit c = true) :
      Moves (.httpVersionMajorStart, b) c
        (.httpVersionMajor, { saw b c with httpVersionMajor := int32 (b.httpVersionMajor * 10 + (c.toNat : ℤ) - 48) })
  | major {b c} (hc : isDigit c = true) :
      Moves (.httpVersionMajor, b) c
        (.httpVersionMajor, { saw b c with httpVersionMajor := int32 (b.httpVersionMajor * 10 + (c.toNat : ℤ) - 48) })
  | majorEnd {b} : Moves (.httpVersionMajor, b) DOT (.httpVersionMinorStart, saw b DOT)
  | minorStart {b c} (hc : isDigit c = true) :
      Moves (.httpVersionMinorStart, b) c
        (.httpVersionMinor, { saw b c with httpVersionMinor := int32 (b.httpVersionMinor * 10 + (c.toNat : ℤ) - 48) })
  | minor {b c} (hc : isDigit c = true) :
      Moves (.httpVersionMinor, b) c
        (.httpVersionMinor, { saw b c with httpVersionMinor := int32 (b.httpVersionMinor * 10 + (c.toNat : ℤ) - 48) })
  | minorEnd {b} : Moves (.httpVersionMinor, b) SP (.statusCode1, saw b SP)
  | code1 {b c} (hc : 49 ≤ c ∧ c ≤ 53) :
      Moves (.statusCode1, b) c (.statusCode2, { saw b c with code := (c.toNat : ℤ) - 48 })
  | code2 {b c} (hc : isDigit c = true) :
      Moves (.statusCode2, b) c (.statusCode3, { saw b c with code := int32 (b.code * 10 + (c.toNat : ℤ) - 48) })
  | code3 {b c} (hc : isDigit c = true) :
      Moves (.statusCode3, b) c
        (.spaceBeforeReasonPhrase, { saw b c with code := int32 (b.code * 10 + (c.toNat : ℤ) - 48) })
  | codeEnd {b} : Moves (.spaceBeforeReasonPhrase, b) SP (.reasonPhrase, saw b SP)
  | reason {b c} (hcr : c ≠ CR) (hc : (!isChar c || isCtl c || (isTspecial c && c != SP)) = false) :
      Moves (.reasonPhrase, b) c (.reasonPhrase, { saw b c with reasonphrase := b.reasonphrase ++ [c] })
  | reasonEnd {b} : Moves (.reasonPhrase, b) CR (.expectingNewline1, saw b CR)
  | newline1 {b} : Moves (.expectingNewline1, b) LF (.headerLineStart, saw b LF)
  | blankLine {b} : Moves (.headerLineStart, b) CR (.expectingNewline3, saw b CR)
  | fold {b c} (hne : b.headers ≠ []) (hc : c = SP ∨ c = HT) : Moves (.headerLineStart, b) c (.headerLws, saw b c)
  | nameStart {b c} (hc : isToken c = true) :
      Moves (.headerLineStart, b) c (.headerName, { saw b c with headers := b.headers ++ [⟨[c], []⟩] })
  | lwsEnd {b} : Moves (.headerLws, b) CR (.expectingNewline2, saw b CR)
  | lws {b c} (hc : c = SP ∨ c = HT) : Moves (.headerLws, b) c (.headerLws, saw b c)
  | lwsValue {b c} (hsp : c ≠ SP) (hc : isCtl c = false) :
      Moves (.headerLws, b) c (.headerValue, addValue (saw b c) c)
  | nameEnd {b} : Moves (.headerName, b) COLON (.spaceBeforeHeaderValue, saw b COLON)
  | name {b c} (hc : isToken c = true) : Moves (.headerName, b) c (.headerName, addName (saw b c) c)
  | valueStart {b} : Moves (.spaceBeforeHeaderValue, b) SP (.headerValue, saw b SP)
  | value {b c} (hc : isCtl c = false) : Moves (.headerValue, b) c (.headerValue, addValue (saw b c) c)
  | valueEnd {b} (hl : isContentLength (RequestParser.back b.headers).name = false) :
      Moves (.headerValue, b) CR (.expectingNewline2, noteFlags (saw b CR))
  | lengthEnd {b k} (hl : isContentLength (RequestParser.back b.headers).name = true)
      (hk : stoi (RequestParser.back b.headers).value = some k) (h0 : 0 ≤ k) :
      Moves (.headerValue, b) CR (.expectingNewline2, noteFlags { saw b CR with contentsize := k })
  | newline2 {b} : Moves (.expectingNewline2, b) LF (.headerLineStart, saw b LF)
  | toChunks {b} (hb : b.chunked = true) : Moves (.expectingNewline3, b) LF (.chunkSizeStart, saw b LF)
  | toBody {b} (hb : b.chunked = false) (hn : b.contentsize ≠ 0) :
      Moves (.expectingNewline3, b) LF (.expectingBody, saw b LF)
  | body {b c} (hn : int32 (b.contentsize - 1) ≠ 0) :
      Moves (.expectingBody, b) c (.expectingBody, { addBody (saw b c) c with contentsize := int32 (b.contentsize - 1) })
  | sizeStart {b c} (hc : isHex c = true) :
      Moves (.chunkSizeStart, b) c (.chunkSize, { saw b c with chunksizehex := [c] })
  | size {b c} (hc : isHex c = true) :
      Moves (.chunkSize, b) c (.chunkSize, { saw b c with chunksizehex := b.chunksizehex ++ [c] })
  | sizeEnd {b n} (hn : stoiHex b.chunksizehex = some n) (h0 : n ≠ 0) :
      Moves (.chunkSize, b) CR (.expectingNewline4, { saw b CR with chunksize := n })
  | newline4 {b} : Moves (.expectingNewline4, b) LF (.expectingChunk, saw b LF)
  | data {b c} (hc : c = CR → int32 (b.chunksize - 1) ≠ -1) :
      Moves (.expectingChunk, b) c (.expectingChunk, { addBody (saw b c) c with chunksize := int32 (b.chunksize - 1) })
  | dataEnd {b} (hb : int32 (b.chunksize - 1) = -1) :
      Moves (.expectingChunk, b) CR (.expectingNewline5, { saw b CR with chunksize := -1 })
  | newline5 {b} : Moves (.expectingNewline5, b) LF (.chunkSizeStart, saw b LF)

/-- **Inversion of a step.** Every step without an answer is one of the transitions of `Moves`. -/
theorem consume_moves {s s' : St} {c : UInt8} (h : consume s c = (.indeterminate, s')) : Moves s c s' := by
  obtain ⟨st, b⟩ := s
  cases st with
  | headerValue =>
    simp only [consume] at h
    split_ifs at h with h1 h2
    · subst h1
      simp only [readContentLength] at h
      by_cases hl : isContentLength (RequestParser.back b.headers).name = true
      · cases hk : stoi (RequestParser.back b.headers).value with
        | none => simp [hl, hk] at h
        | some k =>
          by_cases h0 : 0 ≤ k
          · simp only [hl, hk, h0, decide_true, if_true, Prod.mk.injEq, true_and] at h
            exact h ▸ .lengthEnd hl hk h0
          · simp [hl, hk, h0] at h
      · simp only [hl, Bool.false_eq_true, if_false, Prod.mk.injEq, true_and] at h
        exact h ▸ .valueEnd (by simpa using hl)
    · simp at h
    · simp only [Prod.mk.injEq, true_and] at h
      exact h ▸ .value (by simpa using h2)
  | reasonPhrase =>
    simp only [consume] at h
    split_ifs at h with h1 h2 <;> simp only [Prod.mk.injEq, reduceCtorEq, false_and, true_and] at h
    · subst h1 h
      exact .reasonEnd
    · exact h ▸ .reason h1 (by simpa using h2)
  | headerLineStart =>
    simp only [consume, not_isToken] at h
    split_ifs at h with h1 h2 h3 <;> simp only [Prod.mk.injEq, reduceCtorEq, false_and, true_and] at h
    · subst h1 h
      exact .blankLine
    · simp only [Bool.and_eq_true, Bool.not_eq_true', List.isEmpty_eq_false_iff, Bool.or_eq_true, beq_iff_eq] at h2
      exact h ▸ .fold h2.1 h2.2
    · exact h ▸ .nameStart (by simpa using h3)
  | headerLws =>
    simp only [consume] at h
    split_ifs at h with h1 h2 h3 <;> simp only [Prod.mk.injEq, reduceCtorEq, false_and, true_and] at h
    · subst h1 h
      exact .lwsEnd
    · exact h ▸ .lws (by simpa using h2)
    · simp only [Bool.or_eq_true, beq_iff_eq, not_or] at h2
      exact h ▸ .lwsValue h2.1 (by simpa using h3)
  | expectingNewline3 =>
    simp only [consume] at h
    split_ifs at h with h1 h2 h3 <;> simp only [Prod.mk.injEq, reduceCtorEq, false_and, true_and] at h
    · obtain rfl : c = LF := not_not.1 h1
      exact h ▸ .toChunks h2
    · obtain rfl : c = LF := not_not.1 h1
      exact h ▸ .toBody (by simpa using h2) h3
  | expectingBody =>
    simp only [consume] at h
    split_ifs at h with h1 <;> simp only [Prod.mk.injEq, reduceCtorEq, false_and, true_and] at h
    exact h ▸ .body h1
  | chunkSize =>
    simp only [consume] at h
    split_ifs at h with h1 h2
    · simp only [Prod.mk.injEq, true_and] at h
      exact h ▸ .size h1
    · subst h2
      cases hn : stoiHex b.chunksizehex with
      | none => simp [hn] at h
      | some n =>
        by_cases h0 : n = 0
        · simp [hn, h0] at h
        · simp only [hn, h0, if_false, Prod.mk.injEq, true_and] at h
          exact h ▸ .sizeEnd hn h0
    · simp at h
  | expectingChunk =>
    simp only [consume] at h
    split_ifs at h with h1
    · obtain ⟨rfl, hb⟩ := h1
      simp only [hb, Prod.mk.injEq, true_and] at h
      exact h ▸ .dataEnd hb
    · simp only [Prod.mk.injEq, true_and] at h
      exact h ▸ .data fun hc hb => h1 ⟨hc, hb⟩
  | _ =>
    simp only [consume, not_isToken] at h
    split_ifs at h <;> simp only [Prod.mk.injEq, reduceCtorEq, false_and, true_and] at h
    all_goals
      subst h
      first
        | (subst_vars; constructor; done)
        | (constructor; simp_all)

/-- every transition of `Moves` is a step -/
theorem Moves.consume_eq {s s' : St} {c : UInt8} (h : Moves s c s') : consume s c = (.indeterminate, s') := by
  cases h with
  | majorStart hc => simp [consume, hc, saw]
  | major hc => simp [consume, hc, saw, isDigit_ne hc (d := DOT) (by decide)]
  | minorStart hc => simp [consume, hc, saw]
  | minor hc => simp [consume, hc, saw, isDigit_ne hc (d := SP) (by decide)]
  | code1 hc => simp [consume, hc, saw]
  | code2 hc => simp [consume, hc, saw]
  | code3 hc => simp [consume, hc, saw]
  | reason hcr hc => simp only [consume, if_neg hcr, hc, Bool.false_eq_true, if_false, saw]
  | fold hne hc => rcases hc with rfl | rfl <;> simp [consume, hne, saw, (by decide : SP ≠ CR), (by decide : HT ≠ CR)]
  | nameStart hc =>
    simp [consume, not_isToken, hc, saw, isToken_ne hc (d := SP) (by decide), isToken_ne hc (d := HT) (by decide),
      isToken_ne hc (d := CR) (by decide)]
  | lws hc => rcases hc with rfl | rfl <;> simp [consume, saw, (by decide : SP ≠ CR), (by decide : HT ≠ CR)]
  | lwsValue hsp hc =>
    simp [consume, hsp, hc, saw, addValue, isCtl_ne hc (d := CR) (by decide), isCtl_ne hc (d := HT) (by decide)]
  | name hc => simp [consume, not_isToken, hc, saw, addName, isToken_ne hc (d := COLON) (by decide)]
  | value hc => simp [consume, hc, saw, addValue, isCtl_ne hc (d := CR) (by decide)]
  | valueEnd hl => simp [consume, readContentLength, hl, saw]
  | lengthEnd hl hk h0 => simp [consume, readContentLength, hl, hk, h0, saw]
  | toChunks hb => simp [consume, hb, saw]
  | toBody hb hn => simp [consume, hb, hn, saw]
  | body hn => simp [consume, hn, saw, addBody]
  | sizeStart hc => simp [consume, hc, saw]
  | size hc => simp [consume, hc, saw]
  | sizeEnd hn h0 => simp [consume, hn, h0, saw, (by decide : isHex CR = false)]
  | data hc =>
    simp only [consume, saw, addBody]
    rw [if_neg fun h => hc h.1 h.2]
  | dataEnd hb => simp [consume, hb, saw]
  | _ => simp [consume, saw]

/-- the transitions that complete a response: its blank line, the last byte of a plain body, the size of an empty chunk
-/
inductive Finishes : St → UInt8 → St → Prop where
  | blankLine {b} (hb : b.chunked = false) (h0 : b.contentsize = 0) :
      Finishes (.expectingNewline3, b) LF (.expectingNewline3, saw b LF)
  | body {b c} (h0 : int32 (b.contentsize - 1) = 0) :
      Finishes (.expectingBody, b) c (.expectingBody, { addBody (saw b c) c with contentsize := 0 })
  | lastChunk {b} (hn : stoiHex b.chunksizehex = some 0) :
      Finishes (.chunkSize, b) CR (.expectingNewline4, { saw b CR with chunksize := 0 })

/-- every step that says good is one of them -/
theorem consume_finishes {s s' : St} {c : UInt8} (h : consume s c = (.good, s')) : Finishes s c s' := by
  obtain ⟨st, b⟩ := s
  cases st with
  | headerValue =>
    simp only [consume] at h
    split_ifs at h
    · split at h <;> cases (Prod.mk.inj h).1
    · cases (Prod.mk.inj h).1
    · cases (Prod.mk.inj h).1
  | expectingNewline3 =>
    simp only [consume] at h
    split_ifs at h with hlf hchunked hsize <;> simp only [Prod.mk.injEq, reduceCtorEq, false_and, true_and] at h
    obtain rfl : c = LF := not_not.1 hlf
    exact h ▸ .blankLine (by simpa using hchunked) hsize
  | expectingBody =>
    simp only [consume] at h
    split_ifs at h with h0 <;> simp only [Prod.mk.injEq, reduceCtorEq, false_and, true_and] at h
    rw [h0] at h
    exact h ▸ .body h0
  | chunkSize =>
    simp only [consume] at h
    split_ifs at h with hhex hcr
    · cases (Prod.mk.inj h).1
    · subst hcr
      cases hn : stoiHex b.chunksizehex with
      | none =>
        rw [hn] at h
        cases (Prod.mk.inj h).1
      | some n =>
        by_cases h0 : n = 0
        · subst h0
          simp only [hn, if_true, Prod.mk.injEq, true_and] at h
          exact h ▸ .lastChunk hn
        · simp [hn, h0] at h
    · cases (Prod.mk.inj h).1
  | _ =>
    simp only [consume] at h
    split_ifs at h
    all_goals cases (Prod.mk.inj h).1

/-! ## The header section -/

/-- the states the two parsers share -/
def headerState : State → Option RequestParser.State
  | .headerLineStart => some .headerLineStart
  | .headerLws => some .headerLws
  | .headerName => some .headerName
  | .spaceBeforeHeaderValue => some .spaceBeforeHeaderValue
  | .headerValue => some .headerValue
  | .expectingNewline2 => some .expectingNewline2
  | .expectingNewline3 => some .expectingNewline3
  | _ => none

/-- a response parser in its header section and a request parser in the same place -/
structure SameHeaders (s : St) (t : RequestParser.St) : Prop where
  state : headerState s.1 = some t.1.state
  contentsize : t.1.contentsize = s.2.contentsize
  headers : t.2.headers = s.2.headers
  keepAlive : t.2.keepAlive = s.2.keepAlive

theorem noteFlags_eq (b : ResponseBuilder) :
    noteFlags b = { b with
      chunked := b.chunked || isChunked (RequestParser.back b.headers)
      keepAlive := b.keepAlive || RequestParser.isKeepAlive (RequestParser.back b.headers) } := by
  unfold noteFlags
  cases hc : isChunked (RequestParser.back b.headers) <;>
    cases hk : RequestParser.isKeepAlive (RequestParser.back b.headers) <;> simp [hk]

theorem noteKeepAlive_eq (b : RequestBuilder) :
    RequestParser.noteKeepAlive b = { b with
      keepAlive := b.keepAlive || RequestParser.isKeepAlive (RequestParser.back b.headers) } := by
  unfold RequestParser.noteKeepAlive
  cases hk : RequestParser.isKeepAlive (RequestParser.back b.headers) <;> simp

/-- **A step in the header section** is the same in both parsers, also when it is refused: the same verdict, and after
it the same headers, the same size and the same connection flag. -/
theorem header_step {s : St} {t : RequestParser.St} (h : SameHeaders s t) (hst : s.1 ≠ .expectingNewline3)
    (c : UInt8) :
    (consume s c).1 = (RequestParser.consume t c).1 ∧
      SameHeaders (consume s c).2 (RequestParser.consume t c).2 := by
  obtain ⟨st, b⟩ := s
  obtain ⟨⟨q, n⟩, r⟩ := t
  obtain ⟨h1, h2, h3, h4⟩ := h
  simp only at h1 h2 h3 h4 hst
  subst h2
  cases st with
  | headerValue =>
    obtain rfl : RequestParser.State.headerValue = q := by simpa [headerState] using h1
    simp only [consume, RequestParser.consume]
    split_ifs with hcr hctl
    · simp only [readContentLength, RequestParser.readContentLength, h3]
      split_ifs with hl
      · cases stoi (RequestParser.back b.headers).value with
        | none => exact ⟨rfl, rfl, rfl, rfl, h4⟩
        | some k =>
          by_cases h0 : 0 ≤ k
          · simp only [h0, decide_true, noteFlags_eq, noteKeepAlive_eq, h4, true_and]
            exact ⟨rfl, rfl, rfl, rfl⟩
          · -- both have stored the size when `reserve` throws
            simp only [h0, decide_false, true_and]
            exact ⟨rfl, rfl, rfl, h4⟩
      · simp only [noteFlags_eq, noteKeepAlive_eq, h4, true_and]
        exact ⟨rfl, rfl, rfl, rfl⟩
    · exact ⟨rfl, rfl, rfl, h3, h4⟩
    · exact ⟨rfl, rfl, rfl, by simp [h3], h4⟩
  | headerLineStart | headerLws | headerName | spaceBeforeHeaderValue | expectingNewline2 =>
    simp only [headerState, Option.some.injEq] at h1
    subst h1
    simp only [consume, RequestParser.consume, h3]
    split_ifs
    all_goals exact ⟨rfl, rfl, rfl, by simp, h4⟩
  | expectingNewline3 => exact absurd rfl hst
  | _ => simp [headerState] at h1

/-- **The two parsers agree on headers.** Up to the CR of the blank line they answer alike and hold the same headers,
the same size and the same connection flag. -/
theorem header_simulation {s : St} {t : RequestParser.St} (h : SameHeaders s t) (hst : s.1 ≠ .expectingNewline3)
    (c : UInt8) :
    (consume s c).1 = (RequestParser.consume t c).1 ∧
      ((consume s c).1 ≠ .bad → SameHeaders (consume s c).2 (RequestParser.consume t c).2) :=
  (header_step h hst c).imp_right fun h _ => h

/-- the headers read so far, as in the request parser -/
def HeadersRead (s : St) : Prop :=
  match headerState s.1 with
  | some q =>
    RequestParser.HeadersRead
      (⟨q, s.2.contentsize⟩, { RequestBuilder.zero with headers := s.2.headers, keepAlive := s.2.keepAlive })
  | none => ∀ x ∈ s.2.headers, x.Sendable ∧ RequestParser.Measured x

theorem SameHeaders.headersRead {s : St} {t : RequestParser.St} (h : SameHeaders s t) :
    HeadersRead s ↔ RequestParser.HeadersRead t := by
  obtain ⟨⟨q, n⟩, r⟩ := t
  obtain ⟨h1, -, h3, -⟩ := h
  simp only at h1 h3
  simp only [HeadersRead, h1, RequestParser.HeadersRead, h3]

/-- **Step lemma.** Every step that is not bad keeps the headers sendable and their sizes readable. -/
theorem step_headersRead {s s' : St} {c : UInt8} {v : Verdict} (h : HeadersRead s) (hs : consume s c = (v, s'))
    (hv : v ≠ .bad) : HeadersRead s' := by
  cases v with
  | bad => exact absurd rfl hv
  | good => cases consume_finishes hs <;> exact h
  | indeterminate =>
    by_cases hsim : s.1 ≠ .expectingNewline3 ∧ ∃ q, headerState s.1 = some q
    · -- in the header section it is the step of a request parser
      obtain ⟨hst, q, hq⟩ := hsim
      have hsame : SameHeaders s
          (⟨q, s.2.contentsize⟩, { RequestBuilder.zero with headers := s.2.headers, keepAlive := s.2.keepAlive }) :=
        ⟨hq, rfl, rfl, rfl⟩
      obtain ⟨hverdict, hnext⟩ := header_simulation hsame hst c
      rcases ht : RequestParser.consume (⟨q, s.2.contentsize⟩,
        { RequestBuilder.zero with headers := s.2.headers, keepAlive := s.2.keepAlive }) c with ⟨v', t'⟩
      rw [hs, ht] at hverdict hnext
      obtain rfl : .indeterminate = v' := hverdict
      exact (hnext hv).headersRead.2 (RequestParser.step_headersRead (hsame.headersRead.1 h) ht)
    · cases consume_moves hs with
      | blankLine | fold | nameStart | lwsEnd | lws | lwsValue | nameEnd | name | valueStart | value | valueEnd |
        lengthEnd | newline2 => exact absurd ⟨by simp, _, rfl⟩ hsim
      | _ => exact h

theorem parseLoop_headersRead {s : St} {result : Verdict} {data : Bytes} (h : HeadersRead s)
    (hv : (parseLoop s result data).1 ≠ .bad) : HeadersRead (parseLoop s result data).2.2 := by
  induction data generalizing s result with
  | nil => exact h
  | cons c data ih =>
    rcases hs : consume s c with ⟨v, s'⟩
    simp only [parseLoop, hs] at hv ⊢
    by_cases hbad : v = .bad
    · simp [hbad] at hv
    · rw [if_neg hbad] at hv ⊢
      have hs' := step_headersRead h hs hbad
      split_ifs at hv ⊢
      · exact hs'
      · exact ih hs' hv

/-- **What has been parsed without a bad byte** has sendable headers, and every Content-Length ended is readable. -/
theorem parse_headersRead {s : St} {data : Bytes} (h : HeadersRead s) (hv : (parse s data).1 ≠ .bad) :
    HeadersRead (parse s data).2.2 := parseLoop_headersRead h hv

/-- the states in which good is said: the headers are complete -/
def headersDone : State → Prop
  | .expectingNewline3 | .expectingBody | .expectingNewline4 => True
  | _ => False

theorem headersDone_of_good {s s' : St} {c : UInt8} (h : consume s c = (.good, s')) : headersDone s'.1 := by
  cases consume_finishes h <;> trivial

theorem parseLoop_headersDone {s : St} {result : Verdict} {data : Bytes} (h : result = .good → headersDone s.1)
    (hv : (parseLoop s result data).1 = .good) : headersDone (parseLoop s result data).2.2.1 := by
  induction data generalizing s result with
  | nil => exact h hv
  | cons c data ih =>
    rcases hs : consume s c with ⟨v, s'⟩
    have hgood : v = .good → headersDone s'.1 := by
      rintro rfl
      exact headersDone_of_good hs
    simp only [parseLoop, hs] at hv ⊢
    split_ifs at hv ⊢ with h1 h2
    · exact hgood hv
    · exact hgood hv
    · exact ih hgood hv

theorem parse_headersDone {s : St} {data : Bytes} (hv : (parse s data).1 = .good) :
    headersDone (parse s data).2.2.1 := parseLoop_headersDone (by simp) hv

/-- the headers of a complete response can be sent again -/
theorem headers_of_done {s : St} (h : HeadersRead s) (hd : headersDone s.1) :
    ∀ x ∈ s.2.headers, x.Sendable ∧ RequestParser.Measured x := by
  obtain ⟨st, b⟩ := s
  cases st with
  | expectingNewline3 | expectingBody | expectingNewline4 => exact h
  | _ => exact absurd hd (by simp [headersDone])

end ResponseParser

end BlogServer.Http
