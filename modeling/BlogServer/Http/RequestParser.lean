/-
The request parser (`include/request_parser.h`, `src/request_parser.cc`) and the builder it fills
(`include/request_builder.h`).

`consume` is the state machine, one case per state in the order of the source; `parse` is the loop of the header file.
Vectors and strings are lists, `int` arithmetic wraps (`int32`), `std::stoi` failing or `reserve` being asked for a
negative size is the exception the source catches. The members no constructor initialises are parameters: `Uninit` for
the builder, the `method_` of a new `Request` for `buildRequest`.

- `consume_moves`: what a step that gives no answer can do, one constructor of `Moves` per transition.
- `consume_good`: the two ways to accept; both leave `contentsize_` at zero.
- `parse_eq_feed`: `parse` is the recogniser of `Core.Scan`, except that unread bytes turn good into bad.
- `feed_uninit`: verdicts and built requests do not depend on the uninitialised members.
-/
import BlogServer.Core.Scan
import BlogServer.Http.Message

namespace BlogServer.Http

open BlogServer.Byte BlogServer.Scan BlogServer.Decimal

/-! ## The builder -/

/-- the members of a default-initialised `request_builder` that hold arbitrary values -/
structure Uninit where
  httpVersionMajor : ℤ
  httpVersionMinor : ℤ
  bodysize : ℤ

/-- `class request_builder` -/
structure RequestBuilder where
  method : Bytes
  uri : Bytes
  httpVersionMajor : ℤ
  httpVersionMinor : ℤ
  headers : List Header
  bodysize : ℤ
  body : Bytes
  fullmessage : Bytes
  keepAlive : Bool
deriving DecidableEq

/-- a new `request_builder` -/
def RequestBuilder.fresh (u : Uninit) : RequestBuilder :=
  ⟨[], [], u.httpVersionMajor, u.httpVersionMinor, [], u.bodysize, [], [], false⟩

/-- `request_builder()`: value-initialised, the members start at zero -/
def RequestBuilder.zero : RequestBuilder := .fresh ⟨0, 0, 0⟩

/-- the chain of comparisons in `build_request`; `m₀` is what an unassigned `method_` holds -/
def methodOf (m₀ : MethodEnum) (method : Bytes) : MethodEnum :=
  if method = ascii "GET" then .GET
  else if method = ascii "POST" then .POST
  else if method = ascii "DELETE" then .DELETE
  else if method = ascii "HEAD" then .HEAD
  else if method = ascii "PUT" then .PUT
  else if method = ascii "CONNECT" then .CONNECT
  else if method = ascii "OPTIONS" then .OPTIONS
  else if method = ascii "TRACE" then .TRACE
  else m₀

/-- the `version_` that `build_request` writes -/
def versionString (major minor : ℤ) : Bytes :=
  ascii "HTTP/" ++ Decimal.toString major ++ ascii "." ++ Decimal.toString minor

/-- `request_builder::build_request` -/
def RequestBuilder.buildRequest (m₀ : MethodEnum) (b : RequestBuilder) : Request where
  method := methodOf m₀ b.method
  uri := b.uri
  version := versionString b.httpVersionMajor b.httpVersionMinor
  headers := headerMap b.headers
  body := b.body

/-- the method is one of the eight names -/
def KnownMethod (method : Bytes) : Prop := ∃ m : MethodEnum, method = m.name

theorem methodOf_name (m₀ m : MethodEnum) : methodOf m₀ m.name = m := by
  cases m <;> rfl

/-! ## The parser -/

namespace RequestParser

/-- `request_parser::state` -/
inductive State where
  | methodStart
  | method
  | uri
  | httpVersionH
  | httpVersionT1
  | httpVersionT2
  | httpVersionP
  | httpVersionSlash
  | httpVersionMajorStart
  | httpVersionMajor
  | httpVersionMinorStart
  | httpVersionMinor
  | expectingNewline1
  | headerLineStart
  | headerLws
  | headerName
  | spaceBeforeHeaderValue
  | headerValue
  | expectingNewline2
  | expectingNewline3
  | expectingBody
deriving DecidableEq, Repr

end RequestParser

/-- `class request_parser` -/
structure RequestParser where
  state : RequestParser.State
  contentsize : ℤ
deriving DecidableEq

namespace RequestParser

/-- a new `request_parser` -/
def fresh : RequestParser := ⟨.methodStart, 0⟩

/-- `request_parser::reset` -/
def reset (p : RequestParser) : RequestParser := { p with state := .methodStart }

/-- a parser and the builder passed to it -/
abbrev St := RequestParser × RequestBuilder

/-- `headers.back()` -/
def back (hs : List Header) : Header := hs.getLast?.getD ⟨[], []⟩

@[simp] theorem back_append (hs : List Header) (h : Header) : back (hs ++ [h]) = h := by simp [back]

/-- the `try` block of `header_value`: read Content-Length and reserve the body; `false` is the `catch` -/
def readContentLength (p : RequestParser) (req : RequestBuilder) : Bool × St :=
  if isContentLength (back req.headers).name then
    match stoi (back req.headers).value with
    | none => (false, p, req)
    | some n =>
      -- a negative size converted to `size_t` exceeds `max_size`: `reserve` throws
      (decide (0 ≤ n), { p with contentsize := n }, { req with bodysize := n })
  else (true, p, req)

/-- `headers.back()` is `Connection: Keep-Alive`, whatever the letter case -/
def isKeepAlive (h : Header) : Bool :=
  Bytes.strcasecmp h.name (ascii "Connection") && Bytes.strcasecmp h.value (ascii "Keep-Alive")

/-- `req.keep_alive = true` when the header just ended asks for it -/
def noteKeepAlive (req : RequestBuilder) : RequestBuilder :=
  if isKeepAlive (back req.headers) then { req with keepAlive := true } else req

/-- `request_parser::consume` -/
def consume (s : St) (input : UInt8) : Verdict × St :=
  let p := s.1
  let req := { s.2 with fullmessage := s.2.fullmessage ++ [input] }
  match p.state with
  | .methodStart =>
    if !isChar input || isCtl input || isTspecial input then (.bad, p, req)
    else (.indeterminate, { p with state := .method }, { req with method := req.method ++ [input] })
  | .method =>
    if input = SP then (.indeterminate, { p with state := .uri }, req)
    else if !isChar input || isCtl input || isTspecial input then (.bad, p, req)
    else (.indeterminate, p, { req with method := req.method ++ [input] })
  | .uri =>
    if input = SP then (.indeterminate, { p with state := .httpVersionH }, req)
    else if isCtl input then (.bad, p, req)
    else (.indeterminate, p, { req with uri := req.uri ++ [input] })
  | .httpVersionH =>
    if input = 72 then (.indeterminate, { p with state := .httpVersionT1 }, req) else (.bad, p, req)
  | .httpVersionT1 =>
    if input = 84 then (.indeterminate, { p with state := .httpVersionT2 }, req) else (.bad, p, req)
  | .httpVersionT2 =>
    if input = 84 then (.indeterminate, { p with state := .httpVersionP }, req) else (.bad, p, req)
  | .httpVersionP =>
    if input = 80 then (.indeterminate, { p with state := .httpVersionSlash }, req) else (.bad, p, req)
  | .httpVersionSlash =>
    if input = SLASH then
      (.indeterminate, { p with state := .httpVersionMajorStart },
        { req with httpVersionMajor := 0, httpVersionMinor := 0 })
    else (.bad, p, req)
  | .httpVersionMajorStart =>
    if isDigit input then
      (.indeterminate, { p with state := .httpVersionMajor },
        { req with httpVersionMajor := int32 (req.httpVersionMajor * 10 + (input.toNat : ℤ) - 48) })
    else (.bad, p, req)
  | .httpVersionMajor =>
    if input = DOT then (.indeterminate, { p with state := .httpVersionMinorStart }, req)
    else if isDigit input then
      (.indeterminate, p, { req with httpVersionMajor := int32 (req.httpVersionMajor * 10 + (input.toNat : ℤ) - 48) })
    else (.bad, p, req)
  | .httpVersionMinorStart =>
    if isDigit input then
      (.indeterminate, { p with state := .httpVersionMinor },
        { req with httpVersionMinor := int32 (req.httpVersionMinor * 10 + (input.toNat : ℤ) - 48) })
    else (.bad, p, req)
  | .httpVersionMinor =>
    if input = CR then (.indeterminate, { p with state := .expectingNewline1 }, req)
    else if isDigit input then
      (.indeterminate, p, { req with httpVersionMinor := int32 (req.httpVersionMinor * 10 + (input.toNat : ℤ) - 48) })
    else (.bad, p, req)
  | .expectingNewline1 =>
    if input = LF then (.indeterminate, { p with state := .headerLineStart }, req) else (.bad, p, req)
  | .headerLineStart =>
    if input = CR then (.indeterminate, { p with state := .expectingNewline3 }, req)
    else if !req.headers.isEmpty && (input == SP || input == HT) then
      (.indeterminate, { p with state := .headerLws }, req)
    else if !isChar input || isCtl input || isTspecial input then (.bad, p, req)
    else (.indeterminate, { p with state := .headerName }, { req with headers := req.headers ++ [⟨[input], []⟩] })
  | .headerLws =>
    if input = CR then (.indeterminate, { p with state := .expectingNewline2 }, req)
    else if input == SP || input == HT then (.indeterminate, p, req)
    else if isCtl input then (.bad, p, req)
    else
      (.indeterminate, { p with state := .headerValue },
        { req with headers := req.headers.modifyLast fun h => { h with value := h.value ++ [input] } })
  | .headerName =>
    if input = COLON then (.indeterminate, { p with state := .spaceBeforeHeaderValue }, req)
    else if !isChar input || isCtl input || isTspecial input then (.bad, p, req)
    else
      (.indeterminate, p,
        { req with headers := req.headers.modifyLast fun h => { h with name := h.name ++ [input] } })
  | .spaceBeforeHeaderValue =>
    if input = SP then (.indeterminate, { p with state := .headerValue }, req) else (.bad, p, req)
  | .headerValue =>
    if input = CR then
      match readContentLength p req with
      | (false, p, req) => (.bad, p, req)
      | (true, p, req) => (.indeterminate, { p with state := .expectingNewline2 }, noteKeepAlive req)
    else if isCtl input then (.bad, p, req)
    else
      (.indeterminate, p,
        { req with headers := req.headers.modifyLast fun h => { h with value := h.value ++ [input] } })
  | .expectingNewline2 =>
    if input = LF then (.indeterminate, { p with state := .headerLineStart }, req) else (.bad, p, req)
  | .expectingNewline3 =>
    if p.contentsize = 0 then (if input = LF then .good else .bad, p, req)
    else (.indeterminate, { p with state := .expectingBody }, req)
  | .expectingBody =>
    let p := { p with contentsize := int32 (p.contentsize - 1) }
    let req := { req with body := req.body ++ [input] }
    (if p.contentsize = 0 then .good else .indeterminate, p, req)

/-- `request_parser::parse`; the second component is what the returned iterator has not passed -/
def parse (s : St) : Bytes → Verdict × Bytes × St
  | [] => (.indeterminate, [], s)
  | input :: rest =>
    let (result, s') := consume s input
    if (result = .good ∧ rest = []) ∨ result = .bad then (result, rest, s')
    else if result = .good ∧ rest ≠ [] then (.bad, rest, s')
    else parse s' rest

/-! ## What a step can do -/

/-- the builder after `fullmessage.push_back` -/
def saw (b : RequestBuilder) (c : UInt8) : RequestBuilder := { b with fullmessage := b.fullmessage ++ [c] }

def addName (b : RequestBuilder) (c : UInt8) : RequestBuilder :=
  { b with headers := b.headers.modifyLast fun h => { h with name := h.name ++ [c] } }

def addValue (b : RequestBuilder) (c : UInt8) : RequestBuilder :=
  { b with headers := b.headers.modifyLast fun h => { h with value := h.value ++ [c] } }

/-- the transitions of the parser that give no answer -/
inductive Moves : St → UInt8 → St → Prop where
  | methodStart {n b c} (hc : isToken c = true) :
      Moves (⟨.methodStart, n⟩, b) c (⟨.method, n⟩, { saw b c with method := b.method ++ [c] })
  | method {n b c} (hc : isToken c = true) :
      Moves (⟨.method, n⟩, b) c (⟨.method, n⟩, { saw b c with method := b.method ++ [c] })
  | methodEnd {n b} : Moves (⟨.method, n⟩, b) SP (⟨.uri, n⟩, saw b SP)
  | uri {n b c} (hsp : c ≠ SP) (hc : isCtl c = false) :
      Moves (⟨.uri, n⟩, b) c (⟨.uri, n⟩, { saw b c with uri := b.uri ++ [c] })
  | uriEnd {n b} : Moves (⟨.uri, n⟩, b) SP (⟨.httpVersionH, n⟩, saw b SP)
  | versionH {n b} : Moves (⟨.httpVersionH, n⟩, b) 72 (⟨.httpVersionT1, n⟩, saw b 72)
  | versionT1 {n b} : Moves (⟨.httpVersionT1, n⟩, b) 84 (⟨.httpVersionT2, n⟩, saw b 84)
  | versionT2 {n b} : Moves (⟨.httpVersionT2, n⟩, b) 84 (⟨.httpVersionP, n⟩, saw b 84)
  | versionP {n b} : Moves (⟨.httpVersionP, n⟩, b) 80 (⟨.httpVersionSlash, n⟩, saw b 80)
  | versionSlash {n b} :
      Moves (⟨.httpVersionSlash, n⟩, b) SLASH
        (⟨.httpVersionMajorStart, n⟩, { saw b SLASH with httpVersionMajor := 0, httpVersionMinor := 0 })
  | majorStart {n b c} (hc : isDigit c = true) :
      Moves (⟨.httpVersionMajorStart, n⟩, b) c
        (⟨.httpVersionMajor, n⟩,
          { saw b c with httpVersionMajor := int32 (b.httpVersionMajor * 10 + (c.toNat : ℤ) - 48) })
  | major {n b c} (hc : isDigit c = true) :
      Moves (⟨.httpVersionMajor, n⟩, b) c
        (⟨.httpVersionMajor, n⟩,
          { saw b c with httpVersionMajor := int32 (b.httpVersionMajor * 10 + (c.toNat : ℤ) - 48) })
  | majorEnd {n b} : Moves (⟨.httpVersionMajor, n⟩, b) DOT (⟨.httpVersionMinorStart, n⟩, saw b DOT)
  | minorStart {n b c} (hc : isDigit c = true) :
      Moves (⟨.httpVersionMinorStart, n⟩, b) c
        (⟨.httpVersionMinor, n⟩,
          { saw b c with httpVersionMinor := int32 (b.httpVersionMinor * 10 + (c.toNat : ℤ) - 48) })
  | minor {n b c} (hc : isDigit c = true) :
      Moves (⟨.httpVersionMinor, n⟩, b) c
        (⟨.httpVersionMinor, n⟩,
          { saw b c with httpVersionMinor := int32 (b.httpVersionMinor * 10 + (c.toNat : ℤ) - 48) })
  | minorEnd {n b} : Moves (⟨.httpVersionMinor, n⟩, b) CR (⟨.expectingNewline1, n⟩, saw b CR)
  | newline1 {n b} : Moves (⟨.expectingNewline1, n⟩, b) LF (⟨.headerLineStart, n⟩, saw b LF)
  | blankLine {n b} : Moves (⟨.headerLineStart, n⟩, b) CR (⟨.expectingNewline3, n⟩, saw b CR)
  | fold {n b c} (hne : b.headers ≠ []) (hc : c = SP ∨ c = HT) :
      Moves (⟨.headerLineStart, n⟩, b) c (⟨.headerLws, n⟩, saw b c)
  | nameStart {n b c} (hc : isToken c = true) :
      Moves (⟨.headerLineStart, n⟩, b) c (⟨.headerName, n⟩, { saw b c with headers := b.headers ++ [⟨[c], []⟩] })
  | lwsEnd {n b} : Moves (⟨.headerLws, n⟩, b) CR (⟨.expectingNewline2, n⟩, saw b CR)
  | lws {n b c} (hc : c = SP ∨ c = HT) : Moves (⟨.headerLws, n⟩, b) c (⟨.headerLws, n⟩, saw b c)
  | lwsValue {n b c} (hsp : c ≠ SP) (hc : isCtl c = false) :
      Moves (⟨.headerLws, n⟩, b) c (⟨.headerValue, n⟩, addValue (saw b c) c)
  | nameEnd {n b} : Moves (⟨.headerName, n⟩, b) COLON (⟨.spaceBeforeHeaderValue, n⟩, saw b COLON)
  | name {n b c} (hc : isToken c = true) : Moves (⟨.headerName, n⟩, b) c (⟨.headerName, n⟩, addName (saw b c) c)
  | valueStart {n b} : Moves (⟨.spaceBeforeHeaderValue, n⟩, b) SP (⟨.headerValue, n⟩, saw b SP)
  | value {n b c} (hc : isCtl c = false) : Moves (⟨.headerValue, n⟩, b) c (⟨.headerValue, n⟩, addValue (saw b c) c)
  | valueEnd {n b} (hl : isContentLength (back b.headers).name = false) :
      Moves (⟨.headerValue, n⟩, b) CR (⟨.expectingNewline2, n⟩, noteKeepAlive (saw b CR))
  | lengthEnd {n b k} (hl : isContentLength (back b.headers).name = true) (hk : stoi (back b.headers).value = some k)
      (h0 : 0 ≤ k) :
      Moves (⟨.headerValue, n⟩, b) CR (⟨.expectingNewline2, k⟩, noteKeepAlive { saw b CR with bodysize := k })
  | newline2 {n b} : Moves (⟨.expectingNewline2, n⟩, b) LF (⟨.headerLineStart, n⟩, saw b LF)
  | newline3 {n b c} (hn : n ≠ 0) : Moves (⟨.expectingNewline3, n⟩, b) c (⟨.expectingBody, n⟩, saw b c)
  | body {n b c} (hn : int32 (n - 1) ≠ 0) :
      Moves (⟨.expectingBody, n⟩, b) c (⟨.expectingBody, int32 (n - 1)⟩, { saw b c with body := b.body ++ [c] })

/-- **Inversion of a step.** Every step without an answer is one of the transitions of `Moves`. -/
theorem consume_moves {s s' : St} {c : UInt8} (h : consume s c = (.indeterminate, s')) : Moves s c s' := by
  obtain ⟨⟨st, n⟩, b⟩ := s
  cases st with
  | headerValue =>
    simp only [consume] at h
    split_ifs at h with h1 h2
    · subst h1
      simp only [readContentLength] at h
      by_cases hl : isContentLength (back b.headers).name = true
      · cases hk : stoi (back b.headers).value with
        | none => simp [hl, hk] at h
        | some k =>
          by_cases h0 : 0 ≤ k
          · simp only [hl, hk, h0, decide_true, if_true, Prod.mk.injEq, true_and] at h
            exact h ▸ .lengthEnd hl hk h0
          · simp [hl, hk, h0] at h
      · simp only [hl, Bool.false_eq_true, if_false, Prod.mk.injEq, true_and] at h
        exact h ▸ .valueEnd (by simpa using hl)
    · simp at h
    · simp only [Prod.mk.injEq, true_and] at h
      exact h ▸ .value (by simpa using h2)
  | expectingNewline3 =>
    simp only [consume] at h
    split_ifs at h with h1 h2 <;> simp only [Prod.mk.injEq, reduceCtorEq, false_and, true_and] at h
    exact h ▸ .newline3 h1
  | expectingBody =>
    simp only [consume] at h
    split_ifs at h with h1 <;> simp only [Prod.mk.injEq, reduceCtorEq, false_and, true_and] at h
    exact h ▸ .body h1
  | headerLineStart =>
    simp only [consume, not_isToken] at h
    split_ifs at h with h1 h2 h3 <;> simp only [Prod.mk.injEq, reduceCtorEq, false_and, true_and] at h
    · subst h1 h; exact .blankLine
    · simp only [Bool.and_eq_true, Bool.not_eq_true', List.isEmpty_eq_false_iff, Bool.or_eq_true, beq_iff_eq] at h2
      exact h ▸ .fold h2.1 h2.2
    · exact h ▸ .nameStart (by simpa using h3)
  | headerLws =>
    simp only [consume] at h
    split_ifs at h with h1 h2 h3 <;> simp only [Prod.mk.injEq, reduceCtorEq, false_and, true_and] at h
    · subst h1 h; exact .lwsEnd
    · exact h ▸ .lws (by simpa using h2)
    · simp only [Bool.or_eq_true, beq_iff_eq, not_or] at h2
      exact h ▸ .lwsValue h2.1 (by simpa using h3)
  | _ =>
    simp only [consume, not_isToken] at h
    split_ifs at h <;> simp only [Prod.mk.injEq, reduceCtorEq, false_and, true_and] at h
    all_goals
      subst h
      first
        | (subst_vars; constructor; done)
        | (constructor <;> simp_all)

/-- every transition of `Moves` is a step -/
theorem Moves.consume_eq {s s' : St} {c : UInt8} (h : Moves s c s') : consume s c = (.indeterminate, s') := by
  cases h with
  | methodStart hc => simp [consume, not_isToken, hc, saw]
  | method hc => simp [consume, not_isToken, hc, saw, isToken_ne hc (d := SP) (by decide)]
  | uri hsp hc => simp [consume, hsp, hc, saw]
  | majorStart hc => simp [consume, hc, saw]
  | major hc => simp [consume, hc, saw, isDigit_ne hc (d := DOT) (by decide)]
  | minorStart hc => simp [consume, hc, saw]
  | minor hc => simp [consume, hc, saw, isDigit_ne hc (d := CR) (by decide)]
  | fold hne hc => rcases hc with rfl | rfl <;> simp [consume, hne, saw, (by decide : SP ≠ CR), (by decide : HT ≠ CR)]
  | nameStart hc =>
    simp [consume, not_isToken, hc, saw, isToken_ne hc (d := SP) (by decide), isToken_ne hc (d := HT) (by decide),
      isToken_ne hc (d := CR) (by decide)]
  | lws hc => rcases hc with rfl | rfl <;> simp [consume, saw, (by decide : SP ≠ CR), (by decide : HT ≠ CR)]
  | lwsValue hsp hc =>
    simp [consume, hsp, hc, saw, addValue, isCtl_ne hc (d := CR) (by decide), isCtl_ne hc (d := HT) (by decide)]
  | name hc => simp [consume, not_isToken, hc, saw, addName, isToken_ne hc (d := COLON) (by decide)]
  | value hc => simp [consume, hc, saw, addValue, isCtl_ne hc (d := CR) (by decide)]
  | valueEnd hl => simp [consume, readContentLength, hl, saw]
  | lengthEnd hl hk h0 => simp [consume, readContentLength, hl, hk, h0, saw]
  | newline3 hn => simp [consume, hn, saw]
  | body hn => simp [consume, hn, saw]
  | _ => simp [consume, saw]

/-- **Acceptance.** A request is accepted at the LF of the blank line when no body is announced, or at the body byte
that brings the count to zero. Either way the parser is left with `contentsize_` at zero. -/
theorem consume_good {s s' : St} {c : UInt8} (h : consume s c = (.good, s')) :
    (s.1.state = .expectingNewline3 ∧ s.1.contentsize = 0 ∧ c = LF ∧ s' = (s.1, saw s.2 c)) ∨
      (s.1.state = .expectingBody ∧ int32 (s.1.contentsize - 1) = 0 ∧
        s' = (⟨.expectingBody, 0⟩, { saw s.2 c with body := s.2.body ++ [c] })) := by
  obtain ⟨⟨st, n⟩, b⟩ := s
  cases st with
  | expectingNewline3 =>
    simp only [consume] at h
    split_ifs at h with h1 h2 <;> simp only [Prod.mk.injEq, reduceCtorEq, false_and, true_and] at h
    exact Or.inl ⟨rfl, h1, h2, h.symm⟩
  | expectingBody =>
    simp only [consume] at h
    split_ifs at h with h1 <;> simp only [Prod.mk.injEq, reduceCtorEq, false_and, true_and] at h
    refine Or.inr ⟨rfl, h1, ?_⟩
    rw [← h, h1]; rfl
  | headerValue =>
    simp only [consume] at h
    split_ifs at h with h1 h2
    · split at h <;> simp at h
    · simp at h
    · simp at h
  | _ =>
    simp only [consume] at h
    split_ifs at h <;> simp at h

theorem consume_good_contentsize {s s' : St} {c : UInt8} (h : consume s c = (.good, s')) : s'.1.contentsize = 0 := by
  rcases consume_good h with ⟨-, h0, -, rfl⟩ | ⟨-, -, rfl⟩
  · exact h0
  · rfl

/-- an accepted request leaves a parser that `reset` makes fresh again -/
theorem reset_of_good {s s' : St} {c : UInt8} (h : consume s c = (.good, s')) : reset s'.1 = fresh := by
  simp [reset, fresh, consume_good_contentsize h]

/-! ## The loop -/

/-- **The loop of the header file** is the recogniser run, but bytes left over after a complete request make it bad. -/
theorem parse_eq_feed (s : St) (w : Bytes) :
    parse s w =
      let r := feed consume s w
      (if r.1 = .good ∧ r.2.2 ≠ [] then .bad else r.1, r.2.2, r.2.1) := by
  induction w generalizing s with
  | nil => simp [parse]
  | cons c w ih =>
    rcases hs : consume s c with ⟨v, s'⟩
    cases v with
    | indeterminate => rw [feed_cons_indeterminate hs, ← ih s']; simp [parse, hs]
    | bad => rw [feed_cons_answer hs (by decide)]; simp [parse, hs]
    | good =>
      rw [feed_cons_answer hs (by decide)]
      by_cases hw : w = [] <;> simp [parse, hs, hw]

theorem parse_good_iff {s t : St} {w r : Bytes} : parse s w = (.good, r, t) ↔ r = [] ∧ Accepts consume s w t := by
  rw [parse_eq_feed, Accepts]
  rcases feed consume s w with ⟨v, t', r'⟩
  by_cases hr : r' = []
  · subst hr; simp only [Prod.mk.injEq]; simp; tauto
  · simp only [Prod.mk.injEq]
    by_cases hv : v = .good <;> simp [hr, hv]

/-! ## The uninitialised members -/

/-- the version members have been assigned: the parser is past the slash -/
def State.versioned : State → Bool
  | .methodStart | .method | .uri | .httpVersionH | .httpVersionT1 | .httpVersionT2 | .httpVersionP
  | .httpVersionSlash => false
  | _ => true

/-- two runs that differ at most in `bodysize` and in versions not yet assigned -/
structure SameButUninit (s t : St) : Prop where
  parser : t.1 = s.1
  builder : ∃ M m z, t.2 = { s.2 with httpVersionMajor := M, httpVersionMinor := m, bodysize := z } ∧
    (s.1.state.versioned = true → M = s.2.httpVersionMajor ∧ m = s.2.httpVersionMinor)

theorem SameButUninit.of_bodysize (p : RequestParser) (b : RequestBuilder) (z : ℤ) :
    SameButUninit (p, b) (p, { b with bodysize := z }) :=
  ⟨rfl, _, _, _, rfl, fun _ => ⟨rfl, rfl⟩⟩

theorem SameButUninit.of_unversioned {p : RequestParser} (h : p.state.versioned = false) (b : RequestBuilder)
    (M m z : ℤ) :
    SameButUninit (p, b) (p, { b with httpVersionMajor := M, httpVersionMinor := m, bodysize := z }) :=
  ⟨rfl, _, _, _, rfl, fun h' => absurd (h.symm.trans h') (by decide)⟩

/-- the `try` block overwrites `bodysize` or leaves it alone -/
theorem readContentLength_bodysize (p : RequestParser) (b : RequestBuilder) (z : ℤ) :
    ∃ z', readContentLength p { b with bodysize := z } =
      ((readContentLength p b).1, (readContentLength p b).2.1,
        { (readContentLength p b).2.2 with bodysize := z' }) := by
  unfold readContentLength
  split_ifs
  · cases stoi (back b.headers).value with
    | none => exact ⟨z, rfl⟩
    | some k => exact ⟨k, rfl⟩
  · exact ⟨z, rfl⟩

theorem noteKeepAlive_bodysize (b : RequestBuilder) (z : ℤ) :
    noteKeepAlive { b with bodysize := z } = { noteKeepAlive b with bodysize := z } := by
  unfold noteKeepAlive; split_ifs <;> rfl

theorem step_uninit (s t : St) (c : UInt8) (h : SameButUninit s t) :
    (consume s c).1 = (consume t c).1 ∧ SameButUninit (consume s c).2 (consume t c).2 := by
  obtain ⟨⟨st, n⟩, b⟩ := s
  obtain ⟨q, b'⟩ := t
  obtain ⟨rfl, M, m, z, rfl, hv⟩ := h
  cases st with
  | headerValue =>
    obtain ⟨rfl, rfl⟩ := hv rfl
    obtain ⟨z', hz⟩ := readContentLength_bodysize ⟨.headerValue, n⟩ (saw b c) z
    simp only [saw] at hz
    simp only [consume, hz]
    split_ifs with h1 h2
    · rcases readContentLength ⟨.headerValue, n⟩ { b with fullmessage := b.fullmessage ++ [c] } with ⟨ok, p, req⟩
      cases ok with
      | false => exact ⟨rfl, .of_bodysize _ _ _⟩
      | true => simp only [noteKeepAlive_bodysize]; exact ⟨trivial, .of_bodysize _ _ _⟩
    · exact ⟨rfl, .of_bodysize _ _ _⟩
    · exact ⟨rfl, .of_bodysize _ _ _⟩
  | httpVersionSlash =>
    simp only [consume]
    split_ifs
    · exact ⟨rfl, .of_bodysize _ _ _⟩
    · exact ⟨rfl, .of_unversioned rfl _ _ _ _⟩
  | methodStart | method | uri | httpVersionH | httpVersionT1 | httpVersionT2 | httpVersionP =>
    simp only [consume]
    split_ifs <;> exact ⟨rfl, .of_unversioned rfl _ _ _ _⟩
  | expectingBody =>
    obtain ⟨rfl, rfl⟩ := hv rfl
    exact ⟨rfl, .of_bodysize _ _ _⟩
  | _ =>
    obtain ⟨rfl, rfl⟩ := hv rfl
    simp only [consume]
    split_ifs <;> exact ⟨rfl, .of_bodysize _ _ _⟩

/-- **Verdicts do not depend on what uninitialised members hold**, and the states reached differ at most in them. -/
theorem feed_uninit (p : RequestParser) (u u' : Uninit) (w : Bytes) (hp : p.state = .methodStart) :
    (feed consume (p, .fresh u) w).1 = (feed consume (p, .fresh u') w).1 ∧
      SameButUninit (feed consume (p, .fresh u) w).2.1 (feed consume (p, .fresh u') w).2.1 ∧
      (feed consume (p, .fresh u) w).2.2 = (feed consume (p, .fresh u') w).2.2 :=
  feed_simulation SameButUninit step_uninit
    (SameButUninit.of_unversioned (by rw [hp]; rfl) (.fresh u) u'.httpVersionMajor u'.httpVersionMinor u'.bodysize) w

/-- in a state past the slash the two runs build the same request -/
theorem SameButUninit.buildRequest {s t : St} (h : SameButUninit s t) (hv : s.1.state.versioned = true)
    (m₀ : MethodEnum) : t.2.buildRequest m₀ = s.2.buildRequest m₀ := by
  obtain ⟨-, M, m, z, hb, hv'⟩ := h
  obtain ⟨rfl, rfl⟩ := hv' hv
  rw [hb]; rfl

theorem versioned_of_good {s s' : St} {c : UInt8} (h : consume s c = (.good, s')) : s'.1.state.versioned = true := by
  rcases consume_good h with ⟨h1, -, -, rfl⟩ | ⟨-, -, rfl⟩
  · rw [h1]; rfl
  · rfl

/-- **A request accepted from one builder is accepted from every builder, and is the same request.** -/
theorem accepts_uninit {u : Uninit} {w : Bytes} {s : St} (h : Accepts consume (fresh, .fresh u) w s) (u' : Uninit)
    (m₀ : MethodEnum) : ∃ t, Accepts consume (fresh, .fresh u') w t ∧ t.1 = s.1 ∧
      t.2.buildRequest m₀ = s.2.buildRequest m₀ ∧ t.2.method = s.2.method ∧ t.2.keepAlive = s.2.keepAlive := by
  obtain ⟨h1, h2, h3⟩ := feed_uninit fresh u u' w rfl
  rw [Accepts] at h
  rw [h] at h1 h2 h3
  obtain ⟨x, a, r, rfl, hr, hs⟩ := Accepts.last h
  refine ⟨(feed consume (fresh, .fresh u') (x ++ [a])).2.1, ?_, h2.parser, h2.buildRequest (versioned_of_good hs) m₀,
    ?_, ?_⟩
  · rw [Accepts]; ext1
    · exact h1.symm
    · ext1
      · rfl
      · exact h3.symm
  all_goals obtain ⟨-, M, m, z, hb, -⟩ := h2; rw [hb]

end RequestParser

end BlogServer.Http
