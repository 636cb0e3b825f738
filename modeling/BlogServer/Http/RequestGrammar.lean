/-
The grammar of requests, and what the request parser accepts of it.

The grammar is stated without the parser: a request line, header lines and folded continuation lines, the blank line,
the body (`WellFormed`). `Spells` is the link: in every state of the parser the input read so far is the part of the
grammar that the state stands for (`step_spells`). A complete request is then a request line, a header section, a CR,
one more byte and the body (`accepted_shape`), where the parser checks that byte to be LF only when no body is
announced.

- `accepted_wellFormed_iff`: an accepted message is a well-formed request exactly when its first CR LF CR is followed
  by LF.
- `accepted_not_wellFormed`: a message with any other byte there, accepted all the same.
-/
import BlogServer.Http.RequestParser

namespace BlogServer.Http

open BlogServer.Byte BlogServer.Scan RequestParser

/-! ## The grammar -/

/-- a request line: method token, URI, the two numbers of the version -/
structure RequestLine where
  method : Bytes
  uri : Bytes
  major : Bytes
  minor : Bytes
  method_ne : method ≠ []
  method_token : ∀ c ∈ method, isToken c = true
  uri_ok : ∀ c ∈ uri, c ≠ SP ∧ isCtl c = false
  major_ne : major ≠ []
  major_digit : ∀ c ∈ major, isDigit c = true
  minor_ne : minor ≠ []
  minor_digit : ∀ c ∈ minor, isDigit c = true

/-- the request line on the wire, its CR LF included -/
def RequestLine.text (l : RequestLine) : Bytes :=
  l.method ++ SP :: (l.uri ++ SP :: (ascii "HTTP/" ++ (l.major ++ DOT :: (l.minor ++ CRLF))))

/-- a line of the header section: a header, or the continuation of the value before it -/
inductive HeaderLine where
  | field (name value : Bytes) (name_ne : name ≠ []) (name_token : ∀ c ∈ name, isToken c = true)
      (value_ok : ∀ c ∈ value, isCtl c = false)
  | folded (blank content : Bytes) (blank_ne : blank ≠ []) (blank_ok : ∀ c ∈ blank, c = SP ∨ c = HT)
      (content_ok : ∀ c ∈ content, isCtl c = false)

/-- a header line on the wire, without its CR LF -/
def HeaderLine.text : HeaderLine → Bytes
  | .field name value .. => name ++ COLON :: SP :: value
  | .folded blank content .. => blank ++ content

def HeaderLine.isField : HeaderLine → Prop
  | .field .. => True
  | .folded .. => False

/-- a header section does not start with a continuation -/
def HeadField (lines : List HeaderLine) : Prop := ∀ l ∈ lines.head?, l.isField

/-- the header lines on the wire -/
def linesText (lines : List HeaderLine) : Bytes := lines.flatMap fun l => l.text ++ CRLF

/-- `s` is a request with body `body` -/
def WellFormed (s body : Bytes) : Prop :=
  ∃ (line : RequestLine) (lines : List HeaderLine), HeadField lines ∧
    s = line.text ++ linesText lines ++ CRLF ++ body

theorem headField_append {lines : List HeaderLine} {l : HeaderLine} (h : HeadField lines)
    (hl : lines = [] → l.isField) : HeadField (lines ++ [l]) := by
  cases lines with
  | nil => simp [HeadField, hl rfl]
  | cons a lines => exact h

theorem linesText_append (lines : List HeaderLine) (l : HeaderLine) :
    linesText (lines ++ [l]) = linesText lines ++ (l.text ++ CRLF) := by
  simp [linesText]

/-- what follows the first CR LF CR -/
def afterBlankLineCR : Bytes → Option Bytes
  | [] => none
  | c :: s => if [CR, LF, CR].isPrefixOf (c :: s) then some (s.drop 2) else afterBlankLineCR s

theorem afterBlankLineCR_cons_ne {c : UInt8} (hc : c ≠ CR) (s : Bytes) :
    afterBlankLineCR (c :: s) = afterBlankLineCR s := by
  rw [afterBlankLineCR, if_neg]
  simp only [List.isPrefixOf, Bool.and_eq_true, beq_iff_eq, not_and]
  exact fun h => absurd h.symm hc

theorem afterBlankLineCR_append {x : Bytes} (hx : ∀ c ∈ x, c ≠ CR) (s : Bytes) :
    afterBlankLineCR (x ++ s) = afterBlankLineCR s := by
  induction x with
  | nil => rfl
  | cons c x ih =>
    rw [List.cons_append, afterBlankLineCR_cons_ne (hx c (by simp)), ih fun d hd => hx d (by simp [hd])]

/-- a line end followed by anything but CR is passed over -/
theorem afterBlankLineCR_newline {c : UInt8} (hc : c ≠ CR) (s : Bytes) :
    afterBlankLineCR (CR :: LF :: c :: s) = afterBlankLineCR s := by
  have h : [CR, LF, CR].isPrefixOf (CR :: LF :: c :: s) = false := by
    simp [List.isPrefixOf, Ne.symm hc]
  rw [afterBlankLineCR, h, if_neg (by decide), afterBlankLineCR_cons_ne (by decide), afterBlankLineCR_cons_ne hc]

theorem isToken_ne_CR {c : UInt8} (hc : isToken c = true) : c ≠ CR := isToken_ne hc (by decide)

theorem HeaderLine.text_ne (l : HeaderLine) : l.text ≠ [] := by
  cases l with
  | field name value hn => simp [HeaderLine.text]
  | folded blank content hn => simp [HeaderLine.text, hn]

theorem HeaderLine.ne_CR (l : HeaderLine) : ∀ c ∈ l.text, c ≠ CR := by
  intro c hc
  cases l with
  | field name value hn ht hv =>
    simp only [HeaderLine.text, List.mem_append, List.mem_cons] at hc
    rcases hc with hc | rfl | rfl | hc
    · exact isToken_ne_CR (ht c hc)
    · decide
    · decide
    · exact isCtl_ne (hv c hc) (by decide)
  | folded blank content hn hb hv =>
    rcases List.mem_append.1 hc with hc | hc
    · rcases hb c hc with rfl | rfl <;> decide
    · exact isCtl_ne (hv c hc) (by decide)

/-- a header section ends at the first CR LF CR -/
theorem afterBlankLineCR_lines (lines : List HeaderLine) (r : Bytes) :
    afterBlankLineCR (CRLF ++ linesText lines ++ CR :: r) = some r := by
  induction lines with
  | nil => rfl
  | cons l lines ih =>
    obtain ⟨c, x, hl⟩ := List.exists_cons_of_ne_nil l.text_ne
    have hx := l.ne_CR
    rw [hl] at hx
    have hsplit : CRLF ++ linesText (l :: lines) ++ CR :: r =
        CR :: LF :: c :: (x ++ (CRLF ++ linesText lines ++ CR :: r)) := by
      simp [linesText, hl]
    rw [hsplit, afterBlankLineCR_newline (hx c (by simp)),
      afterBlankLineCR_append fun d hd => hx d (by simp [hd]), ih]

theorem RequestLine.ne_CR (l : RequestLine) :
    ∃ x, l.text = x ++ CRLF ∧ ∀ c ∈ x, c ≠ CR := by
  refine ⟨l.method ++ SP :: (l.uri ++ SP :: (ascii "HTTP/" ++ (l.major ++ DOT :: l.minor))),
    by simp [RequestLine.text], ?_⟩
  intro c hc
  simp only [List.mem_append, List.mem_cons] at hc
  rcases hc with hc | rfl | hc | rfl | hc | hc | rfl | hc
  · exact isToken_ne_CR (l.method_token c hc)
  · decide
  · exact isCtl_ne (l.uri_ok c hc).2 (by decide)
  · decide
  · exact (by decide : ∀ c ∈ ascii "HTTP/", c ≠ CR) c hc
  · exact isCtl_ne (not_isCtl_of_isDigit (l.major_digit c hc)) (by decide)
  · decide
  · exact isCtl_ne (not_isCtl_of_isDigit (l.minor_digit c hc)) (by decide)

/-- in a request the first CR LF CR is that of the blank line -/
theorem afterBlankLineCR_head (line : RequestLine) (lines : List HeaderLine) (r : Bytes) :
    afterBlankLineCR (line.text ++ linesText lines ++ CR :: r) = some r := by
  obtain ⟨x, hx, hne⟩ := line.ne_CR
  rw [hx, List.append_assoc, List.append_assoc, afterBlankLineCR_append hne, ← List.append_assoc,
    afterBlankLineCR_lines]

/-! ## What each state has read -/

/-- method, space, URI, space -/
def Target (u : Bytes) : Prop :=
  ∃ m v : Bytes, m ≠ [] ∧ (∀ c ∈ m, isToken c = true) ∧ (∀ c ∈ v, c ≠ SP ∧ isCtl c = false) ∧
    u = m ++ SP :: (v ++ [SP])

/-- a non-empty string of digits -/
def Number (u : Bytes) : Prop := u ≠ [] ∧ ∀ c ∈ u, isDigit c = true

theorem Number.append {u : Bytes} (h : Number u) {c : UInt8} (hc : isDigit c = true) : Number (u ++ [c]) :=
  ⟨by simp, fun d hd => by
    rcases List.mem_append.1 hd with hd | hd
    · exact h.2 d hd
    · rw [List.mem_singleton.1 hd]; exact hc⟩

/-- a request line and complete header lines -/
def Lines (u : Bytes) (lines : List HeaderLine) : Prop :=
  HeadField lines ∧ ∃ line : RequestLine, u = line.text ++ linesText lines

/-- the input read in each state -/
def Shape (u : Bytes) (s : St) : Prop :=
  match s.1.state with
  | .methodStart => u = []
  | .method => u ≠ [] ∧ ∀ c ∈ u, isToken c = true
  | .uri =>
    ∃ m v : Bytes, m ≠ [] ∧ (∀ c ∈ m, isToken c = true) ∧ (∀ c ∈ v, c ≠ SP ∧ isCtl c = false) ∧ u = m ++ SP :: v
  | .httpVersionH => Target u
  | .httpVersionT1 => ∃ x, Target x ∧ u = x ++ [72]
  | .httpVersionT2 => ∃ x, Target x ∧ u = x ++ [72, 84]
  | .httpVersionP => ∃ x, Target x ∧ u = x ++ [72, 84, 84]
  | .httpVersionSlash => ∃ x, Target x ∧ u = x ++ [72, 84, 84, 80]
  | .httpVersionMajorStart => ∃ x, Target x ∧ u = x ++ ascii "HTTP/"
  | .httpVersionMajor => ∃ x ds, Target x ∧ Number ds ∧ u = x ++ ascii "HTTP/" ++ ds
  | .httpVersionMinorStart => ∃ x ds, Target x ∧ Number ds ∧ u = x ++ ascii "HTTP/" ++ ds ++ [DOT]
  | .httpVersionMinor =>
    ∃ x ds es, Target x ∧ Number ds ∧ Number es ∧ u = x ++ ascii "HTTP/" ++ ds ++ [DOT] ++ es
  | .expectingNewline1 =>
    ∃ x ds es, Target x ∧ Number ds ∧ Number es ∧ u = x ++ ascii "HTTP/" ++ ds ++ [DOT] ++ es ++ [CR]
  | .headerLineStart => ∃ lines, Lines u lines ∧ (lines = [] → s.2.headers = [])
  | .headerLws =>
    ∃ x lines blank, Lines x lines ∧ lines ≠ [] ∧ blank ≠ [] ∧ (∀ c ∈ blank, c = SP ∨ c = HT) ∧ u = x ++ blank
  | .headerName => ∃ x lines name, Lines x lines ∧ name ≠ [] ∧ (∀ c ∈ name, isToken c = true) ∧ u = x ++ name
  | .spaceBeforeHeaderValue =>
    ∃ x lines name, Lines x lines ∧ name ≠ [] ∧ (∀ c ∈ name, isToken c = true) ∧ u = x ++ name ++ [COLON]
  | .headerValue => ∃ x lines l, Lines x lines ∧ HeadField (lines ++ [l]) ∧ u = x ++ l.text
  | .expectingNewline2 => ∃ x lines l, Lines x lines ∧ HeadField (lines ++ [l]) ∧ u = x ++ l.text ++ [CR]
  | .expectingNewline3 => ∃ x lines, Lines x lines ∧ u = x ++ [CR]
  | .expectingBody => ∃ x lines a, Lines x lines ∧ u = x ++ [CR, a] ++ s.2.body

/-- the parser is still in the request line -/
def inRequestLine : State → Bool
  | .methodStart | .method | .uri | .httpVersionH | .httpVersionT1 | .httpVersionT2 | .httpVersionP
  | .httpVersionSlash | .httpVersionMajorStart | .httpVersionMajor | .httpVersionMinorStart | .httpVersionMinor
  | .expectingNewline1 => true
  | _ => false

/-- the link between the input read and the state: its shape, no header before the header section, no body before the
body -/
structure Spells (u : Bytes) (s : St) : Prop where
  shape : Shape u s
  headers : inRequestLine s.1.state = true → s.2.headers = []
  body : s.1.state ≠ .expectingBody → s.2.body = []

theorem spells_fresh (n : ℤ) (u : Uninit) : Spells [] (⟨.methodStart, n⟩, .fresh u) :=
  ⟨rfl, fun _ => rfl, fun _ => rfl⟩

/-- a byte of the value goes into the line it is read in -/
theorem headerLine_snoc {lines : List HeaderLine} {l : HeaderLine} (h : HeadField (lines ++ [l])) {c : UInt8}
    (hc : isCtl c = false) : ∃ l', HeadField (lines ++ [l']) ∧ l'.text = l.text ++ [c] := by
  cases l with
  | field name value hn ht hv =>
    refine ⟨.field name (value ++ [c]) hn ht (forall_mem_snoc hv hc), ?_, by simp [HeaderLine.text]⟩
    cases lines with
    | nil => simp [HeadField, HeaderLine.isField]
    | cons a lines => exact h
  | folded blank content hn hb hv =>
    refine ⟨.folded blank (content ++ [c]) hn hb (forall_mem_snoc hv hc), ?_, by simp [HeaderLine.text]⟩
    cases lines with
    | nil => simp [HeadField, HeaderLine.isField] at h
    | cons a lines => exact h

theorem lines_snoc {x : Bytes} {lines : List HeaderLine} {l : HeaderLine} (h : Lines x lines)
    (hl : HeadField (lines ++ [l])) : Lines (x ++ l.text ++ CRLF) (lines ++ [l]) := by
  obtain ⟨-, line, rfl⟩ := h
  exact ⟨hl, line, by rw [linesText_append]; simp⟩

theorem noteKeepAlive_body (b : RequestBuilder) : (noteKeepAlive b).body = b.body := by
  unfold noteKeepAlive; split_ifs <;> rfl

/-- **Step lemma.** Every step extends the part of the grammar that has been read. -/
theorem step_spells {u : Bytes} {s s' : St} {c : UInt8} (h : Spells u s) (hs : consume s c = (.indeterminate, s')) :
    Spells (u ++ [c]) s' := by
  obtain ⟨h, hh, hb⟩ := h
  cases consume_moves hs with
  | methodStart hc =>
    refine ⟨⟨by simp, ?_⟩, fun _ => hh rfl, fun _ => hb (by simp)⟩
    rw [show u = [] from h]; simpa using hc
  | method hc => exact ⟨⟨by simp, forall_mem_snoc h.2 hc⟩, fun _ => hh rfl, fun _ => hb (by simp)⟩
  | methodEnd => exact ⟨⟨u, [], h.1, h.2, by simp, by simp⟩, fun _ => hh rfl, fun _ => hb (by simp)⟩
  | uri hsp hc =>
    obtain ⟨m, v, h1, h2, h3, rfl⟩ := h
    exact ⟨⟨m, v ++ [_], h1, h2, forall_mem_snoc h3 ⟨hsp, hc⟩, by simp⟩, fun _ => hh rfl, fun _ => hb (by simp)⟩
  | uriEnd =>
    obtain ⟨m, v, h1, h2, h3, rfl⟩ := h
    exact ⟨⟨m, v, h1, h2, h3, by simp⟩, fun _ => hh rfl, fun _ => hb (by simp)⟩
  | versionH => exact ⟨⟨u, h, rfl⟩, fun _ => hh rfl, fun _ => hb (by simp)⟩
  | versionT1 =>
    obtain ⟨x, h, rfl⟩ := h
    exact ⟨⟨x, h, by simp⟩, fun _ => hh rfl, fun _ => hb (by simp)⟩
  | versionT2 =>
    obtain ⟨x, h, rfl⟩ := h
    exact ⟨⟨x, h, by simp⟩, fun _ => hh rfl, fun _ => hb (by simp)⟩
  | versionP =>
    obtain ⟨x, h, rfl⟩ := h
    exact ⟨⟨x, h, by simp⟩, fun _ => hh rfl, fun _ => hb (by simp)⟩
  | versionSlash =>
    obtain ⟨x, h, rfl⟩ := h
    exact ⟨⟨x, h, by simp [ascii]⟩, fun _ => hh rfl, fun _ => hb (by simp)⟩
  | majorStart hc =>
    obtain ⟨x, h, rfl⟩ := h
    exact ⟨⟨x, [_], h, ⟨by simp, by simpa using hc⟩, rfl⟩, fun _ => hh rfl, fun _ => hb (by simp)⟩
  | major hc =>
    obtain ⟨x, ds, h, hd, rfl⟩ := h
    exact ⟨⟨x, ds ++ [_], h, hd.append hc, by simp⟩, fun _ => hh rfl, fun _ => hb (by simp)⟩
  | majorEnd =>
    obtain ⟨x, ds, h, hd, rfl⟩ := h
    exact ⟨⟨x, ds, h, hd, rfl⟩, fun _ => hh rfl, fun _ => hb (by simp)⟩
  | minorStart hc =>
    obtain ⟨x, ds, h, hd, rfl⟩ := h
    exact ⟨⟨x, ds, [_], h, hd, ⟨by simp, by simpa using hc⟩, rfl⟩, fun _ => hh rfl, fun _ => hb (by simp)⟩
  | minor hc =>
    obtain ⟨x, ds, es, h, hd, he, rfl⟩ := h
    exact ⟨⟨x, ds, es ++ [_], h, hd, he.append hc, by simp⟩, fun _ => hh rfl, fun _ => hb (by simp)⟩
  | minorEnd =>
    obtain ⟨x, ds, es, h, hd, he, rfl⟩ := h
    exact ⟨⟨x, ds, es, h, hd, he, rfl⟩, fun _ => hh rfl, fun _ => hb (by simp)⟩
  | newline1 =>
    obtain ⟨x, ds, es, ⟨m, v, h1, h2, h3, rfl⟩, hd, he, rfl⟩ := h
    refine ⟨⟨[], ⟨by simp [HeadField], ⟨m, v, ds, es, h1, h2, h3, hd.1, hd.2, he.1, he.2⟩, ?_⟩, fun _ => hh rfl⟩,
      fun h => by simp [inRequestLine] at h, fun _ => hb (by simp)⟩
    simp [RequestLine.text, linesText]
  | blankLine =>
    obtain ⟨lines, h, -⟩ := h
    exact ⟨⟨u, lines, h, rfl⟩, fun h => by simp [inRequestLine] at h, fun _ => hb (by simp)⟩
  | fold hne hc =>
    obtain ⟨lines, h, hl⟩ := h
    exact ⟨⟨u, lines, [_], h, fun h0 => hne (hl h0), by simp, by simpa using hc, rfl⟩,
      fun h => by simp [inRequestLine] at h, fun _ => hb (by simp)⟩
  | nameStart hc =>
    obtain ⟨lines, h, -⟩ := h
    exact ⟨⟨u, lines, [_], h, by simp, by simpa using hc, rfl⟩, fun h => by simp [inRequestLine] at h,
      fun _ => hb (by simp)⟩
  | lwsEnd =>
    obtain ⟨x, lines, blank, h, hne, hbl, hbs, rfl⟩ := h
    exact ⟨⟨x, lines, .folded blank [] hbl hbs (by simp), h, headField_append h.1 fun h0 => absurd h0 hne,
      by simp [HeaderLine.text]⟩, fun h => by simp [inRequestLine] at h, fun _ => hb (by simp)⟩
  | lws hc =>
    obtain ⟨x, lines, blank, h, hne, hbl, hbs, rfl⟩ := h
    exact ⟨⟨x, lines, blank ++ [_], h, hne, by simp, forall_mem_snoc hbs hc, by simp⟩,
      fun h => by simp [inRequestLine] at h, fun _ => hb (by simp)⟩
  | lwsValue hsp hc =>
    obtain ⟨x, lines, blank, h, hne, hbl, hbs, rfl⟩ := h
    exact ⟨⟨x, lines, .folded blank [_] hbl hbs (by simpa using hc), h,
      headField_append h.1 fun h0 => absurd h0 hne, by simp [HeaderLine.text]⟩,
      fun h => by simp [inRequestLine] at h, fun _ => hb (by simp)⟩
  | nameEnd =>
    obtain ⟨x, lines, name, h, hn, ht, rfl⟩ := h
    exact ⟨⟨x, lines, name, h, hn, ht, rfl⟩, fun h => by simp [inRequestLine] at h, fun _ => hb (by simp)⟩
  | name hc =>
    obtain ⟨x, lines, name, h, hn, ht, rfl⟩ := h
    exact ⟨⟨x, lines, name ++ [_], h, by simp, forall_mem_snoc ht hc, by simp⟩,
      fun h => by simp [inRequestLine] at h, fun _ => hb (by simp)⟩
  | valueStart =>
    obtain ⟨x, lines, name, h, hn, ht, rfl⟩ := h
    exact ⟨⟨x, lines, .field name [] hn ht (by simp), h, headField_append h.1 fun _ => trivial,
      by simp [HeaderLine.text]⟩, fun h => by simp [inRequestLine] at h, fun _ => hb (by simp)⟩
  | value hc =>
    obtain ⟨x, lines, l, h, hl, rfl⟩ := h
    obtain ⟨l', hl', ht⟩ := headerLine_snoc hl hc
    exact ⟨⟨x, lines, l', h, hl', by rw [ht, List.append_assoc]⟩, fun h => by simp [inRequestLine] at h,
      fun _ => hb (by simp)⟩
  | valueEnd hl0 =>
    obtain ⟨x, lines, l, h, hl, rfl⟩ := h
    exact ⟨⟨x, lines, l, h, hl, rfl⟩, fun h => by simp [inRequestLine] at h,
      fun _ => by rw [noteKeepAlive_body]; exact hb (by simp)⟩
  | lengthEnd hl0 hk h0 =>
    obtain ⟨x, lines, l, h, hl, rfl⟩ := h
    exact ⟨⟨x, lines, l, h, hl, rfl⟩, fun h => by simp [inRequestLine] at h,
      fun _ => by rw [noteKeepAlive_body]; exact hb (by simp)⟩
  | newline2 =>
    obtain ⟨x, lines, l, h, hl, rfl⟩ := h
    exact ⟨⟨lines ++ [l], by simpa using lines_snoc h hl, by simp⟩, fun h => by simp [inRequestLine] at h,
      fun _ => hb (by simp)⟩
  | @newline3 n b c hn =>
    obtain ⟨x, lines, h, rfl⟩ := h
    have hb' : b.body = [] := hb (by simp)
    exact ⟨⟨x, lines, c, h, by simp [saw, hb']⟩, fun h => by simp [inRequestLine] at h, fun h => absurd rfl h⟩
  | body hn =>
    obtain ⟨x, lines, a, h, rfl⟩ := h
    exact ⟨⟨x, lines, a, h, by simp⟩, fun h => by simp [inRequestLine] at h, fun h => absurd rfl h⟩

/-- **Run lemma.** Whatever has been read without an answer is the part of the grammar the state stands for. -/
theorem reads_spells {w : Bytes} {n : ℤ} {u : Uninit} {s : St}
    (h : Reads consume (⟨.methodStart, n⟩, .fresh u) w s) : Spells w s :=
  h.invariant Spells (spells_fresh n u) fun _ _ _ _ hp hs => step_spells hp hs

/-- **Acceptance spells a request up to one byte.** What is accepted is a request line, header lines, a CR, some byte
and the body. -/
theorem accepted_shape {w : Bytes} {n : ℤ} {u : Uninit} {t : St}
    (h : Accepts consume (⟨.methodStart, n⟩, .fresh u) w t) :
    ∃ (line : RequestLine) (lines : List HeaderLine) (a : UInt8), HeadField lines ∧
      w = line.text ++ linesText lines ++ CR :: a :: t.2.body := by
  obtain ⟨x, c, r, rfl, hr, hs⟩ := h.last
  obtain ⟨hshape, -, hb⟩ := reads_spells hr
  rcases consume_good hs with ⟨hst, -, rfl, rfl⟩ | ⟨hst, -, rfl⟩
  · rw [Shape, hst] at hshape
    obtain ⟨y, lines, ⟨hhead, line, rfl⟩, rfl⟩ := hshape
    exact ⟨line, lines, LF, hhead, by simp [saw, hb (by rw [hst]; decide)]⟩
  · rw [Shape, hst] at hshape
    obtain ⟨y, lines, a, ⟨hhead, line, rfl⟩, rfl⟩ := hshape
    exact ⟨line, lines, a, hhead, by simp⟩

/-- **Soundness of acceptance.** An accepted message is a well-formed request, with the builder's body as its body,
exactly when its first CR LF CR is followed by LF. -/
theorem accepted_wellFormed_iff {s x : Bytes} {u : Uninit} {t : St}
    (h : parse (fresh, .fresh u) s = (.good, x, t)) :
    WellFormed s t.2.body ↔ ∃ r, afterBlankLineCR s = some (LF :: r) := by
  obtain ⟨-, hacc⟩ := parse_good_iff.1 h
  obtain ⟨line, lines, a, hhead, hs⟩ := accepted_shape hacc
  have hafter : afterBlankLineCR s = some (a :: t.2.body) := by rw [hs, afterBlankLineCR_head]
  constructor
  · rintro ⟨line', lines', -, hs'⟩
    refine ⟨t.2.body, ?_⟩
    rw [hs', List.append_assoc _ CRLF]
    exact afterBlankLineCR_head line' lines' (LF :: t.2.body)
  · rintro ⟨r, hr⟩
    obtain rfl : a = LF := by
      rw [hafter] at hr; exact (List.cons.inj (Option.some.inj hr)).1
    exact ⟨line, lines, hhead, by rw [hs]; simp⟩

/-- a request with a body whose blank line ends in some other byte than LF -/
def unendedBlankLine : Bytes := ascii "POST / HTTP/1.0\r\nContent-Length: 1\r\n\rXB"

/-- the parser accepts it, and it is not a request -/
theorem accepted_not_wellFormed :
    ∃ t, parse (fresh, .fresh ⟨0, 0, 0⟩) unendedBlankLine = (.good, [], t) ∧ t.2.body = ascii "B" ∧
      ∀ body, ¬ WellFormed unendedBlankLine body := by
  refine ⟨(parse (fresh, .fresh ⟨0, 0, 0⟩) unendedBlankLine).2.2, by decide +kernel, by decide +kernel, ?_⟩
  rintro body ⟨line, lines, -, hs⟩
  have hafter : afterBlankLineCR unendedBlankLine = some (LF :: body) := by
    rw [hs, List.append_assoc _ CRLF]
    exact afterBlankLineCR_head line lines (LF :: body)
  simp [show afterBlankLineCR unendedBlankLine = some (ascii "XB") by decide +kernel, ascii,
    (by decide : (88 : UInt8) ≠ LF)] at hafter

/-- the theorem at a request that does end its blank line -/
theorem accepted_wellFormed_iff_get :
    WellFormed (ascii "GET / HTTP/1.0\r\n\r\n") [] ↔
      ∃ r, afterBlankLineCR (ascii "GET / HTTP/1.0\r\n\r\n") = some (LF :: r) :=
  accepted_wellFormed_iff (u := ⟨0, 0, 0⟩) (x := [])
    (t := (parse (fresh, .fresh ⟨0, 0, 0⟩) (ascii "GET / HTTP/1.0\r\n\r\n")).2.2) (by decide +kernel)

end BlogServer.Http
