/-
The flags of the two parsers, and the headers that they end up with.

Both parsers set a flag when a header ends that asks for it: `keep_alive` in a request, `chunked` in a response. A
continuation line goes on with a header that has ended, and no flag is ever cleared. Both do the same with a header
section, so one `Scanner` stands for both (`scans`), and what it has noted is what the lines have announced, each with
what went before it (`ScanStep.scanned`). The flag is then that of the final headers exactly when what was announced is
there in the end (`connection_flags_iff`).

- `announces_of_mem`: a header that is there in the end was announced.
- `connection_flags_folded`: `Connection: Keep-Alive` with a continuation.
-/
import BlogServer.Http.Chunked

namespace BlogServer.Http

open BlogServer.Byte BlogServer.Scan
open ResponseParser (unfold addLine unfold_snoc unfold_ne_nil headField_of_append isChunked parseAll exists_prefix_snoc)
open RequestParser (isKeepAlive back)

/-! ## Announcements -/

/-- after some line, the header it belongs to has the property -/
def Announces (P : Header → Bool) (lines : List HeaderLine) : Prop :=
  ∃ seen, seen <+: lines ∧ ∃ h ∈ (unfold seen).getLast?, P h = true

/-- what is announced is there in the end -/
def Lasts (P : Header → Bool) (lines : List HeaderLine) : Prop :=
  Announces P lines → ∃ h ∈ unfold lines, P h = true

section Announcements

variable {P : Header → Bool} {lines : List HeaderLine} {l : HeaderLine}

theorem not_announces_nil : ¬ Announces P [] := by
  intro h
  obtain ⟨seen, hseen, h, hlast, -⟩ := h
  obtain rfl := List.prefix_nil.1 hseen
  cases hlast

theorem announces_snoc :
    Announces P (lines ++ [l]) ↔ Announces P lines ∨ ∃ h ∈ (unfold (lines ++ [l])).getLast?, P h = true :=
  exists_prefix_snoc

/-- a line changes only the last header -/
theorem mem_addLine {hs : List Header} {h : Header} (hmem : h ∈ addLine hs l) :
    h ∈ hs ∨ h ∈ (addLine hs l).getLast? := by
  cases l with
  | field name value hn ht hv =>
    rcases List.mem_append.1 hmem with hmem | hmem
    · exact Or.inl hmem
    · right
      rw [List.mem_singleton.1 hmem, addLine, List.getLast?_concat]
      exact rfl
  | folded blank content hn hb hc =>
    rcases List.eq_nil_or_concat' hs with rfl | ⟨hs, g, rfl⟩
    · exact Or.inl hmem
    · rw [addLine, List.modifyLast_concat] at hmem ⊢
      rcases List.mem_append.1 hmem with hmem | hmem
      · exact Or.inl (List.mem_append_left _ hmem)
      · right
        rw [List.mem_singleton.1 hmem, List.getLast?_concat]
        exact rfl

/-- **A header that is there in the end was announced.** -/
theorem announces_of_mem {h : Header} (hmem : h ∈ unfold lines) (hP : P h = true) : Announces P lines := by
  induction lines using List.reverseRecOn with
  | nil => cases hmem
  | append_singleton lines l ih =>
    rw [announces_snoc]
    rw [unfold_snoc] at hmem
    rcases mem_addLine hmem with hbefore | hlast
    · exact Or.inl (ih hbefore)
    · right
      rw [unfold_snoc]
      exact ⟨h, hlast, hP⟩

/-- a flag of what was announced is that of the final headers when this lasts -/
theorem flag_iff {flag : Bool} (hflag : flag = true ↔ Announces P lines) :
    (flag = true ↔ ∃ h ∈ unfold lines, P h = true) ↔ Lasts P lines := by
  rw [hflag, Lasts]
  constructor
  · intro h
    exact h.1
  · intro h
    refine ⟨h, fun hmem => ?_⟩
    obtain ⟨h, hmem, hP⟩ := hmem
    exact announces_of_mem hmem hP

end Announcements

/-! ## A scanner of header sections -/

/-- where a parser is: in the first line, at its end, in the header section, or past the CR of its blank line -/
inductive Place where
  | firstLine
  | firstLineEnd
  | lineStart
  | lws
  | name
  | space
  | value
  | lineEnd
  | done
deriving DecidableEq

/-- the place, the headers, and whether a header with the property has ended -/
structure Scanner where
  place : Place
  headers : List Header
  noted : Bool

/-- what a byte does to it -/
inductive ScanStep (P : Header → Bool) : Scanner → UInt8 → Scanner → Prop where
  | firstLine {hs f c} (hc : c ≠ CR) : ScanStep P ⟨.firstLine, hs, f⟩ c ⟨.firstLine, hs, f⟩
  | firstLineCR {hs f} : ScanStep P ⟨.firstLine, hs, f⟩ CR ⟨.firstLineEnd, hs, f⟩
  | firstLineLF {hs f} : ScanStep P ⟨.firstLineEnd, hs, f⟩ LF ⟨.lineStart, hs, f⟩
  | blankLine {hs f} : ScanStep P ⟨.lineStart, hs, f⟩ CR ⟨.done, hs, f⟩
  | fold {hs f c} (hne : hs ≠ []) (hc : c = SP ∨ c = HT) : ScanStep P ⟨.lineStart, hs, f⟩ c ⟨.lws, hs, f⟩
  | nameStart {hs f c} (hc : isToken c = true) :
      ScanStep P ⟨.lineStart, hs, f⟩ c ⟨.name, hs ++ [⟨[c], []⟩], f⟩
  | lwsEnd {hs f} : ScanStep P ⟨.lws, hs, f⟩ CR ⟨.lineEnd, hs, f⟩
  | lws {hs f c} (hc : c = SP ∨ c = HT) : ScanStep P ⟨.lws, hs, f⟩ c ⟨.lws, hs, f⟩
  | lwsValue {hs f c} (hsp : c ≠ SP) (hc : isCtl c = false) :
      ScanStep P ⟨.lws, hs, f⟩ c ⟨.value, hs.modifyLast fun h => { h with value := h.value ++ [c] }, f⟩
  | nameEnd {hs f} : ScanStep P ⟨.name, hs, f⟩ COLON ⟨.space, hs, f⟩
  | name {hs f c} (hc : isToken c = true) :
      ScanStep P ⟨.name, hs, f⟩ c ⟨.name, hs.modifyLast fun h => { h with name := h.name ++ [c] }, f⟩
  | valueStart {hs f} : ScanStep P ⟨.space, hs, f⟩ SP ⟨.value, hs, f⟩
  | value {hs f c} (hc : isCtl c = false) :
      ScanStep P ⟨.value, hs, f⟩ c ⟨.value, hs.modifyLast fun h => { h with value := h.value ++ [c] }, f⟩
  | valueEnd {hs f} : ScanStep P ⟨.value, hs, f⟩ CR ⟨.lineEnd, hs, f || P (back hs)⟩
  | newline {hs f} : ScanStep P ⟨.lineEnd, hs, f⟩ LF ⟨.lineStart, hs, f⟩
  | rest {hs f c} : ScanStep P ⟨.done, hs, f⟩ c ⟨.done, hs, f⟩

/-- a first line, header lines, and then some bytes -/
structure Section (u : Bytes) (lines : List HeaderLine) (rest : Bytes) : Prop where
  headField : HeadField lines
  split : ∃ first, CR ∉ first ∧ u = first ++ (CRLF ++ (linesText lines ++ rest))

/-- the value of the line has been begun: the rest of the line goes into it -/
def HeaderLine.Begun : HeaderLine → Prop
  | .field .. => True
  | .folded _ content .. => content.dropWhile (· == SP) ≠ []

/-- what has been read in each place -/
def Scanned (P : Header → Bool) (u : Bytes) (s : Scanner) : Prop :=
  match s.place with
  | .firstLine => CR ∉ u ∧ s.headers = [] ∧ s.noted = false
  | .firstLineEnd => (∃ first, CR ∉ first ∧ u = first ++ [CR]) ∧ s.headers = [] ∧ s.noted = false
  | .lineStart => ∃ lines, Section u lines [] ∧ s.headers = unfold lines ∧ (s.noted = true ↔ Announces P lines)
  | .lws =>
    ∃ lines blank, Section u lines blank ∧ lines ≠ [] ∧ blank ≠ [] ∧ (∀ c ∈ blank, c = SP ∨ c = HT) ∧
      s.headers = unfold lines ∧ (s.noted = true ↔ Announces P lines)
  | .name =>
    ∃ lines name, Section u lines name ∧ name ≠ [] ∧ (∀ c ∈ name, isToken c = true) ∧
      s.headers = unfold lines ++ [⟨name, []⟩] ∧ (s.noted = true ↔ Announces P lines)
  | .space =>
    ∃ lines name, Section u lines (name ++ [COLON]) ∧ name ≠ [] ∧ (∀ c ∈ name, isToken c = true) ∧
      s.headers = unfold lines ++ [⟨name, []⟩] ∧ (s.noted = true ↔ Announces P lines)
  | .value =>
    ∃ lines l, Section u lines l.text ∧ HeadField (lines ++ [l]) ∧ l.Begun ∧ s.headers = unfold (lines ++ [l]) ∧
      (s.noted = true ↔ Announces P lines)
  | .lineEnd =>
    ∃ lines l, Section u lines (l.text ++ [CR]) ∧ HeadField (lines ++ [l]) ∧ s.headers = unfold (lines ++ [l]) ∧
      (s.noted = true ↔ Announces P (lines ++ [l]))
  | .done =>
    ∃ lines rest, Section u lines (CR :: rest) ∧ s.headers = unfold lines ∧ (s.noted = true ↔ Announces P lines)

section Scanning

variable {P : Header → Bool} {u : Bytes} {lines : List HeaderLine} {rest : Bytes}

theorem Section.snoc (h : Section u lines rest) (c : UInt8) : Section (u ++ [c]) lines (rest ++ [c]) := by
  obtain ⟨hhead, first, hcr, rfl⟩ := h
  refine ⟨hhead, first, hcr, ?_⟩
  simp only [List.append_assoc]

/-- a line is complete -/
theorem Section.newline {l : HeaderLine} (h : Section u lines (l.text ++ [CR])) (hhead : HeadField (lines ++ [l])) :
    Section (u ++ [LF]) (lines ++ [l]) [] := by
  obtain ⟨-, first, hcr, rfl⟩ := h
  refine ⟨hhead, first, hcr, ?_⟩
  rw [linesText_append]
  simp only [List.append_assoc, List.append_nil, List.cons_append, List.nil_append]

theorem modifyLast_modifyLast {α : Type} (f g : α → α) (xs : List α) :
    (xs.modifyLast f).modifyLast g = xs.modifyLast fun x => g (f x) := by
  rcases List.eq_nil_or_concat' xs with rfl | ⟨xs, x, rfl⟩
  · rfl
  · rw [List.modifyLast_concat, List.modifyLast_concat, List.modifyLast_concat]

/-- a byte of the value goes into the line and into its header -/
theorem HeaderLine.Begun.snoc {l : HeaderLine} (h : l.Begun) (hhead : HeadField (lines ++ [l])) {c : UInt8}
    (hc : isCtl c = false) :
    ∃ l' : HeaderLine, l'.Begun ∧ HeadField (lines ++ [l']) ∧ l'.text = l.text ++ [c] ∧
      unfold (lines ++ [l']) = (unfold (lines ++ [l])).modifyLast fun h => { h with value := h.value ++ [c] } := by
  rw [unfold_snoc]
  cases l with
  | field name value hn ht hv =>
    refine ⟨.field name (value ++ [c]) hn ht (forall_mem_snoc hv hc), trivial, ?_, by simp [HeaderLine.text], ?_⟩
    · cases lines with
      | nil => simp [HeadField, HeaderLine.isField]
      | cons a lines => exact hhead
    · rw [unfold_snoc, addLine, addLine, List.modifyLast_concat]
  | folded blank content hn hb hv =>
    have hdrop : (content ++ [c]).dropWhile (· == SP) = content.dropWhile (· == SP) ++ [c] := by
      rw [List.dropWhile_append, if_neg (by rwa [List.isEmpty_iff])]
    refine ⟨.folded blank (content ++ [c]) hn hb (forall_mem_snoc hv hc), ?_, ?_, by simp [HeaderLine.text], ?_⟩
    · show (content ++ [c]).dropWhile (· == SP) ≠ []
      rw [hdrop]
      simp
    · cases lines with
      | nil => simp [HeadField, HeaderLine.isField] at hhead
      | cons a lines => exact hhead
    · rw [unfold_snoc, addLine, addLine, modifyLast_modifyLast, hdrop]
      simp only [List.append_assoc]

/-- what is past the blank line stays as it is, whatever comes after -/
theorem Scanned.append {s : Scanner} (h : Scanned P u s) (hdone : s.place = .done) (v : Bytes) :
    Scanned P (u ++ v) s := by
  unfold Scanned at h ⊢
  rw [hdone] at h ⊢
  obtain ⟨lines, rest, ⟨hhead, first, hcr, rfl⟩, hheaders, hnoted⟩ := h
  refine ⟨lines, rest ++ v, ⟨hhead, first, hcr, ?_⟩, hheaders, hnoted⟩
  simp only [List.append_assoc, List.cons_append]

/-- **Step lemma.** Every step extends what has been read. -/
theorem ScanStep.scanned {s s' : Scanner} {c : UInt8} (hstep : ScanStep P s c s') (h : Scanned P u s) :
    Scanned P (u ++ [c]) s' := by
  cases hstep with
  | firstLine hc =>
    obtain ⟨hcr, hheaders, hnoted⟩ := h
    refine ⟨?_, hheaders, hnoted⟩
    rw [List.mem_append, List.mem_singleton, not_or]
    exact ⟨hcr, Ne.symm hc⟩
  | firstLineCR =>
    obtain ⟨hcr, hheaders, hnoted⟩ := h
    exact ⟨⟨u, hcr, rfl⟩, hheaders, hnoted⟩
  | firstLineLF =>
    obtain ⟨⟨first, hcr, rfl⟩, hheaders, hnoted⟩ := h
    refine ⟨[], ⟨by simp [HeadField], first, hcr, by simp [linesText]⟩, hheaders, ?_⟩
    exact iff_of_false (by rw [show _ = false from hnoted]; decide) not_announces_nil
  | blankLine =>
    obtain ⟨lines, hsection, hheaders, hnoted⟩ := h
    exact ⟨lines, [], hsection.snoc CR, hheaders, hnoted⟩
  | fold hne hc =>
    obtain ⟨lines, hsection, hheaders, hnoted⟩ := h
    refine ⟨lines, [_], hsection.snoc _, ?_, by simp, by simpa using hc, hheaders, hnoted⟩
    rintro rfl
    exact hne hheaders
  | nameStart hc =>
    obtain ⟨lines, hsection, hheaders, hnoted⟩ := h
    refine ⟨lines, [_], hsection.snoc _, by simp, by simpa using hc, ?_, hnoted⟩
    rw [← hheaders]
  | lwsEnd =>
    obtain ⟨lines, blank, hsection, hlines, hne, hblank, hheaders, hnoted⟩ := h
    have hsame : unfold (lines ++ [.folded blank [] hne hblank (by simp)]) = unfold lines := by
      rw [unfold_snoc, addLine]
      rcases List.eq_nil_or_concat' (unfold lines) with hnil | ⟨hs, h, hlast⟩
      · rw [hnil]
        rfl
      · rw [hlast, List.modifyLast_concat, List.dropWhile_nil, List.append_nil]
    refine ⟨lines, .folded blank [] hne hblank (by simp), ?_,
      headField_append hsection.headField fun h => absurd h hlines, hheaders.trans hsame.symm, ?_⟩
    · rw [HeaderLine.text, List.append_nil]
      exact hsection.snoc CR
    · -- the header that the line belongs to is the one that the line before has left
      rw [announces_snoc, hsame]
      refine hnoted.trans ⟨Or.inl, fun h => h.elim id fun hlast => ⟨lines, List.prefix_refl _, hlast⟩⟩
  | lws hc =>
    obtain ⟨lines, blank, hsection, hlines, hne, hblank, hheaders, hnoted⟩ := h
    exact ⟨lines, blank ++ [_], hsection.snoc _, hlines, by simp, forall_mem_snoc hblank hc, hheaders, hnoted⟩
  | @lwsValue hs f c hsp hc =>
    obtain ⟨lines, blank, hsection, hlines, hne, hblank, hheaders, hnoted⟩ := h
    refine ⟨lines, .folded blank [c] hne hblank (by simpa using hc), hsection.snoc c,
      headField_append hsection.headField fun h => absurd h hlines, ?_, ?_, hnoted⟩
    · simp [HeaderLine.Begun, hsp]
    · rw [unfold_snoc, addLine, ← show hs = unfold lines from hheaders]
      simp [hsp]
  | nameEnd =>
    obtain ⟨lines, name, hsection, hne, htoken, hheaders, hnoted⟩ := h
    exact ⟨lines, name, hsection.snoc COLON, hne, htoken, hheaders, hnoted⟩
  | @name hs f c hc =>
    obtain ⟨lines, name, hsection, hne, htoken, hheaders, hnoted⟩ := h
    refine ⟨lines, name ++ [c], hsection.snoc c, by simp, forall_mem_snoc htoken hc, ?_, hnoted⟩
    show hs.modifyLast _ = _
    rw [show hs = unfold lines ++ [⟨name, []⟩] from hheaders, List.modifyLast_concat]
  | valueStart =>
    obtain ⟨lines, name, hsection, hne, htoken, hheaders, hnoted⟩ := h
    refine ⟨lines, .field name [] hne htoken (by simp), ?_, headField_append hsection.headField fun _ => trivial,
      trivial, ?_, hnoted⟩
    · have hsnoc := hsection.snoc SP
      rwa [List.append_assoc] at hsnoc
    · rw [unfold_snoc, addLine]
      exact hheaders
  | @value hs f c hc =>
    obtain ⟨lines, l, hsection, hhead, hbegun, hheaders, hnoted⟩ := h
    obtain ⟨l', hbegun', hhead', htext, hunfold⟩ := hbegun.snoc hhead hc
    refine ⟨lines, l', ?_, hhead', hbegun', ?_, hnoted⟩
    · rw [htext]
      exact hsection.snoc c
    · rw [hunfold, ← show hs = unfold (lines ++ [l]) from hheaders]
  | @valueEnd hs f =>
    obtain ⟨lines, l, hsection, hhead, hbegun, hheaders, hnoted⟩ := h
    refine ⟨lines, l, hsection.snoc CR, hhead, hheaders, ?_⟩
    obtain ⟨hs', h, hlast⟩ :=
      (List.eq_nil_or_concat' (unfold (lines ++ [l]))).resolve_left (unfold_ne_nil hhead (by simp))
    obtain rfl : hs = unfold (lines ++ [l]) := hheaders
    show (f || P (back (unfold (lines ++ [l])))) = true ↔ _
    rw [announces_snoc, Bool.or_eq_true, hlast, RequestParser.back_append, List.getLast?_concat]
    refine or_congr hnoted ⟨fun hP => ⟨h, rfl, hP⟩, fun hmem => ?_⟩
    obtain ⟨h', hmem, hP⟩ := hmem
    rwa [Option.some.inj (show some h = some h' from hmem)]
  | newline =>
    obtain ⟨lines, l, hsection, hhead, hheaders, hnoted⟩ := h
    exact ⟨lines ++ [l], hsection.newline hhead, hheaders, hnoted⟩
  | rest => exact Scanned.append h rfl _

end Scanning

/-! ## The two parsers are such scanners -/

namespace RequestParser

/-- the place that a state stands for -/
def State.place : State → Place
  | .expectingNewline1 => .firstLineEnd
  | .headerLineStart => .lineStart
  | .headerLws => .lws
  | .headerName => .name
  | .spaceBeforeHeaderValue => .space
  | .headerValue => .value
  | .expectingNewline2 => .lineEnd
  | .expectingNewline3 | .expectingBody => .done
  | _ => .firstLine

def scanner (s : St) : Scanner := ⟨s.1.state.place, s.2.headers, s.2.keepAlive⟩

/-- **A request parser scans**: it notes in `keep_alive` the headers that ask for it. -/
theorem scans {s s' : St} {c : UInt8} {v : Verdict} (h : consume s c = (v, s')) (hv : v ≠ .bad) :
    ScanStep isKeepAlive (scanner s) c (scanner s') := by
  cases v with
  | bad => exact absurd rfl hv
  | good =>
    rcases consume_good h with ⟨hst, -, -, rfl⟩ | ⟨hst, -, rfl⟩
    · unfold scanner
      rw [hst]
      exact .rest
    · unfold scanner
      rw [hst]
      exact .rest
  | indeterminate =>
    cases consume_moves h with
    | methodStart hc | method hc => exact .firstLine (isToken_ne_CR hc)
    | methodEnd | uriEnd | versionH | versionT1 | versionT2 | versionP | versionSlash | majorEnd =>
      exact .firstLine (by decide)
    | uri hsp hc => exact .firstLine (isCtl_ne hc (by decide))
    | majorStart hc | major hc | minorStart hc | minor hc => exact .firstLine (isDigit_ne hc (by decide))
    | minorEnd => exact .firstLineCR
    | newline1 => exact .firstLineLF
    | blankLine => exact .blankLine
    | fold hne hc => exact .fold hne hc
    | nameStart hc => exact .nameStart hc
    | lwsEnd => exact .lwsEnd
    | lws hc => exact .lws hc
    | lwsValue hsp hc => exact .lwsValue hsp hc
    | nameEnd => exact .nameEnd
    | name hc => exact .name hc
    | valueStart => exact .valueStart
    | value hc => exact .value hc
    | valueEnd | lengthEnd =>
      rw [ResponseParser.noteKeepAlive_eq]
      exact .valueEnd
    | newline2 => exact .newline
    | newline3 | body => exact .rest

/-- a request that is accepted has been scanned -/
theorem accepts_scanned {w : Bytes} {n : ℤ} {u : Uninit} {t : St}
    (h : Accepts consume (⟨.methodStart, n⟩, .fresh u) w t) :
    Scanned isKeepAlive w (scanner t) ∧ (scanner t).place = .done := by
  obtain ⟨x, c, s, rfl, hreads, hlast⟩ := h.last
  have hstart : Scanned isKeepAlive [] (scanner (⟨.methodStart, n⟩, .fresh u)) := ⟨List.not_mem_nil, rfl, rfl⟩
  have hscanned : Scanned isKeepAlive x (scanner s) :=
    hreads.invariant (fun x s => Scanned isKeepAlive x (scanner s)) hstart
      fun _ _ _ _ hx hs => (scans hs (by decide)).scanned hx
  refine ⟨(scans hlast (by decide)).scanned hscanned, ?_⟩
  rcases consume_good hlast with ⟨hst, -, -, rfl⟩ | ⟨-, -, rfl⟩
  · rw [scanner, hst]
    rfl
  · rfl

end RequestParser

namespace ResponseParser

/-- the place that a state stands for -/
def State.place : State → Place
  | .expectingNewline1 => .firstLineEnd
  | .headerLineStart => .lineStart
  | .headerLws => .lws
  | .headerName => .name
  | .spaceBeforeHeaderValue => .space
  | .headerValue => .value
  | .expectingNewline2 => .lineEnd
  | .expectingNewline3 | .expectingBody | .chunkSizeStart | .chunkSize | .expectingNewline4 | .expectingChunk
  | .expectingNewline5 => .done
  | _ => .firstLine

def scanner (s : St) : Scanner := ⟨s.1.place, s.2.headers, s.2.chunked⟩

theorem scanner_of_good {s s' : St} {c : UInt8} (h : consume s c = (.good, s')) : (scanner s').place = .done := by
  cases consume_finishes h <;> rfl

/-- **A response parser scans**: it notes in `chunked` the headers that announce chunks. -/
theorem scans {s s' : St} {c : UInt8} {v : Verdict} (h : consume s c = (v, s')) (hv : v ≠ .bad) :
    ScanStep isChunked (scanner s) c (scanner s') := by
  cases v with
  | bad => exact absurd rfl hv
  | good => cases consume_finishes h <;> exact .rest
  | indeterminate =>
    cases consume_moves h with
    | versionH | versionT1 | versionT2 | versionP | versionSlash | majorEnd | minorEnd | codeEnd =>
      exact .firstLine (by decide)
    | majorStart hc | major hc | minorStart hc | minor hc | code2 hc | code3 hc =>
      exact .firstLine (isDigit_ne hc (by decide))
    | code1 hc =>
      refine .firstLine ?_
      rintro rfl
      exact absurd hc (by decide)
    | reason hcr => exact .firstLine hcr
    | reasonEnd => exact .firstLineCR
    | newline1 => exact .firstLineLF
    | blankLine => exact .blankLine
    | fold hne hc => exact .fold hne hc
    | nameStart hc => exact .nameStart hc
    | lwsEnd => exact .lwsEnd
    | lws hc => exact .lws hc
    | lwsValue hsp hc => exact .lwsValue hsp hc
    | nameEnd => exact .nameEnd
    | name hc => exact .name hc
    | valueStart => exact .valueStart
    | value hc => exact .value hc
    | valueEnd | lengthEnd =>
      rw [noteFlags_eq]
      exact .valueEnd
    | newline2 => exact .newline
    | _ => exact .rest

/-- a buffer that is not bad is scanned; what the loop leaves unread comes after a response that is complete -/
theorem parseLoop_scanned {s : St} {result : Verdict} {x w : Bytes} (h : Scanned isChunked x (scanner s))
    (hv : (parseLoop s result w).1 ≠ .bad) : Scanned isChunked (x ++ w) (scanner (parseLoop s result w).2.2) := by
  induction w generalizing s result x with
  | nil =>
    rw [List.append_nil]
    exact h
  | cons c w ih =>
    rcases hs : consume s c with ⟨v, s'⟩
    simp only [parseLoop, hs] at hv ⊢
    by_cases hbad : v = .bad
    · rw [if_pos hbad] at hv
      exact absurd hbad hv
    · have hnext := (scans hs hbad).scanned h
      rw [List.append_cons]
      rw [if_neg hbad] at hv ⊢
      split_ifs at hv ⊢ with hdone
      · obtain ⟨rfl, -⟩ := hdone
        exact hnext.append (scanner_of_good hs) w
      · exact ih hnext hv

theorem place_of_headersDone {st : State} (h : headersDone st) : st.place = .done := by
  cases st with
  | expectingNewline3 | expectingBody | expectingNewline4 => rfl
  | _ => exact h.elim

/-- buffers that are not bad are scanned -/
theorem parseAll_scanned {u : ResponseUninit} {parts : List Bytes}
    (h : ∀ seen, seen <+: parts → (parseAll (fresh u) seen).1 ≠ .bad) :
    Scanned isChunked parts.flatten (scanner (parseAll (fresh u) parts).2) := by
  induction parts using List.reverseRecOn with
  | nil => exact ⟨List.not_mem_nil, rfl, rfl⟩
  | append_singleton parts last ih =>
    have hbefore := ih fun seen hseen => h seen (hseen.trans (List.prefix_append _ _))
    have hlast := h (parts ++ [last]) (List.prefix_refl _)
    rw [parseAll_snoc] at hlast ⊢
    rw [List.flatten_append, List.flatten_singleton]
    exact parseLoop_scanned hbefore hlast

/-- a response that is good in the end is past its headers -/
theorem parseAll_done {u : ResponseUninit} {parts : List Bytes} (h : (parseAll (fresh u) parts).1 = .good) :
    (scanner (parseAll (fresh u) parts).2).place = .done := by
  rcases List.eq_nil_or_concat' parts with rfl | ⟨parts, last, rfl⟩
  · cases h
  · rw [parseAll_snoc] at h ⊢
    exact place_of_headersDone (parse_headersDone h)

end ResponseParser

/-! ## The flags of complete messages -/

/-- a message has the lines, the headers are theirs, and its flag says whether one of them has the property exactly when
what the lines announce lasts -/
def FlagFollows (P : Header → Bool) (message : Bytes) (headers : List Header) (flag : Bool) : Prop :=
  ∃ lines rest, Section message lines (CR :: rest) ∧ headers = unfold lines ∧
    ((flag = true ↔ ∃ h ∈ headers, P h = true) ↔ Lasts P lines)

theorem Scanned.flagFollows {P : Header → Bool} {u : Bytes} {s : Scanner} (h : Scanned P u s)
    (hdone : s.place = .done) : FlagFollows P u s.headers s.noted := by
  unfold Scanned at h
  rw [hdone] at h
  obtain ⟨lines, rest, hsection, hheaders, hnoted⟩ := h
  refine ⟨lines, rest, hsection, hheaders, ?_⟩
  rw [hheaders]
  exact flag_iff hnoted

/-- **When the flags are those of the final headers.** In every request that is accepted, `keep_alive`, and in every
response, in whatever buffers it comes, `chunked`: exactly when a header that is announced at the end of a line, before
a continuation of it, is still there in the end, itself or by another one. -/
theorem connection_flags_iff (w : Bytes) (n : ℤ) (u : Uninit) (t : RequestParser.St) (parts : List Bytes)
    (v : ResponseUninit) (r : ResponseParser.St) :
    (Accepts RequestParser.consume (⟨.methodStart, n⟩, .fresh u) w t →
        FlagFollows isKeepAlive w t.2.headers t.2.keepAlive) ∧
      ((∀ seen, seen <+: parts → (parseAll (ResponseParser.fresh v) seen).1 ≠ .bad) →
        parseAll (ResponseParser.fresh v) parts = (.good, r) →
          FlagFollows isChunked parts.flatten r.2.headers r.2.chunked) := by
  constructor
  · intro haccepts
    obtain ⟨hscanned, hdone⟩ := RequestParser.accepts_scanned haccepts
    exact hscanned.flagFollows hdone
  · intro hseen hgood
    have hscanned := ResponseParser.parseAll_scanned hseen
    have hstatus : (ResponseParser.parseAll (ResponseParser.fresh v) parts).1 = .good := by rw [hgood]
    have hdone := ResponseParser.parseAll_done hstatus
    rw [hgood] at hscanned hdone
    exact hscanned.flagFollows hdone

/-- a continuation takes the value away, and the flag stays -/
theorem connection_flags_folded :
    ∃ t, RequestParser.parse (RequestParser.fresh, .fresh ⟨0, 0, 0⟩)
        (ascii "GET / HTTP/1.1\r\nConnection: Keep-Alive\r\n x\r\n\r\n") = (.good, [], t) ∧
      t.2.keepAlive = true ∧ t.2.headers = [⟨ascii "Connection", ascii "Keep-Alivex"⟩] ∧
        ¬ ∃ h ∈ t.2.headers, isKeepAlive h = true :=
  ⟨(RequestParser.parse (RequestParser.fresh, .fresh ⟨0, 0, 0⟩)
    (ascii "GET / HTTP/1.1\r\nConnection: Keep-Alive\r\n x\r\n\r\n")).2.2, by decide +kernel, by decide +kernel,
    by decide +kernel, by decide +kernel⟩

/-- the theorem at a request with a continuation of another header -/
theorem connection_flags_kept :
    ∃ lines rest, Section (ascii "GET / HTTP/1.1\r\nConnection: keep-alive\r\nA: b\r\n c\r\n\r\n") lines (CR :: rest) ∧
      unfold lines = [⟨ascii "Connection", ascii "keep-alive"⟩, ⟨ascii "A", ascii "bc"⟩] ∧ Lasts isKeepAlive lines := by
  have haccepts : Accepts RequestParser.consume (⟨.methodStart, 0⟩, .fresh ⟨0, 0, 0⟩)
      (ascii "GET / HTTP/1.1\r\nConnection: keep-alive\r\nA: b\r\n c\r\n\r\n")
      (RequestParser.parse (RequestParser.fresh, .fresh ⟨0, 0, 0⟩)
        (ascii "GET / HTTP/1.1\r\nConnection: keep-alive\r\nA: b\r\n c\r\n\r\n")).2.2 :=
    (RequestParser.parse_good_iff (r := [])).1 (by decide +kernel) |>.2
  have hkept := (connection_flags_iff _ _ _ _ [] ⟨0, 0, 0, 0, 0⟩ (ResponseParser.fresh ⟨0, 0, 0, 0, 0⟩)).1 haccepts
  obtain ⟨lines, rest, hsection, hheaders, hfollows⟩ := hkept
  refine ⟨lines, rest, hsection, ?_, hfollows.1 (iff_of_true (by decide +kernel) (by decide +kernel))⟩
  rw [← hheaders]
  decide +kernel

end BlogServer.Http
