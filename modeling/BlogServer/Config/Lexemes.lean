/-
Tokens as they are written, and texts that separate them by blanks.

`Spaced` is the shape of a text: lexemes, in order, with runs of spaces, tabs and line feeds between any two; a run may
be empty except after a word, where a blank or a delimiter has to follow. The tokenizer reads such a text back lexeme by
lexeme (`parseToken_spaced`), so the loop of `Parse` on it is a run over the lexemes (`parseLoop_spaced`).

- `parse_spaced`: a spaced text is accepted if the run over its lexemes comes to a state in which a text may end.
- `run_registry`: what a run has recorded as handler types stays recorded, and is recorded once.
-/
import BlogServer.Config.ConfigParser

namespace BlogServer.Config

open BlogServer.Byte

/-! ## Lexemes -/

/-- the delimiters of a bare word, and the bytes that start a token of another kind -/
def isWordByte (c : UInt8) : Bool := !List.contains [SP, HT, LF, CR, SEMI, LBRACE, RBRACE, HASH, DQUOTE, SQUOTE] c

inductive Lexeme where
  | word (value : Bytes)
  | quoted (content : Bytes)
  | semicolon
  | openBrace
  | closeBrace

namespace Lexeme

/-- the bytes of the lexeme, which are also the value of its token -/
def text : Lexeme → Bytes
  | .word value => value
  | .quoted content => DQUOTE :: (content ++ [DQUOTE])
  | .semicolon => [SEMI]
  | .openBrace => [LBRACE]
  | .closeBrace => [RBRACE]

def tokenType : Lexeme → TokenType
  | .word _ | .quoted _ => .normal
  | .semicolon => .statementEnd
  | .openBrace => .startBlock
  | .closeBrace => .endBlock

/-- a word is not empty and has no delimiter in it; a quoted string has no quote in it -/
def WellFormed : Lexeme → Prop
  | .word value => value ≠ [] ∧ ∀ c ∈ value, isWordByte c = true
  | .quoted content => DQUOTE ∉ content
  | _ => True

def isWord : Lexeme → Bool
  | .word _ => true
  | _ => false

end Lexeme

def isBlank (c : UInt8) : Bool := c == SP || c == HT || c == LF

/-- the bytes at which a bare word ends -/
def isDelimiter (c : UInt8) : Bool := isBlank c || c == SEMI || c == LBRACE || c == RBRACE

/-- the lexemes one after the other, blanks before and after each, and a word set off from what follows -/
inductive Spaced : List Lexeme → Bytes → Prop where
  | nil {gap} (hgap : ∀ c ∈ gap, isBlank c = true) : Spaced [] gap
  | cons {gap l ls rest} (hgap : ∀ c ∈ gap, isBlank c = true) (hrest : Spaced ls rest)
      (hsep : l.isWord = true → ∃ c ∈ rest.head?, isDelimiter c = true) : Spaced (l :: ls) (gap ++ l.text ++ rest)

theorem Spaced.blank {ls : List Lexeme} {input : Bytes} (h : Spaced ls input) {c : UInt8} (hc : isBlank c = true) :
    Spaced ls (c :: input) := by
  cases h with
  | nil hgap => exact .nil (by simpa [hc] using hgap)
  | @cons gap l ls rest hgap hrest hsep =>
    have hgap' : ∀ d ∈ c :: gap, isBlank d = true := by simpa [hc] using hgap
    exact .cons hgap' hrest hsep

/-- the lexemes with a space after each -/
theorem Spaced.single (ls : List Lexeme) : Spaced ls (ls.flatMap fun l => l.text ++ [SP]) := by
  induction ls with
  | nil => exact .nil (by simp)
  | cons l ls ih =>
    rw [List.flatMap_cons, List.append_assoc]
    have hrest : Spaced ls ([SP] ++ ls.flatMap fun l => l.text ++ [SP]) := ih.blank rfl
    have hnone : ∀ c ∈ ([] : Bytes), isBlank c = true := by simp
    exact .cons hnone hrest fun _ => ⟨SP, rfl, rfl⟩

/-! ## Reading lexemes -/

theorem parseToken_blank {gap : Bytes} (hgap : ∀ c ∈ gap, isBlank c = true) (input : Bytes) :
    parseToken .initialWhitespace [] (gap ++ input) = parseToken .initialWhitespace [] input := by
  induction gap with
  | nil => rfl
  | cons c gap ih =>
    have hc := hgap c (by simp)
    simp only [isBlank, Bool.or_eq_true, beq_iff_eq] at hc
    rw [← ih fun d hd => hgap d (by simp [hd])]
    rcases hc with (rfl | rfl) | rfl <;> rfl

theorem parseToken_quotedTail {content : Bytes} (h : DQUOTE ∉ content) (value input : Bytes) :
    parseToken .doubleQuote value (content ++ DQUOTE :: input) = (.normal, value ++ content ++ [DQUOTE], input) := by
  induction content generalizing value with
  | nil => simp [parseToken]
  | cons c content ih =>
    have hc : c ≠ DQUOTE := fun he => h (by simp [he])
    rw [List.cons_append, parseToken, if_neg hc, ih fun hm => h (by simp [hm])]
    simp

theorem isWordByte_ne {c d : UInt8} (hc : isWordByte c = true) (hd : isWordByte d = false) : c ≠ d := by
  rintro rfl; simp [hc] at hd

theorem parseToken_wordTail {value : Bytes} (h : ∀ c ∈ value, isWordByte c = true) (start : Bytes) {d : UInt8}
    (hd : isDelimiter d = true) (input : Bytes) :
    parseToken .normal start (value ++ d :: input) = (.normal, start ++ value, d :: input) := by
  induction value generalizing start with
  | nil =>
    have hstop : d = SP ∨ d = HT ∨ d = LF ∨ d = SEMI ∨ d = LBRACE ∨ d = RBRACE := by
      simpa only [isDelimiter, isBlank, Bool.or_eq_true, beq_iff_eq, or_assoc] using hd
    rw [List.nil_append, parseToken, if_pos hstop, List.append_nil]
  | cons c value ih =>
    have hc := h c (by simp)
    have hgo : ¬ (c = SP ∨ c = HT ∨ c = LF ∨ c = SEMI ∨ c = LBRACE ∨ c = RBRACE) := by
      simp only [not_or]
      exact ⟨isWordByte_ne hc rfl, isWordByte_ne hc rfl, isWordByte_ne hc rfl, isWordByte_ne hc rfl,
        isWordByte_ne hc rfl, isWordByte_ne hc rfl⟩
    rw [List.cons_append, parseToken, if_neg hgo, ih fun x hx => h x (by simp [hx])]
    simp

theorem parseToken_word {value : Bytes} (hne : value ≠ []) (h : ∀ c ∈ value, isWordByte c = true) {d : UInt8}
    (hd : isDelimiter d = true) (input : Bytes) :
    parseToken .initialWhitespace [] (value ++ d :: input) = (.normal, value, d :: input) := by
  obtain ⟨c, value, rfl⟩ := List.exists_cons_of_ne_nil hne
  have hc := h c (by simp)
  have hvalue : ∀ x ∈ value, isWordByte x = true := fun x hx => h x (by simp [hx])
  have htail := parseToken_wordTail hvalue [c] hd input
  have hblank : ¬ (c = SP ∨ c = HT ∨ c = LF ∨ c = CR) := by
    simp only [not_or]
    exact ⟨isWordByte_ne hc rfl, isWordByte_ne hc rfl, isWordByte_ne hc rfl, isWordByte_ne hc rfl⟩
  rw [List.cons_append, parseToken]
  simp only [isWordByte_ne hc (d := LBRACE) rfl, isWordByte_ne hc (d := RBRACE) rfl, isWordByte_ne hc (d := HASH) rfl,
    isWordByte_ne hc (d := DQUOTE) rfl, isWordByte_ne hc (d := SQUOTE) rfl, isWordByte_ne hc (d := SEMI) rfl, hblank,
    if_false, List.nil_append]
  exact htail

/-- **The tokenizer reads the first lexeme** and leaves the text of the others. -/
theorem parseToken_spaced {l : Lexeme} {ls : List Lexeme} {input : Bytes} (h : Spaced (l :: ls) input)
    (hl : l.WellFormed) :
    ∃ rest, parseToken .initialWhitespace [] input = (l.tokenType, l.text, rest) ∧ Spaced ls rest := by
  cases h with
  | @cons gap _ _ rest hgap hrest hsep =>
    refine ⟨rest, ?_, hrest⟩
    rw [List.append_assoc, parseToken_blank hgap]
    cases l with
    | word value =>
      obtain ⟨d, hd, hdelimiter⟩ := hsep rfl
      obtain ⟨tail, rfl⟩ := List.head?_eq_some_iff.1 hd
      exact parseToken_word hl.1 hl.2 hdelimiter tail
    | quoted content =>
      have := parseToken_quotedTail hl [DQUOTE] rest
      simpa [Lexeme.text, Lexeme.tokenType, parseToken, (by decide : DQUOTE ≠ LBRACE), (by decide : DQUOTE ≠ RBRACE),
        (by decide : DQUOTE ≠ HASH)] using this
    | semicolon => rfl
    | openBrace => rfl
    | closeBrace => rfl

theorem parseToken_end {input : Bytes} (h : Spaced [] input) :
    parseToken .initialWhitespace [] input = (.eof, [], []) := by
  cases h with
  | nil hgap => rw [← List.append_nil input, parseToken_blank hgap]; rfl

/-! ## Words with a meaning -/

theorem cons_not_mem {c : UInt8} (rest : Bytes) {words : List Bytes} (h : ∀ word ∈ words, word.head? ≠ some c) :
    c :: rest ∉ words := fun hm => h _ hm rfl

/-- the keywords of `Parse` -/
def keywords : List Bytes :=
  [ascii "port", ascii "location", ascii "root", ascii "host", ascii "password", ascii "username"]

/-- the handler names of `Parse` -/
def handlerNames : List Bytes :=
  [ascii "StaticHandler", ascii "RedirectHandler", ascii "ProxyHandler", ascii "BlogHandler", ascii "EchoHandler",
    ascii "StatusHandler", ascii "HealthHandler", ascii "UploadFormHandler"]

theorem keyword_other (f : Flags) {token : Bytes} (h : token ∉ keywords) : keyword f token = f := by
  simp only [keywords, List.mem_cons, List.not_mem_nil, or_false, not_or] at h
  obtain ⟨h1, h2, h3, h4, h5, h6⟩ := h
  simp [keyword, h1, h2, h3, h4, h5, h6]

theorem handlerType_other (st : ParseState) {token : Bytes} (h : token ∉ handlerNames) :
    handlerType st token =
      { st with registry := if st.flags.expectHandlerType then st.registry.note token else st.registry } := by
  simp only [handlerNames, List.mem_cons, List.not_mem_nil, or_false, not_or] at h
  obtain ⟨h1, h2, h3, h4, h5, h6, h7, h8⟩ := h
  unfold handlerType
  simp only [h1, h2, h3, h4, h5, h6, h7, h8, if_false]
  split <;> rfl

/-! ## Runs over lexemes -/

/-- turns of the loop, one for each lexeme -/
def run (st : ParseState) : List Lexeme → Except Fault Progress
  | [] => .ok (.goOn st)
  | l :: ls =>
    match step st l.tokenType l.text with
    | .ok (.goOn st) => run st ls
    | r => r

theorem run_cons {st st' : ParseState} {l : Lexeme} (h : step st l.tokenType l.text = .ok (.goOn st'))
    (ls : List Lexeme) : run st (l :: ls) = run st' ls := by
  rw [run, h]

theorem run_append {st st' : ParseState} {ls : List Lexeme} (h : run st ls = .ok (.goOn st')) (ls' : List Lexeme) :
    run st (ls ++ ls') = run st' ls' := by
  induction ls generalizing st with
  | nil =>
    simp only [run, Except.ok.injEq, Progress.goOn.injEq] at h
    rw [List.nil_append, h]
  | cons l ls ih =>
    rw [run] at h
    rw [List.cons_append, run]
    split at h
    · exact ih h
    · rename_i hstop
      exact absurd h (hstop st')

/-! ## The handler types of a run -/

/-- `handler_types_` has each token that was seen, once -/
structure Registry.Consistent (r : Registry) : Prop where
  seen : ∀ token, token ∈ r.seenHandlers ↔ token ∈ r.handlerTypes
  nodup : r.handlerTypes.Nodup

theorem Registry.note_mem (r : Registry) (token : Bytes) (h : r.Consistent) : token ∈ (r.note token).handlerTypes := by
  unfold note
  split
  · rename_i hseen
    exact (h.seen token).1 hseen
  · simp

theorem Registry.note_mono (r : Registry) (noted : Bytes) {token : Bytes} (h : token ∈ r.handlerTypes) :
    token ∈ (r.note noted).handlerTypes := by
  unfold note
  split
  · exact h
  · exact List.mem_append_left _ h

theorem Registry.Consistent.note {r : Registry} (h : r.Consistent) (token : Bytes) : (r.note token).Consistent := by
  unfold Registry.note
  split
  · exact h
  · rename_i hnew
    refine ⟨fun other => ?_, ?_⟩
    · rw [List.mem_cons, h.seen, List.mem_append, List.mem_singleton, or_comm]
    · have hfresh : token ∉ r.handlerTypes := fun hm => hnew ((h.seen token).2 hm)
      exact List.nodup_append.2 ⟨h.nodup, List.nodup_singleton token, fun a ha b hb => by
        rw [List.mem_singleton.1 hb]; exact fun he => hfresh (he ▸ ha)⟩

/-- **The handler types of a run**: those it started with are kept, and none is recorded twice. -/
theorem run_registry {st st' : ParseState} {ls : List Lexeme} (hrun : run st ls = .ok (.goOn st'))
    (h : st.registry.Consistent) :
    st'.registry.Consistent ∧ ∀ token ∈ st.registry.handlerTypes, token ∈ st'.registry.handlerTypes := by
  induction ls generalizing st with
  | nil =>
    simp only [run, Except.ok.injEq, Progress.goOn.injEq] at hrun
    rw [← hrun]
    exact ⟨h, fun token hm => hm⟩
  | cons l ls ih =>
    rw [run] at hrun
    split at hrun
    · rename_i st₁ hstep
      rcases step_registry hstep with hreg | ⟨noted, hreg⟩
      · obtain ⟨hc, hmono⟩ := ih hrun (hreg ▸ h)
        exact ⟨hc, fun token hm => hmono token (hreg ▸ hm)⟩
      · obtain ⟨hc, hmono⟩ := ih hrun (hreg ▸ h.note noted)
        exact ⟨hc, fun token hm => hmono token (hreg ▸ st.registry.note_mono noted hm)⟩
    · rename_i hstop
      exact absurd hrun (hstop st')

/-! ## The loop on a text -/

/-- **The loop on a spaced text** is the run over its lexemes. -/
theorem parseLoop_spaced {ls : List Lexeme} {st st' : ParseState} {input : Bytes} (h : Spaced ls input)
    (hls : ∀ l ∈ ls, l.WellFormed) (hrun : run st ls = .ok (.goOn st')) (fuel : ℕ) :
    ∃ rest, Spaced [] rest ∧ parseLoop (ls.length + fuel) st input = parseLoop fuel st' rest := by
  induction ls generalizing st input with
  | nil =>
    simp only [run, Except.ok.injEq, Progress.goOn.injEq] at hrun
    exact ⟨input, h, by rw [List.length_nil, Nat.zero_add, hrun]⟩
  | cons l ls ih =>
    obtain ⟨rest, htoken, hrest⟩ := parseToken_spaced h (hls l (by simp))
    rw [run] at hrun
    split at hrun
    · rename_i st₁ hstep
      obtain ⟨rest', hend, hloop⟩ := ih hrest (fun x hx => hls x (by simp [hx])) hrun
      refine ⟨rest', hend, ?_⟩
      rw [← hloop, List.length_cons, Nat.succ_add_eq_add_succ, Nat.add_succ, parseLoop, htoken]
      simp only [hstep]
    · rename_i hstop
      exact absurd hrun (hstop st')

/-- a spaced text has a byte for every lexeme -/
theorem length_le_spaced {ls : List Lexeme} {input : Bytes} (h : Spaced ls input) (hls : ∀ l ∈ ls, l.WellFormed) :
    ls.length ≤ input.length := by
  induction h with
  | nil => simp
  | @cons gap l ls rest hgap hrest hsep ih =>
    have htext : 0 < l.text.length := by
      cases l with
      | word value =>
        have hword : (Lexeme.word value).WellFormed := hls (.word value) List.mem_cons_self
        exact List.length_pos_iff.2 hword.1
      | _ => simp [Lexeme.text]
    have := ih fun x hx => hls x (by simp [hx])
    simp only [List.length_cons, List.length_append]
    omega

/-- the end of the input, when no flag is set and no block is open -/
theorem step_eof {st : ParseState} (hflags : st.flags = {})
    (hend : st.lastTokenType = .statementEnd ∨ st.lastTokenType = .endBlock ∨ st.lastTokenType = .start)
    (hbrackets : st.brackets = 0) : step st .eof [] = .ok (.stop true st.result) := by
  obtain ⟨flags, location, host, registry, last, brackets, stack, config⟩ := st
  simp only at hflags hend hbrackets
  subst hflags hbrackets
  have hstop : transition ⟨{}, location, host, registry, last, 0, stack, config⟩ .eof [] =
      .stop true (ParseState.result ⟨{}, location, host, registry, last, 0, stack, config⟩) := by
    unfold transition
    rw [if_pos hend]
    rfl
  rw [← hstop]
  rfl

/-- **A spaced text is parsed** if the run over its lexemes comes to a state in which the text may end. -/
theorem parse_spaced {ls : List Lexeme} {config : NginxConfig} {st' : ParseState} {input : Bytes} (h : Spaced ls input)
    (hls : ∀ l ∈ ls, l.WellFormed) (hrun : run (.initial config) ls = .ok (.goOn st'))
    (hflags : st'.flags = {})
    (hend : st'.lastTokenType = .statementEnd ∨ st'.lastTokenType = .endBlock ∨ st'.lastTokenType = .start)
    (hbrackets : st'.brackets = 0) : parse config input = .ok (true, st'.result) := by
  obtain ⟨fuel, hfuel⟩ := Nat.exists_eq_add_of_le (length_le_spaced h hls)
  obtain ⟨rest, hrest, hloop⟩ := parseLoop_spaced h hls hrun (fuel + 1)
  have hstep : step st' .eof [] = .ok (.stop true st'.result) := step_eof hflags hend hbrackets
  rw [parse, hfuel, Nat.add_assoc, hloop, parseLoop, parseToken_end hrest]
  simp only [hstep]

end BlogServer.Config
