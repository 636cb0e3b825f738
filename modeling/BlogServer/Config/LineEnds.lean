/-
Line ends in a configuration.

Whitespace is told from other bytes apart in each state of `ParseToken`, and CR is none in a word: it becomes part of
it. In every other state a CR before an LF changes nothing. So `Parse` reads the same tokens of a text whose LFs outside
quotes become CR LF exactly when no word that it reads is ended by an LF (`line_ends_iff`). What is left of the text
when a parse has ended is not read, and may have any line ends.

- `parseToken_withCRLF`: one token of the two texts.
- `tokensRead_withCRLF`: the tokens that are read of them.
- `line_ends_port`: `port`, at the end of a line.
-/
import BlogServer.Config.Comments

namespace BlogServer.Config

open BlogServer.Byte

/-! ## Line ends -/

/-- the state in which `ParseToken` reads the byte after this one; the delimiter of a word is put back and read again -/
def TokenParserState.after (state : TokenParserState) (c : UInt8) : TokenParserState :=
  match state with
  | .initialWhitespace =>
    if c = HASH then .comment
    else if c = DQUOTE then .doubleQuote
    else if c = SQUOTE then .singleQuote
    else if c = LBRACE ∨ c = RBRACE ∨ c = SEMI ∨ c = SP ∨ c = HT ∨ c = LF ∨ c = CR then .initialWhitespace
    else .normal
  | .singleQuote => if c = SQUOTE then .initialWhitespace else .singleQuote
  | .doubleQuote => if c = DQUOTE then .initialWhitespace else .doubleQuote
  | .comment => if c = LF ∨ c = CR then .initialWhitespace else .comment
  | .normal =>
    if c = SP ∨ c = HT ∨ c = LF ∨ c = SEMI ∨ c = LBRACE ∨ c = RBRACE then .initialWhitespace else .normal

/-- the byte is read inside quotes -/
def TokenParserState.Quoted (state : TokenParserState) : Prop := state = .singleQuote ∨ state = .doubleQuote

instance decidableQuoted (state : TokenParserState) : Decidable state.Quoted := inferInstanceAs (Decidable (_ ∨ _))

/-- the text with a CR before every LF that is not inside quotes, from a state on -/
def withCRLFFrom (state : TokenParserState) : Bytes → Bytes
  | [] => []
  | c :: text =>
    if c = LF ∧ ¬ state.Quoted then CR :: LF :: withCRLFFrom (state.after c) text
    else c :: withCRLFFrom (state.after c) text

/-- the text with its LFs outside quotes replaced by CR LF -/
def withCRLF (text : Bytes) : Bytes := withCRLFFrom .initialWhitespace text

/-- no quotes are around the word -/
def Unquoted (token : Bytes) : Prop := token.head? ≠ some SQUOTE ∧ token.head? ≠ some DQUOTE

/-- what is read is a word, and an LF comes right after it -/
def EndsLine (r : TokenType × Bytes × Bytes) : Prop := r.1 = .normal ∧ Unquoted r.2.1 ∧ r.2.2.head? = some LF

/-- the input that is left after the first tokens -/
def inputAfter (n : ℕ) (text : Bytes) : Bytes := (fun input => (parseToken .initialWhitespace [] input).2.2)^[n] text

/-- no word that is read from a state on is ended by an LF -/
def NoWordEnd (st : ParseState) (text : Bytes) : Prop :=
  ∀ n, (∃ st', turns st ((tokens text).take n) = .ok (.goOn st')) →
    ¬ EndsLine (parseToken .initialWhitespace [] (inputAfter n text))

/-- the tokens that are read from a state on: the last of them is the one that ends the parse -/
def tokensRead (st : ParseState) : List Token → List Token
  | [] => []
  | t :: ts =>
    t ::
      match step st t.1 t.2 with
      | .ok (.goOn st) => tokensRead st ts
      | _ => []

/-! ## One token -/

/-- what has been read of a token in a state -/
def TokenParserState.Begun : TokenParserState → Bytes → Prop
  | .initialWhitespace, value => value = []
  | .singleQuote, value => value.head? = some SQUOTE
  | .doubleQuote, value => value.head? = some DQUOTE
  | .comment, _ => True
  | .normal, value => value ≠ [] ∧ Unquoted value

/-- what becomes of a token: it is the same, up to an LF in what is left, or it is a word that takes the CR in -/
inductive SameToken : TokenType × Bytes × Bytes → TokenType × Bytes × Bytes → Prop where
  | same {tokenType : TokenType} {token rest lf : Bytes} (hlf : ∀ c ∈ lf, c = LF)
      (hend : ¬ EndsLine (tokenType, token, rest)) :
      SameToken (tokenType, token, rest) (tokenType, token, lf ++ withCRLF rest)
  | word {r r' : TokenType × Bytes × Bytes} (hend : EndsLine r) (hne : r'.2.1 ≠ r.2.1) : SameToken r r'

/-- a byte that ends a word, and is read again -/
def IsDelimiter (c : UInt8) : Prop := c = SP ∨ c = HT ∨ c = LF ∨ c = SEMI ∨ c = LBRACE ∨ c = RBRACE

theorem head?_concat {value : Bytes} {b : UInt8} (c : UInt8) (h : value.head? = some b) :
    (value ++ [c]).head? = some b := by
  rw [List.head?_append, h]
  rfl

/-- **What a byte does**: the token goes on, or ends with it, or it is a word that ends before it. -/
theorem parseToken_cons (state : TokenParserState) (value : Bytes) (c : UInt8) :
    (∃ value', (state.Begun value → (state.after c).Begun value') ∧
        ∀ text, parseToken state value (c :: text) = parseToken (state.after c) value' text) ∨
      (state.after c = .initialWhitespace ∧ ∃ tokenType token, ¬ TokenType.Ends tokenType ∧
        (state.Begun value → tokenType = .normal → ¬ Unquoted token) ∧
        ∀ text, parseToken state value (c :: text) = (tokenType, token, text)) ∨
      state = .normal ∧ IsDelimiter c := by
  have hother : ∀ {tokenType : TokenType} {token : Bytes}, tokenType ≠ .normal → state.Begun value →
      tokenType = .normal → ¬ Unquoted token := fun hne _ heq => absurd heq hne
  cases state with
  | initialWhitespace =>
    simp only [parseToken, TokenParserState.after]
    by_cases hopen : c = LBRACE
    · exact Or.inr (Or.inl ⟨by rw [hopen]; decide, .startBlock, [c], by decide, hother (by decide), fun _ =>
        if_pos hopen⟩)
    by_cases hclose : c = RBRACE
    · exact Or.inr (Or.inl ⟨by rw [hclose]; decide, .endBlock, [c], by decide, hother (by decide), fun _ => by
        rw [if_neg hopen, if_pos hclose]⟩)
    by_cases hsemi : c = SEMI
    · exact Or.inr (Or.inl ⟨by rw [hsemi]; decide, .statementEnd, [c], by decide, hother (by decide), fun _ => by
        rw [hsemi]; rfl⟩)
    left
    simp only [hopen, hclose, hsemi, false_or, if_false]
    by_cases hhash : c = HASH
    · exact ⟨[c], fun _ => by rw [if_pos hhash]; trivial, fun _ => by rw [if_pos hhash, if_pos hhash]⟩
    by_cases hdquote : c = DQUOTE
    · refine ⟨[c], fun _ => ?_, fun _ => by simp only [if_neg hhash, if_pos hdquote]⟩
      rw [if_neg hhash, if_pos hdquote, hdquote]
      rfl
    by_cases hsquote : c = SQUOTE
    · refine ⟨[c], fun _ => ?_, fun _ => by simp only [if_neg hhash, if_neg hdquote, if_pos hsquote]⟩
      rw [if_neg hhash, if_neg hdquote, if_pos hsquote, hsquote]
      rfl
    simp only [hhash, hdquote, hsquote, if_false]
    by_cases hblank : c = SP ∨ c = HT ∨ c = LF ∨ c = CR
    · exact ⟨value, fun hbegun => by rw [if_pos hblank]; exact hbegun, fun _ => by rw [if_pos hblank, if_pos hblank]⟩
    · refine ⟨value ++ [c], fun hbegun => ?_, fun _ => by rw [if_neg hblank, if_neg hblank]⟩
      obtain rfl : value = [] := hbegun
      rw [if_neg hblank]
      exact ⟨List.cons_ne_nil c [], fun hquote => hsquote (Option.some.inj hquote),
        fun hquote => hdquote (Option.some.inj hquote)⟩
  | singleQuote =>
    simp only [parseToken, TokenParserState.after]
    have hhead : value.head? = some SQUOTE → (value ++ [c]).head? = some SQUOTE := head?_concat c
    by_cases hquote : c = SQUOTE
    · exact Or.inr (Or.inl ⟨if_pos hquote, .normal, value ++ [c], by decide,
        fun hbegun _ hword => hword.1 (hhead hbegun), fun _ => if_pos hquote⟩)
    · exact Or.inl ⟨value ++ [c], by rw [if_neg hquote]; exact hhead, fun _ => by rw [if_neg hquote, if_neg hquote]⟩
  | doubleQuote =>
    simp only [parseToken, TokenParserState.after]
    have hhead : value.head? = some DQUOTE → (value ++ [c]).head? = some DQUOTE := head?_concat c
    by_cases hquote : c = DQUOTE
    · exact Or.inr (Or.inl ⟨if_pos hquote, .normal, value ++ [c], by decide,
        fun hbegun _ hword => hword.2 (hhead hbegun), fun _ => if_pos hquote⟩)
    · exact Or.inl ⟨value ++ [c], by rw [if_neg hquote]; exact hhead, fun _ => by rw [if_neg hquote, if_neg hquote]⟩
  | comment =>
    simp only [parseToken, TokenParserState.after]
    by_cases hend : c = LF ∨ c = CR
    · exact Or.inr (Or.inl ⟨if_pos hend, .comment, value, by decide, hother (by decide), fun _ => if_pos hend⟩)
    · exact Or.inl ⟨value ++ [c], fun _ => by rw [if_neg hend]; trivial, fun _ => by rw [if_neg hend, if_neg hend]⟩
  | normal =>
    simp only [parseToken, TokenParserState.after]
    by_cases hend : c = SP ∨ c = HT ∨ c = LF ∨ c = SEMI ∨ c = LBRACE ∨ c = RBRACE
    · exact Or.inr (Or.inr ⟨trivial, hend⟩)
    · refine Or.inl ⟨value ++ [c], fun hbegun => ?_, fun _ => by rw [if_neg hend, if_neg hend]⟩
      rw [if_neg hend]
      obtain ⟨hne, hword⟩ := hbegun
      refine ⟨by simp, ?_⟩
      unfold Unquoted
      rwa [List.head?_append_of_ne_nil _ hne]

theorem delimiter_after {c : UInt8} (hc : IsDelimiter c) : TokenParserState.normal.after c = .initialWhitespace :=
  if_pos hc

/-- a delimiter that is read again is read to its end -/
theorem delimiter_again {c : UInt8} (hc : IsDelimiter c) :
    TokenParserState.initialWhitespace.after c = .initialWhitespace := by
  rcases hc with rfl | rfl | rfl | rfl | rfl | rfl <;> rfl

/-- a word that ends before a delimiter -/
theorem sameToken_delimiter {c : UInt8} (hc : IsDelimiter c) (hlf : c ≠ LF) (value text : Bytes) :
    SameToken (parseToken .normal value (c :: text))
      (parseToken .normal value (c :: withCRLFFrom (TokenParserState.normal.after c) text)) := by
  have hends : ∀ text, parseToken .normal value (c :: text) = (.normal, value, c :: text) := fun _ => if_pos hc
  have hrest : withCRLF (c :: text) = c :: withCRLFFrom (TokenParserState.normal.after c) text := by
    rw [withCRLF, withCRLFFrom, if_neg fun h => hlf h.1, delimiter_again hc, delimiter_after hc]
  have hnone : ∀ c ∈ ([] : Bytes), c = LF := fun _ h => nomatch h
  rw [hends, hends, ← hrest]
  exact .same hnone fun hend => hlf (Option.some.inj hend.2.2)

/-- **One token of the two texts.** -/
theorem parseToken_withCRLF {state : TokenParserState} {value : Bytes} (h : state.Begun value) (text : Bytes) :
    SameToken (parseToken state value text) (parseToken state value (withCRLFFrom state text)) := by
  have hnone : ∀ c ∈ ([] : Bytes), c = LF := fun _ h => nomatch h
  induction text generalizing state value with
  | nil =>
    refine .same hnone fun hend => ?_
    have hlf : ([] : Bytes).head? = some LF := hend.2.2
    cases hlf
  | cons c text ih =>
    rw [withCRLFFrom]
    by_cases hend : c = LF ∧ ¬ state.Quoted
    · obtain ⟨rfl, hquoted⟩ := hend
      rw [if_pos ⟨rfl, hquoted⟩]
      cases state with
      | initialWhitespace => exact @ih .initialWhitespace _ h
      | singleQuote => exact absurd (Or.inl rfl) hquoted
      | doubleQuote => exact absurd (Or.inr rfl) hquoted
      | comment =>
        have hlf : ∀ c ∈ [LF], c = LF := fun _ h => List.mem_singleton.1 h
        exact .same hlf fun hend => nomatch hend.1
      | normal =>
        -- the CR is no delimiter, and goes into the word
        refine .word ⟨rfl, h.2, rfl⟩ ?_
        show value ++ [CR] ≠ value
        simp
    · rw [if_neg hend]
      rcases parseToken_cons state value c with ⟨value', hbegun, hgoes⟩ |
        ⟨hafter, tokenType, token, -, hquoted, hends⟩ | ⟨rfl, hdelimiter⟩
      · rw [hgoes, hgoes]
        exact ih (hbegun h)
      · rw [hends, hends, hafter]
        exact .same hnone fun hline => hquoted h hline.1 hline.2.1
      · refine sameToken_delimiter hdelimiter (fun hlf => hend ⟨hlf, ?_⟩) value text
        decide

/-! ## The tokens that are read -/

/-- blank lines before a token are skipped -/
theorem tokens_lineFeeds {lf : Bytes} (h : ∀ c ∈ lf, c = LF) (text : Bytes) : tokens (lf ++ text) = tokens text :=
  tokens_skipped (fun c hc => Or.inr (Or.inr (Or.inl (h c hc)))) text

/-- a parse depends on the tokens that are read -/
theorem turns_tokensRead (st : ParseState) (ts : List Token) : turns st (tokensRead st ts) = turns st ts := by
  induction ts generalizing st with
  | nil => rfl
  | cons t ts ih =>
    rw [tokensRead, turns, turns]
    cases step st t.1 t.2 with
    | error fault => rfl
    | ok progress =>
      cases progress with
      | stop accepted config => rfl
      | goOn st' => exact ih st'

/-- no turn goes on after the last token -/
theorem step_not_ends {st st' : ParseState} {t : Token} (h : step st t.1 t.2 = .ok (.goOn st')) : ¬ t.1.Ends :=
  fun hends => turns_stream (.last hends) (turns_cons h [])

/-- the words that are read are the first of them, if it is one, and those that are read after it -/
theorem noWordEnd_iff {st : ParseState} {text rest : Bytes} {t : Token}
    (h : parseToken .initialWhitespace [] text = (t.1, t.2, rest)) :
    NoWordEnd st text ↔
      ¬ EndsLine (t.1, t.2, rest) ∧ ∀ st', step st t.1 t.2 = .ok (.goOn st') → NoWordEnd st' rest := by
  have hafter : ∀ n, inputAfter (n + 1) text = inputAfter n rest := fun n => by
    rw [inputAfter, Function.iterate_succ_apply, h]
    rfl
  have htokens : ∀ st', step st t.1 t.2 = .ok (.goOn st') → tokens text = t :: tokens rest := fun st' hstep => by
    rw [tokens_eq, h, if_neg (step_not_ends hstep)]
  constructor
  · intro hnone
    refine ⟨?_, fun st' hstep n hgoes => ?_⟩
    · have hfirst := hnone 0 ⟨st, rfl⟩
      rwa [inputAfter, Function.iterate_zero_apply, h] at hfirst
    · have hlater := hnone (n + 1)
      rw [htokens st' hstep, List.take_succ_cons, turns_cons hstep, hafter] at hlater
      exact hlater hgoes
  · intro hboth n hgoes
    obtain ⟨hfirst, hrest⟩ := hboth
    cases n with
    | zero => rwa [inputAfter, Function.iterate_zero_apply, h]
    | succ n =>
      rw [hafter]
      cases hstep : step st t.1 t.2 with
      | error fault =>
        obtain ⟨st', hgoes⟩ := hgoes
        rw [tokens_eq, h, List.take_succ_cons, turns, hstep] at hgoes
        cases hgoes
      | ok progress =>
        cases progress with
        | stop accepted config =>
          obtain ⟨st', hgoes⟩ := hgoes
          rw [tokens_eq, h, List.take_succ_cons, turns, hstep] at hgoes
          cases hgoes
        | goOn st' =>
          rw [htokens st' hstep, List.take_succ_cons, turns_cons hstep] at hgoes
          exact hrest st' hstep n hgoes

/-- **The tokens that are read of the two texts** are the same exactly when no word that is read is ended by an LF. -/
theorem tokensRead_withCRLF (st : ParseState) (text : Bytes) :
    tokensRead st (tokens (withCRLF text)) = tokensRead st (tokens text) ↔ NoWordEnd st text := by
  induction hn : text.length using Nat.strong_induction_on generalizing st text with
  | _ n ih =>
    have hbegun : TokenParserState.initialWhitespace.Begun [] := rfl
    have htoken := parseToken_withCRLF hbegun text
    have hshorter : ¬ (parseToken .initialWhitespace [] text).1.Ends →
        (parseToken .initialWhitespace [] text).2.2.length < text.length := parseToken_shorter
    rw [tokens_eq, tokens_eq text, withCRLF]
    generalize hr : parseToken .initialWhitespace [] text = r at htoken hshorter ⊢
    generalize parseToken .initialWhitespace [] (withCRLFFrom .initialWhitespace text) = r' at htoken ⊢
    rw [noWordEnd_iff (t := (r.1, r.2.1)) hr, tokensRead, tokensRead]
    cases htoken with
    | @same tokenType token rest lf hlf hend =>
      rw [List.cons.injEq, and_iff_right rfl, and_iff_right hend]
      cases hstep : step st tokenType token with
      | error fault => exact iff_of_true rfl fun st' hgoes => nomatch hgoes
      | ok progress =>
        cases progress with
        | stop accepted config => exact iff_of_true rfl fun st' hgoes => nomatch hgoes
        | goOn st' =>
          have hends : ¬ tokenType.Ends := step_not_ends (t := (tokenType, token)) hstep
          simp only [if_neg hends, tokens_lineFeeds hlf, Except.ok.injEq, Progress.goOn.injEq, forall_eq']
          exact ih _ (hn ▸ hshorter hends) st' rest rfl
    | word hend hne =>
      refine iff_of_false (fun heq => hne (Prod.mk.inj (List.cons.inj heq).1).2) fun hnone => hnone.1 hend

/-- **When line ends do not matter.** Of the text with CR LF for every LF outside quotes `Parse` reads the same tokens
exactly when no word that it reads is ended by an LF, and then it does the same with it. -/
theorem line_ends_iff (config : NginxConfig) (text : Bytes) :
    (tokensRead (.initial config) (tokens (withCRLF text)) = tokensRead (.initial config) (tokens text) ↔
        NoWordEnd (.initial config) text) ∧
      (NoWordEnd (.initial config) text → parse config (withCRLF text) = parse config text) := by
  have hread := tokensRead_withCRLF (.initial config) text
  refine ⟨hread, fun h => ?_⟩
  rw [parse_eq_turns, parse_eq_turns, ← turns_tokensRead _ (tokens (withCRLF text)), hread.2 h, turns_tokensRead]

/-- a keyword at the end of a line is none with a CR -/
theorem line_ends_port :
    CR ∉ ascii "port\n80;" ∧ withCRLF (ascii "port\n80;") = ascii "port\r\n80;" ∧
      (∃ config, parse .fresh (ascii "port\n80;") = .ok (true, config) ∧ config.portNumber = 80) ∧
      ∃ config, parse .fresh (withCRLF (ascii "port\n80;")) = .ok (true, config) ∧ config.portNumber = -1 :=
  ⟨by decide, by decide, exists_of_run (by decide +kernel), exists_of_run (by decide +kernel)⟩

end BlogServer.Config
