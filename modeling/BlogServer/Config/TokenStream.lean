/-
The tokens of a text, and `Parse` as a run over them.

`ParseToken` never looks back, and reads at least a byte for every token but the last, which is the end of the file or
an error (`tokens_stream`). So what `Parse` does is a run over the tokens of the text, one turn of the loop for each
(`parse_eq_turns`). A turn first handles values and flags (`values`), and then checks the transition (`step_eq`).

- `parse_ne_outOfFuel`: `Parse` reads no more tokens than there are.
- `turns_append`: a run goes on from where a run over the first tokens ends.
-/
import BlogServer.Config.ConfigParser

namespace BlogServer.Config

open BlogServer.Byte

/-! ## Tokens -/

/-- a token as `ParseToken` returns it: its type and its value -/
abbrev Token := TokenType × Bytes

/-- the types after which there are no more tokens -/
def TokenType.Ends (t : TokenType) : Prop := t = .eof ∨ t = .error

instance decidableEnds : DecidablePred TokenType.Ends := fun _ => inferInstanceAs (Decidable (_ ∨ _))

/-- the first tokens of the input, up to the end of the file or an error -/
def tokensUpTo : ℕ → Bytes → List Token
  | 0, _ => []
  | fuel + 1, input =>
    let (tokenType, token, rest) := parseToken .initialWhitespace [] input
    (tokenType, token) :: if tokenType.Ends then [] else tokensUpTo fuel rest

/-- the tokens of the input -/
def tokens (input : Bytes) : List Token := tokensUpTo (input.length + 1) input

/-- the last token, and no other, is the end of the file or an error -/
inductive Stream : List Token → Prop where
  | last {t : Token} (h : t.1.Ends) : Stream [t]
  | cons {t : Token} {ts : List Token} (h : ¬ t.1.Ends) (hts : Stream ts) : Stream (t :: ts)

/-! ## One token -/

/-- no token has the type of the start -/
theorem parseToken_ne_start (state : TokenParserState) (value input : Bytes) :
    (parseToken state value input).1 ≠ .start := by
  induction input generalizing state value with
  | nil =>
    rw [parseToken]
    split_ifs <;> simp
  | cons c input ih =>
    cases state <;> rw [parseToken] <;> split_ifs <;> first | exact ih _ _ | simp

/-- a token that is not the last takes at least a byte, unless it is a word that ends here -/
theorem parseToken_length {state : TokenParserState} {value input : Bytes}
    (h : ¬ (parseToken state value input).1.Ends) :
    (parseToken state value input).2.2.length ≤ input.length ∧
      (state ≠ .normal → (parseToken state value input).2.2.length < input.length) := by
  induction input generalizing state value with
  | nil =>
    refine absurd ?_ h
    rw [parseToken]
    split_ifs
    · exact Or.inr rfl
    · exact Or.inl rfl
  | cons c input ih =>
    -- the token ends with this byte, before it, or further on
    have hgo : ∀ {state' value'}, ¬ (parseToken state' value' input).1.Ends →
        (parseToken state' value' input).2.2.length < (c :: input).length := by
      intro state' value' hnot
      exact Nat.lt_succ_of_le (ih hnot).1
    cases state <;> rw [parseToken] at h ⊢ <;> split_ifs at h ⊢ <;>
      first
      | exact ⟨Nat.le_succ _, fun _ => Nat.lt_succ_self _⟩
      | exact ⟨(hgo h).le, fun _ => hgo h⟩
      | exact ⟨le_refl _, fun hstate => absurd rfl hstate⟩

theorem parseToken_shorter {input : Bytes} (h : ¬ (parseToken .initialWhitespace [] input).1.Ends) :
    (parseToken .initialWhitespace [] input).2.2.length < input.length :=
  (parseToken_length h).2 (by decide)

/-! ## All tokens -/

/-- the bound is no bound once it exceeds the length -/
theorem tokensUpTo_eq {fuel fuel' : ℕ} {input : Bytes} (h : input.length < fuel) (h' : input.length < fuel') :
    tokensUpTo fuel input = tokensUpTo fuel' input := by
  induction fuel generalizing fuel' input with
  | zero => exact absurd h (Nat.not_lt_zero _)
  | succ fuel ih =>
    obtain ⟨fuel', rfl⟩ := Nat.exists_eq_succ_of_ne_zero (Nat.ne_zero_of_lt h')
    rw [tokensUpTo, tokensUpTo]
    by_cases hends : (parseToken .initialWhitespace [] input).1.Ends
    · simp only [if_pos hends]
    · have hshorter := parseToken_shorter hends
      have hsame : tokensUpTo fuel (parseToken .initialWhitespace [] input).2.2 =
          tokensUpTo fuel' (parseToken .initialWhitespace [] input).2.2 := ih (by omega) (by omega)
      simp only [if_neg hends, hsame]

/-- the first token, and the others unless it was the last -/
theorem tokens_eq (input : Bytes) :
    tokens input =
      ((parseToken .initialWhitespace [] input).1, (parseToken .initialWhitespace [] input).2.1) ::
        if (parseToken .initialWhitespace [] input).1.Ends then []
        else tokens (parseToken .initialWhitespace [] input).2.2 := by
  rw [tokens, tokensUpTo]
  by_cases hends : (parseToken .initialWhitespace [] input).1.Ends
  · simp only [if_pos hends]
  · have hshorter := parseToken_shorter hends
    simp only [if_neg hends, tokens]
    rw [tokensUpTo_eq hshorter (Nat.lt_succ_self _)]

/-- **The tokens of a text** end with the end of the file or an error, and nowhere before. -/
theorem tokens_stream (input : Bytes) : Stream (tokens input) := by
  induction hn : input.length using Nat.strong_induction_on generalizing input with
  | _ n ih =>
    rw [tokens_eq]
    by_cases hends : (parseToken .initialWhitespace [] input).1.Ends
    · rw [if_pos hends]
      exact .last hends
    · rw [if_neg hends]
      exact .cons hends (ih _ (hn ▸ parseToken_shorter hends) _ rfl)

/-- none of them has the type of the start -/
theorem tokens_ne_start (input : Bytes) : ∀ t ∈ tokens input, t.1 ≠ .start := by
  induction hn : input.length using Nat.strong_induction_on generalizing input with
  | _ n ih =>
    intro t ht
    rw [tokens_eq] at ht
    rcases List.mem_cons.1 ht with rfl | ht
    · exact parseToken_ne_start _ _ _
    · by_cases hends : (parseToken .initialWhitespace [] input).1.Ends
      · rw [if_pos hends] at ht
        cases ht
      · rw [if_neg hends] at ht
        exact ih _ (hn ▸ parseToken_shorter hends) _ rfl t ht

/-- before a token there is no end -/
theorem Stream.not_ends {us vs : List Token} {t : Token} (h : Stream (us ++ t :: vs)) : ∀ u ∈ us, ¬ u.1.Ends := by
  induction us with
  | nil =>
    intro u hu
    cases hu
  | cons u us ih =>
    cases hus : us ++ t :: vs with
    | nil => exact absurd hus (by simp)
    | cons w ws =>
      rw [List.cons_append, hus] at h
      cases h with
      | cons hnot hrest =>
        rw [← hus] at hrest
        intro x hx
        rcases List.mem_cons.1 hx with rfl | hx
        · exact hnot
        · exact ih hrest x hx

/-! ## Turns -/

/-- no turn goes on after the last token -/
theorem transition_stops (st : ParseState) {tokenType : TokenType} (h : tokenType.Ends) (token : Bytes) :
    ∃ accepted, transition st tokenType token = .stop accepted st.result := by
  rcases h with rfl | rfl
  · unfold transition
    simp only
    split_ifs
    · exact ⟨_, rfl⟩
    · exact ⟨_, rfl⟩
  · exact ⟨false, rfl⟩

/-- turns of the loop, one for each token -/
def turns (st : ParseState) : List Token → Except Fault Progress
  | [] => .ok (.goOn st)
  | t :: ts =>
    match step st t.1 t.2 with
    | .ok (.goOn st) => turns st ts
    | r => r

theorem turns_cons {st st' : ParseState} {t : Token} (h : step st t.1 t.2 = .ok (.goOn st')) (ts : List Token) :
    turns st (t :: ts) = turns st' ts := by
  rw [turns, h]

theorem turns_append {st st' : ParseState} {us : List Token} (h : turns st us = .ok (.goOn st')) (vs : List Token) :
    turns st (us ++ vs) = turns st' vs := by
  induction us generalizing st with
  | nil =>
    simp only [turns, Except.ok.injEq, Progress.goOn.injEq] at h
    rw [List.nil_append, h]
  | cons u us ih =>
    rw [turns] at h
    rw [List.cons_append, turns]
    split at h
    · exact ih h
    · rename_i hstop
      exact absurd h (hstop st')

/-- a run that does not go on has ended, whatever comes after -/
theorem turns_append_of_ended {st : ParseState} {us : List Token} {r : Except Fault Progress} (h : turns st us = r)
    (hr : ∀ st', r ≠ .ok (.goOn st')) (vs : List Token) : turns st (us ++ vs) = r := by
  induction us generalizing st with
  | nil => exact absurd h.symm (hr st)
  | cons u us ih =>
    rw [turns] at h
    rw [List.cons_append, turns]
    split at h
    · exact ih h
    · exact h

theorem turns_ended {st : ParseState} {us : List Token} (h : ¬ ∃ st', turns st us = .ok (.goOn st')) (vs : List Token) :
    turns st (us ++ vs) = turns st us :=
  turns_append_of_ended rfl (fun st' hturns => h ⟨st', hturns⟩) vs

/-- what `Parse` returns when its turns come to that -/
def returned : Except Fault Progress → Except Fault (Bool × NginxConfig)
  | .ok (.stop accepted config) => .ok (accepted, config)
  | .ok (.goOn _) => .error .outOfFuel
  | .error e => .error e

theorem parseLoop_eq_turns {fuel : ℕ} {st : ParseState} {input : Bytes} (h : input.length < fuel) :
    parseLoop fuel st input = returned (turns st (tokensUpTo fuel input)) := by
  induction fuel generalizing st input with
  | zero => exact absurd h (Nat.not_lt_zero _)
  | succ fuel ih =>
    rw [parseLoop, tokensUpTo]
    simp only [turns]
    cases hstep : step st (parseToken .initialWhitespace [] input).1 (parseToken .initialWhitespace [] input).2.1 with
    | error e => simp only [returned]
    | ok progress =>
      cases progress with
      | stop accepted config => simp only [returned]
      | goOn st' =>
        have hgoes : ¬ (parseToken .initialWhitespace [] input).1.Ends := by
          intro hends
          rw [step_eq] at hstep
          cases hvalues : values st (parseToken .initialWhitespace [] input).2.1 with
          | error e =>
            rw [hvalues] at hstep
            cases hstep
          | ok r =>
            obtain ⟨accepted, hstop⟩ := transition_stops r.1 hends r.2
            rw [hvalues, Except.map, hstop] at hstep
            cases hstep
        have hshorter := parseToken_shorter hgoes
        simp only [if_neg hgoes]
        exact ih (lt_of_lt_of_le hshorter (Nat.lt_succ_iff.1 h))

/-- **`Parse` is a run over the tokens of the text.** -/
theorem parse_eq_turns (config : NginxConfig) (input : Bytes) :
    parse config input = returned (turns (.initial config) (tokens input)) :=
  parseLoop_eq_turns (Nat.lt_succ_self _)

/-- a run over a stream ends -/
theorem turns_stream {st st' : ParseState} {ts : List Token} (h : Stream ts) : turns st ts ≠ .ok (.goOn st') := by
  induction h generalizing st with
  | @last t hends =>
    intro hgoes
    rw [turns, step_eq] at hgoes
    cases hvalues : values st t.2 with
    | error e =>
      rw [hvalues] at hgoes
      cases hgoes
    | ok r =>
      obtain ⟨accepted, hstop⟩ := transition_stops r.1 hends r.2
      rw [hvalues, Except.map, hstop] at hgoes
      cases hgoes
  | @cons t ts hnot hts ih =>
    rw [turns]
    split
    · exact ih
    · rename_i hstop
      exact hstop st'

/-- a parse that returns, returns what its turns stop with -/
theorem turns_of_parse {config config' : NginxConfig} {input : Bytes} {accepted : Bool}
    (h : parse config input = .ok (accepted, config')) :
    turns (.initial config) (tokens input) = .ok (.stop accepted config') := by
  rw [parse_eq_turns] at h
  cases hturns : turns (.initial config) (tokens input) with
  | error e =>
    rw [hturns] at h
    cases h
  | ok progress =>
    cases progress with
    | goOn st => exact absurd hturns (turns_stream (tokens_stream input))
    | stop accepted' config'' =>
      rw [hturns] at h
      obtain ⟨rfl, rfl⟩ := Prod.mk.inj (Except.ok.inj h)
      rfl

/-! ## What a turn cannot do -/

theorem bind_error {ε α β : Type} {x : Except ε α} {f : α → Except ε β} {e : ε} (h : (x >>= f) = .error e) :
    x = .error e ∨ ∃ a, x = .ok a ∧ f a = .error e := by
  cases x with
  | error e' =>
    obtain rfl : e' = e := Except.error.inj h
    exact Or.inl rfl
  | ok a => exact Or.inr ⟨a, rfl, h⟩

theorem unquote_fault {token : Bytes} {e : Fault} (h : unquote token = .error e) : token = [] ∧ e = .outOfRange := by
  unfold unquote at h
  split_ifs at h with hnil
  exact ⟨hnil, (Except.error.inj h).symm⟩

theorem saveUnquoted_fault {flag : Bool} {save : Bytes → ParseState} {st : ParseState} {token : Bytes} {e : Fault}
    (h : saveUnquoted flag save st token = .error e) : e = .outOfRange := by
  unfold saveUnquoted at h
  split at h
  · split at h
    · rename_i hquote
      rw [← Except.error.inj h]
      exact (unquote_fault hquote).2
    · cases h
  · cases h

theorem saveProxyPort_fault {st : ParseState} {token : Bytes} {e : Fault} (h : saveProxyPort st token = .error e) :
    e = .missingReturn ∨ e = .badNumber := by
  unfold saveProxyPort at h
  split at h
  · split at h
    · exact Or.inl (Except.error.inj h).symm
    · exact Or.inr (Except.error.inj h).symm
    · split at h
      · exact Or.inr (Except.error.inj h).symm
      · cases h
  · cases h

theorem saveRoot_fault {st : ParseState} {token : Bytes} {e : Fault} (h : saveRoot st token = .error e) :
    e = .outOfRange := by
  unfold saveRoot at h
  split at h
  · split at h
    · rename_i hquote
      rw [← Except.error.inj h]
      exact (unquote_fault hquote).2
    · cases h
  · cases h

/-- how a turn can end the parse otherwise -/
theorem values_fault {st : ParseState} {token : Bytes} {e : Fault} (h : values st token = .error e) :
    e ≠ .outOfFuel := by
  have hrange : e = .outOfRange → e ≠ .outOfFuel := by
    rintro rfl
    decide
  unfold values at h
  rcases bind_error h with h | ⟨st₁, -, h⟩
  · rcases saveProxyPort_fault h with rfl | rfl
    · decide
    · decide
  rcases bind_error h with h | ⟨⟨st₂, token₂⟩, -, h⟩
  · exact hrange (saveRoot_fault h)
  rcases bind_error h with h | ⟨st₃, -, h⟩
  · exact hrange (saveUnquoted_fault h)
  rcases bind_error h with h | ⟨st₄, -, h⟩
  · exact hrange (saveUnquoted_fault h)
  rcases bind_error h with h | ⟨st₅, -, h⟩
  · exact hrange (saveUnquoted_fault h)
  rcases bind_error h with h | ⟨st₆, -, h⟩
  · exact hrange (saveUnquoted_fault h)
  rcases bind_error h with h | ⟨st₇, -, h⟩
  · exact hrange (saveUnquoted_fault h)
  rcases bind_error h with h | ⟨st₈, -, h⟩
  · exact hrange (saveUnquoted_fault h)
  rcases bind_error h with h | ⟨st₉, -, h⟩
  · exact hrange (saveUnquoted_fault h)
  cases h

theorem turns_fault {st : ParseState} {ts : List Token} {e : Fault} (h : turns st ts = .error e) : e ≠ .outOfFuel := by
  induction ts generalizing st with
  | nil => cases h
  | cons t ts ih =>
    rw [turns] at h
    split at h
    · exact ih h
    · rw [step_eq] at h
      cases hvalues : values st t.2 with
      | error e' =>
        rw [hvalues] at h
        rw [← Except.error.inj h]
        exact values_fault hvalues
      | ok r =>
        rw [hvalues] at h
        cases h

/-- **`Parse` reads no more tokens than there are.** -/
theorem parse_ne_outOfFuel (config : NginxConfig) (input : Bytes) : parse config input ≠ .error .outOfFuel := by
  rw [parse_eq_turns]
  intro h
  cases hturns : turns (.initial config) (tokens input) with
  | error e =>
    rw [hturns] at h
    exact turns_fault hturns (Except.error.inj h)
  | ok progress =>
    cases progress with
    | goOn st => exact turns_stream (tokens_stream input) hturns
    | stop accepted config' =>
      rw [hturns] at h
      cases h

/-! ### The blocks -/

/-- what the check of the transition reads is left alone by the first half of the turn -/
structure SameBlocks (st st' : ParseState) : Prop where
  stack : st'.stack = st.stack
  brackets : st'.brackets = st.brackets
  lastTokenType : st'.lastTokenType = st.lastTokenType

theorem SameBlocks.refl (st : ParseState) : SameBlocks st st := ⟨rfl, rfl, rfl⟩

theorem SameBlocks.trans {st st' st'' : ParseState} (h : SameBlocks st st') (h' : SameBlocks st' st'') :
    SameBlocks st st'' :=
  ⟨h'.stack.trans h.stack, h'.brackets.trans h.brackets, h'.lastTokenType.trans h.lastTokenType⟩

theorem saveUnquoted_blocks {flag : Bool} {save : Bytes → ParseState} {st st' : ParseState} {token : Bytes}
    (h : saveUnquoted flag save st token = .ok st') (hsave : ∀ value, SameBlocks st (save value)) :
    SameBlocks st st' := by
  rcases saveUnquoted_inv h with rfl | ⟨value, rfl⟩
  · exact .refl _
  · exact hsave value

theorem savePort_blocks (st : ParseState) (token : Bytes) : SameBlocks st (savePort st token) := by
  unfold savePort
  split
  · exact ⟨rfl, rfl, rfl⟩
  · exact .refl _

theorem saveProxyPort_blocks {st st' : ParseState} {token : Bytes} (h : saveProxyPort st token = .ok st') :
    SameBlocks st st' := by
  unfold saveProxyPort at h
  split at h
  · split at h
    · cases h
    · cases h
    · split at h
      · cases h
      · rw [← Except.ok.inj h]
        exact ⟨rfl, rfl, rfl⟩
  · rw [← Except.ok.inj h]
    exact .refl _

theorem saveRoot_blocks {st : ParseState} {token : Bytes} {r : ParseState × Bytes} (h : saveRoot st token = .ok r) :
    SameBlocks st r.1 := by
  unfold saveRoot at h
  split at h
  · split at h
    · cases h
    · rw [← Except.ok.inj h]
      exact ⟨rfl, rfl, rfl⟩
  · rw [← Except.ok.inj h]
    exact .refl _

theorem handlerType_blocks (st : ParseState) (token : Bytes) : SameBlocks st (handlerType st token) := by
  obtain ⟨flags, location, config, heq, -⟩ := handlerType_frame st token
  rw [heq]
  exact ⟨rfl, rfl, rfl⟩

theorem values_blocks {st : ParseState} {token : Bytes} {r : ParseState × Bytes} (h : values st token = .ok r) :
    SameBlocks st r.1 := by
  obtain ⟨st', token'⟩ := r
  have hstages : Stages st token st' token' := stages_of_values h
  obtain @⟨st₁, st₂, st₃, st₄, st₅, st₆, st₇, st₈, st₉, _, h₁, h₂, h₃, h₄, h₅, h₆, h₇, h₈, h₉⟩ := hstages
  have hsaved : SameBlocks st st₈ :=
    (savePort_blocks st token).trans <| (saveProxyPort_blocks h₁).trans <| (saveRoot_blocks h₂).trans <|
      (saveUnquoted_blocks h₃ fun _ => ⟨rfl, rfl, rfl⟩).trans <|
      (saveUnquoted_blocks h₄ fun _ => ⟨rfl, rfl, rfl⟩).trans <|
      (saveUnquoted_blocks h₅ fun _ => ⟨rfl, rfl, rfl⟩).trans <|
      (saveUnquoted_blocks h₆ fun _ => ⟨rfl, rfl, rfl⟩).trans <|
      (saveUnquoted_blocks h₇ fun _ => ⟨rfl, rfl, rfl⟩).trans
        (saveUnquoted_blocks h₈ fun _ => ⟨rfl, rfl, rfl⟩)
  have hnamed : SameBlocks st st₉ :=
    hsaved.trans <| (handlerType_blocks st₈ token').trans (saveUnquoted_blocks h₉ fun _ => ⟨rfl, rfl, rfl⟩)
  exact ⟨hnamed.stack, hnamed.brackets, hnamed.lastTokenType⟩

end BlogServer.Config
