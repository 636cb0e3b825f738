/-
What `Parse` accepts: the grammar of nginx configurations, on tokens.

The check of the transitions compares the last token type with the next and keeps two stacks, one of open brackets and
one of the configs under construction. What it decides is decided by the counter of `BlockGrammar`: whether the last
token was part of a statement, and how many blocks are open (`transition_counter`). So a parse that returns, returns
true exactly when the tokens derive from the grammar (`accepts_iff_derives`), comments and the end of the file left out.

- `transitionChecked`: the transition with the bounds of `top`, `back` and `pop`. It never leaves them.
-/
import BlogServer.Core.BlockGrammar
import BlogServer.Config.Tables
import BlogServer.Config.TokenStream

namespace BlogServer.Config

open BlogServer.BlockGrammar

/-! ## Symbols -/

/-- the symbol of a token type; comments and ends are none -/
def TokenType.symbol : TokenType → Option Symbol
  | .normal => some .word
  | .statementEnd => some .terminator
  | .startBlock => some .opening
  | .endBlock => some .closing
  | .start | .comment | .eof | .error => none

/-- the symbols of tokens, in their order -/
def symbols (ts : List Token) : List Symbol := ts.filterMap fun t => t.1.symbol

theorem symbols_cons (t : Token) (ts : List Token) : symbols (t :: ts) = t.1.symbol.toList ++ symbols ts := by
  rw [symbols, List.filterMap_cons]
  cases t.1.symbol <;> rfl

theorem symbols_append (us vs : List Token) : symbols (us ++ vs) = symbols us ++ symbols vs := List.filterMap_append

/-- an end has no symbol -/
theorem symbol_of_ends {t : TokenType} (h : t.Ends) : t.symbol = none := by
  rcases h with rfl | rfl <;> rfl

/-! ## The transition with its bounds -/

/-- `transition`, where `none` is `top` or `pop` of an empty stack, a `pop` that leaves none, or `back` of no
statement -/
def transitionChecked (st : ParseState) (tokenType : TokenType) (token : Bytes) : Option Progress :=
  match tokenType with
  | .normal =>
    if st.lastTokenType = .start ∨ st.lastTokenType = .statementEnd ∨ st.lastTokenType = .startBlock ∨
        st.lastTokenType = .endBlock ∨ st.lastTokenType = .normal then
      match st.stack with
      | [] => none
      | top :: rest =>
        let statements := if st.lastTokenType = .normal then top else top ++ [.mk [] none]
        match statements.getLast? with
        | none => none
        | some (.mk tokens child) =>
          some (.goOn { st with
            stack := (statements.dropLast ++ [.mk (tokens ++ [token]) child]) :: rest, lastTokenType := .normal })
    else some (.stop false st.result)
  | .startBlock =>
    if st.lastTokenType = .normal then
      match st.stack.head?.bind List.getLast? with
      | none => none
      | some _ => some (transition st .startBlock token)
    else some (.stop false st.result)
  | .endBlock =>
    if (st.lastTokenType = .statementEnd ∨ st.lastTokenType = .endBlock ∨ st.lastTokenType = .startBlock) ∧
        st.brackets ≠ 0 then
      match st.stack with
      | _ :: _ :: _ => some (transition st .endBlock token)
      | _ => none
    else some (.stop false st.result)
  | tokenType => some (transition st tokenType token)

/-! ## Reached states -/

/-- what the counter knows of a state -/
def ParseState.counter (st : ParseState) : State := ⟨decide (st.lastTokenType = .normal), st.brackets⟩

/-- the last token type, the brackets and the configs under construction fit together -/
structure Nested (st : ParseState) : Prop where
  /-- a config for each open block, and the one that was given -/
  stack : st.stack.length = st.brackets + 1
  last : st.lastTokenType ≠ .comment ∧ st.lastTokenType ≠ .eof ∧ st.lastTokenType ≠ .error
  start : st.lastTokenType = .start → st.brackets = 0
  startBlock : st.lastTokenType = .startBlock → st.brackets ≠ 0
  /-- after a word there is the statement it is in -/
  back : st.lastTokenType = .normal → ∃ top rest, st.stack = top :: rest ∧ top ≠ []

theorem nested_initial (config : NginxConfig) : Nested (.initial config) where
  stack := rfl
  last := ⟨TokenType.noConfusion, TokenType.noConfusion, TokenType.noConfusion⟩
  start := fun _ => rfl
  startBlock := fun h => by cases h
  back := fun h => by cases h

theorem Nested.same {st st' : ParseState} (h : Nested st) (hsame : SameBlocks st st') : Nested st' where
  stack := by rw [hsame.stack, hsame.brackets]; exact h.stack
  last := by rw [hsame.lastTokenType]; exact h.last
  start := by rw [hsame.lastTokenType, hsame.brackets]; exact h.start
  startBlock := by rw [hsame.lastTokenType, hsame.brackets]; exact h.startBlock
  back := by rw [hsame.lastTokenType, hsame.stack]; exact h.back

theorem counter_same {st st' : ParseState} (h : SameBlocks st st') : st'.counter = st.counter := by
  rw [ParseState.counter, ParseState.counter, h.lastTokenType, h.brackets]

/-- the types that the last token can have -/
theorem Nested.cases_last {st : ParseState} (h : Nested st) :
    st.lastTokenType = .start ∨ st.lastTokenType = .statementEnd ∨ st.lastTokenType = .startBlock ∨
      st.lastTokenType = .endBlock ∨ st.lastTokenType = .normal := by
  obtain ⟨hcomment, heof, herror⟩ := h.last
  cases hlast : st.lastTokenType with
  | start => exact Or.inl rfl
  | statementEnd => exact Or.inr (Or.inl rfl)
  | startBlock => exact Or.inr (Or.inr (Or.inl rfl))
  | endBlock => exact Or.inr (Or.inr (Or.inr (Or.inl rfl)))
  | normal => exact Or.inr (Or.inr (Or.inr (Or.inr rfl)))
  | comment => exact absurd hlast hcomment
  | eof => exact absurd hlast heof
  | error => exact absurd hlast herror

/-- a block may be closed when one is open and no statement is begun -/
theorem Nested.closes_iff {st : ParseState} (h : Nested st) :
    ((st.lastTokenType = .statementEnd ∨ st.lastTokenType = .endBlock ∨ st.lastTokenType = .startBlock) ∧
      st.brackets ≠ 0) ↔ st.lastTokenType ≠ .normal ∧ st.brackets ≠ 0 := by
  constructor
  · intro hcloses
    obtain ⟨hlast, hopen⟩ := hcloses
    refine ⟨fun hnormal => ?_, hopen⟩
    rw [hnormal] at hlast
    simp at hlast
  · intro hbegun
    obtain ⟨hnormal, hopen⟩ := hbegun
    refine ⟨?_, hopen⟩
    rcases h.cases_last with hlast | hlast | hlast | hlast | hlast
    · exact absurd (h.start hlast) hopen
    · exact Or.inl hlast
    · exact Or.inr (Or.inr hlast)
    · exact Or.inr (Or.inl hlast)
    · exact absurd hlast hnormal

/-! ### The stacks -/

theorem addToken_cons (lastTokenType : TokenType) (token : Bytes) (top : List Statement) (rest : List (List Statement))
    {statements : List Statement} {tokens : List Bytes} {child : Option (List Statement)}
    (h : (if lastTokenType = .normal then top else top ++ [.mk [] none]) = statements ++ [.mk tokens child]) :
    addToken lastTokenType token (top :: rest) = (statements ++ [.mk (tokens ++ [token]) child]) :: rest := by
  rw [addToken, h, List.modifyLast_concat]

/-- a word is put into some statement -/
theorem Nested.addToken_spec {st : ParseState} (h : Nested st) (token : Bytes) :
    ∃ top rest statements tokens child, st.stack = top :: rest ∧
      (if st.lastTokenType = .normal then top else top ++ [.mk [] none]) = statements ++ [.mk tokens child] ∧
      addToken st.lastTokenType token st.stack = (statements ++ [.mk (tokens ++ [token]) child]) :: rest := by
  by_cases hnormal : st.lastTokenType = .normal
  · obtain ⟨top, rest, hstack, hne⟩ := h.back hnormal
    obtain ⟨statements, ⟨tokens, child⟩, rfl⟩ := List.eq_nil_or_concat'  top |>.resolve_left hne
    refine ⟨_, rest, statements, tokens, child, hstack, if_pos hnormal, ?_⟩
    rw [hstack]
    exact addToken_cons _ token _ rest (if_pos hnormal)
  · cases hstack : st.stack with
    | nil =>
      have hlength := h.stack
      rw [hstack] at hlength
      cases hlength
    | cons top rest =>
      exact ⟨top, rest, top, [], none, rfl, if_neg hnormal, addToken_cons _ token _ rest (if_neg hnormal)⟩

theorem closeBlock_length {stack : List (List Statement)} (h : 2 ≤ stack.length) :
    (closeBlock stack).length = stack.length - 1 := by
  cases stack with
  | nil => cases h
  | cons child stack =>
    cases stack with
    | nil => simp at h
    | cons parent rest => rfl

/-! ### One transition -/

theorem run_symbol (s : State) (c : Symbol) : BlockGrammar.run s (Option.toList (some c)) = BlockGrammar.step s c := by
  rw [Option.toList_some, BlockGrammar.run]
  cases BlockGrammar.step s c <;> rfl

theorem transition_word {st : ParseState} (h : Nested st) (token : Bytes) :
    ∃ st', transition st .normal token = .goOn st' ∧ st'.counter = ⟨true, st.brackets⟩ ∧ Nested st' := by
  refine ⟨_, if_pos h.cases_last, rfl, ?_⟩
  obtain ⟨top, rest, statements, tokens, child, hstack, -, hadd⟩ := h.addToken_spec token
  have hlength := h.stack
  rw [hstack] at hlength
  exact {
    stack := by rw [hadd]; exact hlength
    last := ⟨TokenType.noConfusion, TokenType.noConfusion, TokenType.noConfusion⟩
    start := fun hlast => by cases hlast
    startBlock := fun hlast => by cases hlast
    back := fun _ => ⟨_, rest, hadd, by simp⟩ }

theorem transition_terminator {st : ParseState} (h : Nested st) (hnormal : st.lastTokenType = .normal) (token : Bytes) :
    ∃ st', transition st .statementEnd token = .goOn st' ∧ st'.counter = ⟨false, st.brackets⟩ ∧ Nested st' :=
  ⟨_, if_pos hnormal, rfl, {
    stack := h.stack
    last := ⟨TokenType.noConfusion, TokenType.noConfusion, TokenType.noConfusion⟩
    start := fun hlast => by cases hlast
    startBlock := fun hlast => by cases hlast
    back := fun hlast => by cases hlast }⟩

theorem transition_opening {st : ParseState} (h : Nested st) (hnormal : st.lastTokenType = .normal) (token : Bytes) :
    ∃ st', transition st .startBlock token = .goOn st' ∧ st'.counter = ⟨false, st.brackets + 1⟩ ∧ Nested st' :=
  ⟨_, if_pos hnormal, rfl, {
    stack := by simp [h.stack]
    last := ⟨TokenType.noConfusion, TokenType.noConfusion, TokenType.noConfusion⟩
    start := fun hlast => by cases hlast
    startBlock := fun _ => Nat.succ_ne_zero _
    back := fun hlast => by cases hlast }⟩

theorem transition_closing {st : ParseState} (h : Nested st)
    (hcloses : st.lastTokenType ≠ .normal ∧ st.brackets ≠ 0) (token : Bytes) :
    ∃ st', transition st .endBlock token = .goOn st' ∧ st'.counter = ⟨false, st.brackets - 1⟩ ∧ Nested st' :=
  ⟨_, if_pos (h.closes_iff.2 hcloses), rfl, {
    stack := by
      have hlength := h.stack
      have hopen := hcloses.2
      simp only
      rw [closeBlock_length (by omega)]
      omega
    last := ⟨TokenType.noConfusion, TokenType.noConfusion, TokenType.noConfusion⟩
    start := fun hlast => by cases hlast
    startBlock := fun hlast => by cases hlast
    back := fun hlast => by cases hlast }⟩

/-- **The check of a transition is a step of the counter**, and keeps the stacks together. -/
theorem transition_counter {st : ParseState} (h : Nested st) {tokenType : TokenType} (hends : ¬ tokenType.Ends)
    (hstart : tokenType ≠ .start) (token : Bytes) :
    match BlockGrammar.run st.counter tokenType.symbol.toList with
    | none => transition st tokenType token = .stop false st.result
    | some s => ∃ st', transition st tokenType token = .goOn st' ∧ st'.counter = s ∧ Nested st' := by
  cases tokenType with
  | start => exact absurd rfl hstart
  | eof => exact absurd (Or.inl rfl) hends
  | error => exact absurd (Or.inr rfl) hends
  | comment => exact ⟨st, rfl, rfl, h⟩
  | normal => exact transition_word h token
  | statementEnd =>
    rw [TokenType.symbol, run_symbol, BlockGrammar.step, ParseState.counter]
    by_cases hnormal : st.lastTokenType = .normal
    · rw [if_pos (decide_eq_true hnormal)]
      exact transition_terminator h hnormal token
    · rw [if_neg (fun hlast => hnormal (of_decide_eq_true hlast))]
      exact if_neg hnormal
  | startBlock =>
    rw [TokenType.symbol, run_symbol, BlockGrammar.step, ParseState.counter]
    by_cases hnormal : st.lastTokenType = .normal
    · rw [if_pos (decide_eq_true hnormal)]
      exact transition_opening h hnormal token
    · rw [if_neg (fun hlast => hnormal (of_decide_eq_true hlast))]
      exact if_neg hnormal
  | endBlock =>
    rw [TokenType.symbol, run_symbol, BlockGrammar.step, ParseState.counter]
    by_cases hcloses : st.lastTokenType ≠ .normal ∧ st.brackets ≠ 0
    · rw [if_pos ⟨decide_eq_false hcloses.1, hcloses.2⟩]
      exact transition_closing h hcloses token
    · rw [if_neg (fun hlast => hcloses ⟨of_decide_eq_false hlast.1, hlast.2⟩)]
      exact if_neg (fun hlast => hcloses (h.closes_iff.1 hlast))

/-- at the end of the file everything has to be closed -/
theorem transition_eof {st : ParseState} (h : Nested st) (token : Bytes) :
    transition st .eof token = .stop (decide (st.counter = BlockGrammar.start)) st.result := by
  have hcounter : st.counter = BlockGrammar.start ↔ st.lastTokenType ≠ .normal ∧ st.brackets = 0 := by
    rw [ParseState.counter, State.mk.injEq, decide_eq_false_iff_not]
  unfold transition
  simp only [hcounter]
  rcases h.cases_last with hlast | hlast | hlast | hlast | hlast
  · simp [hlast, h.start hlast]
  · simp [hlast, beq_eq_decide]
  · have hopen := h.startBlock hlast
    simp [hlast, hopen]
  · simp [hlast, beq_eq_decide]
  · simp [hlast]

/-- **The bounds of the stacks are kept** in every transition. -/
theorem transitionChecked_eq {st : ParseState} (h : Nested st) (tokenType : TokenType) (token : Bytes) :
    transitionChecked st tokenType token = some (transition st tokenType token) := by
  cases tokenType with
  | normal =>
    obtain ⟨top, rest, statements, tokens, child, hstack, htop, hadd⟩ := h.addToken_spec token
    have hlast : (statements ++ [Statement.mk tokens child]).getLast? = some (.mk tokens child) := List.getLast?_concat
    have hgoes : transition st .normal token =
        .goOn { st with stack := addToken st.lastTokenType token st.stack, lastTokenType := .normal } :=
      if_pos h.cases_last
    rw [hgoes, hadd]
    unfold transitionChecked
    simp only [if_pos h.cases_last, hstack, htop, hlast, List.dropLast_concat]
  | startBlock =>
    by_cases hnormal : st.lastTokenType = .normal
    · obtain ⟨top, rest, hstack, hne⟩ := h.back hnormal
      obtain ⟨back, hback⟩ := Option.ne_none_iff_exists'.1 (mt List.getLast?_eq_none_iff.1 hne)
      unfold transitionChecked
      simp only [if_pos hnormal, hstack, List.head?_cons, Option.bind_some, hback]
    · have hchecked : transitionChecked st .startBlock token = some (.stop false st.result) := if_neg hnormal
      have hstop : transition st .startBlock token = .stop false st.result := if_neg hnormal
      rw [hchecked, hstop]
  | endBlock =>
    by_cases hcloses : (st.lastTokenType = .statementEnd ∨ st.lastTokenType = .endBlock ∨
        st.lastTokenType = .startBlock) ∧ st.brackets ≠ 0
    · have hlength := h.stack
      have hopen := hcloses.2
      unfold transitionChecked
      simp only [if_pos hcloses]
      cases hstack : st.stack with
      | nil =>
        rw [hstack] at hlength
        cases hlength
      | cons child stack =>
        cases stack with
        | nil =>
          rw [hstack] at hlength
          exact absurd (Nat.succ.inj hlength).symm hopen
        | cons parent rest => rfl
    · have hchecked : transitionChecked st .endBlock token = some (.stop false st.result) := if_neg hcloses
      have hstop : transition st .endBlock token = .stop false st.result := if_neg hcloses
      rw [hchecked, hstop]
  | start => rfl
  | comment => rfl
  | statementEnd => rfl
  | eof => rfl
  | error => rfl

/-! ## Runs -/

/-- a turn that goes on takes a step of the counter -/
theorem step_counter {st st' : ParseState} (h : Nested st) {t : Token} (hstart : t.1 ≠ .start)
    (hstep : Config.step st t.1 t.2 = .ok (.goOn st')) :
    BlockGrammar.run st.counter t.1.symbol.toList = some st'.counter ∧ Nested st' := by
  rw [step_eq] at hstep
  cases hvalues : values st t.2 with
  | error e =>
    rw [hvalues] at hstep
    cases hstep
  | ok r =>
    rw [hvalues] at hstep
    have hgoes : transition r.1 t.1 r.2 = .goOn st' := Except.ok.inj hstep
    have hsame := values_blocks hvalues
    have hends : ¬ t.1.Ends := by
      intro hends
      obtain ⟨accepted, hstop⟩ := transition_stops r.1 hends r.2
      rw [hstop] at hgoes
      cases hgoes
    have hcounter := transition_counter (h.same hsame) hends hstart r.2
    rw [counter_same hsame] at hcounter
    cases hrun : BlockGrammar.run st.counter t.1.symbol.toList with
    | none =>
      rw [hrun] at hcounter
      rw [hcounter] at hgoes
      cases hgoes
    | some s =>
      rw [hrun] at hcounter
      obtain ⟨st'', hgoes', rfl, hnested⟩ := hcounter
      cases hgoes'.symm.trans hgoes
      exact ⟨rfl, hnested⟩

/-- a turn that stops, stops the counter, or is the last -/
theorem step_stops {st : ParseState} (h : Nested st) {t : Token} (hstart : t.1 ≠ .start) {accepted : Bool}
    {config : NginxConfig} (hstep : Config.step st t.1 t.2 = .ok (.stop accepted config)) :
    (t.1 = .eof ∧ accepted = decide (st.counter = BlockGrammar.start)) ∨ (t.1 = .error ∧ accepted = false) ∨
      ¬ t.1.Ends ∧ BlockGrammar.run st.counter t.1.symbol.toList = none ∧ accepted = false := by
  rw [step_eq] at hstep
  cases hvalues : values st t.2 with
  | error e =>
    rw [hvalues] at hstep
    cases hstep
  | ok r =>
    rw [hvalues] at hstep
    have hstop : transition r.1 t.1 r.2 = .stop accepted config := Except.ok.inj hstep
    have hsame := values_blocks hvalues
    by_cases hends : t.1.Ends
    · rcases hends with heof | herror
      · rw [heof, transition_eof (h.same hsame), counter_same hsame] at hstop
        exact Or.inl ⟨heof, (Progress.stop.inj hstop).1.symm⟩
      · rw [herror] at hstop
        exact Or.inr (Or.inl ⟨herror, (Progress.stop.inj hstop).1.symm⟩)
    · have hcounter := transition_counter (h.same hsame) hends hstart r.2
      rw [counter_same hsame] at hcounter
      cases hrun : BlockGrammar.run st.counter t.1.symbol.toList with
      | none =>
        rw [hrun] at hcounter
        exact Or.inr (Or.inr ⟨hends, rfl, (Progress.stop.inj (hstop.symm.trans hcounter)).1⟩)
      | some s =>
        rw [hrun] at hcounter
        obtain ⟨st', hgoes, -⟩ := hcounter
        rw [hgoes] at hstop
        cases hstop

/-- in every state of a run the stacks fit together, and the counter has read the symbols -/
theorem turns_counter {st st' : ParseState} (h : Nested st) {us : List Token} (hstart : ∀ t ∈ us, t.1 ≠ .start)
    (hturns : turns st us = .ok (.goOn st')) :
    BlockGrammar.run st.counter (symbols us) = some st'.counter ∧ Nested st' := by
  induction us generalizing st with
  | nil =>
    cases hturns
    exact ⟨rfl, h⟩
  | cons t us ih =>
    rw [turns] at hturns
    split at hturns
    · rename_i st₁ hstep
      obtain ⟨hrun, hnested⟩ := step_counter h (hstart t List.mem_cons_self) hstep
      obtain ⟨hrest, hlast⟩ := ih hnested (fun u hu => hstart u (List.mem_cons_of_mem t hu)) hturns
      exact ⟨by rw [symbols_cons, BlockGrammar.run_append, hrun]; exact hrest, hlast⟩
    · rename_i hstop
      exact absurd hturns (hstop st')

/-- what a run over a stream returns is what the counter decides -/
theorem turns_stop {ts : List Token} (hstream : Stream ts) {st : ParseState} (h : Nested st)
    (hstart : ∀ t ∈ ts, t.1 ≠ .start) {accepted : Bool} {config : NginxConfig}
    (hturns : turns st ts = .ok (.stop accepted config)) :
    accepted = true ↔
      (∀ t ∈ ts, t.1 ≠ .error) ∧ BlockGrammar.run st.counter (symbols ts) = some BlockGrammar.start := by
  induction hstream generalizing st with
  | @last t hends =>
    rw [turns] at hturns
    split at hturns
    · cases hturns
    rw [symbols_cons, symbol_of_ends hends]
    have hread : BlockGrammar.run st.counter (Option.toList none ++ symbols []) = some st.counter := rfl
    rw [hread, List.forall_mem_singleton, Option.some.injEq]
    rcases step_stops h (hstart t List.mem_cons_self) hturns with ⟨heof, rfl⟩ | ⟨herror, rfl⟩ | ⟨hnot, -⟩
    · rw [decide_eq_true_iff, heof]
      simp
    · simp [herror]
    · exact absurd hends hnot
  | @cons t ts hnot hts ih =>
    have herror : t.1 ≠ .error := fun heq => hnot (Or.inr heq)
    have hrest : ∀ u ∈ ts, u.1 ≠ .start := fun u hu => hstart u (List.mem_cons_of_mem t hu)
    rw [turns] at hturns
    rw [symbols_cons, BlockGrammar.run_append, List.forall_mem_cons]
    split at hturns
    · rename_i st₁ hstep
      obtain ⟨hrun, hnested⟩ := step_counter h (hstart t List.mem_cons_self) hstep
      rw [hrun, Option.bind_some, ih hnested hrest hturns]
      simp [herror]
    · rcases step_stops h (hstart t List.mem_cons_self) hturns with ⟨heof, -⟩ | ⟨herr, -⟩ | ⟨-, hnone, rfl⟩
      · exact absurd (Or.inl heof) hnot
      · exact absurd herr herror
      · rw [hnone]
        simp

/-! ## Acceptance -/

/-- **What `Parse` accepts.** A parse that returns, returns true exactly when there is no error among the tokens of the
text and they derive from the grammar, without comments and the end. In every state of the parse, the next turn keeps to
the bounds of the stacks. -/
theorem accepts_iff_derives {config config' : NginxConfig} {text : Bytes} {accepted : Bool}
    (h : parse config text = .ok (accepted, config')) :
    (accepted = true ↔ (∀ t ∈ tokens text, t.1 ≠ .error) ∧ Derives .config (symbols (tokens text))) ∧
      ∀ us t vs st st' token', tokens text = us ++ t :: vs → turns (.initial config) us = .ok (.goOn st) →
        values st t.2 = .ok (st', token') → transitionChecked st' t.1 token' = some (transition st' t.1 token') := by
  have hstart := tokens_ne_start text
  constructor
  · rw [derives_config_iff]
    exact turns_stop (tokens_stream text) (nested_initial config) hstart (turns_of_parse h)
  · intro us t vs st st' token' htokens hturns hvalues
    have hus : ∀ u ∈ us, u.1 ≠ .start := by
      intro u hu
      apply hstart
      rw [htokens]
      exact List.mem_append_left _ hu
    have hnested := (turns_counter (nested_initial config) hus hturns).2
    exact transitionChecked_eq (hnested.same (values_blocks hvalues)) t.1 token'

/-- the theorem at a statement with a block -/
theorem accepts_iff_derives_block :
    ∃ config, parse .fresh (ascii "a b \x7b c; # d\n \x7d") = .ok (true, config) ∧
      Derives .config (symbols (tokens (ascii "a b \x7b c; # d\n \x7d"))) := by
  have hrun : ∃ config, parse .fresh (ascii "a b \x7b c; # d\n \x7d") = .ok (true, config) ∧ config.portNumber = -1 :=
    exists_of_run (by decide +kernel)
  obtain ⟨config, hparse, -⟩ := hrun
  exact ⟨config, hparse, ((accepts_iff_derives hparse).1.1 rfl).2⟩

end BlogServer.Config
