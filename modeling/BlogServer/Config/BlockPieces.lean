/-
The statements of a block, in another order.

A statement is read with what is expected where it stands, and entered with the location and the host that were read
before it. The pieces of a block are its statements `name value;` and what stands between them; to the rest of the text
a block shows only the tables that its pieces leave (`parse_body`). Where in every order of the statements each piece is
read and makes its own change to the tables, and the changes of a statement commute with all others, every order is
parsed alike (`parse_reordered`).

- `turns_readTokens`: what the tokens of a piece come to.
- `Between.unawaited`: between two statements no value is awaited.
-/
import BlogServer.Config.Comments
import BlogServer.Config.Entries
import BlogServer.Core.Reorder

namespace BlogServer.Config

open BlogServer.Byte BlogServer.Decimal

/-! ## Pieces of a text -/

/-- the text is read as these tokens, whatever comes after it -/
def ReadsAs (text : Bytes) (ts : List Token) : Prop := ∀ v, Between v text ts

theorem Between.skip {u v : Bytes} {ts : List Token} (h : Between v u ts) {gap : Bytes}
    (hgap : ∀ c ∈ gap, IsSkipped c) : Between v (gap ++ u) ts := by
  cases h with
  | blank hblank =>
    apply Between.blank
    intro c hc
    exact (List.mem_append.1 hc).elim (hgap c) (hblank c)
  | token htoken hends hrest =>
    apply Between.token _ hends hrest
    rw [List.append_assoc, parseToken_skipped hgap, htoken]

theorem Between.append {u u' v : Bytes} {ts ts' : List Token} (h : Between (u' ++ v) u ts) (h' : Between v u' ts') :
    Between v (u ++ u') (ts ++ ts') := by
  induction h with
  | blank hblank => exact h'.skip hblank
  | @token u w t ts htoken hends hw ih =>
    rw [List.cons_append]
    apply Between.token _ hends ih
    rw [List.append_assoc, List.append_assoc, htoken]

theorem ReadsAs.append {u u' : Bytes} {ts ts' : List Token} (h : ReadsAs u ts) (h' : ReadsAs u' ts') :
    ReadsAs (u ++ u') (ts ++ ts') := fun v => (h (u' ++ v)).append (h' v)

theorem readsAs_nil : ReadsAs [] [] := fun _ => .blank fun _ hc => nomatch hc

theorem readsAs_flatMap {α : Type} {text : α → Bytes} {ts : α → List Token} (h : ∀ a, ReadsAs (text a) (ts a))
    (as : List α) : ReadsAs (as.flatMap text) (as.flatMap ts) := by
  induction as with
  | nil => exact readsAs_nil
  | cons a as ih =>
    rw [List.flatMap_cons, List.flatMap_cons]
    exact (h a).append ih

/-- a word is not empty -/
theorem parseToken_word_ne_nil {state : TokenParserState} {value input : Bytes}
    (hbegun : state = .initialWhitespace ∨ value ≠ []) (h : (parseToken state value input).1 = .normal) :
    (parseToken state value input).2.1 ≠ [] := by
  induction input generalizing state value with
  | nil =>
    rw [parseToken] at h
    split_ifs at h
  | cons c input ih =>
    have hone : ∀ value : Bytes, value ++ [c] ≠ [] := by simp
    cases state <;> rw [parseToken] at h ⊢ <;> split_ifs at h ⊢ <;>
      first
      | exact hone value
      | exact ih (Or.inr (hone value)) h
      | exact ih (Or.inr (List.cons_ne_nil _ _)) h
      | exact ih (Or.inl rfl) h
      | exact hbegun.resolve_left (by decide)

theorem Between.word_ne_nil {u v : Bytes} {ts : List Token} (h : Between v u ts) :
    ∀ t ∈ ts, t.1 = .normal → t.2 ≠ [] := by
  induction h with
  | blank hblank =>
    intro t ht
    cases ht
  | @token u w t ts htoken hends hw ih =>
    have hfirst : t.1 = .normal → t.2 ≠ [] := by
      have hword : (parseToken .initialWhitespace [] (u ++ v)).1 = .normal →
          (parseToken .initialWhitespace [] (u ++ v)).2.1 ≠ [] := parseToken_word_ne_nil (Or.inl rfl)
      rw [htoken] at hword
      exact hword
    exact List.forall_mem_cons.2 ⟨hfirst, ih⟩

/-- a token that is no word is its delimiter, or a comment -/
def WrittenAs (token : Bytes) : TokenType → Prop
  | .startBlock => token = [LBRACE]
  | .endBlock => token = [RBRACE]
  | .statementEnd => token = [SEMI]
  | .comment => ∃ c, token = HASH :: c
  | .start | .normal | .eof | .error => True

theorem parseToken_text {state : TokenParserState} {value input : Bytes}
    (hbegun : state = .comment → ∃ c, value = HASH :: c) :
    WrittenAs (parseToken state value input).2.1 (parseToken state value input).1 := by
  induction input generalizing state value with
  | nil =>
    rw [parseToken]
    split_ifs <;> trivial
  | cons c input ih =>
    cases state with
    | initialWhitespace =>
      rw [parseToken]
      split_ifs with hopen hclose hhash hdquote hsquote hsemi
      · exact congrArg (fun c => [c]) hopen
      · exact congrArg (fun c => [c]) hclose
      · exact ih fun _ => ⟨[], congrArg (fun c => [c]) hhash⟩
      · exact ih fun h => TokenParserState.noConfusion h
      · exact ih fun h => TokenParserState.noConfusion h
      · exact congrArg (fun c => [c]) hsemi
      · exact ih fun h => TokenParserState.noConfusion h
      · exact ih fun h => TokenParserState.noConfusion h
    | comment =>
      obtain ⟨text, rfl⟩ := hbegun rfl
      rw [parseToken]
      split_ifs
      · exact ⟨text, rfl⟩
      · exact ih fun _ => ⟨text ++ [c], rfl⟩
    | _ =>
      rw [parseToken]
      split_ifs
      · trivial
      · exact ih fun h => TokenParserState.noConfusion h

/-! ## Reading tokens -/

/-- a block that ends, or a statement, leaves nothing awaited -/
theorem Expects.next_delimiter (e : Expects) {t : Token}
    (ht : t = (.startBlock, [LBRACE]) ∨ t = (.endBlock, [RBRACE]) ∨ t = (.statementEnd, [SEMI])) :
    (e.next t).awaited = none := by
  have hread : ∀ token, e.remainder token ∉ keywords → (e.read token).awaited = none := by
    intro token hother
    rw [read, keyword_other hother]
    exact place_awaited ((name_awaited (e.remainder token) (e.receive_awaited.imp id And.left)).imp id And.left)
  have hremainder : ∀ c : UInt8, [c] ∉ keywords → e.remainder [c] ∉ keywords := by
    intro c hc
    unfold remainder
    split_ifs
    · show ([] : Bytes) ∉ keywords
      decide
    · exact hc
  rcases ht with rfl | rfl | rfl
  · exact hread _ (hremainder LBRACE (by decide))
  · rfl
  · exact hread _ (hremainder SEMI (by decide))

/-- **Between two statements no value is awaited**, if none is where the text begins. -/
theorem Between.unawaited {u v : Bytes} {ts : List Token} (h : Between v u ts) {e : Expects} {s s' : BlockGrammar.State}
    (hrun : BlockGrammar.run s (symbols ts) = some s') (hbegin : s.afterWord = false → e.awaited = none)
    (hend : s'.afterWord = false) : (ts.foldl Expects.next e).awaited = none := by
  induction h generalizing e s with
  | blank hblank =>
    obtain rfl := Option.some.inj hrun
    exact hbegin hend
  | @token u w t ts htoken hends hw ih =>
    rw [symbols_cons, BlockGrammar.run_append] at hrun
    obtain ⟨s₁, hfirst, hrest⟩ := Option.bind_eq_some_iff.1 hrun
    refine ih hrest fun hword => ?_
    have htext : WrittenAs t.2 t.1 := by
      have hread := @parseToken_text .initialWhitespace [] (u ++ v) fun h => TokenParserState.noConfusion h
      rw [htoken] at hread
      exact hread
    obtain ⟨tokenType, token⟩ := t
    cases tokenType with
    | startBlock => exact e.next_delimiter (Or.inl (congrArg (Prod.mk _) htext))
    | endBlock => exact e.next_delimiter (Or.inr (Or.inl (congrArg (Prod.mk _) htext)))
    | statementEnd => exact e.next_delimiter (Or.inr (Or.inr (congrArg (Prod.mk _) htext)))
    | comment =>
      obtain ⟨c, hc⟩ := htext
      simp only at hc
      obtain rfl := Option.some.inj hfirst
      subst hc
      have hnext : e.next (.comment, HASH :: c) = e.read (HASH :: c) := if_neg TokenType.noConfusion
      rw [hnext, Expects.read_comment (hbegin hword)]
      exact hbegin hword
    | normal =>
      obtain rfl : (⟨true, s.depth⟩ : BlockGrammar.State) = s₁ := Option.some.inj hfirst
      cases hword
    | start =>
      have hnot := parseToken_ne_start .initialWhitespace [] (u ++ v)
      rw [htoken] at hnot
      exact absurd rfl hnot
    | eof => exact absurd (Or.inl rfl) hends
    | error => exact absurd (Or.inr rfl) hends

/-- what tokens come to, on what is expected and on the draft: `none` where a value is not supplied -/
def readTokens : List Token → Expects × Draft → Option (Expects × Draft)
  | [], r => some r
  | t :: ts, r => if r.1.Supplied t.2 then readTokens ts (r.1.next t, r.1.write r.2 t.2) else none

theorem readTokens_append (ts us : List Token) (r : Expects × Draft) :
    readTokens (ts ++ us) r = (readTokens ts r).bind (readTokens us) := by
  induction ts generalizing r with
  | nil => rfl
  | cons t ts ih =>
    rw [List.cons_append, readTokens, readTokens]
    split_ifs
    · exact ih _
    · rfl

theorem readTokens_expects {ts : List Token} {r r' : Expects × Draft} (h : readTokens ts r = some r') :
    r'.1 = ts.foldl Expects.next r.1 := by
  induction ts generalizing r with
  | nil =>
    cases h
    rfl
  | cons t ts ih =>
    rw [readTokens] at h
    split_ifs at h
    exact ih h

section Shows

variable {st : ParseState} {e : Expects} {s s' : BlockGrammar.State} {depth : ℕ} {d : Draft} {ts : List Token}

/-- **The run over tokens** that the check of the transitions lets pass comes to what `readTokens` says. -/
theorem turns_readTokens (h : Shows st e s d) (hts : ∀ t ∈ ts, ¬ t.1.Ends ∧ t.1 ≠ .start)
    (hrun : BlockGrammar.run s (symbols ts) = some s') (rest : List Token) :
    match readTokens ts (e, d) with
    | none => ∃ fault, turns st (ts ++ rest) = .error fault
    | some r => ∃ st', turns st (ts ++ rest) = turns st' rest ∧ Shows st' r.1 s' r.2 := by
  induction ts generalizing st e s d with
  | nil =>
    obtain rfl := Option.some.inj hrun
    exact ⟨st, rfl, h⟩
  | cons t ts ih =>
    obtain ⟨hends, hstart⟩ := hts t List.mem_cons_self
    rw [symbols_cons, BlockGrammar.run_append] at hrun
    obtain ⟨s₁, hfirst, hrest⟩ := Option.bind_eq_some_iff.1 hrun
    rw [readTokens, List.cons_append]
    by_cases hsupplied : e.Supplied t.2
    · have hstep := h.step hends hstart hsupplied
      rw [hfirst] at hstep
      obtain ⟨st₁, hgoes, h₁⟩ := hstep
      rw [if_pos hsupplied, turns_cons hgoes]
      exact ih h₁ (fun u hu => hts u (List.mem_cons_of_mem t hu)) hrest
    · rw [if_neg hsupplied]
      exact ⟨_, turns_missing (values_unsupplied h.flags hsupplied) t.1 (ts ++ rest)⟩

/-- a word goes on from everywhere -/
theorem Shows.word (h : Shows st e s d) {token : Bytes} (hsupplied : e.Supplied token) :
    ∃ st', Config.step st .normal token = .ok (.goOn st') ∧
      Shows st' (e.read token) ⟨true, s.depth⟩ (e.write d token) := by
  have hends : ¬ TokenType.normal.Ends := by decide
  have hword : BlockGrammar.run s TokenType.normal.symbol.toList = some ⟨true, s.depth⟩ := rfl
  have hnext : e.next (.normal, token) = e.read token := if_neg TokenType.noConfusion
  have hstep := h.step (t := (.normal, token)) hends TokenType.noConfusion hsupplied
  simp only [hword, hnext] at hstep
  exact hstep

/-- where nothing is awaited, nothing is entered -/
theorem Expects.write_of_unawaited (h : e.awaited = none) {token : Bytes} (hother : token ∉ handlerNames) (d : Draft) :
    e.write d token = d := by
  rw [write_enter (by rw [h]; decide) fun _ => hother, enter, h]

/-- the end of a block, after which nothing is expected -/
theorem step_blockEnd (h : Shows st e ⟨false, depth + 1⟩ d) (hawaited : e.awaited = none) :
    ∃ st', step st .endBlock [RBRACE] = .ok (.goOn st') ∧ Shows st' {} ⟨false, depth⟩ d := by
  have hclose := h.step (t := (.endBlock, [RBRACE])) (show ¬ TokenType.endBlock.Ends by decide) TokenType.noConfusion
    (Expects.supplied_of_unawaited hawaited _)
  obtain ⟨st', hstep, h'⟩ := hclose
  rw [Expects.write_of_unawaited hawaited (by decide)] at h'
  exact ⟨st', hstep, h'⟩

end Shows

/-! ## The pieces of a block -/

/-- a piece of a block: a statement, or anything else in which statements and blocks are whole -/
structure Piece where
  text : Bytes
  tokens : List Token
  reads : ReadsAs text tokens
  whole : ∀ depth, BlockGrammar.run ⟨false, depth⟩ (symbols tokens) = some ⟨false, depth⟩

theorem pieces_whole (ps : List Piece) (depth : ℕ) :
    BlockGrammar.run ⟨false, depth⟩ (symbols (ps.flatMap Piece.tokens)) = some ⟨false, depth⟩ := by
  induction ps with
  | nil => rfl
  | cons p ps ih =>
    rw [List.flatMap_cons, symbols_append, BlockGrammar.run_append, p.whole]
    exact ih

/-- the tokens of a piece, as an action -/
def Piece.read (p : Piece) : Expects × Draft → Option (Expects × Draft) := readTokens p.tokens

theorem readTokens_pieces (ps : List Piece) (r : Expects × Draft) :
    readTokens (ps.flatMap Piece.tokens) r = Reorder.run Piece.read ps r := by
  induction ps generalizing r with
  | nil => rfl
  | cons p ps ih =>
    rw [List.flatMap_cons, readTokens_append, Reorder.run, List.foldlM_cons]
    exact congrArg (Option.bind (readTokens p.tokens r)) (funext ih)

/-- what is parsed of a text with an open block in it, up to the block's end -/
theorem parse_body {config : NginxConfig} {st : ParseState} {before close : Bytes} {us : List Token} {depth : ℕ}
    (hbefore : ReadsAs before us) (hrun : turns (.initial config) us = .ok (.goOn st))
    (hinside : BlockGrammar.run BlockGrammar.start (symbols us) = some ⟨false, depth + 1⟩)
    (hclose : ReadsAs close [(.endBlock, [RBRACE])]) (ps : List Piece) (after : Bytes) :
    match Reorder.run Piece.read ps (expectsAfter us, st.draft) with
    | none => ∃ fault, parse config (before ++ (ps.flatMap Piece.text ++ (close ++ after))) = .error fault
    | some r => ∃ st', Shows st' {} ⟨false, depth⟩ r.2 ∧
        parse config (before ++ (ps.flatMap Piece.text ++ (close ++ after))) = returned (turns st' (tokens after)) := by
  have hnot := (hbefore []).not_ends
  have hcounter := turns_counter (nested_initial config) (fun t ht => (hnot t ht).2) hrun
  have hshows : Shows st (expectsAfter us) ⟨false, depth + 1⟩ st.draft :=
    ⟨turns_expects hrun, hcounter.2, Option.some.inj (hcounter.1.symm.trans hinside), rfl⟩
  have hpieces : ReadsAs (ps.flatMap Piece.text) (ps.flatMap Piece.tokens) := readsAs_flatMap Piece.reads ps
  have htokens : tokens (before ++ (ps.flatMap Piece.text ++ (close ++ after))) =
      us ++ (ps.flatMap Piece.tokens ++ (.endBlock, [RBRACE]) :: tokens after) := by
    rw [(hbefore _).tokens, (hpieces _).tokens, (hclose _).tokens]
    rfl
  have hread := turns_readTokens hshows (hpieces []).not_ends (pieces_whole ps (depth + 1))
    ((.endBlock, [RBRACE]) :: tokens after)
  rw [parse_eq_turns, htokens, turns_append hrun]
  rw [readTokens_pieces] at hread
  cases hrun : Reorder.run Piece.read ps (expectsAfter us, st.draft) with
  | none =>
    rw [hrun] at hread
    obtain ⟨fault, hfault⟩ := hread
    exact ⟨fault, by rw [hfault]; rfl⟩
  | some r =>
    rw [hrun] at hread
    obtain ⟨st₁, hturns, h₁⟩ := hread
    -- nothing is awaited before the first piece, nor after the last
    have hbegin : (expectsAfter us).awaited = none := (hbefore []).unawaited hinside (fun _ => rfl) rfl
    have hawaited : r.1.awaited = none := by
      rw [readTokens_expects ((readTokens_pieces ps _).trans hrun)]
      exact (hpieces []).unawaited (pieces_whole ps (depth + 1)) (fun _ => hbegin) rfl
    obtain ⟨st₂, hend, h₂⟩ := step_blockEnd h₁ hawaited
    exact ⟨st₂, h₂, by rw [hturns, turns_cons (t := (.endBlock, [RBRACE])) hend]⟩

/-! ## Orders of the statements -/

/-- the text of statements, each with one of the gaps behind it as long as there are any -/
def body (gaps statements : List Piece) : Bytes := (Reorder.weave gaps statements).flatMap Piece.text

/-- these tokens, if they are nested as they should, end between two statements of a block -/
def InsideBlock (us : List Token) : Prop :=
  ∀ s, BlockGrammar.run BlockGrammar.start (symbols us) = some s → ∃ depth, s = ⟨false, depth + 1⟩

/-- what is reported, if `Parse` returns -/
def reportedIf (r : Except Fault (Bool × NginxConfig)) : Option (Bool × NginxConfig) := (reported r).toOption

/-- in every order of the statements each piece is read, and makes its own change to the tables, wherever it stands; and
the changes of a statement commute with those of all other pieces -/
def Steady (r : Expects × Draft) (gaps statements : List Piece) : Prop :=
  ∃ change : Piece → NginxConfig → NginxConfig,
    Reorder.Independent Piece.read (fun r => r.2.tables) change gaps statements r

/-- in no order of the statements each value is supplied -/
def Unread (r : Expects × Draft) (gaps statements : List Piece) : Prop :=
  ∀ statements' : List Piece, statements'.Perm statements →
    Reorder.run Piece.read (Reorder.weave gaps statements') r = none

section Orders

variable {gaps statements statements' : List Piece}

/-- pieces that leave everything but the tables as it is, and of which the statements may be read before or after the
others, are steady -/
theorem Steady.of_calm {e : Expects}
    (hcalm : ∀ p, p ∈ statements ∨ p ∈ gaps → ∀ d, ∃ tables, p.read (e, d) = some (e, { d with tables := tables }))
    (hcomm : ∀ p ∈ statements, ∀ q, q ∈ statements ∨ q ∈ gaps → ∀ d,
      Reorder.run Piece.read [p, q] (e, d) = Reorder.run Piece.read [q, p] (e, d)) (d : Draft) :
    Steady (e, d) gaps statements := by
  -- the change that a piece makes where it stands first
  set change : Piece → NginxConfig → NginxConfig := fun p tables =>
    ((p.read (e, { d with tables := tables })).map fun r => r.2.tables).getD tables with hchange
  have hread : ∀ p, p ∈ statements ∨ p ∈ gaps → ∀ tables,
      p.read (e, { d with tables := tables }) = some (e, { d with tables := change p tables }) := by
    intro p hp tables
    obtain ⟨tables', htables⟩ := hcalm p hp { d with tables := tables }
    simp only [hchange, htables, Option.map_some, Option.getD_some]
  have hboth : ∀ p q, (p ∈ statements ∨ p ∈ gaps) → (q ∈ statements ∨ q ∈ gaps) → ∀ tables,
      Reorder.run Piece.read [p, q] (e, { d with tables := tables }) =
        some (e, { d with tables := change q (change p tables) }) := by
    intro p q hp hq tables
    show (p.read (e, { d with tables := tables })).bind (fun r => (q.read r).bind some) = _
    rw [hread p hp, Option.bind_some, hread q hq, Option.bind_some]
  have hcommute : ∀ p ∈ statements, ∀ q, q ∈ statements ∨ q ∈ gaps → Function.Commute (change p) (change q) := by
    intro p hp q hq tables
    have hsame := hcomm p hp q hq { d with tables := tables }
    rw [hboth p q (Or.inl hp) hq, hboth q p hq (Or.inl hp)] at hsame
    exact (congrArg (fun r => r.2.tables) (Option.some.inj hsame)).symm
  refine ⟨change,
    Reorder.Independent.of_invariant (I := fun r => r = (e, { d with tables := r.2.tables })) rfl ?_ ?_ ?_⟩
  · rintro p hp ⟨e', d'⟩ heq
    refine ⟨(e, { d with tables := change p d'.tables }), ?_, rfl, rfl⟩
    rw [heq]
    exact hread p hp d'.tables
  · intro p hp q hq
    exact hcommute p hp q (Or.inl hq)
  · intro p hp q hq
    exact hcommute p hp q (Or.inr hq)

/-- **Steady statements may stand in any order**: in every text with a block that has these pieces, the same is
reported, whatever comes before and after. -/
theorem parse_reordered {config : NginxConfig} {before close : Bytes} {us : List Token} (hbefore : ReadsAs before us)
    (hinside : InsideBlock us) (hclose : ReadsAs close [(.endBlock, [RBRACE])])
    (hfree : ∀ st, turns (.initial config) us = .ok (.goOn st) →
      Steady (expectsAfter us, st.draft) gaps statements ∨ Unread (expectsAfter us, st.draft) gaps statements)
    (hperm : statements'.Perm statements) (after : Bytes) :
    reportedIf (parse config (before ++ (body gaps statements' ++ (close ++ after)))) =
      reportedIf (parse config (before ++ (body gaps statements ++ (close ++ after)))) := by
  by_cases hgoes : ∃ st, turns (.initial config) us = .ok (.goOn st)
  · obtain ⟨st, hrun⟩ := hgoes
    have hnot : ∀ t ∈ us, t.1 ≠ .start := fun t ht => ((hbefore []).not_ends t ht).2
    have hnested := (turns_counter (nested_initial config) hnot hrun).1
    obtain ⟨depth, hdepth⟩ := hinside _ hnested
    have hopen := hnested.trans (congrArg some hdepth)
    have hparse := parse_body hbefore hrun hopen hclose (Reorder.weave gaps statements) after
    have hparse' := parse_body hbefore hrun hopen hclose (Reorder.weave gaps statements') after
    rcases hfree st hrun with ⟨change, hindependent⟩ | hunread
    · obtain ⟨r', r, hread', hread, htables⟩ := hindependent.run_perm hperm
      rw [hread] at hparse
      rw [hread'] at hparse'
      obtain ⟨st₁, h₁, hparsed⟩ := hparse
      obtain ⟨st₁', h₁', hparsed'⟩ := hparse'
      have hidle : ({} : Expects).Idle := ⟨rfl, Or.inl rfl⟩
      have hagree : r'.2.Agree {} r.2 :=
        ⟨fun hbusy => absurd hidle hbusy, htables, fun huses => absurd huses hidle.unused⟩
      rw [body, body, hparsed, hparsed']
      exact congrArg Except.toOption (turns_alike h₁' h₁ hagree (tokens_ne_start after))
    · rw [hunread statements (.refl statements)] at hparse
      rw [hunread statements' hperm] at hparse'
      obtain ⟨fault, hfault⟩ := hparse
      obtain ⟨fault', hfault'⟩ := hparse'
      rw [body, body, hfault, hfault']
      rfl
  · rw [parse_eq_turns, parse_eq_turns, (hbefore _).tokens, (hbefore _).tokens, turns_ended hgoes, turns_ended hgoes]

end Orders

end BlogServer.Config
