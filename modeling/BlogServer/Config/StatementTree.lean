/-
The statements that `Parse` makes of the tokens.

`config_stack` holds the configs of the open blocks, and in each the last statement may be one that is not complete: the
one of the top takes words, the others wait for their block. That is a builder of `BlockTree` in another form
(`stackOf`), and the check of a transition does what the builder does (`transition_builds`). So the statements of an
accepted text are the only ones that are written as its tokens (`statements_parsed`): the tokens as the check gets them,
where the value of a root has lost its quotes (`handed`).

- `parse_printed`: statements that mean nothing to `Parse` are read back from their text.
-/
import BlogServer.Core.BlockTree
import BlogServer.Config.Expects
import BlogServer.Config.RoundTrip

namespace BlogServer.Config

open BlogServer.Byte BlogServer.BlockTree

/-! ## Pieces -/

/-- the piece of a token; comments and ends are none -/
def Token.piece (t : Token) : Option (Piece Bytes) :=
  match t.1 with
  | .normal => some (.word t.2)
  | .statementEnd => some .terminator
  | .startBlock => some .opening
  | .endBlock => some .closing
  | .start | .comment | .eof | .error => none

/-- the pieces of tokens, in their order -/
def pieces (ts : List Token) : List (Piece Bytes) := ts.filterMap Token.piece

theorem pieces_cons (t : Token) (ts : List Token) : pieces (t :: ts) = t.piece.toList ++ pieces ts := by
  rw [pieces, List.filterMap_cons]
  cases t.piece <;> rfl

theorem piece_symbol (t : Token) : t.piece.map Piece.symbol = t.1.symbol := by
  obtain ⟨tokenType, token⟩ := t
  cases tokenType <;> rfl

theorem pieces_symbols (ts : List Token) : (pieces ts).map Piece.symbol = symbols ts := by
  rw [pieces, symbols, List.map_filterMap]
  exact List.filterMap_congr fun t _ => piece_symbol t

theorem piece_of_ends {t : Token} (h : t.1.Ends) : t.piece = none := by
  obtain ⟨tokenType, token⟩ := t
  rcases h with rfl | rfl <;> rfl

/-- the tokens as the check of the transitions gets them, from what is expected on -/
def handed (e : Expects) : List Token → List Token
  | [] => []
  | t :: ts => (t.1, e.remainder t.2) :: handed (e.next t) ts

theorem handed_symbols (e : Expects) (ts : List Token) : symbols (handed e ts) = symbols ts := by
  induction ts generalizing e with
  | nil => rfl
  | cons t ts ih => rw [handed, symbols_cons, symbols_cons, ih]

/-! ## The stack of configs -/

/-- a statement that is begun, and has no block yet -/
def begun (words : List Bytes) : List Statement := if words = [] then [] else [.mk words none]

/-- `config_stack` -/
def stackOf (b : Builder Bytes Statement) : List (List Statement) :=
  (b.done ++ begun b.words) :: b.outer.map fun f => f.1 ++ [.mk f.2 none]

/-- the variables of `Parse` that the check of the transitions reads are those of a builder -/
structure Builds (b : Builder Bytes Statement) (st : ParseState) : Prop where
  stack : st.stack = stackOf b
  brackets : st.brackets = b.outer.length
  words : st.lastTokenType = .normal ↔ b.words ≠ []

variable {b : Builder Bytes Statement} {st st' : ParseState}

theorem builds_initial (config : NginxConfig) : Builds (.start config.statements) (.initial config) where
  stack := by simp [ParseState.initial, stackOf, begun]
  brackets := rfl
  words := ⟨TokenType.noConfusion, fun h => absurd rfl h⟩

theorem Builds.same (h : Builds b st) (hsame : SameBlocks st st') : Builds b st' where
  stack := by rw [hsame.stack, h.stack]
  brackets := by rw [hsame.brackets, h.brackets]
  words := by rw [hsame.lastTokenType, h.words]

theorem Builds.words_nil (h : Builds b st) (hlast : st.lastTokenType ≠ .normal) : b.words = [] :=
  Decidable.of_not_not (mt h.words.2 hlast)

/-- a word goes into the statement that is begun, or begins one -/
theorem addToken_stackOf {last : TokenType} (hlast : last = .normal ↔ b.words ≠ []) (token : Bytes) :
    addToken last token (stackOf b) = stackOf { b with words := b.words ++ [token] } := by
  have hbegun : begun (b.words ++ [token]) = [.mk (b.words ++ [token]) none] := if_neg (by simp)
  simp only [stackOf, hbegun]
  by_cases hwords : b.words = []
  · have hnew : last ≠ .normal := fun hnormal => hlast.1 hnormal hwords
    have htop : (if last = .normal then b.done ++ begun b.words else b.done ++ begun b.words ++ [.mk [] none]) =
        b.done ++ [.mk [] none] := by rw [if_neg hnew, hwords, begun, if_pos rfl, List.append_nil]
    rw [addToken_cons last token _ _ htop, hwords]
  · have htop : (if last = .normal then b.done ++ begun b.words else b.done ++ begun b.words ++ [.mk [] none]) =
        b.done ++ [.mk b.words none] := by rw [if_pos (hlast.2 hwords), begun, if_neg hwords]
    rw [addToken_cons last token _ _ htop]

/-- **Step lemma.** A transition that goes on does what the builder does. -/
theorem transition_builds (h : Builds b st) {tokenType : TokenType} {token : Bytes}
    (hgoes : transition st tokenType token = .goOn st') :
    ∃ b', b.run Statement.mk (Token.piece (tokenType, token)).toList = some b' ∧ Builds b' st' := by
  cases tokenType with
  | start | error => cases hgoes
  | eof =>
    obtain ⟨accepted, hstop⟩ := transition_stops st (Or.inl rfl) token
    rw [hstop] at hgoes
    cases hgoes
  | comment =>
    obtain rfl : st = st' := Progress.goOn.inj hgoes
    exact ⟨b, rfl, h⟩
  | normal =>
    unfold transition at hgoes
    simp only at hgoes
    split at hgoes
    · rw [← Progress.goOn.inj hgoes]
      refine ⟨{ b with words := b.words ++ [token] }, rfl, ?_, h.brackets, ?_⟩
      · rw [h.stack]
        exact addToken_stackOf h.words token
      · exact ⟨fun _ => by simp, fun _ => rfl⟩
    · cases hgoes
  | statementEnd =>
    unfold transition at hgoes
    simp only at hgoes
    split at hgoes
    · rename_i hlast
      have hwords := h.words.1 hlast
      rw [← Progress.goOn.inj hgoes]
      refine ⟨⟨b.done ++ [.mk b.words none], [], b.outer⟩, ?_, ?_, h.brackets, ?_⟩
      · simp [Token.piece, Builder.run, Builder.step, hwords]
      · simp [h.stack, stackOf, begun, hwords]
      · exact ⟨TokenType.noConfusion, fun hne => absurd rfl hne⟩
    · cases hgoes
  | startBlock =>
    unfold transition at hgoes
    simp only at hgoes
    split at hgoes
    · rename_i hlast
      have hwords := h.words.1 hlast
      rw [← Progress.goOn.inj hgoes]
      refine ⟨⟨[], [], (b.done, b.words) :: b.outer⟩, ?_, ?_, ?_, ?_⟩
      · simp [Token.piece, Builder.run, Builder.step, hwords]
      · simp [h.stack, stackOf, begun, hwords]
      · simp [h.brackets]
      · exact ⟨TokenType.noConfusion, fun hne => absurd rfl hne⟩
    · cases hgoes
  | endBlock =>
    unfold transition at hgoes
    simp only at hgoes
    split at hgoes
    · rename_i hcloses
      obtain ⟨hlast, hopen⟩ := hcloses
      have hwords : b.words = [] := h.words_nil (by rcases hlast with hl | hl | hl <;> rw [hl] <;> decide)
      obtain ⟨done, words, outer⟩ := b
      simp only at hwords
      subst hwords
      cases outer with
      | nil => exact absurd h.brackets hopen
      | cons frame outer =>
        obtain ⟨before, ws⟩ := frame
        rw [← Progress.goOn.inj hgoes]
        refine ⟨⟨before ++ [.mk ws (some done)], [], outer⟩, rfl, ?_, ?_, ?_⟩
        · simp [h.stack, stackOf, begun, closeBlock, List.modifyLast_concat]
        · simp [h.brackets]
        · exact ⟨TokenType.noConfusion, fun hne => absurd rfl hne⟩
    · cases hgoes

/-- at the end of an accepted text nothing is begun and nothing is open -/
theorem transition_accepts (h : Builds b st) {token : Bytes} {config : NginxConfig}
    (hstop : transition st .eof token = .stop true config) : b = .start config.statements := by
  unfold transition at hstop
  simp only at hstop
  split at hstop
  · rename_i hlast
    obtain ⟨hbrackets, rfl⟩ := Progress.stop.inj hstop
    have hwords : b.words = [] := h.words_nil (by rcases hlast with hl | hl | hl <;> rw [hl] <;> decide)
    have houter : b.outer = [] := List.length_eq_zero_iff.1 (h.brackets.symm.trans (eq_of_beq hbrackets))
    obtain ⟨done, words, outer⟩ := b
    simp only at hwords houter
    subst hwords houter
    simp [ParseState.result, h.stack, stackOf, begun, statementsOf]
  · cases hstop

/-- before the end of a text a transition accepts nothing -/
theorem transition_refuses {tokenType : TokenType} (hends : ¬ tokenType.Ends) {token : Bytes} {accepted : Bool}
    {config : NginxConfig} (hstop : transition st tokenType token = .stop accepted config) : accepted = false := by
  cases tokenType with
  | comment => cases hstop
  | start => exact (Progress.stop.inj hstop).1.symm
  | eof => exact absurd (Or.inl rfl) hends
  | error => exact absurd (Or.inr rfl) hends
  | _ =>
    unfold transition at hstop
    simp only at hstop
    split at hstop
    · cases hstop
    · exact (Progress.stop.inj hstop).1.symm

/-- a turn is a transition with what is left of the token -/
theorem transition_of_step {e : Expects} (hflags : st.flags = e.flags) {t : Token} {p : Progress}
    (hstep : step st t.1 t.2 = .ok p) :
    ∃ st₁, SameBlocks st st₁ ∧ p = transition st₁ t.1 (e.remainder t.2) := by
  rw [step_eq] at hstep
  by_cases hsupplied : e.Supplied t.2
  · obtain ⟨st₁, hvalues, -⟩ := values_expects hflags hsupplied
    rw [hvalues] at hstep
    exact ⟨st₁, values_blocks hvalues, (Except.ok.inj hstep).symm⟩
  · obtain ⟨fault, hvalues⟩ := values_missing hflags hsupplied
    rw [hvalues] at hstep
    cases hstep

/-- **Run lemma.** A run that accepts ends with what the builder makes of the tokens. -/
theorem turns_builds {ts : List Token} (hstream : Stream ts) {e : Expects} (h : Builds b st)
    (hflags : st.flags = e.flags) {config : NginxConfig} (hturns : turns st ts = .ok (.stop true config)) :
    b.run Statement.mk (pieces (handed e ts)) = some (.start config.statements) := by
  induction hstream generalizing b st e with
  | @last t hends =>
    rw [turns] at hturns
    split at hturns
    · cases hturns
    obtain ⟨st₁, hsame, hstop⟩ := transition_of_step hflags hturns
    have hnone : Token.piece (t.1, e.remainder t.2) = none := piece_of_ends hends
    rw [handed, pieces_cons, hnone]
    rcases hends with heof | herror
    · rw [heof] at hstop
      rw [transition_accepts (h.same hsame) hstop.symm]
      rfl
    · rw [herror] at hstop
      cases hstop
  | @cons t ts hnot hts ih =>
    rw [turns] at hturns
    rw [handed, pieces_cons, Builder.run_append]
    split at hturns
    · rename_i st' hstep
      obtain ⟨st₁, hsame, hgoes⟩ := transition_of_step hflags hstep
      obtain ⟨b', hrun, hbuilds⟩ := transition_builds (h.same hsame) hgoes.symm
      rw [hrun]
      exact ih hbuilds (step_expects hflags hstep).2 hturns
    · obtain ⟨st₁, hsame, hstop⟩ := transition_of_step hflags hturns
      exact absurd (transition_refuses hnot hstop.symm) (by decide)

/-! ## Statements -/

/-- **The statements that are parsed.** A parse that returns, accepts exactly when there is no error among the tokens
and some statements are written as the tokens, roots without their quotes. Then it has added these statements, and no
others are written so. -/
theorem statements_parsed {config config' : NginxConfig} {text : Bytes} {accepted : Bool}
    (h : parse config text = .ok (accepted, config')) :
    (accepted = true ↔
      (∀ t ∈ tokens text, t.1 ≠ .error) ∧ ∃ ss, Writes Statement.mk ss (pieces (handed {} (tokens text)))) ∧
      (accepted = true →
        ∀ ss, config'.statements = config.statements ++ ss ↔
          Writes Statement.mk ss (pieces (handed {} (tokens text)))) := by
  have hstream := tokens_stream text
  have hbuilt : accepted = true →
      Builder.run Statement.mk (.start config.statements) (pieces (handed {} (tokens text))) =
        some (.start config'.statements) := by
    rintro rfl
    exact turns_builds hstream (builds_initial config) rfl (turns_of_parse h)
  have hderives := turns_stop hstream (nested_initial config) (tokens_ne_start text) (turns_of_parse h)
  refine ⟨⟨fun haccepted => ?_, fun hwritten => hderives.2 ?_⟩, fun haccepted ss => ?_⟩
  · obtain ⟨ss, -, hwrites⟩ := exists_of_build (hbuilt haccepted)
    exact ⟨(hderives.1 haccepted).1, ss, hwrites⟩
  · obtain ⟨hnone, ss, hwrites⟩ := hwritten
    refine ⟨hnone, (BlockGrammar.derives_config_iff _).1 ?_⟩
    rw [← handed_symbols {} (tokens text), ← pieces_symbols]
    exact hwrites.derives
  · rw [← @build_iff _ _ _ config.statements, hbuilt haccepted, Option.some.injEq, Builder.mk.injEq]
    exact ⟨fun heq => ⟨heq, rfl, rfl⟩, And.left⟩

/-- a root that loses its quotes, in a block -/
theorem statements_parsed_root :
    ∃ config, parse .fresh (ascii "location \"/\" StaticHandler \x7b root \"r\"; \x7d") = .ok (true, config) ∧
      config.statements =
        [.mk [ascii "location", ascii "\"/\"", ascii "StaticHandler"] (some [.mk [ascii "root", ascii "r"] none])] := by
  have hrun : ∃ config,
      parse .fresh (ascii "location \"/\" StaticHandler \x7b root \"r\"; \x7d") = .ok (true, config) ∧
        config.portNumber = -1 := exists_of_run (by decide)
  obtain ⟨config, hparse, -⟩ := hrun
  refine ⟨config, hparse, ((statements_parsed hparse).2 rfl _).2 ?_⟩
  have hpieces : pieces (handed {} (tokens (ascii "location \"/\" StaticHandler \x7b root \"r\"; \x7d"))) =
      wordsOf [ascii "location", ascii "\"/\"", ascii "StaticHandler"] ++
        .opening :: (wordsOf [ascii "root", ascii "r"] ++ [.terminator] ++ [.closing]) := by decide
  rw [hpieces]
  exact .oneBlock (by decide) (.one (by decide))

/-! ## Statements that mean nothing -/

/-- the piece of a lexeme -/
def Lexeme.piece : Lexeme → Piece Bytes
  | .word value => .word value
  | .quoted content => .word (Lexeme.quoted content).text
  | .semicolon => .terminator
  | .openBrace => .opening
  | .closeBrace => .closing

def Lexeme.token (l : Lexeme) : Token := (l.tokenType, l.text)

theorem Lexeme.token_piece (l : Lexeme) : l.token.piece = some l.piece := by
  cases l <;> rfl

/-- the tokens of a spaced text -/
theorem tokens_spaced {ls : List Lexeme} {text : Bytes} (h : Spaced ls text) (hls : ∀ l ∈ ls, l.WellFormed) :
    tokens text = ls.map Lexeme.token ++ [(.eof, [])] := by
  induction ls generalizing text with
  | nil => rw [tokens_eq, parseToken_end h]; rfl
  | cons l ls ih =>
    obtain ⟨rest, hread, hrest⟩ := parseToken_spaced h (hls l List.mem_cons_self)
    have hgoes : ¬ l.tokenType.Ends := by cases l <;> rintro (hend | hend) <;> cases hend
    rw [tokens_eq, hread, if_neg hgoes, ih hrest fun x hx => hls x (List.mem_cons_of_mem l hx)]
    rfl

/-- a token that means nothing where nothing is expected -/
def Idle (token : Bytes) : Prop := token ≠ ascii "port" ∧ token ≠ ascii "location"

instance (token : Bytes) : Decidable (Idle token) := inferInstanceAs (Decidable (_ ∧ _))

theorem next_idle {t : Token} (h : Idle t.2) : ({} : Expects).next t = {} := by
  have hread : ({} : Expects).read t.2 = {} := by
    simp [Expects.read, Expects.receive, Expects.remainder, Expects.name, Expects.place, Expects.keyword, h.1, h.2]
  rw [Expects.next, hread, ite_self]

theorem expectsAfter_idle {us : List Token} (h : ∀ t ∈ us, Idle t.2) : expectsAfter us = {} := by
  induction us using List.reverseRecOn with
  | nil => rfl
  | append_singleton us t ih =>
    rw [expectsAfter_concat, ih fun u hu => h u (List.mem_append_left _ hu)]
    exact next_idle (h t (List.mem_append_right _ (List.mem_singleton_self t)))

theorem handed_idle {ts : List Token} (h : ∀ t ∈ ts, Idle t.2) : handed {} ts = ts := by
  induction ts with
  | nil => rfl
  | cons t ts ih =>
    rw [handed, next_idle (h t List.mem_cons_self), ih fun u hu => h u (List.mem_cons_of_mem t hu)]
    rfl

/-- a turn with such a token is no more than its transition -/
theorem step_idle (hflags : st.flags = {}) {t : Token} (h : Idle t.2) :
    step st t.1 t.2 = .ok (transition st t.1 t.2) := by
  obtain ⟨flags, location, host, registry, last, brackets, stack, config⟩ := st
  simp only at hflags
  subst hflags
  have hkeyword : keyword {} t.2 = {} := by simp [keyword, h.1, h.2]
  have hvalues : values ⟨{}, location, host, registry, last, brackets, stack, config⟩ t.2 =
      .ok (⟨keyword {} t.2, location, host, registry, last, brackets, stack, config⟩, t.2) := rfl
  rw [step_eq, hvalues, hkeyword]
  rfl

/-- **Run lemma.** Such tokens change nothing but the statements. -/
theorem turns_idle {ts : List Token} (hflags : st.flags = {}) (hts : ∀ t ∈ ts, Idle t.2)
    (hturns : turns st ts = .ok (.goOn st')) :
    st'.flags = {} ∧ st'.registry = st.registry ∧ st'.config = st.config := by
  induction ts generalizing st with
  | nil =>
    cases hturns
    exact ⟨hflags, rfl, rfl⟩
  | cons t ts ih =>
    rw [turns, step_idle hflags (hts t List.mem_cons_self)] at hturns
    split at hturns
    · rename_i st₁ hstep
      obtain ⟨hflags₁, hregistry, hconfig⟩ := transition_goOn (Except.ok.inj hstep)
      rw [hflags, ite_self] at hflags₁
      obtain ⟨hrest, hregistry', hconfig'⟩ := ih hflags₁ (fun u hu => hts u (List.mem_cons_of_mem t hu)) hturns
      exact ⟨hrest, hregistry'.trans hregistry, hconfig'.trans hconfig⟩
    · rename_i hstop
      exact absurd hturns (hstop st')

/-- **Statements are read back.** A text of statements whose words are neither `port` nor `location`, spaced in any way,
is accepted, and all that it changes is that the statements are added. -/
theorem parse_printed {ss : List Statement} {ls : List Lexeme} (hwrites : Writes Statement.mk ss (ls.map Lexeme.piece))
    (hls : ∀ l ∈ ls, l.WellFormed ∧ Idle l.text) {text : Bytes} (htext : Spaced ls text) (config : NginxConfig) :
    parse config text = .ok (true, { config with statements := config.statements ++ ss }) := by
  have htokens := tokens_spaced htext fun l hl => (hls l hl).1
  have hidle : ∀ t ∈ ls.map Lexeme.token, Idle t.2 := by
    intro t ht
    obtain ⟨l, hl, rfl⟩ := List.mem_map.1 ht
    exact (hls l hl).2
  have hpieces : pieces (ls.map Lexeme.token) = ls.map Lexeme.piece := by
    rw [pieces, List.filterMap_map, ← List.filterMap_eq_map]
    exact List.filterMap_congr fun l _ => l.token_piece
  -- the check lets the tokens pass, and nothing is asked for
  have hcounter : BlockGrammar.run BlockGrammar.start (symbols (ls.map Lexeme.token)) = some BlockGrammar.start := by
    rw [← pieces_symbols, hpieces]
    exact (BlockGrammar.derives_config_iff _).1 hwrites.derives
  have hsupplies : Supplies (ls.map Lexeme.token) := by
    intro us t vs hus
    rw [expectsAfter_idle fun u hu => hidle u (hus ▸ List.mem_append_left _ hu)]
    trivial
  obtain ⟨st, hgoes⟩ := (turns_goes_iff config (tokens_before htokens)).2 ⟨by rw [Viable, hcounter]; rfl, hsupplies⟩
  obtain ⟨hrun, hnested⟩ := turns_counter (nested_initial config)
    (fun t ht => (tokens_before htokens t ht).2) hgoes
  obtain ⟨hflags, hregistry, hconfig⟩ := turns_idle rfl hidle hgoes
  -- so the text is accepted
  have hparse : parse config text = .ok (true, st.result) := by
    rw [parse_eq_turns, htokens, turns_append hgoes, turns, step_idle hflags (by decide)]
    have hstart : st.counter = BlockGrammar.start := Option.some.inj (hrun.symm.trans hcounter)
    rw [transition_eof hnested, hstart]
    rfl
  have hhanded : pieces (handed {} (tokens text)) = ls.map Lexeme.piece := by
    rw [htokens, handed_idle, pieces, List.filterMap_append, ← pieces, hpieces]
    · exact List.append_nil _
    · intro t ht
      rcases List.mem_append.1 ht with ht | ht
      · exact hidle t ht
      · rw [List.mem_singleton.1 ht]
        decide
  have hstatements : st.result.statements = config.statements ++ ss :=
    ((statements_parsed hparse).2 rfl ss).2 (hhanded ▸ hwrites)
  rw [hparse, ← hstatements]
  simp only [ParseState.result, hregistry, hconfig]
  rfl

/-- a statement in a block, and its text -/
theorem parse_printed_block :
    parse .fresh (ascii "a \x7b b \"c d\" ; \x7d ") =
      .ok (true, { NginxConfig.fresh with
        statements := [.mk [ascii "a"] (some [.mk [ascii "b", ascii "\"c d\""] none])] }) := by
  have htext : ascii "a \x7b b \"c d\" ; \x7d " =
      [.word (ascii "a"), .openBrace, .word (ascii "b"), .quoted (ascii "c d"), .semicolon, .closeBrace].flatMap
        fun l : Lexeme => l.text ++ [SP] := by decide
  have hinner : Writes Statement.mk [.mk [ascii "b", ascii "\"c d\""] none]
      (wordsOf [ascii "b", ascii "\"c d\""] ++ [.terminator]) := .one (by decide)
  have hwrites : Writes Statement.mk [.mk [ascii "a"] (some [.mk [ascii "b", ascii "\"c d\""] none])]
      (wordsOf [ascii "a"] ++ .opening :: (wordsOf [ascii "b", ascii "\"c d\""] ++ [.terminator] ++ [.closing])) :=
    .oneBlock (by decide) hinner
  rw [htext]
  refine parse_printed hwrites ?_ (Spaced.single _) .fresh
  intro l hl
  simp only [List.mem_cons, List.not_mem_nil, or_false] at hl
  rcases hl with rfl | rfl | rfl | rfl | rfl | rfl
  · exact ⟨⟨by decide, by decide⟩, by decide⟩
  · exact ⟨trivial, by decide⟩
  · exact ⟨⟨by decide, by decide⟩, by decide⟩
  · exact ⟨(by decide : DQUOTE ∉ ascii "c d"), by decide⟩
  · exact ⟨trivial, by decide⟩
  · exact ⟨trivial, by decide⟩

end BlogServer.Config
