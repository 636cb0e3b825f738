/-
An LF at the end of a configuration.

At the end of the file `ParseToken` gives the token that it has begun the type of the end, whatever it is; after an LF
it is a word or a comment of its own, and the end comes after it with an empty token (`tokens_lineFeed`). So the check
at the end does not see a last word that is not ended, and a value that the last token asks for is found missing only
after an LF. Inside quotes the LF goes into the value. `final_lineFeed_iff` says when none of this shows in what is
reported.

- `reported_word`, `reported_comment`, `reported_quoted`: the last turns, for each state that a text can end in.
- `final_lineFeed_port`: a text of the one word `port`.
-/
import BlogServer.Config.Entries
import BlogServer.Config.LineEnds

namespace BlogServer.Config

open BlogServer.Byte BlogServer.Decimal

/-! ## The last token -/

/-- the state in which `ParseToken` comes to the end of the text -/
def endStateFrom (state : TokenParserState) (text : Bytes) : TokenParserState :=
  text.foldl TokenParserState.after state

def endState (text : Bytes) : TokenParserState := endStateFrom .initialWhitespace text

/-- what an LF makes of a token that is the last: it ends it, or goes into it; after blanks it is skipped -/
def withLineFeed (state : TokenParserState) (token : Bytes) : TokenType × Bytes × Bytes :=
  match state with
  | .initialWhitespace => (.eof, token, [])
  | .comment => (.comment, token, [])
  | .normal => (.normal, token, [LF])
  | .singleQuote | .doubleQuote => (.error, token ++ [LF], [])

/-- the type that the last token has -/
def lastType (state : TokenParserState) : TokenType := if state.Quoted then .error else .eof

/-- **One token with an LF at the end of the text**: one before the last is read as before. -/
theorem parseToken_lineFeed (state : TokenParserState) (value text : Bytes) :
    (¬ (parseToken state value text).1.Ends ∧
        parseToken state value (text ++ [LF]) =
          ((parseToken state value text).1, (parseToken state value text).2.1,
            (parseToken state value text).2.2 ++ [LF]) ∧
        endStateFrom state text = endState (parseToken state value text).2.2) ∨
      (parseToken state value text).1 = lastType (endStateFrom state text) ∧
        parseToken state value (text ++ [LF]) =
          withLineFeed (endStateFrom state text) (parseToken state value text).2.1 := by
  induction text generalizing state value with
  | nil =>
    right
    cases state <;> exact ⟨rfl, rfl⟩
  | cons c text ih =>
    rcases parseToken_cons state value c with ⟨value', -, hgoes⟩ | ⟨hafter, tokenType, token, hnot, -, hends⟩ |
      ⟨rfl, hdelimiter⟩
    · rw [List.cons_append, hgoes, hgoes]
      exact ih _ _
    · left
      rw [List.cons_append, hends, hends, endStateFrom, List.foldl_cons, hafter]
      exact ⟨hnot, rfl, rfl⟩
    · left
      have hends : ∀ text, parseToken .normal value (c :: text) = (.normal, value, c :: text) :=
        fun _ => if_pos hdelimiter
      rw [List.cons_append, hends, hends, endState, endStateFrom, endStateFrom, List.foldl_cons, List.foldl_cons,
        delimiter_after hdelimiter, delimiter_again hdelimiter]
      exact ⟨show ¬ TokenType.normal.Ends by decide, rfl, rfl⟩

/-- what the last token becomes -/
inductive LastToken : TokenParserState → Token → List Token → Prop where
  | blank {token : Bytes} : LastToken .initialWhitespace (.eof, token) [(.eof, token)]
  | comment {token : Bytes} : LastToken .comment (.eof, token) [(.comment, token), (.eof, [])]
  | word {token : Bytes} : LastToken .normal (.eof, token) [(.normal, token), (.eof, [])]
  | quoted {state : TokenParserState} {token : Bytes} (h : state.Quoted) :
      LastToken state (.error, token) [(.error, token ++ [LF])]

/-- **The tokens with an LF at the end of the text**: the same up to the last. -/
theorem tokens_lineFeed (text : Bytes) :
    ∃ us t ts, tokens text = us ++ [t] ∧ tokens (text ++ [LF]) = us ++ ts ∧ LastToken (endState text) t ts := by
  induction hn : text.length using Nat.strong_induction_on generalizing text with
  | _ n ih =>
    rw [tokens_eq, tokens_eq (text ++ [LF])]
    have hshorter : ¬ (parseToken .initialWhitespace [] text).1.Ends →
        (parseToken .initialWhitespace [] text).2.2.length < text.length := parseToken_shorter
    rcases parseToken_lineFeed .initialWhitespace [] text with ⟨hnot, hread, hstate⟩ | ⟨htype, hread⟩
    · obtain ⟨us, t, ts, htokens, htokens', h⟩ := ih _ (hn ▸ hshorter hnot) _ rfl
      rw [hread, if_neg hnot, if_neg hnot, htokens, htokens']
      exact ⟨_ :: us, t, ts, rfl, rfl, by rw [endState, hstate]; exact h⟩
    · rw [hread, htype, endState]
      generalize endStateFrom .initialWhitespace text = state
      generalize (parseToken .initialWhitespace [] text).2.1 = token
      have hstop : ∀ (t : Token) (ts : List Token), t.1.Ends → (t :: if t.1.Ends then [] else ts) = [] ++ [t] :=
        fun t ts hends => congrArg (List.cons t) (if_pos hends)
      have heof : TokenType.eof.Ends := Or.inl rfl
      have herror : TokenType.error.Ends := Or.inr rfl
      cases state with
      | initialWhitespace =>
        exact ⟨[], (.eof, token), _, hstop (.eof, token) _ heof, hstop (.eof, token) _ heof, .blank⟩
      | comment => exact ⟨[], (.eof, token), _, hstop (.eof, token) _ heof, rfl, .comment⟩
      | normal => exact ⟨[], (.eof, token), _, hstop (.eof, token) _ heof, rfl, .word⟩
      | singleQuote =>
        exact ⟨[], (.error, token), _, hstop (.error, token) _ herror, hstop (.error, token ++ [LF]) _ herror,
          .quoted (Or.inl rfl)⟩
      | doubleQuote =>
        exact ⟨[], (.error, token), _, hstop (.error, token) _ herror, hstop (.error, token ++ [LF]) _ herror,
          .quoted (Or.inr rfl)⟩

/-- an error is a quote that is not closed -/
theorem parseToken_error {state : TokenParserState} {value text : Bytes}
    (h : (parseToken state value text).1 = .error) :
    match state with
    | .initialWhitespace => ∃ quote body, (parseToken state value text).2.1 = quote :: body ∧
        (quote = SQUOTE ∨ quote = DQUOTE)
    | .singleQuote | .doubleQuote => value <+: (parseToken state value text).2.1
    | .comment | .normal => False := by
  induction text generalizing state value with
  | nil =>
    cases state with
    | singleQuote | doubleQuote => exact List.prefix_refl value
    | _ => cases h
  | cons c text ih =>
    cases state with
    | initialWhitespace =>
      simp only
      rw [parseToken] at h ⊢
      split_ifs at h ⊢ with hopen hclose hhash hdquote hsquote hsemi hblank
      · exact (ih h).elim
      · obtain ⟨body, hbody⟩ := ih h
        exact ⟨c, body, hbody.symm, Or.inr hdquote⟩
      · obtain ⟨body, hbody⟩ := ih h
        exact ⟨c, body, hbody.symm, Or.inl hsquote⟩
      · exact ih h
      · exact (ih h).elim
    | singleQuote =>
      simp only
      rw [parseToken] at h ⊢
      split_ifs at h ⊢
      exact (List.prefix_append value [c]).trans (ih h)
    | doubleQuote =>
      simp only
      rw [parseToken] at h ⊢
      split_ifs at h ⊢
      exact (List.prefix_append value [c]).trans (ih h)
    | comment =>
      rw [parseToken] at h
      split_ifs at h
      exact ih h
    | normal =>
      rw [parseToken] at h
      split_ifs at h
      exact ih h

theorem tokens_error (text : Bytes) :
    ∀ t ∈ tokens text, t.1 = .error → ∃ quote body, t.2 = quote :: body ∧ (quote = SQUOTE ∨ quote = DQUOTE) := by
  induction hn : text.length using Nat.strong_induction_on generalizing text with
  | _ n ih =>
    intro t ht herror
    rw [tokens_eq] at ht
    rcases List.mem_cons.1 ht with rfl | ht
    · exact parseToken_error herror
    · split_ifs at ht with hends
      · cases ht
      · exact ih _ (hn ▸ parseToken_shorter hends) _ rfl t ht herror

/-! ## The last turns -/

/-- a table of strings that the value is entered into without its quotes -/
def Awaited.table : Awaited → Option (NginxConfig → HashMap Bytes)
  | .root => some NginxConfig.staticLocations
  | .redirectHost => some NginxConfig.redirectLocations
  | .blogIp => some NginxConfig.blogIps
  | .blogPort => some NginxConfig.blogPorts
  | .blogUsername => some NginxConfig.blogUsernames
  | .blogPassword => some NginxConfig.blogPasswords
  | .serverPort | .location | .proxyHost | .proxyPort => none

section LastTurns

variable {e : Expects} {st : ParseState} {token : Bytes}

/-- a word at the end of the text: an LF makes it one before the end -/
theorem reported_word (h : st.flags = e.flags) (hnested : Nested st) :
    reported (returned (turns st [(.normal, token), (.eof, [])])) = reported (returned (turns st [(.eof, token)])) ↔
      (e.Supplied token → (e.read token).Supplied [] ∧ st.counter ≠ BlockGrammar.start) := by
  by_cases hsupplied : e.Supplied token
  · obtain ⟨st₁, hvalues, hflags⟩ := values_expects h hsupplied
    have hsame := values_blocks hvalues
    obtain ⟨st₂, hgoes, hcounter, hnested₂⟩ := transition_word (hnested.same hsame) (e.remainder token)
    have hstep : step st .normal token = .ok (.goOn st₂) := by rw [step_eq, hvalues, Except.map, hgoes]
    have hflags₂ : st₂.flags = (e.read token).flags := (transition_goOn hgoes).1.trans hflags
    rw [turns_cons (t := (.normal, token)) hstep, reported_eof hnested hvalues]
    by_cases hnil : (e.read token).Supplied []
    · obtain ⟨st₃, hvalues₃, htables₃⟩ := values_nil hflags₂ hnil
      have hbegun : st₂.counter ≠ BlockGrammar.start := by
        rw [hcounter]
        simp
      have htables : st₂.config.tables = st₁.config.tables := by rw [(transition_goOn hgoes).2.2]
      rw [reported_eof hnested₂ hvalues₃, htables₃, htables, decide_eq_false hbegun]
      simp only [Except.ok.injEq, Prod.mk.injEq, and_true, hsupplied, hnil, true_and, forall_const,
        Bool.false_eq, decide_eq_false_iff_not]
    · obtain ⟨fault, hfault⟩ := values_missing hflags₂ hnil
      rw [turns_missing hfault]
      constructor
      · intro heq
        cases heq
      · intro hkept
        exact absurd (hkept hsupplied).1 hnil
  · obtain ⟨fault, hfault⟩ := values_missing h hsupplied
    rw [turns_missing hfault, turns_missing hfault]
    exact ⟨fun _ hreads => absurd hreads hsupplied, fun _ => rfl⟩

/-- a comment at the end of the text -/
theorem reported_comment (h : st.flags = e.flags) (hnested : Nested st) :
    reported (returned (turns st [(.comment, token), (.eof, [])])) = reported (returned (turns st [(.eof, token)])) ↔
      (e.Supplied token → (e.read token).Supplied []) := by
  by_cases hsupplied : e.Supplied token
  · obtain ⟨st₁, hvalues, hflags⟩ := values_expects h hsupplied
    have hsame := values_blocks hvalues
    rw [turns_comment hvalues, reported_eof hnested hvalues]
    by_cases hnil : (e.read token).Supplied []
    · obtain ⟨st₂, hvalues₂, htables₂⟩ := values_nil hflags hnil
      rw [reported_eof (hnested.same hsame) hvalues₂, htables₂, counter_same hsame]
      exact ⟨fun _ _ => hnil, fun _ => rfl⟩
    · obtain ⟨fault, hfault⟩ := values_missing hflags hnil
      rw [turns_missing hfault]
      constructor
      · intro heq
        cases heq
      · intro hkept
        exact absurd (hkept hsupplied) hnil
  · obtain ⟨fault, hfault⟩ := values_missing h hsupplied
    rw [turns_missing hfault, turns_missing hfault]
    exact ⟨fun _ hreads => absurd hreads hsupplied, fun _ => rfl⟩

/-! ### An open quote -/

/-- without its first byte and its last, a token shows whether an LF came last -/
theorem stripped_lineFeed {quote : UInt8} (body : Bytes) :
    stripped (quote :: body ++ [LF]) = stripped (quote :: body) ↔ (quote :: body).length < 2 := by
  have hfull : stripped (quote :: body ++ [LF]) = body := by simp [stripped]
  have hpart : stripped (quote :: body) = body.take (body.length - 1) := by simp [stripped]
  rw [hfull, hpart]
  constructor
  · intro heq
    have hlength := congrArg List.length heq
    rw [List.length_take] at hlength
    rw [List.length_cons]
    omega
  · intro hshort
    obtain rfl : body = [] := List.length_eq_zero_iff.1 (by rw [List.length_cons] at hshort; omega)
    rfl

/-- a number is read with an LF after it as without -/
theorem stoi_lineFeed (token : Bytes) : stoi (token ++ [LF]) = stoi token := stoi_append_blank token rfl rfl

theorem afterColon_lineFeed (token : Bytes) : stoi (afterColon (token ++ [LF])) = stoi (afterColon token) := by
  have hcolon : LF ≠ COLON := by decide
  unfold afterColon
  rw [Bytes.find_concat_of_ne hcolon]
  cases hfind : Bytes.find [COLON] token with
  | none => exact stoi_lineFeed token
  | some pos =>
    have hle : pos + 1 ≤ token.length := Bytes.find_add_length_le hfind
    simp only
    rw [List.drop_append_of_le_length hle]
    exact stoi_lineFeed _

theorem isValidPortNum_lineFeed (token : Bytes) : isValidPortNum (token ++ [LF]) = isValidPortNum token := by
  rw [isValidPortNum, isValidPortNum, afterColon_lineFeed]

/-- what begins with a quote is no number -/
theorem stoi_quote {quote : UInt8} (hquote : quote = SQUOTE ∨ quote = DQUOTE) (body : Bytes) :
    stoi (quote :: body) = none := by
  rcases hquote with rfl | rfl <;> rfl

/-- the port of a proxy in quotes ends the parse, with an LF as without -/
theorem values_quotedPort (h : st.flags = e.flags) (hawaited : e.awaited = some .proxyPort)
    (hnumber : stoi token = none) :
    values st token = .error (e.fault token) ∧ values st (token ++ [LF]) = .error (e.fault token) := by
  have hmissing : ∀ token, stoi token = none → ¬ e.Supplied token := by
    intro token hnumber hsupplied
    unfold Expects.Supplied at hsupplied
    rw [hawaited] at hsupplied
    exact hsupplied.2 hnumber
  have hsame : e.fault (token ++ [LF]) = e.fault token := by
    rw [Expects.fault, Expects.fault, isValidPortNum_lineFeed]
  have hnumber' : stoi (token ++ [LF]) = none := (stoi_lineFeed token).trans hnumber
  constructor
  · exact values_unsupplied h (hmissing token hnumber)
  · rw [← hsame]
    exact values_unsupplied h (hmissing _ hnumber')

theorem Expects.supplied_of_ne_nil (hne : token ≠ []) (hawaited : e.awaited ≠ some .proxyPort) : e.Supplied token := by
  unfold Supplied
  cases ha : e.awaited with
  | none => trivial
  | some a =>
    cases a with
    | proxyPort => exact absurd ha hawaited
    | serverPort => trivial
    | _ => exact hne

/-- what is entered into a table of strings -/
theorem Expects.enter_table {a : Awaited} {table : NginxConfig → HashMap Bytes} (ha : e.awaited = some a)
    (htable : a.table = some table) (d : Draft) (token : Bytes) :
    table (e.enter d token).tables = (table d.tables).insert d.location (stripped token) := by
  unfold Expects.enter
  rw [ha]
  cases a <;> cases htable <;> rfl

/-- elsewhere, and where the LF is cut off, it does not show -/
theorem Expects.enter_lineFeed (d : Draft)
    (h : (e.awaited.bind Awaited.table).isSome = true → stripped (token ++ [LF]) = stripped token) :
    (e.enter d (token ++ [LF])).tables = (e.enter d token).tables := by
  have hserver :
      setConfigPortNumberFromToken (token ++ [LF]) d.tables = setConfigPortNumberFromToken token d.tables := by
    rw [setConfigPortNumberFromToken, setConfigPortNumberFromToken, afterColon_lineFeed]
  unfold Expects.enter
  cases ha : e.awaited with
  | none => rfl
  | some a =>
    rw [ha] at h
    cases a with
    | serverPort => exact hserver
    | location => rfl
    | proxyHost => rfl
    | proxyPort =>
      simp only
      rw [stoi_lineFeed]
    | _ =>
      have hstripped := h rfl
      simp only
      rw [hstripped]

/-- a quote that is not closed -/
theorem reported_quoted (h : st.flags = e.flags) {quote : UInt8} {body : Bytes} (htoken : token = quote :: body)
    (hquote : quote = SQUOTE ∨ quote = DQUOTE) :
    reported (returned (turns st [(.error, token ++ [LF])])) = reported (returned (turns st [(.error, token)])) ↔
      ((e.awaited.bind Awaited.table).isSome = true → token.length < 2) := by
  by_cases hproxy : e.awaited = some .proxyPort
  · obtain ⟨hfault, hfault'⟩ := values_quotedPort h hproxy (htoken ▸ stoi_quote hquote body)
    rw [turns_missing hfault, turns_missing hfault', hproxy]
    have hnone : ¬ (((some Awaited.proxyPort).bind Awaited.table).isSome = true) := by decide
    exact ⟨fun _ htable => absurd htable hnone, fun _ => rfl⟩
  · have hname : ∀ rest, quote :: rest ∉ handlerNames := by
      intro rest
      rcases hquote with rfl | rfl <;> exact cons_not_mem rest (by decide)
    have hread : ∀ rest, reported (returned (turns st [(.error, quote :: rest)])) =
        .ok (false, (e.enter st.draft (quote :: rest)).tables) := by
      intro rest
      have hsupplied := Expects.supplied_of_ne_nil (List.cons_ne_nil quote rest) hproxy
      obtain ⟨st', hvalues, -, hdraft⟩ := values_draft h hsupplied
      rw [reported_error hvalues, ← Expects.write_tables (fun _ => hname rest), ← hdraft]
      rfl
    subst htoken
    rw [List.cons_append, hread, hread, ← List.cons_append, ← stripped_lineFeed]
    constructor
    · intro heq htable
      obtain ⟨table, htable⟩ := Option.isSome_iff_exists.1 htable
      obtain ⟨a, ha, htable⟩ := Option.bind_eq_some_iff.1 htable
      have hentered := congrArg (fun tables => (table tables).lookup st.draft.location)
        (Prod.mk.inj (Except.ok.inj heq)).2
      simp only [Expects.enter_table ha htable, AList.lookup_insert, Option.some.injEq] at hentered
      exact hentered
    · intro hcut
      rw [Expects.enter_lineFeed st.draft hcut]

end LastTurns

/-! ## The theorem -/

/-- what is reported of the last token stays with an LF after it: a comment or a word must not ask for a value that has
to be there, before a word something must be open, and an open quote must not be entered into a table of strings -/
def KeptAtEnd (state : TokenParserState) (us : List Token) (token : Bytes) : Prop :=
  match state with
  | .initialWhitespace => True
  | .comment => (expectsAfter us).Supplied token → ((expectsAfter us).read token).Supplied []
  | .normal =>
    (expectsAfter us).Supplied token →
      ((expectsAfter us).read token).Supplied [] ∧
        BlockGrammar.run BlockGrammar.start (symbols us) ≠ some BlockGrammar.start
  | .singleQuote | .doubleQuote => ((expectsAfter us).awaited.bind Awaited.table).isSome = true → token.length < 2

/-- **When an LF at the end changes nothing.** The verdict, the tables and the port are those of the text without it
exactly when the parse ends before the last token, or the last token is kept at the end. -/
theorem final_lineFeed_iff (config : NginxConfig) (text : Bytes) :
    reported (parse config (text ++ [LF])) = reported (parse config text) ↔
      ∀ us t, tokens text = us ++ [t] → Viable us → Supplies us → KeptAtEnd (endState text) us t.2 := by
  obtain ⟨us, t, ts, htokens, htokens', hlast⟩ := tokens_lineFeed text
  have hunique : ∀ us' t', tokens text = us' ++ [t'] → us' = us ∧ t' = t := by
    intro us' t' h
    rw [htokens] at h
    exact ⟨(List.append_singleton_inj.1 h).1.symm, (List.append_singleton_inj.1 h).2.symm⟩
  have hbefore := tokens_before htokens
  rw [parse_eq_turns, parse_eq_turns, htokens', htokens]
  by_cases hgoes : ∃ st, turns (.initial config) us = .ok (.goOn st)
  · obtain ⟨st, hturns⟩ := hgoes
    obtain ⟨hviable, hsupplies⟩ := (turns_goes_iff config hbefore).1 ⟨st, hturns⟩
    obtain ⟨hcounter, hnested⟩ := turns_counter (nested_initial config) (fun u hu => (hbefore u hu).2) hturns
    have hflags := turns_expects hturns
    have hkept : (∀ us' t', us ++ [t] = us' ++ [t'] → Viable us' → Supplies us' →
        KeptAtEnd (endState text) us' t'.2) ↔ KeptAtEnd (endState text) us t.2 := by
      constructor
      · intro hall
        exact hall us t rfl hviable hsupplies
      · intro hkept us' t' heq hviable' hsupplies'
        obtain ⟨rfl, rfl⟩ := hunique us' t' (htokens.trans heq)
        exact hkept
    rw [turns_append hturns, turns_append hturns, hkept]
    generalize hstate : endState text = state at hlast
    cases hlast with
    | blank => exact ⟨fun _ => trivial, fun _ => rfl⟩
    | comment => exact reported_comment hflags hnested
    | word =>
      have hstart : BlockGrammar.run BlockGrammar.start (symbols us) ≠ some BlockGrammar.start ↔
          st.counter ≠ BlockGrammar.start := by
        have hinitial : (ParseState.initial config).counter = BlockGrammar.start := rfl
        rw [hinitial] at hcounter
        rw [hcounter, Ne, Option.some.injEq]
      rw [KeptAtEnd, hstart]
      exact reported_word hflags hnested
    | @quoted _ token hquoted =>
      have herror : (TokenType.error, token) ∈ tokens text := by
        rw [htokens]
        exact List.mem_append_right _ (List.mem_singleton_self _)
      obtain ⟨quote, body, hbody, hquote⟩ := tokens_error text _ herror rfl
      have hreads := reported_quoted hflags hbody hquote
      rcases hquoted with rfl | rfl <;> exact hreads
  · rw [turns_ended hgoes, turns_ended hgoes]
    refine ⟨fun _ us' t' heq hviable hsupplies => ?_, fun _ => rfl⟩
    obtain ⟨rfl, rfl⟩ := hunique us' t' (htokens.trans heq)
    exact absurd ((turns_goes_iff config hbefore).2 ⟨hviable, hsupplies⟩) hgoes

/-- a text of one word, which is begun at the end of the file and not ended by an LF -/
theorem final_lineFeed_port :
    (∃ config, parse .fresh (ascii "port") = .ok (true, config) ∧ config.portNumber = -1) ∧
      ∀ config, parse .fresh (ascii "port" ++ [LF]) ≠ .ok (true, config) := by
  have hverdict : (parse .fresh (ascii "port" ++ [LF])).map Prod.fst = .ok false := by decide +kernel
  refine ⟨exists_of_run (by decide +kernel), fun config h => ?_⟩
  rw [h] at hverdict
  cases hverdict

end BlogServer.Config
