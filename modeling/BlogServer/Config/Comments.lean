/-
Comments between two tokens.

The check of the transitions skips a comment, but only after the first half of the turn has taken it for the value that
a keyword asks for, or for a handler type. Where nothing is awaited and no handler type is expected, a comment changes
nothing (`step_comment`); everywhere else there is a text that a comment gives another outcome
(`comments_transparent_iff`).

- `Between.local`: what is read before a position does not depend on what comes after, if that starts with a space.
- `comment_port`: the port after a comment is not read.
-/
import BlogServer.Config.Port

namespace BlogServer.Config

open BlogServer.Byte

/-! ## Positions -/

/-- the bytes that are skipped before a token -/
def IsSkipped (c : UInt8) : Prop := c = SP ∨ c = HT ∨ c = LF ∨ c = CR

/-- before `v` is a position between tokens: of `u ++ v` the tokens `ts` are read, and then nothing of `u` but blanks is
left -/
inductive Between (v : Bytes) : Bytes → List Token → Prop where
  | blank {u : Bytes} (h : ∀ c ∈ u, IsSkipped c) : Between v u []
  | token {u w : Bytes} {t : Token} {ts : List Token}
      (h : parseToken .initialWhitespace [] (u ++ v) = (t.1, t.2, w ++ v)) (hends : ¬ t.1.Ends)
      (hw : Between v w ts) : Between v u (t :: ts)

/-- a comment as it is put into a text -/
def comment (c : Bytes) : Bytes := SP :: HASH :: (c ++ [LF])

/-- the bytes of a comment are not the end of a line -/
def InLine (c : Bytes) : Prop := ∀ b ∈ c, b ≠ LF ∧ b ≠ CR

/-! ### Reading up to a position -/

theorem parseToken_skipped {u : Bytes} (h : ∀ c ∈ u, IsSkipped c) (v : Bytes) :
    parseToken .initialWhitespace [] (u ++ v) = parseToken .initialWhitespace [] v := by
  induction u with
  | nil => rfl
  | cons c u ih =>
    rw [← ih fun d hd => h d (List.mem_cons_of_mem c hd)]
    rcases h c List.mem_cons_self with rfl | rfl | rfl | rfl <;> rfl

theorem tokens_skipped {u : Bytes} (h : ∀ c ∈ u, IsSkipped c) (v : Bytes) : tokens (u ++ v) = tokens v := by
  rw [tokens_eq, tokens_eq v, parseToken_skipped h]

theorem Between.tokens {u v : Bytes} {ts : List Token} (h : Between v u ts) : tokens (u ++ v) = ts ++ tokens v := by
  induction h with
  | blank hblank => exact tokens_skipped hblank v
  | @token u w t ts htoken hends hw ih => rw [tokens_eq, htoken, if_neg hends, ih, List.cons_append]

/-- a token that ends before a position ends there whatever comes after, as long as a space comes first -/
theorem parseToken_local {state : TokenParserState} {value u v w : Bytes} {tokenType : TokenType} {token : Bytes}
    (h : parseToken state value (u ++ v) = (tokenType, token, w ++ v)) (hends : ¬ tokenType.Ends) (v' : Bytes) :
    parseToken state value (u ++ SP :: v') = (tokenType, token, w ++ SP :: v') := by
  induction u generalizing state value with
  | nil =>
    -- nothing is read, so it is a word that ends here
    rw [List.nil_append] at h
    rw [List.nil_append]
    have hgoes : ¬ (parseToken state value v).1.Ends := by rwa [h]
    have hlength := parseToken_length hgoes
    rw [h] at hlength
    simp only [List.length_append] at hlength
    obtain rfl : w = [] := List.length_eq_zero_iff.1 (by omega)
    have hnormal : state = .normal := by
      by_contra hstate
      have hless := hlength.2 hstate
      simp at hless
    subst hnormal
    cases v with
    | nil => exact absurd (by rw [← (Prod.mk.inj h).1]; exact Or.inl rfl) hends
    | cons c v =>
      rw [parseToken] at h
      split_ifs at h with hdelimiter
      · rw [← (Prod.mk.inj h).1, ← (Prod.mk.inj (Prod.mk.inj h).2).1]
        rfl
      · have hgoes : ¬ (parseToken .normal (value ++ [c]) v).1.Ends := by rwa [h]
        have hrest := (parseToken_length hgoes).1
        rw [h] at hrest
        simp at hrest
  | cons c u ih =>
    have hdone : ∀ (u' : Bytes) {tokenType' : TokenType} {token' : Bytes},
        (tokenType', token', u' ++ v) = (tokenType, token, w ++ v) →
          (tokenType', token', u' ++ SP :: v') = (tokenType, token, w ++ SP :: v') := by
      intro u' tokenType' token' heq
      obtain ⟨htype, heq⟩ := Prod.mk.inj heq
      obtain ⟨htoken, heq⟩ := Prod.mk.inj heq
      rw [htype, htoken, List.append_cancel_right heq]
    rw [List.cons_append] at h
    rw [List.cons_append]
    cases state <;> rw [parseToken] at h ⊢ <;> split_ifs at h ⊢ <;>
      first
      | exact ih h
      | exact hdone u h
      | exact hdone (c :: u) h

/-- **What is read before a position** is read whatever comes after, as long as a space comes first. -/
theorem Between.local {u v : Bytes} {ts : List Token} (h : Between v u ts) (v' : Bytes) : Between (SP :: v') u ts := by
  induction h with
  | blank hblank => exact .blank hblank
  | token htoken hends hw ih => exact .token (parseToken_local htoken hends v') hends ih

theorem Between.not_ends {u v : Bytes} {ts : List Token} (h : Between v u ts) :
    ∀ t ∈ ts, ¬ t.1.Ends ∧ t.1 ≠ .start := by
  induction h with
  | blank hblank =>
    intro t ht
    cases ht
  | @token u w t ts htoken hends hw ih =>
    have hstart : t.1 ≠ .start := by
      have hne := parseToken_ne_start .initialWhitespace [] (u ++ v)
      rwa [htoken] at hne
    exact List.forall_mem_cons.2 ⟨⟨hends, hstart⟩, ih⟩

/-- a comment is one token -/
theorem parseToken_inLine {c : Bytes} (h : InLine c) (value v : Bytes) :
    parseToken .comment value (c ++ LF :: v) = (.comment, value ++ c, v) := by
  induction c generalizing value with
  | nil => rw [List.append_nil]; rfl
  | cons b c ih =>
    have hb := h b List.mem_cons_self
    rw [List.cons_append, parseToken, if_neg (not_or.2 hb), ih fun d hd => h d (List.mem_cons_of_mem b hd),
      List.append_assoc, List.singleton_append]

theorem tokens_comment {c : Bytes} (h : InLine c) (v : Bytes) :
    tokens (comment c ++ v) = (.comment, HASH :: c) :: tokens v := by
  have hread : parseToken .initialWhitespace [] (comment c ++ v) = (.comment, HASH :: c, v) := by
    have htail := parseToken_inLine h [HASH] v
    rw [comment, List.cons_append, List.cons_append, List.append_assoc]
    exact htail
  have hgoes : ¬ TokenType.comment.Ends := by decide
  rw [tokens_eq, hread, if_neg hgoes]

/-! ## A comment that is skipped -/

/-- no value is awaited, and no handler type is expected -/
def Expects.Quiet (e : Expects) : Prop := e.awaited = none ∧ e.handlerType = false

theorem Expects.keyword_other {token : Bytes} (h : token ∉ keywords) (e : Expects) : e.keyword token = e := by
  simp only [keywords, List.mem_cons, List.not_mem_nil, or_false, not_or] at h
  obtain ⟨hport, hlocation, hroot, hhost, hpassword, husername⟩ := h
  simp only [keyword, hport, hlocation, hroot, hhost, hpassword, husername, false_and, and_false, if_false]

/-- a comment is no keyword -/
theorem hash_not_keyword (c : Bytes) : HASH :: c ∉ keywords := cons_not_mem c (by decide)

/-- and no name -/
theorem hash_not_handler (c : Bytes) : HASH :: c ∉ handlerNames := cons_not_mem c (by decide)

/-- with nothing awaited, no value is saved -/
theorem values_unawaited {e : Expects} {st : ParseState} (h : st.flags = e.flags) (hawaited : e.awaited = none)
    (token : Bytes) :
    values st token =
      .ok ({ handlerType st token with flags := keyword (handlerType st token).flags token }, token) := by
  have hsaves : saves st token = .ok (st, token) := by rw [saves_eq h, hawaited]
  have hlocation : (handlerType st token).flags.seenLocation = false := by
    have hname := Expects.name_awaited token (Or.inl hawaited)
    rw [handlerType_expects h token (Or.inl hawaited)]
    rcases hname with hnone | ⟨-, hlocation⟩
    · exact decide_eq_false (by rw [hnone]; decide)
    · rw [hawaited] at hlocation
      cases hlocation
  have hnew : newLocation (handlerType st token) token = .ok (handlerType st token) := saveUnquoted_off hlocation _ _ _
  rw [values_eq, hsaves]
  show (newLocation (handlerType st token) token).map _ = _
  rw [hnew]
  rfl

/-- **A comment where nothing is expected** leaves the variables of `Parse` as they are. -/
theorem step_comment {e : Expects} {st : ParseState} (h : st.flags = e.flags) (hquiet : e.Quiet) (c : Bytes) :
    step st .comment (HASH :: c) = .ok (.goOn st) := by
  have hname : handlerType st (HASH :: c) = st := by
    unfold handlerType
    rw [h, if_neg]
    exact fun hexpected => Bool.false_ne_true (hquiet.2.symm.trans hexpected)
  rw [step_eq, values_unawaited h hquiet.1, hname, keyword_other _ (hash_not_keyword c)]
  rfl

/-! ## A comment that is taken -/

/-- what `Parse` comes to, without the statements -/
def outcome (r : Except Fault (Bool × NginxConfig)) : Except Fault (Bool × NginxConfig) :=
  r.map fun r => (r.1, { r.2 with statements := [] })

/-- the last turn, when it is supplied -/
theorem returned_eof {st : ParseState} {token : Bytes} {r : ParseState × Bytes} (h : values st token = .ok r) :
    ∃ accepted, returned (turns st [(.eof, token)]) = .ok (accepted, r.1.result) := by
  have hends : TokenType.eof.Ends := Or.inl rfl
  obtain ⟨accepted, hstop⟩ := transition_stops r.1 hends r.2
  refine ⟨accepted, ?_⟩
  have hstep : step st .eof token = .ok (.stop accepted r.1.result) := by rw [step_eq, h, Except.map, hstop]
  rw [turns, hstep]
  rfl

/-- a turn of a comment -/
theorem turns_comment {st : ParseState} {token : Bytes} {r : ParseState × Bytes} (h : values st token = .ok r)
    (ts : List Token) : turns st ((.comment, token) :: ts) = turns r.1 ts := by
  have hstep : step st .comment token = .ok (.goOn r.1) := by
    rw [step_eq, h]
    rfl
  rw [turns, hstep]

/-- after an empty comment nothing is awaited -/
theorem Expects.read_hash (e : Expects) : (e.read [HASH]).awaited = none := by
  have hother : e.remainder [HASH] ∉ keywords := by
    unfold Expects.remainder
    split_ifs <;> decide
  have hname := Expects.name_awaited (e.remainder [HASH]) (e.receive_awaited.imp id And.left)
  rw [Expects.read, Expects.keyword_other hother]
  exact Expects.place_awaited (hname.imp id And.left)

theorem Expects.supplied_of_unawaited {e : Expects} (h : e.awaited = none) (token : Bytes) : e.Supplied token := by
  unfold Supplied
  rw [h]
  trivial

variable {e : Expects} {st : ParseState}

/-- the first half of a turn of an empty comment -/
theorem values_hash (h : st.flags = e.flags) (hsupplied : e.Supplied [HASH]) :
    ∃ e' : Expects, ∃ r, values st [HASH] = .ok r ∧ r.1.flags = e'.flags ∧ e'.awaited = none := by
  obtain ⟨st', hvalues, hflags⟩ := values_expects h hsupplied
  exact ⟨e.read [HASH], (st', e.remainder [HASH]), hvalues, hflags, e.read_hash⟩

/-- a value that is not a port: at the end of the file it is missing, and a comment supplies it -/
theorem taken_value (h : st.flags = e.flags) {a : Awaited} (ha : e.awaited = some a) (hport : a ≠ .serverPort)
    (hproxy : a ≠ .proxyPort) :
    outcome (returned (turns st [(.comment, [HASH]), (.eof, [])])) ≠ outcome (returned (turns st [(.eof, [])])) := by
  have hmissing : ¬ e.Supplied [] := by
    unfold Expects.Supplied
    rw [ha]
    cases a <;> simp at hport hproxy ⊢
  have hsupplied : e.Supplied [HASH] := by
    unfold Expects.Supplied
    rw [ha]
    cases a <;> simp at hport hproxy ⊢
  obtain ⟨fault, hfault⟩ := values_missing h hmissing
  have hthrows : returned (turns st [(.eof, [])]) = .error fault := by
    rw [turns, step_eq, hfault]
    rfl
  obtain ⟨e', r, hvalues, hflags, hnone⟩ := values_hash h hsupplied
  obtain ⟨st₂, hvalues', -⟩ := values_expects hflags (Expects.supplied_of_unawaited hnone [])
  obtain ⟨accepted, hreturns⟩ := returned_eof hvalues'
  rw [turns_comment hvalues, hreturns, hthrows]
  intro heq
  cases heq

/-- a proxy's port: a comment is none -/
theorem taken_proxyPort (h : st.flags = e.flags) (ha : e.awaited = some .proxyPort) :
    outcome (returned (turns st [(.comment, [HASH]), (.eof, ascii "80")])) ≠
      outcome (returned (turns st [(.eof, ascii "80")])) := by
  have hmissing : ¬ e.Supplied [HASH] := by
    unfold Expects.Supplied
    rw [ha]
    decide
  have hsupplied : e.Supplied (ascii "80") := by
    unfold Expects.Supplied
    rw [ha]
    decide
  obtain ⟨fault, hfault⟩ := values_missing h hmissing
  have hthrows : returned (turns st [(.comment, [HASH]), (.eof, ascii "80")]) = .error fault := by
    rw [turns, step_eq, hfault]
    rfl
  obtain ⟨st₁, hvalues, -⟩ := values_expects h hsupplied
  obtain ⟨accepted, hreturns⟩ := returned_eof hvalues
  rw [hthrows, hreturns]
  intro heq
  cases heq

/-- the server's port: it is not read after a comment -/
theorem taken_serverPort (h : st.flags = e.flags) (ha : e.awaited = some .serverPort) {token : Bytes} {n : ℤ}
    (htoken : ∀ config : NginxConfig, (setConfigPortNumberFromToken token config).portNumber = n)
    (hother : st.config.portNumber ≠ n) :
    outcome (returned (turns st [(.comment, [HASH]), (.eof, token)])) ≠
      outcome (returned (turns st [(.eof, token)])) := by
  have hsupplied : ∀ token, e.Supplied token := by
    intro token
    unfold Expects.Supplied
    rw [ha]
    trivial
  have hflag : st.flags.savePortVal = true := by
    rw [h]
    exact decide_eq_true ha
  obtain ⟨st₁, hvalues, -⟩ := values_expects h (hsupplied token)
  obtain ⟨accepted₁, hreturns₁⟩ := returned_eof hvalues
  have hport₁ : st₁.config.portNumber = n := by
    rw [values_portNumber hvalues, savePort, if_pos hflag]
    exact htoken st.config
  obtain ⟨e', r₂, hvalues₂, hflags₂, hnone⟩ := values_hash h (hsupplied [HASH])
  have hport₂ : r₂.1.config.portNumber = st.config.portNumber := by
    rw [values_portNumber hvalues₂, savePort, if_pos hflag]
    rfl
  obtain ⟨st₃, hvalues₃, -⟩ := values_expects hflags₂ (Expects.supplied_of_unawaited hnone token)
  have hport₃ : st₃.config.portNumber = r₂.1.config.portNumber := by
    have hflag₂ : ¬ r₂.1.flags.savePortVal = true := by
      rw [hflags₂]
      intro hport
      rw [of_decide_eq_true hport] at hnone
      cases hnone
    rw [values_portNumber hvalues₃, savePort, if_neg hflag₂]
  obtain ⟨accepted₃, hreturns₃⟩ := returned_eof hvalues₃
  rw [turns_comment hvalues₂, hreturns₃, hreturns₁]
  intro heq
  have hconfigs := congrArg NginxConfig.portNumber (Prod.mk.inj (Except.ok.inj heq)).2
  have hports : st₃.config.portNumber = st₁.config.portNumber := hconfigs
  rw [hport₃, hport₂, hport₁] at hports
  exact hother hports

/-! ### Handler types -/

/-- a comment where nothing is awaited -/
theorem Expects.read_comment (hawaited : e.awaited = none) (c : Bytes) : e.read (HASH :: c) = e := by
  rw [Expects.read_unawaited hawaited (hash_not_handler c), Expects.keyword_other (hash_not_keyword c)]

/-- where a handler type is expected, the token is recorded -/
theorem values_noted (h : st.flags = e.flags) (hawaited : e.awaited = none) (hexpected : e.handlerType = true)
    {token : Bytes} {r : ParseState × Bytes} (hvalues : values st token = .ok r) :
    r.1.registry = st.registry.note token := by
  have hflag : st.flags.expectHandlerType = true := by
    rw [h]
    exact hexpected
  rw [values_unawaited h hawaited] at hvalues
  rw [← Except.ok.inj hvalues]
  exact handlerType_noted token hflag

/-- a new name between stays -/
theorem Registry.note_note_ne {r : Registry} {a b : Bytes} (ha : a ∉ r.seenHandlers) (hab : b ≠ a) :
    ((r.note a).note b).handlerTypes ≠ (r.note b).handlerTypes := by
  intro heq
  have hlength := congrArg List.length heq
  unfold Registry.note at hlength
  rw [if_neg ha] at hlength
  by_cases hb : b ∈ r.seenHandlers
  · rw [if_pos (List.mem_cons_of_mem a hb), if_pos hb] at hlength
    simp at hlength
  · have hb' : b ∉ a :: r.seenHandlers := by
      rw [List.mem_cons]
      exact not_or.2 ⟨hab, hb⟩
    rw [if_neg hb', if_neg hb] at hlength
    simp at hlength

/-- some comment is not among finitely many tokens -/
theorem exists_fresh_comment (seen : List Bytes) : ∃ c, InLine c ∧ HASH :: c ∉ seen := by
  by_contra hnone
  have hmem : ∀ n : ℕ, HASH :: List.replicate n HASH ∈ {token | token ∈ seen} := by
    intro n
    by_contra hn
    refine hnone ⟨List.replicate n HASH, fun b hb => ?_, hn⟩
    rw [List.eq_of_mem_replicate hb]
    decide
  have hinjective : Function.Injective fun n : ℕ => HASH :: List.replicate n HASH := by
    intro m n heq
    have hlength := congrArg List.length heq
    simpa using hlength
  exact Set.infinite_of_injective_forall_mem hinjective hmem seen.finite_toSet

/-- a handler type: the comment is one -/
theorem taken_name (h : st.flags = e.flags) (hawaited : e.awaited = none) (hexpected : e.handlerType = true) {c : Bytes}
    (hfresh : HASH :: c ∉ st.registry.seenHandlers) :
    outcome (returned (turns st [(.comment, HASH :: c), (.eof, [])])) ≠
      outcome (returned (turns st [(.eof, [])])) := by
  obtain ⟨st₁, hvalues₁, -⟩ := values_expects h (Expects.supplied_of_unawaited hawaited [])
  obtain ⟨accepted₁, hreturns₁⟩ := returned_eof hvalues₁
  obtain ⟨st₂, hvalues₂, hflags₂⟩ := values_expects h (Expects.supplied_of_unawaited hawaited (HASH :: c))
  rw [Expects.read_comment hawaited] at hflags₂
  obtain ⟨st₃, hvalues₃, -⟩ := values_expects hflags₂ (Expects.supplied_of_unawaited hawaited [])
  obtain ⟨accepted₃, hreturns₃⟩ := returned_eof hvalues₃
  rw [turns_comment hvalues₂, hreturns₃, hreturns₁]
  intro heq
  have hconfigs := congrArg NginxConfig.handlerTypes (Prod.mk.inj (Except.ok.inj heq)).2
  have htypes : st₃.registry.handlerTypes = st₁.registry.handlerTypes := hconfigs
  have hnoted₁ : st₁.registry = st.registry.note [] := values_noted h hawaited hexpected hvalues₁
  have hnoted₂ : st₂.registry = st.registry.note (HASH :: c) := values_noted h hawaited hexpected hvalues₂
  have hnoted₃ : st₃.registry = st₂.registry.note [] := values_noted hflags₂ hawaited hexpected hvalues₃
  rw [hnoted₃, hnoted₂, hnoted₁] at htypes
  exact Registry.note_note_ne hfresh (List.cons_ne_nil HASH c).symm htypes

/-! ## Transparency -/

/-- a text that goes on after tokens at which the run goes on -/
theorem parse_between {config : NginxConfig} {u v : Bytes} {ts : List Token} (h : Between v u ts)
    (hturns : turns (.initial config) ts = .ok (.goOn st)) :
    parse config (u ++ v) = returned (turns st (tokens v)) := by
  rw [parse_eq_turns, h.tokens, turns_append hturns]

/-- the tokens of a text with a comment at the position -/
theorem Between.tokens_comment {u v : Bytes} {ts : List Token} (h : Between v u ts) {c : Bytes} (hc : InLine c) :
    Config.tokens (u ++ (comment c ++ v)) = ts ++ (.comment, HASH :: c) :: Config.tokens v := by
  have hcommented : Between (comment c ++ v) u ts := h.local (HASH :: (c ++ [LF] ++ v))
  rw [hcommented.tokens, Config.tokens_comment hc]

theorem parse_comment_between {config : NginxConfig} {u v : Bytes} {ts : List Token} (h : Between v u ts) {c : Bytes}
    (hc : InLine c) (hturns : turns (.initial config) ts = .ok (.goOn st)) :
    parse config (u ++ (comment c ++ v)) = returned (turns st ((.comment, HASH :: c) :: tokens v)) := by
  rw [parse_eq_turns, h.tokens_comment hc, turns_append hturns]

/-- where a value is awaited or a handler type expected, some comment before some text changes the outcome -/
theorem exists_taken {ts : List Token} {config : NginxConfig} (hturns : turns (.initial config) ts = .ok (.goOn st))
    {u v₀ : Bytes} (h : Between v₀ u ts) (hexpected : ¬ (expectsAfter ts).Quiet) :
    ∃ v c, Between v u ts ∧ InLine c ∧
      outcome (parse config (u ++ (comment c ++ v))) ≠ outcome (parse config (u ++ v)) := by
  have hflags := turns_expects hturns
  have hnil : InLine [] := fun b hb => by cases hb
  -- a text after the position, and the comment that makes a difference before it
  have hdiffers : ∀ (v' c : Bytes), InLine c →
      outcome (returned (turns st ((.comment, HASH :: c) :: tokens (SP :: v')))) ≠
        outcome (returned (turns st (tokens (SP :: v')))) →
      ∃ v c, Between v u ts ∧ InLine c ∧
        outcome (parse config (u ++ (comment c ++ v))) ≠ outcome (parse config (u ++ v)) := by
    intro v' c hc hne
    refine ⟨SP :: v', c, h.local v', hc, ?_⟩
    rw [parse_between (h.local v') hturns, parse_comment_between (h.local v') hc hturns]
    exact hne
  have hend : tokens [SP] = [(.eof, [])] := by decide
  cases hawaited : (expectsAfter ts).awaited with
  | none =>
    have hname : (expectsAfter ts).handlerType = true := by
      by_contra hname
      exact hexpected ⟨hawaited, Bool.eq_false_iff.2 hname⟩
    obtain ⟨c, hc, hfresh⟩ := exists_fresh_comment st.registry.seenHandlers
    apply hdiffers [] c hc
    rw [hend]
    exact taken_name hflags hawaited hname hfresh
  | some a =>
    by_cases hport : a = .serverPort
    · subst hport
      by_cases heighty : st.config.portNumber = 80
      · have htokens : tokens (SP :: ascii "81") = [(.eof, ascii "81")] := by decide
        apply hdiffers (ascii "81") [] hnil
        rw [htokens]
        exact taken_serverPort hflags hawaited (fun _ => rfl) (by rw [heighty]; decide)
      · have htokens : tokens (SP :: ascii "80") = [(.eof, ascii "80")] := by decide
        apply hdiffers (ascii "80") [] hnil
        rw [htokens]
        exact taken_serverPort hflags hawaited (fun _ => rfl) heighty
    · by_cases hproxy : a = .proxyPort
      · subst hproxy
        have htokens : tokens (SP :: ascii "80") = [(.eof, ascii "80")] := by decide
        apply hdiffers (ascii "80") [] hnil
        rw [htokens]
        exact taken_proxyPort hflags hawaited
      · apply hdiffers [] [] hnil
        rw [hend]
        exact taken_value hflags hawaited hport hproxy

/-- **Where comments are transparent.** At a position after some tokens, a comment leaves the outcome of `Parse` as it
is, whatever the comment and whatever the rest of the text, exactly when the parse has ended before, or no value is
awaited there and no handler type expected. -/
theorem comments_transparent_iff {config : NginxConfig} {u v₀ : Bytes} {ts : List Token} (h : Between v₀ u ts) :
    (∀ v c, Between v u ts → InLine c →
      outcome (parse config (u ++ (comment c ++ v))) = outcome (parse config (u ++ v))) ↔
      (Viable ts → Supplies ts → (expectsAfter ts).Quiet) := by
  constructor
  · intro htransparent hviable hsupplies
    obtain ⟨st, hturns⟩ := (turns_goes_iff config h.not_ends).2 ⟨hviable, hsupplies⟩
    by_contra hexpected
    obtain ⟨v, c, hv, hc, hne⟩ := exists_taken hturns h hexpected
    exact hne (htransparent v c hv hc)
  · intro hquiet v c hv hc
    congr 1
    by_cases hgoes : ∃ st, turns (.initial config) ts = .ok (.goOn st)
    · obtain ⟨st, hturns⟩ := hgoes
      obtain ⟨hviable, hsupplies⟩ := (turns_goes_iff config h.not_ends).1 ⟨st, hturns⟩
      have hstep := step_comment (turns_expects hturns) (hquiet hviable hsupplies) c
      rw [parse_between hv hturns, parse_comment_between hv hc hturns, turns, hstep]
    · rw [parse_eq_turns, parse_eq_turns, hv.tokens_comment hc, hv.tokens, turns_ended hgoes, turns_ended hgoes]

/-- after a port statement there is a position -/
theorem between_port : Between (ascii "a;") (ascii "port 80; ")
    [(.normal, ascii "port"), (.normal, ascii "80"), (.statementEnd, ascii ";")] := by
  apply Between.token (w := ascii " 80; ") (by decide) (by decide)
  apply Between.token (w := ascii "; ") (by decide) (by decide)
  apply Between.token (w := ascii " ") (by decide) (by decide)
  exact .blank (by unfold IsSkipped; decide)

/-- the theorem there -/
theorem comments_transparent_port :
    outcome (parse .fresh (ascii "port 80; " ++ (comment (ascii " b") ++ ascii "a;"))) =
      outcome (parse .fresh (ascii "port 80; " ++ ascii "a;")) := by
  apply (comments_transparent_iff between_port).2
  · exact fun _ _ => ⟨by decide, by decide⟩
  · exact between_port
  · unfold InLine
    decide

/-- the port of a statement is lost when a comment comes before it -/
theorem comment_port :
    Between (ascii "8080;") (ascii "port ") [(.normal, ascii "port")] ∧ InLine (ascii " http") ∧
      (∃ config, parse .fresh (ascii "port " ++ ascii "8080;") = .ok (true, config) ∧ config.portNumber = 8080) ∧
        ∃ config, parse .fresh (ascii "port " ++ (comment (ascii " http") ++ ascii "8080;")) = .ok (true, config) ∧
          config.portNumber = -1 := by
  refine ⟨?_, ?_, exists_of_run (by decide +kernel), exists_of_run (by decide +kernel)⟩
  · apply Between.token (w := ascii " ") (by decide) (by decide)
    exact .blank (by unfold IsSkipped; decide)
  · unfold InLine
    decide

end BlogServer.Config
