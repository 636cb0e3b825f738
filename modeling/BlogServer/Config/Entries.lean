/-
What a turn of `Parse` enters into the tables.

An entry of a table is made of the location that was read last, for a proxy of the host that was read last, and of the
value that is awaited. So of a state the tables depend on a `Draft`, and what the first half of a turn does to it is
decided by what is expected and by the token (`values_draft`). What is reported of a parse depends on nothing else:
states that agree on this, on the open blocks and on the last token type are parsed alike to the end (`turns_alike`).

- `values_nil`: the empty token at the end of the file enters nothing.
-/
import BlogServer.Config.Expects

namespace BlogServer.Config

open BlogServer.Byte BlogServer.Decimal

/-! ## Drafts -/

/-- the tables and the port -/
def NginxConfig.tables (config : NginxConfig) : NginxConfig := { config with statements := [], handlerTypes := [] }

/-- the variables of `Parse` that go into the tables, and the tables -/
structure Draft where
  location : Bytes
  host : Bytes
  tables : NginxConfig

def ParseState.draft (st : ParseState) : Draft := ⟨st.location, st.storeProxyLocationToken, st.config.tables⟩

namespace Expects

/-- the awaited value is entered, or kept for an entry; a location is kept after the handler type -/
def enter (e : Expects) (d : Draft) (token : Bytes) : Draft :=
  match e.awaited with
  | none | some .location => d
  | some .serverPort => { d with tables := setConfigPortNumberFromToken token d.tables }
  | some .root =>
    ⟨[], d.host, { d.tables with staticLocations := d.tables.staticLocations.insert d.location (stripped token) }⟩
  | some .proxyHost => { d with host := stripped token }
  | some .proxyPort =>
    ⟨[], d.host,
      { d.tables with
        proxyLocations := d.tables.proxyLocations.insert d.location (d.host, (stoi token).getD 0) }⟩
  | some .redirectHost =>
    { d with
      tables := { d.tables with
        redirectLocations := d.tables.redirectLocations.insert d.location (stripped token) } }
  | some .blogIp =>
    { d with tables := { d.tables with blogIps := d.tables.blogIps.insert d.location (stripped token) } }
  | some .blogPort =>
    { d with tables := { d.tables with blogPorts := d.tables.blogPorts.insert d.location (stripped token) } }
  | some .blogUsername =>
    { d with tables := { d.tables with blogUsernames := d.tables.blogUsernames.insert d.location (stripped token) } }
  | some .blogPassword =>
    { d with tables := { d.tables with blogPasswords := d.tables.blogPasswords.insert d.location (stripped token) } }

/-- a handler type without a block of its own enters the location -/
def enterName (e : Expects) (d : Draft) (token : Bytes) : Draft :=
  if e.handlerType then
    if token = ascii "EchoHandler" then
      ⟨[], d.host, { d.tables with echoLocations := d.tables.echoLocations.insert d.location }⟩
    else if token = ascii "StatusHandler" then
      ⟨[], d.host, { d.tables with statusLocations := d.tables.statusLocations.insert d.location }⟩
    else if token = ascii "HealthHandler" then
      ⟨[], d.host, { d.tables with healthLocations := d.tables.healthLocations.insert d.location }⟩
    else if token = ascii "UploadFormHandler" then
      ⟨[], d.host, { d.tables with uploadFormLocations := d.tables.uploadFormLocations.insert d.location }⟩
    else d
  else d

/-- a location is kept -/
def enterPlace (e : Expects) (d : Draft) (token : Bytes) : Draft :=
  if e.awaited = some .location then { d with location := stripped token } else d

/-- the draft after a token -/
def write (e : Expects) (d : Draft) (token : Bytes) : Draft :=
  (e.receive.name (e.remainder token)).enterPlace (e.receive.enterName (e.enter d token) (e.remainder token)) token

end Expects

section Turn

variable {e : Expects} {st : ParseState} {token : Bytes}

theorem setConfigPortNumber_tables (token : Bytes) (config : NginxConfig) :
    (setConfigPortNumberFromToken token config).tables = setConfigPortNumberFromToken token config.tables := by
  unfold setConfigPortNumberFromToken
  cases stoi (afterColon token) with
  | none => rfl
  | some n =>
    simp only
    split_ifs <;> rfl

/-- the saves enter the value -/
theorem saves_draft (h : st.flags = e.flags) (hsupplied : e.Supplied token) :
    ∃ st', saves st token = .ok (st', e.remainder token) ∧ st'.flags = e.receive.flags ∧
      st'.draft = e.enter st.draft token := by
  rw [saves_eq h]
  obtain ⟨flags, location, host, registry, last, brackets, stack, config⟩ := st
  obtain ⟨handlerType, staticRoot, proxyHost, proxyPort, redirectHost, blogInfo, awaited⟩ := e
  simp only at h
  subst h
  cases awaited with
  | none => exact ⟨_, rfl, rfl, rfl⟩
  | some a =>
    cases a with
    | location => exact ⟨_, rfl, rfl, rfl⟩
    | serverPort => exact ⟨_, rfl, rfl, congrArg (Draft.mk location host) (setConfigPortNumber_tables token config)⟩
    | proxyPort =>
      obtain ⟨hvalid, hstoi⟩ := hsupplied
      obtain ⟨n, hn⟩ := Option.ne_none_iff_exists'.1 hstoi
      simp only [saveProxyPort, Expects.flags, decide_true, if_true, hvalid, hn, Expects.enter]
      exact ⟨_, rfl, rfl, rfl⟩
    | root =>
      simp only [saveRoot, Expects.flags, decide_true, if_true, unquote_eq hsupplied]
      exact ⟨_, rfl, rfl, rfl⟩
    | _ =>
      simp only [saveProxyHost, saveRedirectHost, saveBlogIp, saveBlogPort, saveBlogUsername, saveBlogPassword,
        saveUnquoted, Expects.flags, decide_true, if_true, unquote_eq hsupplied]
      exact ⟨_, rfl, rfl, rfl⟩

/-- a name enters the location, if it is one of a handler without a block of its own -/
theorem handlerType_draft (h : st.flags.expectHandlerType = e.handlerType) (token : Bytes) :
    (handlerType st token).draft = e.enterName st.draft token := by
  unfold handlerType Expects.enterName
  rw [h]
  by_cases hexpected : e.handlerType = true
  · rw [if_pos hexpected, if_pos hexpected]
    by_cases hname : token ∈ handlerNames
    · simp only [handlerNames, List.mem_cons, List.not_mem_nil, or_false] at hname
      rcases hname with rfl | rfl | rfl | rfl | rfl | rfl | rfl | rfl <;> rfl
    · simp only [handlerNames, List.mem_cons, List.not_mem_nil, or_false, not_or] at hname
      obtain ⟨h₁, h₂, h₃, h₄, h₅, h₆, h₇, h₈⟩ := hname
      simp only [h₁, h₂, h₃, h₄, h₅, h₆, h₇, h₈, if_false]
      rfl
  · rw [if_neg hexpected, if_neg hexpected]

/-- a location is kept for the entries of its block -/
theorem newLocation_draft (h : st.flags.seenLocation = decide (e.awaited = some .location)) {rest : Bytes}
    (hrest : e.awaited = some .location → rest = token) {st' : ParseState} (hnew : newLocation st rest = .ok st') :
    st'.draft = e.enterPlace st.draft token := by
  unfold newLocation saveUnquoted at hnew
  unfold Expects.enterPlace
  rw [h] at hnew
  by_cases hlocation : e.awaited = some .location
  · rw [if_pos (decide_eq_true hlocation), hrest hlocation] at hnew
    rw [if_pos hlocation]
    by_cases hnil : token = []
    · rw [unquote, if_pos hnil] at hnew
      cases hnew
    · rw [unquote_eq hnil] at hnew
      rw [← Except.ok.inj hnew]
      rfl
  · rw [if_neg fun hseen => hlocation (of_decide_eq_true hseen)] at hnew
    rw [if_neg hlocation, Except.ok.inj hnew]

/-- **What the first half of a turn enters**, when the awaited value is supplied. -/
theorem values_draft (h : st.flags = e.flags) (hsupplied : e.Supplied token) :
    ∃ st', values st token = .ok (st', e.remainder token) ∧ st'.flags = (e.read token).flags ∧
      st'.draft = e.write st.draft token := by
  obtain ⟨st₁, hvalues, hflags⟩ := values_expects h hsupplied
  obtain ⟨st₂, hsaves, hreceive, hdraft⟩ := saves_draft h hsupplied
  refine ⟨st₁, hvalues, hflags, ?_⟩
  have hawaited : e.receive.awaited = none ∨ e.receive.awaited = some .location :=
    e.receive_awaited.imp id And.left
  have hname := handlerType_draft (e := e.receive) (congrArg Flags.expectHandlerType hreceive) (e.remainder token)
  have hseen := congrArg Flags.seenLocation (handlerType_expects hreceive (e.remainder token) hawaited)
  have hrest : (e.receive.name (e.remainder token)).awaited = some .location → e.remainder token = token := by
    intro hlocation
    have hreceived := (Expects.name_awaited (e.remainder token) hawaited).resolve_left (by rw [hlocation]; decide)
    have he := e.receive_awaited.resolve_left (by rw [hreceived.2]; decide)
    exact if_neg (by rw [he.2]; decide)
  rw [values_eq, hsaves] at hvalues
  simp only [bind, Except.bind] at hvalues
  cases hnew : newLocation (handlerType st₂ (e.remainder token)) (e.remainder token) with
  | error fault =>
    rw [hnew] at hvalues
    cases hvalues
  | ok st₃ =>
    rw [hnew] at hvalues
    rw [← (Prod.mk.inj (Except.ok.inj hvalues)).1, Expects.write, ← hdraft, ← hname]
    have hplace := newLocation_draft hseen hrest hnew
    exact hplace

/-! ### Tokens that name no handler -/

theorem Expects.enterName_other (hother : e.handlerType = true → token ∉ handlerNames) (d : Draft) :
    e.enterName d token = d := by
  unfold enterName
  by_cases hexpected : e.handlerType = true
  · have hname := hother hexpected
    simp only [handlerNames, List.mem_cons, List.not_mem_nil, or_false, not_or] at hname
    obtain ⟨-, -, -, -, hecho, hstatus, hhealth, hupload⟩ := hname
    rw [if_pos hexpected, if_neg hecho, if_neg hstatus, if_neg hhealth, if_neg hupload]
  · rw [if_neg hexpected]

/-- the root of a static location is not taken for a name -/
theorem Expects.write_eq (hother : e.awaited ≠ some .root → token ∉ handlerNames) (d : Draft) :
    e.write d token = (e.receive.name (e.remainder token)).enterPlace (e.enter d token) token := by
  have hname : e.receive.handlerType = true → e.remainder token ∉ handlerNames := by
    by_cases hroot : e.awaited = some .root
    · intro hexpected
      rw [receive, hroot] at hexpected
      cases hexpected
    · rw [remainder, if_neg hroot]
      exact fun _ => hother hroot
  rw [write, enterName_other hname]

/-- a token that names no handler enters what is awaited -/
theorem Expects.write_tables (hother : e.awaited ≠ some .root → token ∉ handlerNames) (d : Draft) :
    (e.write d token).tables = (e.enter d token).tables := by
  rw [write_eq hother, enterPlace]
  split_ifs <;> rfl

/-- and is not kept, unless it is a location -/
theorem Expects.write_enter (hlocation : e.awaited ≠ some .location)
    (hother : e.awaited ≠ some .root → token ∉ handlerNames) (d : Draft) : e.write d token = e.enter d token := by
  have hname : (e.receive.name (e.remainder token)).awaited ≠ some .location := by
    intro hname
    rcases name_awaited (e.remainder token) (e.receive_awaited.imp id And.left) with hnone | ⟨-, hreceive⟩
    · rw [hnone] at hname
      cases hname
    · rcases e.receive_awaited with hnone | ⟨-, he⟩
      · rw [hnone] at hreceive
        cases hreceive
      · exact hlocation he
  rw [write_eq hother, enterPlace, if_neg hname]

/-! ## The empty token -/

/-- the empty token at the end of the file is no value, unless it is the port of the server -/
theorem Expects.supplied_nil : e.Supplied [] ↔ e.awaited = none ∨ e.awaited = some .serverPort := by
  have hport : isValidPortNum [] = none := by decide
  unfold Supplied
  cases e.awaited with
  | none => simp
  | some a => cases a <;> simp [hport]

/-- and then it enters nothing -/
theorem values_nil (h : st.flags = e.flags) (hsupplied : e.Supplied []) :
    ∃ st', values st [] = .ok (st', []) ∧ st'.config.tables = st.config.tables := by
  have hremainder : e.remainder [] = [] := ite_self []
  obtain ⟨st', hvalues, -, hdraft⟩ := values_draft h hsupplied
  rw [hremainder] at hvalues
  refine ⟨st', hvalues, (congrArg Draft.tables hdraft).trans ?_⟩
  rw [Expects.write_tables fun _ => by decide]
  unfold Expects.enter
  rcases Expects.supplied_nil.1 hsupplied with hnone | hport
  · rw [hnone]
    rfl
  · rw [hport]
    rfl

/-! ## What is reported -/

/-- the verdict, the location tables and the port -/
def reported (r : Except Fault (Bool × NginxConfig)) : Except Fault (Bool × NginxConfig) :=
  r.map fun r => (r.1, r.2.tables)

/-- a value that is missing is reported as a fault -/
theorem turns_missing {fault : Fault} (hvalues : values st token = .error fault) (tokenType : TokenType)
    (ts : List Token) : turns st ((tokenType, token) :: ts) = .error fault := by
  rw [turns, step_eq, hvalues]
  rfl

/-- at the end of the file the verdict is whether everything is closed -/
theorem reported_eof (hnested : Nested st) {r : ParseState × Bytes} (hvalues : values st token = .ok r)
    (ts : List Token) :
    reported (returned (turns st ((.eof, token) :: ts))) =
      .ok (decide (st.counter = BlockGrammar.start), r.1.config.tables) := by
  have hsame := values_blocks hvalues
  have hstep : step st .eof token = .ok (.stop (decide (st.counter = BlockGrammar.start)) r.1.result) := by
    rw [step_eq, hvalues, Except.map, transition_eof (hnested.same hsame), counter_same hsame]
  rw [turns, hstep]
  rfl

/-- an error is no configuration -/
theorem reported_error {r : ParseState × Bytes} (hvalues : values st token = .ok r) (ts : List Token) :
    reported (returned (turns st ((.error, token) :: ts))) = .ok (false, r.1.config.tables) := by
  have hstep : step st .error token = .ok (.stop false r.1.result) := by
    rw [step_eq, hvalues]
    rfl
  rw [turns, hstep]
  rfl

end Turn

/-! ## States that are parsed alike -/

section Agree

variable {e : Expects}

/-- the host that was read last may still be entered -/
def Expects.UsesHost (e : Expects) : Prop := e.proxyPort = true ∨ e.awaited = some .proxyPort

/-- nothing is entered before a location is read -/
structure Expects.Idle (e : Expects) : Prop where
  flags : e = { awaited := e.awaited }
  awaited : e.awaited = none ∨ e.awaited = some .serverPort ∨ e.awaited = some .location

/-- drafts that enter the same -/
structure Draft.Agree (e : Expects) (d d' : Draft) : Prop where
  location : ¬ e.Idle → d.location = d'.location
  tables : d.tables = d'.tables
  host : e.UsesHost → d.host = d'.host

theorem Expects.Idle.unused (h : e.Idle) : ¬ e.UsesHost := by
  rintro (hport | hawaited)
  · rw [h.flags] at hport
    cases hport
  · rcases h.awaited with hnone | hnone | hnone
    · rw [hnone] at hawaited
      cases hawaited
    · rw [hnone] at hawaited
      cases hawaited
    · rw [hnone] at hawaited
      cases hawaited

/-- where nothing else is expected, a token asks for the port of the server or for a location -/
theorem Expects.idle_keyword (token : Bytes) : (({} : Expects).keyword token).Idle := by
  unfold keyword
  simp only [Bool.false_eq_true, false_and, and_true, if_false]
  split_ifs
  · exact ⟨rfl, Or.inr (Or.inl rfl)⟩
  · exact ⟨rfl, Or.inr (Or.inr rfl)⟩
  · exact ⟨rfl, Or.inl rfl⟩

/-- then the location that was read last is not entered, and the next one is kept -/
theorem Expects.Idle.read (h : e.Idle) (token : Bytes) :
    (e.read token).Idle ∧
        (∀ d d' : Draft, d.tables = d'.tables → (e.write d token).tables = (e.write d' token).tables) ∨
      ¬ (e.read token).UsesHost ∧ ∀ d : Draft, e.write d token = { d with location := stripped token } := by
  obtain ⟨hflags, hawaited⟩ := h
  rcases hawaited with ha | ha | ha
  · rw [ha] at hflags
    subst hflags
    exact Or.inl ⟨idle_keyword token, fun _ _ htables => htables⟩
  · rw [ha] at hflags
    subst hflags
    exact Or.inl ⟨idle_keyword token, fun _ _ htables => congrArg (setConfigPortNumberFromToken token) htables⟩
  · rw [ha] at hflags
    subst hflags
    refine Or.inr ⟨?_, fun _ => rfl⟩
    show ¬ (({ handlerType := true } : Expects).keyword token).UsesHost
    unfold keyword
    simp only [Bool.false_eq_true, false_and, and_true, if_false]
    split_ifs <;> simp [UsesHost]

theorem Expects.keyword_proxyPort (e : Expects) (token : Bytes) :
    (e.keyword token).proxyPort = e.proxyPort ∧
      ((e.keyword token).awaited = some .proxyPort → e.UsesHost) := by
  rcases e.keyword_asks token with hsame | ⟨a, hasks, -, -, hport⟩
  · rw [hsame]
    exact ⟨rfl, fun hawaited => Or.inr hawaited⟩
  · rw [hasks]
    exact ⟨rfl, fun hawaited => Or.inl (hport (Option.some.inj hawaited))⟩

/-- a host is used only where a port is expected, or after a host -/
theorem Expects.usesHost_of_read {token : Bytes} (h : (e.read token).UsesHost) :
    e.proxyPort = true ∨ e.awaited = some .proxyHost := by
  have hreceive : e.receive.proxyPort = true → e.proxyPort = true ∨ e.awaited = some .proxyHost := by
    intro hport
    unfold receive at hport
    split at hport
    · exact Or.inl hport
    · exact Or.inl hport
    · rename_i hhost
      exact Or.inr hhost
    · cases hport
    · exact Or.inl hport
  have hname : (e.receive.name (e.remainder token)).proxyPort = e.receive.proxyPort := by
    unfold name
    split_ifs <;> rfl
  have hplace : ∀ e : Expects, e.place.proxyPort = e.proxyPort := by
    intro e
    unfold place
    split_ifs <;> rfl
  have hnone := Expects.place_awaited
    ((Expects.name_awaited (e.remainder token) (e.receive_awaited.imp id And.left)).imp id And.left)
  obtain ⟨hkept, hasks⟩ := Expects.keyword_proxyPort (e.receive.name (e.remainder token)).place (e.remainder token)
  have hplaced : (e.receive.name (e.remainder token)).place.proxyPort = true := by
    rcases h with hport | hawaited
    · exact hkept.symm.trans hport
    · rcases hasks hawaited with hport | hawaited
      · exact hport
      · rw [hnone] at hawaited
        cases hawaited
  rw [hplace, hname] at hplaced
  exact hreceive hplaced

/-- what agrees enters the same -/
theorem Draft.Agree.enter {d d' : Draft} (h : d.Agree e d') (hidle : ¬ e.Idle) (token : Bytes) :
    (e.enter d token).location = (e.enter d' token).location ∧
      (e.enter d token).tables = (e.enter d' token).tables ∧
      (e.proxyPort = true ∨ e.awaited = some .proxyHost → (e.enter d token).host = (e.enter d' token).host) := by
  obtain ⟨location, host, tables⟩ := d
  obtain ⟨location', host', tables'⟩ := d'
  obtain ⟨hlocation, htables, hhost⟩ := h
  have hlocation := hlocation hidle
  simp only at hlocation htables
  subst hlocation htables
  have hport : e.proxyPort = true → host = host' := fun hport => hhost (Or.inl hport)
  unfold Expects.enter
  cases ha : e.awaited with
  | none => exact ⟨rfl, rfl, fun huses => hport (huses.resolve_right (by simp))⟩
  | some a =>
    cases a with
    | proxyHost => exact ⟨rfl, rfl, fun _ => rfl⟩
    | proxyPort =>
      obtain rfl : host = host' := hhost (Or.inr ha)
      exact ⟨rfl, rfl, fun _ => rfl⟩
    | _ => exact ⟨rfl, rfl, fun huses => hport (huses.resolve_right (by simp))⟩

theorem Draft.Agree.write {d d' : Draft} (h : d.Agree e d') (token : Bytes) :
    (e.write d token).Agree (e.read token) (e.write d' token) := by
  by_cases hidle : e.Idle
  · rcases hidle.read token with ⟨hread, htables⟩ | ⟨hunused, hplace⟩
    · exact ⟨fun hbusy => absurd hread hbusy, htables d d' h.tables, fun huses => absurd huses hread.unused⟩
    · rw [hplace, hplace]
      exact ⟨fun _ => rfl, h.tables, fun huses => absurd huses hunused⟩
  obtain ⟨hlocation, htables, hhost⟩ := h.enter hidle token
  have hread : (e.read token).UsesHost → (e.enter d token).host = (e.enter d' token).host :=
    fun huses => hhost (Expects.usesHost_of_read huses)
  unfold Expects.write
  generalize e.enter d token = d₁ at hlocation htables hread ⊢
  generalize e.enter d' token = d₁' at hlocation htables hread ⊢
  obtain ⟨location, host, tables⟩ := d₁
  obtain ⟨location', host', tables'⟩ := d₁'
  simp only at hlocation htables
  subst hlocation htables
  unfold Expects.enterPlace Expects.enterName
  split_ifs <;> exact ⟨fun _ => rfl, rfl, hread⟩

end Agree

/-- a transition that goes on enters nothing -/
theorem transition_draft {st st' : ParseState} {tokenType : TokenType} {token : Bytes}
    (h : transition st tokenType token = .goOn st') : st'.draft = st.draft := by
  rcases transition_frame st tokenType token with ⟨accepted, hstop⟩ | ⟨last, brackets, stack, hgoes⟩
  · rw [hstop] at h
    cases h
  · rw [hgoes] at h
    rw [← Progress.goOn.inj h]
    rfl

/-- what is reported depends on this of a state: what is expected, the counter of the blocks, and the draft -/
structure Shows (st : ParseState) (e : Expects) (s : BlockGrammar.State) (d : Draft) : Prop where
  flags : st.flags = e.flags
  nested : Nested st
  counter : st.counter = s
  draft : st.draft = d

section Shows

variable {st st' : ParseState} {e : Expects} {s : BlockGrammar.State} {d d' : Draft}

/-- **Step lemma.** What a turn shows is decided by what the state before it shows. -/
theorem Shows.step (h : Shows st e s d) {t : Token} (hends : ¬ t.1.Ends) (hstart : t.1 ≠ .start)
    (hsupplied : e.Supplied t.2) :
    match BlockGrammar.run s t.1.symbol.toList with
    | none => ∃ config, Config.step st t.1 t.2 = .ok (.stop false config) ∧ config.tables = (e.write d t.2).tables
    | some s' => ∃ st', Config.step st t.1 t.2 = .ok (.goOn st') ∧ Shows st' (e.next t) s' (e.write d t.2) := by
  obtain ⟨hflags, hnested, rfl, rfl⟩ := h
  obtain ⟨st₁, hvalues, hflags₁, hdraft⟩ := values_draft hflags hsupplied
  have hsame := values_blocks hvalues
  have hcounter := transition_counter (hnested.same hsame) hends hstart (e.remainder t.2)
  rw [counter_same hsame] at hcounter
  rw [step_eq, hvalues, Except.map]
  cases hrun : BlockGrammar.run st.counter t.1.symbol.toList with
  | none =>
    rw [hrun] at hcounter
    exact ⟨st₁.result, by rw [hcounter], congrArg Draft.tables hdraft⟩
  | some s' =>
    rw [hrun] at hcounter
    obtain ⟨st₂, hgoes, hs, hnested₂⟩ := hcounter
    refine ⟨st₂, by rw [hgoes], ?_, hnested₂, hs, (transition_draft hgoes).trans hdraft⟩
    rw [(transition_goOn hgoes).1, hflags₁, Expects.next]
    exact ite_flags rfl rfl

theorem Draft.Agree.next (h : d.Agree e d') (t : Token) : (e.write d t.2).Agree (e.next t) (e.write d' t.2) := by
  have hread := h.write t.2
  unfold Expects.next
  split_ifs
  · have hidle : ({} : Expects).Idle := ⟨rfl, Or.inl rfl⟩
    exact ⟨fun hbusy => absurd hidle hbusy, hread.tables, fun huses => absurd huses hidle.unused⟩
  · exact hread

/-- **Run lemma.** States that show the same, up to a location and a host that are not used, are parsed alike to the
end. -/
theorem turns_alike (h : Shows st e s d) (h' : Shows st' e s d') (hagree : d.Agree e d') {ts : List Token}
    (hstart : ∀ t ∈ ts, t.1 ≠ .start) :
    reported (returned (turns st ts)) = reported (returned (turns st' ts)) := by
  induction ts generalizing e s d d' st st' with
  | nil => rfl
  | cons t ts ih =>
    obtain ⟨tokenType, token⟩ := t
    by_cases hsupplied : e.Supplied token
    · by_cases hends : tokenType.Ends
      · obtain ⟨st₁, hvalues, -, hdraft⟩ := values_draft h.flags hsupplied
        obtain ⟨st₁', hvalues', -, hdraft'⟩ := values_draft h'.flags hsupplied
        have htables : st₁.config.tables = st₁'.config.tables := by
          have hwritten := (hagree.write token).tables
          rw [← h.draft, ← h'.draft, ← hdraft, ← hdraft'] at hwritten
          exact hwritten
        rcases hends with rfl | rfl
        · rw [reported_eof h.nested hvalues, reported_eof h'.nested hvalues', h.counter, h'.counter, htables]
        · rw [reported_error hvalues, reported_error hvalues', htables]
      · have hnot := hstart (tokenType, token) List.mem_cons_self
        have hstep := h.step (t := (tokenType, token)) hends hnot hsupplied
        have hstep' := h'.step (t := (tokenType, token)) hends hnot hsupplied
        cases hrun : BlockGrammar.run s tokenType.symbol.toList with
        | none =>
          rw [hrun] at hstep hstep'
          obtain ⟨config, hstop, htables⟩ := hstep
          obtain ⟨config', hstop', htables'⟩ := hstep'
          rw [turns, turns, hstop, hstop']
          have hsame := htables.trans ((hagree.write token).tables.trans htables'.symm)
          exact congrArg (fun tables => Except.ok (false, tables)) hsame
        | some s' =>
          rw [hrun] at hstep hstep'
          obtain ⟨st₁, hgoes, hshows⟩ := hstep
          obtain ⟨st₁', hgoes', hshows'⟩ := hstep'
          rw [turns_cons hgoes, turns_cons hgoes']
          exact ih hshows hshows' (hagree.next (tokenType, token)) fun u hu => hstart u (List.mem_cons_of_mem _ hu)
    · rw [turns_missing (values_unsupplied h.flags hsupplied), turns_missing (values_unsupplied h'.flags hsupplied)]

end Shows

end BlogServer.Config
