/-
What `Parse` expects, and how it ends without returning.

The boolean variables of `Parse` say what may stand next, and that the next token is a value some keyword asked for. At
most one value is awaited at a time, so the variables are those of an `Expects`, which the tokens alone determine
(`step_expects`). A turn throws, or falls off the end of `IsValidPortNum`, exactly when the awaited value is not
supplied: the empty token at the end of the file, or no port where a proxy has to have one. So `Parse` returns exactly
when every value that is awaited is supplied, up to where the check of the transitions stops (`parse_returns_iff`).

- `values_expects`: what the first half of a turn does to the variables.
- `parse_location`: the text `location ` makes `substr` throw.
-/
import BlogServer.Config.Grammar

namespace BlogServer.Config

open BlogServer.Byte BlogServer.Decimal

/-! ## Expectations -/

/-- a value that a keyword asks for -/
inductive Awaited where
  | serverPort
  | location
  | root
  | proxyHost
  | proxyPort
  | redirectHost
  | blogIp
  | blogPort
  | blogUsername
  | blogPassword
deriving DecidableEq, Repr

/-- what `Parse` expects -/
structure Expects where
  handlerType : Bool := false
  staticRoot : Bool := false
  proxyHost : Bool := false
  proxyPort : Bool := false
  redirectHost : Bool := false
  blogInfo : Bool := false
  /-- the next token is this value -/
  awaited : Option Awaited := none
deriving DecidableEq

/-- a token without its quotes -/
def stripped (token : Bytes) : Bytes := (token.drop 1).take (token.length - 2)

theorem unquote_eq {token : Bytes} (h : token ≠ []) : unquote token = .ok (stripped token) := if_neg h

namespace Expects

/-- the boolean variables -/
def flags (e : Expects) : Flags where
  savePortVal := decide (e.awaited = some .serverPort)
  seenLocation := decide (e.awaited = some .location)
  saveRootVal := decide (e.awaited = some .root)
  expectHandlerType := e.handlerType
  expectStaticRoot := e.staticRoot
  expectProxyHost := e.proxyHost
  saveProxyHostVal := decide (e.awaited = some .proxyHost)
  expectProxyPort := e.proxyPort
  saveProxyPortVal := decide (e.awaited = some .proxyPort)
  expectRedirectHost := e.redirectHost
  saveRedirectHostVal := decide (e.awaited = some .redirectHost)
  expectBlogInfo := e.blogInfo
  saveBlogIpVal := decide (e.awaited = some .blogIp)
  saveBlogPort := decide (e.awaited = some .blogPort)
  saveBlogUsername := decide (e.awaited = some .blogUsername)
  saveBlogPassword := decide (e.awaited = some .blogPassword)

/-- the token is the value that is awaited -/
def Supplied (e : Expects) (token : Bytes) : Prop :=
  match e.awaited with
  | none | some .serverPort => True
  | some .proxyPort => isValidPortNum token = some true ∧ stoi token ≠ none
  | _ => token ≠ []

instance decidableSupplied (e : Expects) (token : Bytes) : Decidable (e.Supplied token) := by
  unfold Supplied
  split <;> infer_instance

/-! ### Reading a token -/

/-- the value is saved; a location is saved after the handler type -/
def receive (e : Expects) : Expects :=
  match e.awaited with
  | some .location => e
  | some .root => { e with handlerType := false, staticRoot := false, awaited := none }
  | some .proxyHost => { e with handlerType := false, proxyHost := false, proxyPort := true, awaited := none }
  | some .redirectHost => { e with handlerType := false, redirectHost := false, proxyPort := false, awaited := none }
  | _ => { e with awaited := none }

/-- what is left of the token for the rest of the turn -/
def remainder (e : Expects) (token : Bytes) : Bytes := if e.awaited = some .root then stripped token else token

/-- a handler type; one without a block of its own enters the location, and another is not awaited -/
def name (e : Expects) (token : Bytes) : Expects :=
  if e.handlerType then
    if token = ascii "StaticHandler" then { e with staticRoot := true }
    else if token = ascii "RedirectHandler" then { e with redirectHost := true }
    else if token = ascii "ProxyHandler" then { e with proxyHost := true }
    else if token = ascii "BlogHandler" then { e with blogInfo := true }
    else if token = ascii "EchoHandler" ∨ token = ascii "StatusHandler" ∨ token = ascii "HealthHandler" ∨
        token = ascii "UploadFormHandler" then { e with handlerType := false, awaited := none }
    else e
  else e

/-- after a location comes a handler type -/
def place (e : Expects) : Expects :=
  if e.awaited = some .location then { e with handlerType := true, awaited := none } else e

/-- a keyword asks for a value -/
def keyword (e : Expects) (token : Bytes) : Expects :=
  if token = ascii "port" ∧ e.proxyPort = false ∧ e.blogInfo = false then { e with awaited := some .serverPort }
  else if token = ascii "location" then { e with awaited := some .location }
  else if e.staticRoot = true ∧ token = ascii "root" then { e with awaited := some .root }
  else if e.proxyHost = true ∧ token = ascii "host" then { e with awaited := some .proxyHost }
  else if e.proxyPort = true ∧ token = ascii "port" then { e with awaited := some .proxyPort }
  else if e.redirectHost = true ∧ token = ascii "host" then { e with awaited := some .redirectHost }
  else if e.blogInfo = true ∧ token = ascii "host" then { e with awaited := some .blogIp }
  else if e.blogInfo = true ∧ token = ascii "port" then { e with awaited := some .blogPort }
  else if e.blogInfo = true ∧ token = ascii "password" then { e with awaited := some .blogPassword }
  else if e.blogInfo = true ∧ token = ascii "username" then { e with awaited := some .blogUsername }
  else e

/-- what is expected after a token -/
def read (e : Expects) (token : Bytes) : Expects :=
  ((e.receive.name (e.remainder token)).place).keyword (e.remainder token)

/-- a block that ends leaves nothing expected -/
def next (e : Expects) (t : Token) : Expects := if t.1 = .endBlock then {} else e.read t.2

end Expects

/-- what is expected after tokens -/
def expectsAfter (us : List Token) : Expects := us.foldl Expects.next {}

theorem expectsAfter_concat (us : List Token) (t : Token) : expectsAfter (us ++ [t]) = (expectsAfter us).next t := by
  rw [expectsAfter, List.foldl_append]
  rfl

/-! ## A turn -/

/-- the values that flags ask for, up to the blog's -/
def saves (st : ParseState) (token : Bytes) : Except Fault (ParseState × Bytes) := do
  let st := savePort st token
  let st ← saveProxyPort st token
  let (st, token) ← saveRoot st token
  let st ← saveProxyHost st token
  let st ← saveRedirectHost st token
  let st ← saveBlogIp st token
  let st ← saveBlogPort st token
  let st ← saveBlogUsername st token
  let st ← saveBlogPassword st token
  pure (st, token)

theorem values_eq (st : ParseState) (token : Bytes) :
    values st token = saves st token >>= fun r =>
      (newLocation (handlerType r.1 r.2) r.2).map fun st => ({ st with flags := keyword st.flags r.2 }, r.2) := by
  simp only [values, saves, bind_assoc, pure_bind]
  rfl

/-- one value at most is saved -/
theorem saves_eq {e : Expects} {st : ParseState} (h : st.flags = e.flags) (token : Bytes) :
    saves st token = match e.awaited with
      | none | some .location => .ok (st, token)
      | some .serverPort => .ok (savePort st token, token)
      | some .root => saveRoot st token
      | some .proxyHost => (saveProxyHost st token).map fun st => (st, token)
      | some .proxyPort => (saveProxyPort st token).map fun st => (st, token)
      | some .redirectHost => (saveRedirectHost st token).map fun st => (st, token)
      | some .blogIp => (saveBlogIp st token).map fun st => (st, token)
      | some .blogPort => (saveBlogPort st token).map fun st => (st, token)
      | some .blogUsername => (saveBlogUsername st token).map fun st => (st, token)
      | some .blogPassword => (saveBlogPassword st token).map fun st => (st, token) := by
  obtain ⟨flags, location, host, registry, last, brackets, stack, config⟩ := st
  obtain ⟨handlerType, staticRoot, proxyHost, proxyPort, redirectHost, blogInfo, awaited⟩ := e
  simp only at h
  subst h
  cases awaited with
  | none => rfl
  | some a =>
    cases a with
    | serverPort => rfl
    | location => rfl
    | proxyPort =>
      simp only [saves, savePort, saveProxyPort, saveRoot, saveProxyHost, saveRedirectHost, saveBlogIp, saveBlogPort,
        saveBlogUsername, saveBlogPassword, saveUnquoted, Expects.flags, bind, Except.bind, pure, Except.pure,
        Option.some.injEq, reduceCtorEq, decide_true, decide_false, if_true, if_false, Bool.false_eq_true]
      cases isValidPortNum token with
      | none => rfl
      | some valid =>
        cases valid with
        | false => rfl
        | true => cases stoi token <;> rfl
    | _ =>
      simp only [saves, savePort, saveProxyPort, saveRoot, saveProxyHost, saveRedirectHost, saveBlogIp, saveBlogPort,
        saveBlogUsername, saveBlogPassword, saveUnquoted, Expects.flags, bind, Except.bind, pure, Except.pure,
        Option.some.injEq, reduceCtorEq, decide_true, decide_false, if_true, if_false, Bool.false_eq_true]
      cases unquote token with
      | error fault => rfl
      | ok value => rfl

/-- the variables of a choice -/
theorem ite_flags {p : Prop} [Decidable p] {f f' : Flags} {e e' : Expects} (h : f = e.flags) (h' : f' = e'.flags) :
    (if p then f else f') = (if p then e else e').flags := by
  split_ifs
  · exact h
  · exact h'

/-- a value that is supplied is saved -/
theorem saves_supplied {e : Expects} {st : ParseState} {token : Bytes} (h : st.flags = e.flags)
    (hsupplied : e.Supplied token) :
    ∃ st', saves st token = .ok (st', e.remainder token) ∧ st'.flags = e.receive.flags := by
  rw [saves_eq h]
  obtain ⟨flags, location, host, registry, last, brackets, stack, config⟩ := st
  obtain ⟨handlerType, staticRoot, proxyHost, proxyPort, redirectHost, blogInfo, awaited⟩ := e
  simp only at h
  subst h
  cases awaited with
  | none => exact ⟨_, rfl, rfl⟩
  | some a =>
    cases a with
    | location => exact ⟨_, rfl, rfl⟩
    | serverPort => exact ⟨_, rfl, rfl⟩
    | proxyPort =>
      obtain ⟨hvalid, hstoi⟩ := hsupplied
      obtain ⟨n, hn⟩ := Option.ne_none_iff_exists'.1 hstoi
      simp only [saveProxyPort, Expects.flags, decide_true, if_true, hvalid, hn]
      exact ⟨_, rfl, rfl⟩
    | root =>
      simp only [saveRoot, Expects.flags, decide_true, if_true, unquote_eq hsupplied]
      exact ⟨_, rfl, rfl⟩
    | _ =>
      simp only [saveProxyHost, saveRedirectHost, saveBlogIp, saveBlogPort, saveBlogUsername, saveBlogPassword,
        saveUnquoted, Expects.flags, decide_true, if_true, unquote_eq hsupplied]
      exact ⟨_, rfl, rfl⟩

/-- how a turn ends without the value that is awaited: the check of a proxy's port throws or falls off its end, and
elsewhere `substr` throws -/
def Expects.fault (e : Expects) (token : Bytes) : Fault :=
  if e.awaited = some .proxyPort then if isValidPortNum token = none then .missingReturn else .badNumber
  else .outOfRange

/-- a value that is not supplied ends the parse -/
theorem saves_missing {e : Expects} {st : ParseState} {token : Bytes} (h : st.flags = e.flags)
    (hmissing : ¬ e.Supplied token) (hlocation : e.awaited ≠ some .location) :
    saves st token = .error (e.fault token) := by
  rw [saves_eq h]
  obtain ⟨flags, location, host, registry, last, brackets, stack, config⟩ := st
  obtain ⟨handlerType, staticRoot, proxyHost, proxyPort, redirectHost, blogInfo, awaited⟩ := e
  simp only at h
  subst h
  cases awaited with
  | none => exact absurd trivial hmissing
  | some a =>
    cases a with
    | location => exact absurd rfl hlocation
    | serverPort => exact absurd trivial hmissing
    | proxyPort =>
      simp only [saveProxyPort, Expects.flags, Expects.fault, decide_true, if_true]
      cases hvalid : isValidPortNum token with
      | none => rfl
      | some valid =>
        cases valid with
        | false => rfl
        | true =>
          cases hn : stoi token with
          | none => rfl
          | some n =>
            refine absurd ⟨hvalid, ?_⟩ hmissing
            rw [hn]
            exact Option.some_ne_none n
    | root =>
      obtain rfl : token = [] := Decidable.of_not_not hmissing
      rfl
    | _ =>
      obtain rfl : token = [] := Decidable.of_not_not hmissing
      rfl

/-- no value but a location outlives its token -/
theorem Expects.receive_awaited (e : Expects) :
    e.receive.awaited = none ∨ e.receive.awaited = some .location ∧ e.awaited = some .location := by
  obtain ⟨handlerType, staticRoot, proxyHost, proxyPort, redirectHost, blogInfo, awaited⟩ := e
  cases awaited with
  | none => exact Or.inl rfl
  | some a =>
    cases a with
    | location => exact Or.inr ⟨rfl, rfl⟩
    | _ => exact Or.inl rfl

/-- what is no name of a handler type -/
theorem Expects.name_other {token : Bytes} (h : token ∉ handlerNames) (e : Expects) : e.name token = e := by
  simp only [handlerNames, List.mem_cons, List.not_mem_nil, or_false, not_or] at h
  obtain ⟨hstatic, hredirect, hproxy, hblog, hothers⟩ := h
  have hnone : ¬ (token = ascii "EchoHandler" ∨ token = ascii "StatusHandler" ∨ token = ascii "HealthHandler" ∨
      token = ascii "UploadFormHandler") := by simpa only [not_or] using hothers
  rw [name, if_neg hstatic, if_neg hredirect, if_neg hproxy, if_neg hblog, if_neg hnone, ite_self]

/-- where nothing is awaited, a token that names no handler can only be a keyword -/
theorem Expects.read_unawaited {e : Expects} (hawaited : e.awaited = none) {token : Bytes} (h : token ∉ handlerNames) :
    e.read token = e.keyword token := by
  have hreceive : e.receive = e := by
    obtain ⟨handlerType, staticRoot, proxyHost, proxyPort, redirectHost, blogInfo, awaited⟩ := e
    simp only at hawaited
    subst hawaited
    rfl
  have hremainder : e.remainder token = token := if_neg (by rw [hawaited]; decide)
  have hplace : e.place = e := if_neg (by rw [hawaited]; decide)
  rw [read, hremainder, hreceive, name_other h, hplace]

theorem handlerType_expects {e : Expects} {st : ParseState} (h : st.flags = e.flags) (token : Bytes)
    (hawaited : e.awaited = none ∨ e.awaited = some .location) :
    (handlerType st token).flags = (e.name token).flags := by
  obtain ⟨flags, location, host, registry, last, brackets, stack, config⟩ := st
  obtain ⟨expected, staticRoot, proxyHost, proxyPort, redirectHost, blogInfo, awaited⟩ := e
  simp only at h hawaited
  subst h
  cases expected with
  | false => rfl
  | true =>
    by_cases hname : token ∈ handlerNames
    · simp only [handlerNames, List.mem_cons, List.not_mem_nil, or_false] at hname
      rcases hawaited with rfl | rfl
      · rcases hname with rfl | rfl | rfl | rfl | rfl | rfl | rfl | rfl <;> rfl
      · rcases hname with rfl | rfl | rfl | rfl | rfl | rfl | rfl | rfl <;> rfl
    · rw [handlerType_other _ hname, Expects.name_other hname]

/-- a name leaves a location awaited, or enters it -/
theorem Expects.name_awaited {e : Expects} (token : Bytes) (h : e.awaited = none ∨ e.awaited = some .location) :
    (e.name token).awaited = none ∨ (e.name token).awaited = some .location ∧ e.awaited = some .location := by
  have hsame : e.awaited = none ∨ e.awaited = some .location ∧ e.awaited = some .location :=
    h.imp id fun hlocation => ⟨hlocation, hlocation⟩
  unfold Expects.name
  split_ifs
  · exact hsame
  · exact hsame
  · exact hsame
  · exact hsame
  · exact Or.inl rfl
  · exact hsame
  · exact hsame

theorem newLocation_expects {e : Expects} {st : ParseState} {token : Bytes} (h : st.flags = e.flags)
    (hlocation : e.awaited = some .location → token ≠ []) :
    ∃ st', newLocation st token = .ok st' ∧ st'.flags = e.place.flags := by
  obtain ⟨flags, location, host, registry, last, brackets, stack, config⟩ := st
  obtain ⟨expected, staticRoot, proxyHost, proxyPort, redirectHost, blogInfo, awaited⟩ := e
  simp only at h hlocation
  subst h
  by_cases hawaited : awaited = some .location
  · subst hawaited
    have hquote := unquote_eq (hlocation rfl)
    simp only [newLocation, saveUnquoted, Expects.flags, decide_true, if_true, hquote, Expects.place]
    exact ⟨_, rfl, rfl⟩
  · refine ⟨_, saveUnquoted_off (decide_eq_false hawaited) _ _ _, ?_⟩
    rw [Expects.place, if_neg hawaited]

theorem Expects.place_awaited {e : Expects} (h : e.awaited = none ∨ e.awaited = some .location) :
    e.place.awaited = none := by
  rcases h with hnone | hlocation
  · rw [Expects.place, if_neg (by rw [hnone]; decide), hnone]
  · rw [Expects.place, if_pos hlocation]

/-- what a keyword does: nothing, or it asks for a value, some of them only where they are expected -/
def Expects.Asks (e : Expects) (token : Bytes) (e' : Expects) : Prop :=
  e' = e ∨ ∃ a, e' = { e with awaited := some a } ∧ (a = .location → token = ascii "location") ∧
    (a = .root → e.staticRoot = true) ∧ (a = .proxyPort → e.proxyPort = true)

theorem Expects.keyword_asks (e : Expects) (token : Bytes) : e.Asks token (e.keyword token) := by
  have hasks : ∀ {p : Prop} [Decidable p] {a : Awaited} {e' : Expects}, e.Asks token e' →
      (p → (a = .location → token = ascii "location") ∧ (a = .root → e.staticRoot = true) ∧
        (a = .proxyPort → e.proxyPort = true)) →
      e.Asks token (if p then { e with awaited := some a } else e') :=
    fun hrest hasked => iteInduction (motive := e.Asks token) (fun hp => Or.inr ⟨_, rfl, hasked hp⟩) fun _ => hrest
  unfold keyword
  -- one choice for each value
  refine hasks (hasks (hasks (hasks (hasks (hasks (hasks (hasks (hasks (hasks (Or.inl rfl) ?_) ?_) ?_) ?_) ?_) ?_) ?_)
    ?_) ?_) ?_
  · exact fun _ => ⟨nofun, nofun, nofun⟩
  · exact fun _ => ⟨nofun, nofun, nofun⟩
  · exact fun _ => ⟨nofun, nofun, nofun⟩
  · exact fun _ => ⟨nofun, nofun, nofun⟩
  · exact fun _ => ⟨nofun, nofun, nofun⟩
  · exact fun hport => ⟨nofun, nofun, fun _ => hport.1⟩
  · exact fun _ => ⟨nofun, nofun, nofun⟩
  · exact fun hroot => ⟨nofun, fun _ => hroot.1, nofun⟩
  · exact fun hlocation => ⟨fun _ => hlocation, nofun, nofun⟩
  · exact fun _ => ⟨nofun, nofun, nofun⟩

theorem keyword_expects {e : Expects} (h : e.awaited = none) (token : Bytes) :
    keyword e.flags token = (e.keyword token).flags := by
  obtain ⟨expected, staticRoot, proxyHost, proxyPort, redirectHost, blogInfo, awaited⟩ := e
  simp only at h
  subst h
  exact ite_flags rfl <| ite_flags rfl <| ite_flags rfl <| ite_flags rfl <| ite_flags rfl <| ite_flags rfl <|
    ite_flags rfl <| ite_flags rfl <| ite_flags rfl <| ite_flags rfl rfl

/-- **What the first half of a turn does to the variables**, when the awaited value is supplied. -/
theorem values_expects {e : Expects} {st : ParseState} {token : Bytes} (h : st.flags = e.flags)
    (hsupplied : e.Supplied token) :
    ∃ st', values st token = .ok (st', e.remainder token) ∧ st'.flags = (e.read token).flags := by
  obtain ⟨st₁, hsaves, hreceive⟩ := saves_supplied h hsupplied
  have hawaited : e.receive.awaited = none ∨ e.receive.awaited = some .location :=
    e.receive_awaited.imp id And.left
  have hname := handlerType_expects hreceive (e.remainder token) hawaited
  have hlocation : (e.receive.name (e.remainder token)).awaited = some .location → e.remainder token ≠ [] := by
    intro hname
    rcases Expects.name_awaited (e.remainder token) hawaited with hnone | ⟨-, hreceive⟩
    · rw [hnone] at hname
      cases hname
    · rcases e.receive_awaited with hnone | ⟨-, he⟩
      · rw [hnone] at hreceive
        cases hreceive
      · rw [Expects.remainder, if_neg (by rw [he]; decide)]
        unfold Expects.Supplied at hsupplied
        rw [he] at hsupplied
        exact hsupplied
  obtain ⟨st₂, hnew, hplace⟩ := newLocation_expects hname hlocation
  have hnone := Expects.place_awaited ((Expects.name_awaited (e.remainder token) hawaited).imp id And.left)
  refine ⟨{ st₂ with flags := keyword st₂.flags (e.remainder token) }, ?_, ?_⟩
  · rw [values_eq, hsaves]
    show (newLocation (handlerType st₁ (e.remainder token)) (e.remainder token)).map _ = _
    rw [hnew]
    rfl
  · rw [Expects.read, ← keyword_expects hnone, ← hplace]

/-- when it is not, there is no turn -/
theorem values_unsupplied {e : Expects} {st : ParseState} {token : Bytes} (h : st.flags = e.flags)
    (hmissing : ¬ e.Supplied token) : values st token = .error (e.fault token) := by
  rw [values_eq]
  by_cases hlocation : e.awaited = some .location
  · have hsaves := saves_eq h token
    have hnil : token = [] := by
      unfold Expects.Supplied at hmissing
      rw [hlocation] at hmissing
      exact Decidable.of_not_not hmissing
    subst hnil
    rw [hlocation] at hsaves
    have hname := handlerType_expects h [] (Or.inr hlocation)
    have hfault : newLocation (handlerType st []) [] = .error .outOfRange := by
      have hseen : (handlerType st []).flags.seenLocation = true := by
        rw [hname, Expects.name_other (by decide)]
        exact decide_eq_true hlocation
      unfold newLocation saveUnquoted
      rw [if_pos hseen]
      rfl
    rw [hsaves, Expects.fault, if_neg (by rw [hlocation]; decide)]
    show (newLocation (handlerType st []) []).map _ = _
    rw [hfault]
    rfl
  · rw [saves_missing h hmissing hlocation]
    rfl

theorem values_missing {e : Expects} {st : ParseState} {token : Bytes} (h : st.flags = e.flags)
    (hmissing : ¬ e.Supplied token) : ∃ fault, values st token = .error fault := ⟨_, values_unsupplied h hmissing⟩

/-! ## Runs -/

/-- **Step lemma.** A turn that goes on was supplied with what it awaited, and its variables are those of the token. -/
theorem step_expects {e : Expects} {st st' : ParseState} {t : Token} (h : st.flags = e.flags)
    (hstep : step st t.1 t.2 = .ok (.goOn st')) : e.Supplied t.2 ∧ st'.flags = (e.next t).flags := by
  rw [step_eq] at hstep
  by_cases hsupplied : e.Supplied t.2
  · obtain ⟨st₁, hvalues, hread⟩ := values_expects h hsupplied
    rw [hvalues] at hstep
    have hflags := (transition_goOn (Except.ok.inj hstep)).1
    refine ⟨hsupplied, ?_⟩
    rw [hflags, hread, Expects.next]
    exact ite_flags rfl rfl
  · obtain ⟨fault, hvalues⟩ := values_missing h hsupplied
    rw [hvalues] at hstep
    cases hstep

theorem turns_concat {st st' : ParseState} {us : List Token} {t : Token} :
    turns st (us ++ [t]) = .ok (.goOn st') ↔
      ∃ st₁, turns st us = .ok (.goOn st₁) ∧ step st₁ t.1 t.2 = .ok (.goOn st') := by
  have hlast : ∀ st₁, turns st₁ [t] = step st₁ t.1 t.2 := by
    intro st₁
    rw [turns]
    split
    · rename_i hstep
      rw [hstep, turns]
    · rfl
  constructor
  · intro h
    by_cases hgoes : ∃ st₁, turns st us = .ok (.goOn st₁)
    · obtain ⟨st₁, hus⟩ := hgoes
      rw [turns_append hus, hlast] at h
      exact ⟨st₁, hus, h⟩
    · rw [turns_ended hgoes] at h
      exact absurd ⟨st', h⟩ hgoes
  · intro h
    obtain ⟨st₁, hus, hstep⟩ := h
    rw [turns_append hus, hlast, hstep]

/-- **Run lemma.** In every state of a run the variables are those of the tokens that are read. -/
theorem turns_expects {config : NginxConfig} {us : List Token} {st : ParseState}
    (h : turns (.initial config) us = .ok (.goOn st)) : st.flags = (expectsAfter us).flags := by
  induction us using List.reverseRecOn generalizing st with
  | nil =>
    cases h
    rfl
  | append_singleton us t ih =>
    obtain ⟨st₁, hus, hstep⟩ := turns_concat.1 h
    rw [expectsAfter_concat]
    exact (step_expects (ih hus) hstep).2

/-- the check of the transitions lets the tokens pass -/
def Viable (us : List Token) : Prop := (BlockGrammar.run BlockGrammar.start (symbols us)).isSome = true

/-- every value that the tokens ask for is the token after -/
def Supplies (us : List Token) : Prop :=
  ∀ us' t vs, us = us' ++ t :: vs → (expectsAfter us').Supplied t.2

theorem viable_append {us vs : List Token} (h : Viable (us ++ vs)) : Viable us := by
  unfold Viable at h ⊢
  rw [symbols_append, BlockGrammar.run_append] at h
  cases hrun : BlockGrammar.run BlockGrammar.start (symbols us) with
  | none =>
    rw [hrun] at h
    cases h
  | some s => rfl

theorem supplies_concat {us : List Token} {t : Token} :
    Supplies (us ++ [t]) ↔ Supplies us ∧ (expectsAfter us).Supplied t.2 := by
  constructor
  · intro h
    refine ⟨fun us' u vs hus => ?_, h us t [] rfl⟩
    apply h us' u (vs ++ [t])
    rw [hus, List.append_assoc, List.cons_append]
  · intro h us' u vs heq
    obtain ⟨hus, ht⟩ := h
    rcases List.eq_nil_or_concat' vs with rfl | ⟨vs, w, rfl⟩
    · obtain ⟨rfl, rfl⟩ := List.append_singleton_inj.1 heq
      exact ht
    · rw [← List.cons_append, ← List.append_assoc] at heq
      obtain ⟨rfl, -⟩ := List.append_singleton_inj.1 heq
      exact hus us' u vs rfl

/-- a turn goes on when it is supplied and the check of the transition lets the token pass -/
theorem step_goes {e : Expects} {st : ParseState} {t : Token} (h : st.flags = e.flags) (hnested : Nested st)
    (hends : ¬ t.1.Ends) (hstart : t.1 ≠ .start) (hsupplied : e.Supplied t.2)
    (hpass : (BlockGrammar.run st.counter t.1.symbol.toList).isSome = true) :
    ∃ st', step st t.1 t.2 = .ok (.goOn st') := by
  obtain ⟨st₁, hvalues, -⟩ := values_expects h hsupplied
  have hsame := values_blocks hvalues
  have hcounter := transition_counter (hnested.same hsame) hends hstart (e.remainder t.2)
  rw [counter_same hsame] at hcounter
  obtain ⟨s, hs⟩ := Option.isSome_iff_exists.1 hpass
  rw [hs] at hcounter
  obtain ⟨st', hgoes, -⟩ := hcounter
  refine ⟨st', ?_⟩
  rw [step_eq, hvalues, Except.map, hgoes]

/-- **When a run goes on**: the check lets every token pass, and every value is supplied. -/
theorem turns_goes_iff (config : NginxConfig) {us : List Token} (hus : ∀ t ∈ us, ¬ t.1.Ends ∧ t.1 ≠ .start) :
    (∃ st, turns (.initial config) us = .ok (.goOn st)) ↔ Viable us ∧ Supplies us := by
  induction us using List.reverseRecOn with
  | nil =>
    refine ⟨fun _ => ⟨rfl, fun us' t vs h => ?_⟩, fun _ => ⟨_, rfl⟩⟩
    cases us' <;> cases h
  | append_singleton us t ih =>
    have hbefore : ∀ u ∈ us, ¬ u.1.Ends ∧ u.1 ≠ .start := fun u hu => hus u (List.mem_append_left _ hu)
    have ht := hus t (List.mem_append_right _ (List.mem_singleton_self t))
    have hcounter : ∀ st, turns (.initial config) us = .ok (.goOn st) →
        BlockGrammar.run BlockGrammar.start (symbols us) = some st.counter ∧ Nested st :=
      fun st => turns_counter (nested_initial config) fun u hu => (hbefore u hu).2
    have hpass : ∀ st, turns (.initial config) us = .ok (.goOn st) →
        (Viable (us ++ [t]) ↔ (BlockGrammar.run st.counter t.1.symbol.toList).isSome = true) := by
      intro st hst
      unfold Viable
      rw [symbols_append, BlockGrammar.run_append, (hcounter st hst).1, symbols_cons, symbols, List.filterMap_nil,
        List.append_nil]
      rfl
    rw [supplies_concat]
    constructor
    · intro hgoes
      obtain ⟨st', hst'⟩ := hgoes
      obtain ⟨st, hst, hstep⟩ := turns_concat.1 hst'
      have hsupplied := (step_expects (turns_expects hst) hstep).1
      have hrun := (step_counter (hcounter st hst).2 ht.2 hstep).1
      refine ⟨(hpass st hst).2 ?_, ((ih hbefore).1 ⟨st, hst⟩).2, hsupplied⟩
      rw [hrun]
      rfl
    · intro h
      obtain ⟨hviable, hsupplies, hsupplied⟩ := h
      obtain ⟨st, hst⟩ := (ih hbefore).2 ⟨viable_append hviable, hsupplies⟩
      obtain ⟨st', hstep⟩ :=
        step_goes (turns_expects hst) (hcounter st hst).2 ht.1 ht.2 hsupplied ((hpass st hst).1 hviable)
      exact ⟨st', turns_concat.2 ⟨st, hst, hstep⟩⟩

/-! ## Returning -/

/-- a run that ends in a fault, ends in a turn -/
theorem turns_error {st : ParseState} {ts : List Token} {fault : Fault} (h : turns st ts = .error fault) :
    ∃ us t vs st', ts = us ++ t :: vs ∧ turns st us = .ok (.goOn st') ∧ step st' t.1 t.2 = .error fault := by
  induction ts generalizing st with
  | nil => cases h
  | cons t ts ih =>
    rw [turns] at h
    split at h
    · rename_i st₁ hstep
      obtain ⟨us, u, vs, st', rfl, hus, hfault⟩ := ih h
      exact ⟨t :: us, u, vs, st', rfl, by rw [turns_cons hstep, hus], hfault⟩
    · exact ⟨[], t, ts, st, rfl, rfl, h⟩

/-- the tokens before a token of a text -/
theorem tokens_before {text : Bytes} {us vs : List Token} {t : Token} (h : tokens text = us ++ t :: vs) :
    ∀ u ∈ us, ¬ u.1.Ends ∧ u.1 ≠ .start := by
  intro u hu
  have hstream := tokens_stream text
  rw [h] at hstream
  refine ⟨hstream.not_ends u hu, tokens_ne_start text u ?_⟩
  rw [h]
  exact List.mem_append_left _ hu

/-- up to a token that the check lets the others reach, a parse that returns was supplied -/
theorem supplies_of_returns {config : NginxConfig} {text : Bytes} {r : Bool × NginxConfig}
    (h : parse config text = .ok r) {us vs : List Token} {t : Token} (htokens : tokens text = us ++ t :: vs)
    (hviable : Viable us) : Supplies (us ++ [t]) := by
  induction us using List.reverseRecOn generalizing t vs with
  | nil =>
    refine supplies_concat.2 ⟨fun us' u vs' heq => ?_, trivial⟩
    cases us' <;> cases heq
  | append_singleton us u ih =>
    rw [List.append_assoc, List.singleton_append] at htokens
    have hsupplies := ih htokens (viable_append hviable)
    have hsplit : tokens text = us ++ [u] ++ t :: vs := by rw [htokens, List.append_assoc, List.singleton_append]
    have hbefore := tokens_before hsplit
    obtain ⟨st, hst⟩ := (turns_goes_iff config hbefore).2 ⟨hviable, hsupplies⟩
    refine supplies_concat.2 ⟨hsupplies, Decidable.byContradiction fun hmissing => ?_⟩
    obtain ⟨fault, hvalues⟩ := values_missing (turns_expects hst) hmissing
    have hstep : step st t.1 t.2 = .error fault := by
      rw [step_eq, hvalues]
      rfl
    have hrun : turns (.initial config) (tokens text) = .error fault := by
      rw [htokens, ← List.singleton_append, ← List.append_assoc, turns_append hst, turns, hstep]
    rw [parse_eq_turns, hrun] at h
    cases h

/-- **When `Parse` returns.** It does when every value that a keyword asks for is supplied, as far as the check of the
transitions lets the tokens pass; otherwise a call throws, or the end of `IsValidPortNum` is reached. -/
theorem parse_returns_iff (config : NginxConfig) (text : Bytes) :
    (∃ accepted config', parse config text = .ok (accepted, config')) ↔
      ∀ us t vs, tokens text = us ++ t :: vs → Viable us → (expectsAfter us).Supplied t.2 := by
  constructor
  · intro hreturns us t vs htokens hviable
    obtain ⟨accepted, config', h⟩ := hreturns
    exact (supplies_concat.1 (supplies_of_returns h htokens hviable)).2
  · intro h
    cases hturns : turns (.initial config) (tokens text) with
    | ok progress =>
      cases progress with
      | goOn st => exact absurd hturns (turns_stream (tokens_stream text))
      | stop accepted config' => exact ⟨accepted, config', by rw [parse_eq_turns, hturns, returned]⟩
    | error fault =>
      obtain ⟨us, t, vs, st, htokens, hus, hstep⟩ := turns_error hturns
      have hviable := ((turns_goes_iff config (tokens_before htokens)).1 ⟨st, hus⟩).1
      obtain ⟨st', hvalues, -⟩ := values_expects (turns_expects hus) (h us t vs htokens hviable)
      rw [step_eq, hvalues] at hstep
      cases hstep

/-- what a run of `Parse` shows of how it ends -/
theorem fault_of_run {text : Bytes} {fault : Fault}
    (h : (match parse .fresh text with | .error fault' => decide (fault' = fault) | .ok _ => false) = true) :
    parse .fresh text = .error fault := by
  cases hparse : parse .fresh text with
  | ok r =>
    rw [hparse] at h
    cases h
  | error fault' =>
    rw [hparse] at h
    rw [of_decide_eq_true h]

/-- a text that ends after `location`, and a proxy whose port is no number -/
theorem parse_location :
    parse .fresh (ascii "location ") = .error .outOfRange ∧
      parse .fresh (ascii "location \"/\" ProxyHandler \x7b host \"h\"; port x; \x7d") = .error .missingReturn :=
  ⟨fault_of_run (by decide +kernel), fault_of_run (by decide +kernel)⟩

end BlogServer.Config
