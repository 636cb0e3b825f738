/-
What the location tables of a parsed configuration owe to `handler_types_`.

`Parse` fills the tables one entry at a time and records the name of a handler type when it reads it. A table entry is
made only while some flag is up that the name of its type has raised, so whatever the text, and whether `Parse` returns
true or false, the type of every entry is recorded (`tables_recorded`). The invariant is kept by each statement of the
loop: what is in use after it was in use before, or has just been named.
-/
import BlogServer.Config.Lexemes

namespace BlogServer.Config

open BlogServer.Byte

/-- the handler types that `Parse` and `request_dispatcher` know -/
inductive HandlerType where
  | echo
  | static
  | status
  | proxy
  | redirect
  | health
  | uploadForm
  | blog
deriving DecidableEq, Repr

namespace HandlerType

/-- the name in a config -/
def name : HandlerType → Bytes
  | echo => ascii "EchoHandler"
  | static => ascii "StaticHandler"
  | status => ascii "StatusHandler"
  | proxy => ascii "ProxyHandler"
  | redirect => ascii "RedirectHandler"
  | health => ascii "HealthHandler"
  | uploadForm => ascii "UploadFormHandler"
  | blog => ascii "BlogHandler"

/-- the locations of the type, in iteration order; those of a blog are the keys of `blog_ips_` -/
def locations (config : NginxConfig) : HandlerType → List Bytes
  | echo => config.echoLocations
  | static => config.staticLocations.keys
  | status => config.statusLocations
  | proxy => config.proxyLocations.keys
  | redirect => config.redirectLocations.keys
  | health => config.healthLocations
  | uploadForm => config.uploadFormLocations
  | blog => config.blogIps.keys

/-- a flag is up that belongs to the type -/
def Flagged (f : Flags) : HandlerType → Prop
  | static => f.expectStaticRoot = true ∨ f.saveRootVal = true
  | proxy =>
    f.expectProxyHost = true ∨ f.saveProxyHostVal = true ∨ f.expectProxyPort = true ∨ f.saveProxyPortVal = true
  | redirect => f.expectRedirectHost = true ∨ f.saveRedirectHostVal = true
  | blog => f.expectBlogInfo = true ∨ f.saveBlogIpVal = true
  | _ => False

end HandlerType

/-- the type has a flag up, or a location -/
def ParseState.InUse (st : ParseState) (k : HandlerType) : Prop :=
  k.Flagged st.flags ∨ k.locations st.config ≠ []

/-- every type in use is recorded -/
structure Backed (st : ParseState) : Prop where
  consistent : st.registry.Consistent
  recorded : ∀ k, st.InUse k → k.name ∈ st.registry.handlerTypes

/-! ## The statements of a turn -/

/-- a statement that brings no type into use -/
theorem Backed.shrink {st st' : ParseState} (h : Backed st) (hregistry : st'.registry = st.registry)
    (huse : ∀ k, st'.InUse k → st.InUse k) : Backed st' where
  consistent := by
    rw [hregistry]
    exact h.consistent
  recorded k hk := by
    rw [hregistry]
    exact h.recorded k (huse k hk)

theorem savePort_backed {st : ParseState} (h : Backed st) (token : Bytes) : Backed (savePort st token) := by
  refine h.shrink (savePort_registry st token) fun k hk => ?_
  have hlocations : k.locations (savePort st token).config = k.locations st.config := by
    unfold savePort setConfigPortNumberFromToken
    split
    · cases k <;> (simp only [HandlerType.locations]; split <;> [rfl; (split <;> rfl)])
    · rfl
  have hflags : k.Flagged (savePort st token).flags → k.Flagged st.flags := by
    unfold savePort
    split
    · cases k <;> exact id
    · exact id
  exact hk.imp hflags fun hne => hlocations ▸ hne

theorem saveProxyPort_backed {st st' : ParseState} {token : Bytes} (h : Backed st)
    (hs : saveProxyPort st token = .ok st') : Backed st' := by
  refine h.shrink (saveProxyPort_registry hs) fun k hk => ?_
  unfold saveProxyPort at hs
  split at hs
  · rename_i hflag
    split at hs
    · cases hs
    · cases hs
    · split at hs
      · cases hs
      · obtain rfl := Except.ok.inj hs
        cases k with
        | proxy => exact Or.inl (Or.inr (Or.inr (Or.inr hflag)))
        | _ => exact hk
  · obtain rfl := Except.ok.inj hs
    exact hk

theorem saveRoot_backed {st : ParseState} {token : Bytes} {r : ParseState × Bytes} (h : Backed st)
    (hs : saveRoot st token = .ok r) : Backed r.1 := by
  refine h.shrink (saveRoot_registry hs) fun k hk => ?_
  unfold saveRoot at hs
  split at hs
  · rename_i hflag
    split at hs
    · cases hs
    · obtain rfl := Except.ok.inj hs
      cases k with
      | static => exact Or.inl (Or.inr hflag)
      | _ => exact hk
  · obtain rfl := Except.ok.inj hs
    exact hk

/-- the statements that save a token without its quotes -/
theorem saveUnquoted_backed {flag : Bool} {save : Bytes → ParseState} {st st' : ParseState} {token : Bytes}
    (h : Backed st) (hs : saveUnquoted flag save st token = .ok st')
    (hregistry : ∀ value, (save value).registry = st.registry)
    (huse : flag = true → ∀ value k, (save value).InUse k → st.InUse k) : Backed st' := by
  unfold saveUnquoted at hs
  split at hs
  · rename_i hflag
    split at hs
    · cases hs
    · obtain rfl := Except.ok.inj hs
      exact h.shrink (hregistry _) (huse hflag _)
  · obtain rfl := Except.ok.inj hs
    exact h

theorem saveProxyHost_backed {st st' : ParseState} {token : Bytes} (h : Backed st)
    (hs : saveProxyHost st token = .ok st') : Backed st' := by
  refine saveUnquoted_backed h hs (fun _ => rfl) fun hflag value k hk => ?_
  cases k with
  | proxy => exact Or.inl (Or.inr (Or.inl hflag))
  | _ => exact hk

theorem saveRedirectHost_backed {st st' : ParseState} {token : Bytes} (h : Backed st)
    (hs : saveRedirectHost st token = .ok st') : Backed st' := by
  refine saveUnquoted_backed h hs (fun _ => rfl) fun hflag value k hk => ?_
  cases k with
  | redirect => exact Or.inl (Or.inr hflag)
  | proxy =>
    rcases hk with (hk | hk | hk | hk) | hk
    · exact Or.inl (Or.inl hk)
    · exact Or.inl (Or.inr (Or.inl hk))
    · cases hk
    · exact Or.inl (Or.inr (Or.inr (Or.inr hk)))
    · exact Or.inr hk
  | _ => exact hk

theorem saveBlogIp_backed {st st' : ParseState} {token : Bytes} (h : Backed st) (hs : saveBlogIp st token = .ok st') :
    Backed st' := by
  refine saveUnquoted_backed h hs (fun _ => rfl) fun hflag value k hk => ?_
  cases k with
  | blog => exact Or.inl (Or.inr hflag)
  | _ => exact hk

/-- the other entries of a blog are in no table of locations -/
theorem saveBlogPort_backed {st st' : ParseState} {token : Bytes} (h : Backed st)
    (hs : saveBlogPort st token = .ok st') : Backed st' := by
  refine saveUnquoted_backed h hs (fun _ => rfl) fun _ value k hk => ?_
  cases k <;> exact hk

theorem saveBlogUsername_backed {st st' : ParseState} {token : Bytes} (h : Backed st)
    (hs : saveBlogUsername st token = .ok st') : Backed st' := by
  refine saveUnquoted_backed h hs (fun _ => rfl) fun _ value k hk => ?_
  cases k <;> exact hk

theorem saveBlogPassword_backed {st st' : ParseState} {token : Bytes} (h : Backed st)
    (hs : saveBlogPassword st token = .ok st') : Backed st' := by
  refine saveUnquoted_backed h hs (fun _ => rfl) fun _ value k hk => ?_
  cases k <;> exact hk

theorem newLocation_backed {st st' : ParseState} {token : Bytes} (h : Backed st)
    (hs : newLocation st token = .ok st') : Backed st' := by
  refine saveUnquoted_backed h hs (fun _ => rfl) fun _ value k hk => ?_
  cases k <;> exact hk

theorem inUse_ite {p : Prop} [Decidable p] {a b : ParseState} {k : HandlerType}
    (h : (if p then a else b).InUse k) : p ∧ a.InUse k ∨ b.InUse k := by
  by_cases hp : p
  · rw [if_pos hp] at h
    exact Or.inl ⟨hp, h⟩
  · rw [if_neg hp] at h
    exact Or.inr h

/-- what a name brings into use is what it names -/
theorem handlerType_inUse {st : ParseState} {token : Bytes} {k : HandlerType} (hk : (handlerType st token).InUse k) :
    st.InUse k ∨ st.flags.expectHandlerType = true ∧ k.name = token := by
  unfold handlerType at hk
  rcases inUse_ite hk with ⟨hexpect, hk⟩ | hk
  · -- one choice for each name
    rcases inUse_ite hk with ⟨hstatic, hk⟩ | hk
    · cases k with
      | static => exact Or.inr ⟨hexpect, hstatic.symm⟩
      | _ => exact Or.inl hk
    rcases inUse_ite hk with ⟨hredirect, hk⟩ | hk
    · cases k with
      | redirect => exact Or.inr ⟨hexpect, hredirect.symm⟩
      | _ => exact Or.inl hk
    rcases inUse_ite hk with ⟨hproxy, hk⟩ | hk
    · cases k with
      | proxy => exact Or.inr ⟨hexpect, hproxy.symm⟩
      | _ => exact Or.inl hk
    rcases inUse_ite hk with ⟨hblog, hk⟩ | hk
    · cases k with
      | blog => exact Or.inr ⟨hexpect, hblog.symm⟩
      | _ => exact Or.inl hk
    rcases inUse_ite hk with ⟨hecho, hk⟩ | hk
    · cases k with
      | echo => exact Or.inr ⟨hexpect, hecho.symm⟩
      | _ => exact Or.inl hk
    rcases inUse_ite hk with ⟨hstatus, hk⟩ | hk
    · cases k with
      | status => exact Or.inr ⟨hexpect, hstatus.symm⟩
      | _ => exact Or.inl hk
    rcases inUse_ite hk with ⟨hhealth, hk⟩ | hk
    · cases k with
      | health => exact Or.inr ⟨hexpect, hhealth.symm⟩
      | _ => exact Or.inl hk
    rcases inUse_ite hk with ⟨hupload, hk⟩ | hk
    · cases k with
      | uploadForm => exact Or.inr ⟨hexpect, hupload.symm⟩
      | _ => exact Or.inl hk
    exact Or.inl hk
  · exact Or.inl hk

/-- a name that is read is recorded -/
theorem handlerType_noted {st : ParseState} (token : Bytes) (hexpect : st.flags.expectHandlerType = true) :
    (handlerType st token).registry = st.registry.note token := by
  rw [handlerType_registry, if_pos hexpect]

theorem handlerType_backed {st : ParseState} (h : Backed st) (token : Bytes) : Backed (handlerType st token) := by
  by_cases hexpect : st.flags.expectHandlerType = true
  · have hnoted := handlerType_noted token hexpect
    refine ⟨by rw [hnoted]; exact h.consistent.note token, fun k hk => ?_⟩
    rw [hnoted]
    rcases handlerType_inUse hk with hbefore | ⟨-, hname⟩
    · exact Registry.note_mono st.registry token (h.recorded k hbefore)
    · rw [hname]
      exact Registry.note_mem st.registry token h.consistent
  · refine h.shrink ?_ fun k hk => ?_
    · unfold handlerType
      rw [if_neg hexpect]
    · rcases handlerType_inUse hk with hbefore | ⟨hexpect', -⟩
      · exact hbefore
      · exact absurd hexpect' hexpect

theorem flagged_ite {p : Prop} [Decidable p] {a b : Flags} {k : HandlerType} (h : k.Flagged (if p then a else b)) :
    p ∧ k.Flagged a ∨ k.Flagged b := by
  by_cases hp : p
  · rw [if_pos hp] at h
    exact Or.inl ⟨hp, h⟩
  · rw [if_neg hp] at h
    exact Or.inr h

/-- a keyword raises a flag of a type that is in use -/
theorem keyword_flagged {f : Flags} {token : Bytes} {k : HandlerType} (hk : k.Flagged (keyword f token)) :
    k.Flagged f := by
  unfold keyword at hk
  rcases flagged_ite hk with ⟨-, hk⟩ | hk
  · cases k <;> exact hk
  rcases flagged_ite hk with ⟨-, hk⟩ | hk
  · cases k <;> exact hk
  rcases flagged_ite hk with ⟨hroot, hk⟩ | hk
  · cases k with
    | static => exact Or.inl hroot.1
    | _ => exact hk
  rcases flagged_ite hk with ⟨hhost, hk⟩ | hk
  · cases k with
    | proxy => exact Or.inl hhost.1
    | _ => exact hk
  rcases flagged_ite hk with ⟨hproxyPort, hk⟩ | hk
  · cases k with
    | proxy => exact Or.inr (Or.inr (Or.inl hproxyPort.1))
    | _ => exact hk
  rcases flagged_ite hk with ⟨hredirect, hk⟩ | hk
  · cases k with
    | redirect => exact Or.inl hredirect.1
    | _ => exact hk
  rcases flagged_ite hk with ⟨hblogHost, hk⟩ | hk
  · cases k with
    | blog => exact Or.inl hblogHost.1
    | _ => exact hk
  rcases flagged_ite hk with ⟨-, hk⟩ | hk
  · cases k <;> exact hk
  rcases flagged_ite hk with ⟨-, hk⟩ | hk
  · cases k <;> exact hk
  rcases flagged_ite hk with ⟨-, hk⟩ | hk
  · cases k <;> exact hk
  exact hk

theorem keyword_backed {st : ParseState} (h : Backed st) (token : Bytes) :
    Backed { st with flags := keyword st.flags token } :=
  h.shrink rfl fun _ hk => hk.imp keyword_flagged id

/-- a turn ends in a state, or with the config of a state, in which every type in use is recorded -/
def Progress.Backed : Progress → Prop
  | .goOn st => Config.Backed st
  | .stop _ config => ∃ st, Config.Backed st ∧ config = st.result

theorem transition_backed {st : ParseState} (h : Backed st) (tokenType : TokenType) (token : Bytes) :
    (transition st tokenType token).Backed := by
  cases hprogress : transition st tokenType token with
  | stop accepted config => exact ⟨st, h, transition_stop_result hprogress⟩
  | goOn st' =>
    obtain ⟨hflags, hregistry, hconfig⟩ := transition_goOn hprogress
    refine h.shrink hregistry fun k hk => ?_
    rw [ParseState.InUse, hflags, hconfig] at hk
    refine hk.imp (fun hflag => ?_) id
    split_ifs at hflag
    · -- the flags are lowered at the end of a block
      cases k <;> simp [HandlerType.Flagged] at hflag
    · exact hflag

/-- **Step lemma.** A turn of the loop keeps every type in use recorded. -/
theorem step_backed {st : ParseState} {tokenType : TokenType} {token : Bytes} {p : Progress} (h : Backed st)
    (hs : step st tokenType token = .ok p) : p.Backed := by
  obtain ⟨st', token', hstages, rfl⟩ := stages_of_step hs
  obtain @⟨st₁, st₂, st₃, st₄, st₅, st₆, st₇, st₈, st₉, _, h₁, h₂, h₃, h₄, h₅, h₆, h₇, h₈, h₉⟩ := hstages
  have hb₁ := saveProxyPort_backed (savePort_backed h token) h₁
  have hb₂ : Backed st₂ := saveRoot_backed hb₁ h₂
  have hb₄ := saveRedirectHost_backed (saveProxyHost_backed hb₂ h₃) h₄
  have hb₆ := saveBlogPort_backed (saveBlogIp_backed hb₄ h₅) h₆
  have hb₈ := saveBlogPassword_backed (saveBlogUsername_backed hb₆ h₇) h₈
  have hb₉ := newLocation_backed (handlerType_backed hb₈ token') h₉
  exact transition_backed (keyword_backed hb₉ token') tokenType token'

/-! ## The whole parse -/

theorem parseLoop_backed {fuel : ℕ} {st : ParseState} {input : Bytes} {accepted : Bool} {config : NginxConfig}
    (h : Backed st) (hloop : parseLoop fuel st input = .ok (accepted, config)) :
    ∃ st', Backed st' ∧ config = st'.result := by
  induction fuel generalizing st input with
  | zero => cases hloop
  | succ fuel ih =>
    simp only [parseLoop] at hloop
    cases hs : step st (parseToken .initialWhitespace [] input).1 (parseToken .initialWhitespace [] input).2.1 with
    | error e =>
      rw [hs] at hloop
      cases hloop
    | ok p =>
      have hb := step_backed h hs
      rw [hs] at hloop
      cases p with
      | goOn st' => exact ih hb hloop
      | stop accepted' config' =>
        obtain ⟨-, rfl⟩ := Prod.mk.inj (Except.ok.inj hloop)
        exact hb

theorem backed_initial : Backed (.initial .fresh) where
  consistent :=
    ⟨fun token => by simp [ParseState.initial, NginxConfig.fresh], by simp [ParseState.initial, NginxConfig.fresh]⟩
  recorded k hk := by
    rcases hk with hflag | hne
    · cases k <;> simp [HandlerType.Flagged, ParseState.initial] at hflag
    · refine absurd ?_ hne
      cases k <;> rfl

/-- **Every type with a location is recorded**, in whatever `Parse` makes of a text it returns on; and none is recorded
twice. -/
theorem tables_recorded {text : Bytes} {accepted : Bool} {config : NginxConfig}
    (h : parse .fresh text = .ok (accepted, config)) :
    config.handlerTypes.Nodup ∧ ∀ k : HandlerType, k.locations config ≠ [] → k.name ∈ config.handlerTypes := by
  obtain ⟨st, hb, rfl⟩ := parseLoop_backed backed_initial h
  refine ⟨hb.consistent.nodup, fun k hk => hb.recorded k (Or.inr ?_)⟩
  cases k <;> exact hk

/-- what a run of `Parse` shows of the configuration it accepts -/
theorem exists_of_run {text : Bytes} {P : NginxConfig → Prop} [DecidablePred P]
    (h : (match parse .fresh text with | .ok (true, config) => decide (P config) | _ => false) = true) :
    ∃ config, parse .fresh text = .ok (true, config) ∧ P config := by
  cases hparse : parse .fresh text with
  | error e =>
    rw [hparse] at h
    cases h
  | ok result =>
    obtain ⟨accepted, config⟩ := result
    rw [hparse] at h
    cases accepted with
    | false => cases h
    | true => exact ⟨config, rfl, of_decide_eq_true h⟩

end BlogServer.Config
