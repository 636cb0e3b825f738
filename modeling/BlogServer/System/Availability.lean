/-
Which requests end a server.

An exception leaves a callback, a handler uses what it does not have, or a response is recorded through a null pointer:
the process ends, and with it all sessions. Of a configuration without proxies, what does so can be said of the request
alone (`Ends`): its handler does not return from it, or there are status locations and none of them stands under
"/status". A run of callbacks one after the other goes on exactly until the first such request, whatever the sessions
have done before (`up_iff`).

- `Ready.complete_ok_iff`: a request on a dispatcher of the configuration.
- `run_ended`: the request that has ended a run was passed on by a session.
-/
import BlogServer.System.Messages
import BlogServer.System.ProxiedPosts

namespace BlogServer.System

open BlogServer.Byte BlogServer.Http BlogServer.Dispatch
open BlogServer.Server (Session)

variable {σ : Type} {config : Config.NginxConfig} {d d' d₀ : Dispatch.Dispatcher} {env : Environment σ}
  {request : Request} {s s' s₀ : σ}

/-! ## One request -/

/-- the status locations are registered, and what stands under "/status" is no status handler -/
def Unrecorded (config : Config.NginxConfig) : Prop :=
  config.statusLocations ≠ [] ∧ owner config (ascii "/status") config.handlerTypes ≠ some (ascii "StatusHandler")

/-- the request ends the process -/
def Ends (env : Environment σ) (config : Config.NginxConfig) (request : Request) : Prop :=
  Fatal env config request ∨ Unrecorded config

/-- a dispatcher with a handler for every location, which records if there are status locations -/
structure Ready (config : Config.NginxConfig) (d : Dispatch.Dispatcher) : Prop where
  registered : Registered config d
  records : d.statusHandlerEnabled = true ↔ config.statusLocations ≠ []

theorem ready_init (hrecorded : ∀ k : Config.HandlerType, k.locations config ≠ [] → k.name ∈ config.handlerTypes)
    (hinit : Dispatcher.init config = some d) : Ready config d := by
  refine ⟨registered_init hrecorded hinit, ?_⟩
  rw [createHandlerMapping_statusHandlerEnabled hinit, Bool.false_or, decide_eq_true_iff]
  exact ⟨And.right, fun hlocations => ⟨hrecorded .status hlocations, hlocations⟩⟩

/-- the status handler is there, if it stands under "/status" -/
theorem getStatusHandler_iff (h : Registered config d) :
    d.getStatusHandler.1 ≠ none ↔
      owner config (ascii "/status") config.handlerTypes = some (ascii "StatusHandler") := by
  constructor
  · intro hsome
    obtain ⟨handler, hhandler⟩ := Option.ne_none_iff_exists'.1 hsome
    obtain ⟨hlookup, -⟩ := getStatusHandler_lookup hhandler
    obtain ⟨k, htype, howner⟩ := (h.made hlookup).type
    obtain rfl := Option.some.inj htype
    exact howner
  · exact getStatusHandler_owned h

/-- **Step lemma.** A request is completed exactly when it does not end the process. -/
theorem Ready.complete_ok_iff (h : Ready config d) (hproxy : config.proxyLocations.keys = []) (env : Environment σ)
    (request : Request) (s : σ) :
    (∃ response, (d.complete env request s).1 = .ok response) ↔ ¬ Ends env config request := by
  obtain ⟨handler, -, hhandle⟩ := h.registered.handle env request s
  have hok := h.registered.handle_ok_iff hproxy env request s
  rw [hhandle] at hok
  rw [Ends, not_or, ← hok]
  cases hresult : (handler.handleRequest env request s).1 with
  | error e =>
    rw [hresult] at hhandle
    have hcomplete : (d.complete env request s).1 = .error e := by rw [Dispatcher.complete, hhandle]
    rw [hcomplete]
    exact ⟨nofun, fun ⟨⟨_, hfalse⟩, _⟩ => nomatch hfalse⟩
  | ok response =>
    rw [hresult] at hhandle
    rw [Unrecorded, ← h.records, ne_eq, ← getStatusHandler_iff h.registered]
    cases henabled : d.statusHandlerEnabled with
    | false =>
      have hcomplete : (d.complete env request s).1 = .ok response := by
        unfold Dispatcher.complete
        simp only [hhandle, henabled, Bool.false_eq_true, if_false]
      rw [hcomplete]
      exact ⟨fun _ => ⟨⟨_, rfl⟩, fun hunrecorded => nomatch hunrecorded.1⟩, fun _ => ⟨_, rfl⟩⟩
    | true =>
      rcases complete_of_ok hhandle henabled with ⟨hnone, hcomplete⟩ | ⟨status, hstatus, hcomplete⟩
      · rw [hcomplete]
        exact ⟨nofun, fun ⟨_, hrecorded⟩ => absurd ⟨rfl, fun hsome => hsome hnone⟩ hrecorded⟩
      · rw [hcomplete]
        refine ⟨fun _ => ⟨⟨_, rfl⟩, fun hunrecorded => hunrecorded.2 ?_⟩, fun _ => ⟨_, rfl⟩⟩
        rw [hstatus]
        exact Option.some_ne_none status

/-- and leaves a dispatcher of the configuration -/
theorem Ready.complete (h : Ready config d) {response : Response}
    (hcomplete : d.complete env request s = (.ok response, d', s')) : Ready config d' := by
  refine ⟨(registered_complete h.registered hcomplete).1, ?_⟩
  obtain ⟨handler, -, hhandle⟩ := h.registered.handle env request s
  cases hresult : (handler.handleRequest env request s).1 with
  | error e =>
    rw [Dispatcher.complete, hhandle, hresult] at hcomplete
    cases hcomplete
  | ok answer =>
    rw [hresult] at hhandle
    cases henabled : d.statusHandlerEnabled with
    | false =>
      unfold Dispatcher.complete at hcomplete
      simp only [hhandle, henabled, Bool.false_eq_true, if_false] at hcomplete
      cases hcomplete
      exact h.records
    | true =>
      rcases complete_of_ok hhandle henabled with ⟨-, hnull⟩ | ⟨status, -, hrecorded⟩
      · rw [hcomplete] at hnull
        cases hnull
      · rw [hrecorded] at hcomplete
        cases hcomplete
        exact h.records

/-! ## Runs -/

variable {u : ℕ → Uninit} {junk : ℕ → ℕ → MethodEnum} {sv : Server σ} {events : List Event} {log : List Answered}

/-- **Run lemma.** One request after another, none of them ends the process. -/
theorem Serial.ready (hready : Ready config d₀) (hproxy : config.proxyLocations.keys = [])
    (h : Serial env d₀ s₀ log d s) : Ready config d ∧ ∀ a ∈ log, ¬ Ends env config a.request := by
  induction h with
  | start => exact ⟨hready, nofun⟩
  | @next log d s d' s' a _ hcomplete ih =>
    obtain ⟨hbefore, hnone⟩ := ih
    refine ⟨hbefore.complete hcomplete, fun a' ha' => ?_⟩
    rcases List.mem_append.1 ha' with ha' | ha'
    · exact hnone a' ha'
    · rw [List.mem_singleton.1 ha']
      exact (hbefore.complete_ok_iff hproxy env a.request s).1 ⟨_, by rw [hcomplete]⟩

/-- a callback that ends the process is the read of a request, which is passed on -/
theorem run_ended (hrun : (Server.start u d₀ s₀).run env u junk events = some sv) {crash : Crash}
    (hdown : sv.world.crash = some crash) :
    ∃ log d s request, Serial env d₀ s₀ log d s ∧ (d.complete env request s).1 = .error crash ∧
      ∃ session ∈ sv.sessions, request ∈ session.calls := by
  rcases List.eq_nil_or_concat events with rfl | ⟨events, e, rfl⟩
  · rw [← Option.some.inj hrun] at hdown
    cases hdown
  rw [List.concat_eq_append] at hrun
  obtain ⟨sv₁, hrun₁, hstep⟩ := run_concat.1 hrun
  cases e with
  | accept i error =>
    obtain ⟨⟨hup, -⟩, rfl⟩ := System.step_accept.1 hstep
    have hnone : sv₁.world.crash = some crash := hdown
    rw [hup] at hnone
    cases hnone
  | session i e =>
    obtain ⟨hup, s, s', hs, hsession, rfl⟩ := System.step_session.1 hstep
    obtain ⟨log, hexplained⟩ := (run_explained hrun₁).1 hup
    have hworld : s'.world ≠ sv₁.world := by
      intro heq
      have hnone : s'.world.crash = some crash := hdown
      rw [heq, hup] at hnone
      cases hnone
    cases step_does hsession with
    | nothing hsame => exact absurd hsame hworld
    | refuses hsame => exact absurd hsame hworld
    | answers request hafter hcalls =>
      have hcrash : (sv₁.world.after env request).crash = some crash := by
        rw [← hdown]
        exact congrArg World.crash hafter.symm
      refine ⟨log, _, _, request, hexplained.serial, (hexplained.serial.answer hup i request).2 crash hcrash, s', ?_, ?_⟩
      · exact List.mem_set (List.getElem?_eq_some_iff.1 hs).1 s'
      · rw [hcalls]
        exact List.mem_append_right _ (List.mem_singleton.2 rfl)

/-- **A server is up until a request ends it.** Of a configuration without proxies, in every state of every run of the
server: the process is up exactly when no request that some session has passed on ends it, that is, is for a blog that
has no connection, a GET of a number under a blog that no `int` holds, a request other than GET to a blog whose location
is empty, a request for a file without an end, or any request at all where there are status locations and no status
handler under "/status". -/
theorem up_iff {text : Bytes} {accepted : Bool} (hparsed : ParsedAs text accepted config)
    (hproxy : config.proxyLocations.keys = []) (hinit : Dispatcher.init config = some d₀)
    (hrun : (Server.start u d₀ s₀).run env u junk events = some sv) :
    sv.world.crash = none ↔ ∀ session ∈ sv.sessions, ∀ request ∈ session.calls, ¬ Ends env config request := by
  have hready := ready_init hparsed.recorded hinit
  constructor
  · intro hup session hsession request hrequest
    obtain ⟨log, h⟩ := (run_explained hrun).1 hup
    obtain ⟨i, hi⟩ := List.getElem?_of_mem hsession
    rw [h.calls i session hi] at hrequest
    obtain ⟨a, ha, rfl⟩ := List.mem_map.1 hrequest
    exact (h.serial.ready hready hproxy).2 a (List.mem_of_mem_filter ha)
  · intro hnone
    cases hcrash : sv.world.crash with
    | none => rfl
    | some crash =>
      obtain ⟨log, d, s, request, hserial, herror, session, hsession, hrequest⟩ := run_ended hrun hcrash
      obtain ⟨response, hresponse⟩ := ((hserial.ready hready hproxy).1.complete_ok_iff hproxy env request s).2
        (hnone session hsession request hrequest)
      rw [herror] at hresponse
      cases hresponse

/-- one session of a server for tests, and a GET of post 2147483648 -/
def largeIdRun (d : Dispatch.Dispatcher) : Option (Server (List Posts.Blog)) :=
  (Server.start (fun _ => ⟨0, 0, 0⟩) d []).run testEnvironment (fun _ => ⟨0, 0, 0⟩) (fun _ _ => .GET)
    [.accept 0 false, .session 0 (.read (some (ascii "GET /blog/2147483648 HTTP/1.0\r\n\r\n")))]

/-- it ends the server -/
theorem up_iff_largeId :
    ∃ config d sv, Config.parse .fresh completeText = .ok (true, config) ∧ Dispatcher.init config = some d ∧
      largeIdRun d = some sv ∧ sv.world.crash ≠ none := by
  obtain ⟨config, hparse, hproxy, hsome, howner, hchosen⟩ := blogOnly_parsed
  obtain ⟨d, hinit⟩ := Option.isSome_iff_exists.1 hsome
  obtain ⟨sv, hrun⟩ : ∃ sv, largeIdRun d = some sv := ⟨_, rfl⟩
  refine ⟨config, d, sv, hparse, hinit, hrun, fun hup => ?_⟩
  have hnone := (up_iff (parsedAs_of_parse hparse) hproxy hinit hrun).1 hup
  -- the request that the first session passes on
  obtain ⟨n, halone⟩ := run_alone Server.notFound () hrun
  have hlt : 0 < sv.sessions.length := by rw [halone.count]; omega
  obtain ⟨hcalls, -⟩ := session_seen hrun (List.getElem?_eq_getElem hlt) (by decide)
  have hseen : (sv.sessions[0].calls.map fun request => (request.uri, request.method)) =
      [(ascii "/blog/2147483648", .GET)] := by
    rw [hcalls]
    decide +kernel
  obtain ⟨request, hrequest, hfields⟩ := List.map_eq_singleton_iff.1 hseen
  obtain ⟨huri, hmethod⟩ := Prod.mk.inj hfields
  refine hnone sv.sessions[0] (List.getElem_mem hlt) request (by rw [hrequest]; exact List.mem_singleton.2 rfl) ?_
  refine Or.inl ⟨ascii "/blog", by rw [huri]; exact hchosen _ (by decide), Or.inl ⟨howner, Or.inr ?_⟩⟩
  rw [Posts.Unanswered, if_pos hmethod, huri]
  decide +kernel

end BlogServer.System
