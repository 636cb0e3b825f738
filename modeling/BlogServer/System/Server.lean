/-
The server (`src/server.cc`): its accept loop, the sessions it has made, and what they share.

All sessions have one dispatcher, and through its handlers one state behind the databases (`World`). A callback is one
step, of the session it belongs to; the callbacks of the sessions come in any order. An exception, or a call through a
null pointer, leaves `io_service::run` and takes the process with it: after a `crash` there is no step.

That a callback has returned before the next one begins is assumed. `main` runs four threads, and neither a strand nor a
lock keeps two callbacks apart while they use what the handlers have as members (the form of a blog handler, the
counters of the status handler); of runs in which they overlap nothing is said. The databases have a lock of their own.

- `step_session`, `step_accept`: what a step of the server is.
- `sharedCalls_complete`: what a session does with the shared state for one request is `Dispatcher.complete`.
-/
import BlogServer.Dispatch.StatusAccounting
import BlogServer.Server.Lifecycle

namespace BlogServer.System

open BlogServer.Http BlogServer.Dispatch
open BlogServer.Server (Session Callback handleAccept)

variable {σ : Type}

/-! ## What is shared -/

/-- what the sessions share -/
structure World (σ : Type) where
  dispatcher : Dispatch.Dispatcher
  /-- the state behind the databases -/
  state : σ
  /-- what has ended the process -/
  crash : Option Crash

/-- in place of the response of a call that does not return -/
def noResponse : Response := ⟨0, SortedMap.empty, []⟩

/-- what `session::handle_read` calls, on what the sessions share -/
def sharedCalls (env : Environment σ) : Server.Dispatcher (World σ) where
  handleRequest w request :=
    match w.dispatcher.handle env request w.state with
    | (.ok response, d, s) => (response, { w with dispatcher := d, state := s })
    | (.error e, d, s) => (noResponse, ⟨d, s, some e⟩)
  -- the flag is that of the dispatcher
  statusHandlerEnabled := true
  recordReceivedRequest w requestUri responseStatus :=
    if w.crash.isNone && w.dispatcher.statusHandlerEnabled then
      match w.dispatcher.getStatusHandler with
      | (none, d) => { w with dispatcher := d, crash := some .nullPointer }
      | (some handler, d) => { w with dispatcher := d.record handler requestUri responseStatus }
    else w

/-! ## The server -/

/-- `class server`, and the sessions it has made, in the order of `start_accept` -/
structure Server (σ : Type) where
  world : World σ
  sessions : List (Session (World σ))
  /-- the sessions whose `async_accept` has not completed -/
  accepting : List ℕ

/-- how an asynchronous operation ends, and of which session it is -/
inductive Event where
  | accept (i : ℕ) (error : Bool)
  | session (i : ℕ) (e : Server.Event)
deriving DecidableEq, Repr

section Steps

variable (env : Environment σ) (u : ℕ → Uninit) (junk : ℕ → ℕ → MethodEnum)

/-- a session before `start` -/
def waiting (u : Uninit) (w : World σ) : Session (World σ) := { Session.start u w with pending := [] }

/-- `start_accept` -/
def Server.startAccept (sv : Server σ) : Server σ :=
  { sv with
    sessions := sv.sessions ++ [waiting (u sv.sessions.length) sv.world]
    accepting := sv.accepting ++ [sv.sessions.length] }

/-- the constructor of `server` -/
def Server.start (d : Dispatch.Dispatcher) (s : σ) : Server σ := Server.startAccept u ⟨⟨d, s, none⟩, [], []⟩

/-- one completion of a pending operation; `start` and the callbacks of a session see the world as it is then -/
def Server.step (sv : Server σ) : Event → Option (Server σ)
  | .accept i error =>
    if sv.world.crash = none ∧ i ∈ sv.accepting then
      some (Server.startAccept u { sv with
        sessions := sv.sessions.set i (handleAccept (u i) sv.world error)
        accepting := sv.accepting.erase i })
    else none
  | .session i e =>
    if sv.world.crash = none then do
      let s ← sv.sessions[i]?
      let s ← BlogServer.Server.step (sharedCalls env) (junk i) { s with world := sv.world } e
      some { sv with world := s.world, sessions := sv.sessions.set i s }
    else none

/-- completions, each of whose callbacks has returned before the next -/
def Server.run (sv : Server σ) (events : List Event) : Option (Server σ) := events.foldlM (Server.step env u junk) sv

end Steps

variable {env : Environment σ} {u : ℕ → Uninit} {junk : ℕ → ℕ → MethodEnum} {sv sv' : Server σ}

theorem run_concat {events : List Event} {e : Event} :
    sv.run env u junk (events ++ [e]) = some sv' ↔
      ∃ sv₁, sv.run env u junk events = some sv₁ ∧ sv₁.step env u junk e = some sv' := by
  have hsplit : sv.run env u junk (events ++ [e]) =
      (sv.run env u junk events).bind fun sv₁ => sv₁.step env u junk e := by
    simp [Server.run, List.foldlM_append]
  rw [hsplit, Option.bind_eq_some_iff]

/-- **A step of a session**, on the world as it is. -/
theorem step_session {i : ℕ} {e : Server.Event} :
    sv.step env u junk (.session i e) = some sv' ↔
      sv.world.crash = none ∧ ∃ s s', sv.sessions[i]? = some s ∧
        BlogServer.Server.step (sharedCalls env) (junk i) { s with world := sv.world } e = some s' ∧
        sv' = { sv with world := s'.world, sessions := sv.sessions.set i s' } := by
  unfold Server.step
  simp only [Option.ite_none_right_eq_some, Option.bind_eq_bind, Option.bind_eq_some_iff, Option.some.injEq]
  refine and_congr_right fun _ => ⟨?_, ?_⟩
  · rintro ⟨s, hs, s', hstep, rfl⟩
    exact ⟨s, s', hs, hstep, rfl⟩
  · rintro ⟨s, s', hs, hstep, rfl⟩
    exact ⟨s, hs, s', hstep, rfl⟩

/-- **A step of the accept loop**: a session is started or deleted, and the next is waited for. -/
theorem step_accept {i : ℕ} {error : Bool} :
    sv.step env u junk (.accept i error) = some sv' ↔
      (sv.world.crash = none ∧ i ∈ sv.accepting) ∧
        sv' = Server.startAccept u { sv with
          sessions := sv.sessions.set i (handleAccept (u i) sv.world error)
          accepting := sv.accepting.erase i } := by
  unfold Server.step
  simp only [Option.ite_none_right_eq_some, Option.some.injEq]
  exact and_congr_right fun _ => eq_comm

/-- the session that has run, and the others -/
theorem sessions_set {i : ℕ} {s' : Session (World σ)} {P : ℕ → Session (World σ) → Prop} (hself : P i s')
    (hothers : ∀ j s, j ≠ i → sv.sessions[j]? = some s → P j s) :
    ∀ j s, (sv.sessions.set i s')[j]? = some s → P j s := by
  intro j s hs
  rcases eq_or_ne i j with rfl | hne
  · have hlt : i < (sv.sessions.set i s').length := (List.getElem?_eq_some_iff.1 hs).1
    rw [List.getElem?_set_self (by rwa [List.length_set] at hlt)] at hs
    rw [← Option.some.inj hs]
    exact hself
  · rw [List.getElem?_set_ne hne] at hs
    exact hothers j s hne.symm hs

/-- the session whose `async_accept` completes, the next one, and the others -/
theorem sessions_accept {n : ℕ} {error : Bool} (hcount : sv.sessions.length = n + 1) {P : ℕ → Session (World σ) → Prop}
    (haccepted : P n (handleAccept (u n) sv.world error)) (hnext : P (n + 1) (waiting (u (n + 1)) sv.world))
    (hothers : ∀ i s, i ≠ n → sv.sessions[i]? = some s → P i s) :
    ∀ i s, (Server.startAccept u { sv with
      sessions := sv.sessions.set n (handleAccept (u n) sv.world error)
      accepting := sv.accepting.erase n }).sessions[i]? = some s → P i s := by
  intro i s hs
  have hlength : (sv.sessions.set n (handleAccept (u n) sv.world error)).length = n + 1 := by
    rw [List.length_set, hcount]
  simp only [Server.startAccept, hlength] at hs
  rcases Nat.lt_or_ge i (n + 1) with hi | hi
  · rw [List.getElem?_append_left (by omega)] at hs
    rcases eq_or_ne n i with rfl | hne
    · rw [List.getElem?_set_self (by omega)] at hs
      rw [← Option.some.inj hs]
      exact haccepted
    · rw [List.getElem?_set_ne hne] at hs
      exact hothers i s hne.symm hs
  · rw [List.getElem?_append_right (by omega), hlength, List.getElem?_singleton] at hs
    obtain ⟨hzero, hsome⟩ := Option.ite_none_right_eq_some.1 hs
    obtain rfl : i = n + 1 := by omega
    rw [← Option.some.inj hsome]
    exact hnext

/-! ## One request -/

/-- the world after a request -/
def World.after (env : Environment σ) (w : World σ) (request : Request) : World σ :=
  let response := ((sharedCalls env).handleRequest w request).1
  (sharedCalls env).recordReceivedRequest ((sharedCalls env).handleRequest w request).2 request.uri response.code

/-- **What a session does with the world for one request** is `Dispatcher.complete`. -/
theorem sharedCalls_complete {w : World σ} (hup : w.crash = none) (request : Request) :
    (w.after env request).dispatcher = (w.dispatcher.complete env request w.state).2.1 ∧
      (w.after env request).state = (w.dispatcher.complete env request w.state).2.2 ∧
      match (w.dispatcher.complete env request w.state).1 with
      | .ok response =>
        ((sharedCalls env).handleRequest w request).1 = response ∧ (w.after env request).crash = none
      | .error e => (w.after env request).crash = some e := by
  obtain ⟨d, s, crash⟩ := w
  simp only at hup
  subst hup
  unfold World.after sharedCalls Dispatcher.complete
  simp only
  rcases hhandle : d.handle env request s with ⟨_ | response, d', s'⟩
  · simp
  · simp only [Option.isNone_none, Bool.true_and]
    cases d'.statusHandlerEnabled with
    | false => simp
    | true =>
      simp only [if_true]
      rcases d'.getStatusHandler with ⟨_ | handler, d''⟩
      · simp
      · simp

end BlogServer.System
