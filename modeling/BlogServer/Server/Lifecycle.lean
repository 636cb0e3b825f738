/-
Who deletes a session (`server::handle_accept`, the callbacks of `src/session.cc`).

A session is owned by the one operation it has started: the callback of that operation starts the next one, or runs
`delete this`. Three of the four ends do. The fourth, a last write that succeeds, shuts the socket down, starts nothing
and deletes nothing.

- `step_owner`: what one callback does to the operations and to the session that runs it.
- `lifecycle_iff`: along a run one operation is pending, or the session is deleted once, exactly when no last write of
  the run succeeds.
- `session_leaks`: one request that is answered and closed leaves its session allocated.
- `callback_alive`: a callback never runs on a deleted session, in any run.
-/
import BlogServer.Server.Session

namespace BlogServer.Server

open BlogServer.Http BlogServer.Scan RequestParser

variable {σ : Type*}

/-! ## Runs -/

/-- `server::handle_accept`: the session of `start_accept` is started, or deleted before it has started anything -/
def handleAccept (u : Uninit) (world : σ) (error : Bool) : Session σ :=
  if error then { Session.start u world with pending := [], deleted := 1 } else .start u world

/-- completions of pending operations, one after the other -/
def run (d : Dispatcher σ) (junk : ℕ → MethodEnum) (s : Session σ) (events : List Event) : Option (Session σ) :=
  events.foldlM (step d junk) s

theorem run_append (d : Dispatcher σ) (junk : ℕ → MethodEnum) (s : Session σ) (events more : List Event) :
    run d junk s (events ++ more) = (run d junk s events).bind fun s' => run d junk s' more := by
  simp only [run, List.foldlM_append]
  rfl

theorem run_concat (d : Dispatcher σ) (junk : ℕ → MethodEnum) (s : Session σ) (events : List Event) (e : Event) :
    run d junk s (events ++ [e]) = (run d junk s events).bind fun s' => step d junk s' e := by
  rw [run_append]
  congr 1
  funext s'
  simp [run]

/-! ## The owner of a session -/

/-- one operation is pending and the session is there, or none is and it has been deleted once -/
def Session.Owned (s : Session σ) : Prop := s.pending.length = 1 ∧ s.deleted = 0 ∨ s.pending = [] ∧ s.deleted = 1

/-- the discipline of `delete this`, in one state of a run -/
structure Lifecycle (d : Dispatcher σ) (junk : ℕ → MethodEnum) (s : Session σ) : Prop where
  owned : s.Owned
  /-- a callback that can run runs on a session that is there -/
  alive : ∀ e s', step d junk s e = some s' → s.deleted = 0
  /-- a session that is there has something pending -/
  kept : s.deleted = 0 → s.pending ≠ []

variable {d : Dispatcher σ} {junk : ℕ → MethodEnum} {s s' : Session σ} {e : Event}

theorem handleRead_owner (d : Dispatcher σ) (junk : ℕ → MethodEnum) (hs : s.pending = []) (data : Option Bytes) :
    (∃ c, (handleRead d junk s data).pending = [c] ∧ (handleRead d junk s data).deleted = s.deleted) ∨
      (handleRead d junk s data).pending = [] ∧ (handleRead d junk s data).deleted = s.deleted + 1 := by
  cases data with
  | none => exact Or.inr ⟨hs, rfl⟩
  | some data =>
    left
    rcases h : parse (s.requestParser, s.requestBuilder) data with ⟨v, rest, t⟩
    cases v with
    | good =>
      by_cases hk : t.2.keepAlive = true
      · exact ⟨.handleWrite, by simp [handleRead, h, hk, hs], by simp [handleRead, h, hk]⟩
      · exact ⟨.shutdown, by simp [handleRead, h, hk, hs], by simp [handleRead, h, hk]⟩
    | bad => exact ⟨.shutdown, by simp [handleRead, h, hs], by simp [handleRead, h]⟩
    | indeterminate => exact ⟨.handleRead, by simp [handleRead, h, hs], by simp [handleRead, h]⟩

/-- an operation that completes was pending -/
theorem step_pending (h : step d junk s e = some s') : s.pending ≠ [] := by
  intro hnone
  cases e <;> simp [step, hnone] at h

/-- **Step lemma.** The callback of the one pending operation starts another, or deletes the session; only a last write
that succeeds does neither. -/
theorem step_owner {c : Callback} (hs : s.pending = [c]) (h : step d junk s e = some s') :
    (∃ c', s'.pending = [c'] ∧ s'.deleted = s.deleted) ∨ s'.pending = [] ∧ s'.deleted = s.deleted + 1 ∨
      e = .lastWrite false ∧ s'.pending = [] ∧ s'.deleted = s.deleted := by
  cases e with
  | read data =>
    simp only [step, hs, List.mem_singleton, Option.ite_none_right_eq_some] at h
    obtain ⟨rfl, h⟩ := h
    have hfinish : (s.finish .handleRead).pending = [] := by simp [Session.finish, hs]
    have howner := handleRead_owner d junk hfinish data
    rw [Option.some.inj h] at howner
    rcases howner with hnext | hend
    · exact Or.inl hnext
    · exact Or.inr (Or.inl hend)
  | write error =>
    simp only [step, hs, List.mem_singleton, Option.ite_none_right_eq_some] at h
    obtain ⟨rfl, h⟩ := h
    rw [← Option.some.inj h]
    cases error with
    | true => exact Or.inr (Or.inl ⟨by simp [handleWrite, Session.finish, hs], rfl⟩)
    | false => exact Or.inl ⟨.handleRead, by simp [handleWrite, Session.finish, hs], rfl⟩
  | lastWrite error =>
    simp only [step, hs, List.mem_singleton, Option.ite_none_right_eq_some] at h
    obtain ⟨rfl, h⟩ := h
    rw [← Option.some.inj h]
    cases error with
    | true => exact Or.inr (Or.inl ⟨by simp [shutdown, Session.finish, hs], rfl⟩)
    | false => exact Or.inr (Or.inr ⟨rfl, by simp [shutdown, Session.finish, hs], rfl⟩)

theorem Session.Owned.of_step (hs : s.Owned) (h : step d junk s e = some s') :
    ∃ c, s.pending = [c] ∧ s.deleted = 0 := by
  rcases hs with ⟨hone, hzero⟩ | ⟨hnone, -⟩
  · obtain ⟨c, hc⟩ := List.length_eq_one_iff.1 hone
    exact ⟨c, hc, hzero⟩
  · exact absurd hnone (step_pending h)

theorem Session.Owned.lifecycle (hs : s.Owned) : Lifecycle d junk s where
  owned := hs
  alive e s' h := by
    obtain ⟨-, -, hzero⟩ := hs.of_step h
    exact hzero
  kept hzero hnone := by
    rcases hs with ⟨hone, -⟩ | ⟨-, hdeleted⟩
    · rw [hnone] at hone
      cases hone
    · omega

theorem step_owned (hs : s.Owned) (h : step d junk s e = some s') (he : e ≠ .lastWrite false) : s'.Owned := by
  obtain ⟨c, hc, hzero⟩ := hs.of_step h
  rcases step_owner hc h with ⟨c', hpending, hdeleted⟩ | ⟨hpending, hdeleted⟩ | ⟨hlast, -⟩
  · exact Or.inl ⟨by rw [hpending]; rfl, by omega⟩
  · exact Or.inr ⟨hpending, by omega⟩
  · exact absurd hlast he

/-- a last write that succeeds leaves the session allocated, with nothing pending -/
theorem lastWrite_leaks (hs : s.Owned) (h : step d junk s (.lastWrite false) = some s') :
    s'.pending = [] ∧ s'.deleted = 0 := by
  obtain ⟨c, hc, hzero⟩ := hs.of_step h
  simp only [step, hc, List.mem_singleton, Option.ite_none_right_eq_some] at h
  obtain ⟨rfl, h⟩ := h
  rw [← Option.some.inj h]
  exact ⟨by simp [shutdown, Session.finish, hc], hzero⟩

/-! ## Whole runs -/

theorem handleAccept_owned (u : Uninit) (world : σ) (error : Bool) : (handleAccept u world error).Owned := by
  cases error with
  | true => exact Or.inr ⟨rfl, rfl⟩
  | false => exact Or.inl ⟨rfl, rfl⟩

/-- **Run lemma.** As long as no last write succeeds, the session keeps its owner. -/
theorem run_owned {events : List Event} (hs : s.Owned) (h : run d junk s events = some s')
    (hlast : .lastWrite false ∉ events) : s'.Owned := by
  induction events generalizing s with
  | nil =>
    rw [← Option.some.inj h]
    exact hs
  | cons e events ih =>
    obtain ⟨s₁, hstep, hrest⟩ := Option.bind_eq_some_iff.1 h
    have howned : s₁.Owned := step_owned hs hstep fun he => hlast (he ▸ List.mem_cons_self)
    exact ih howned hrest fun hmem => hlast (List.mem_cons_of_mem e hmem)

/-- **The life of a session.** In every state along a run either one operation is pending and the session is there, or
nothing is pending and it has been deleted once; callbacks run on sessions that are there, and none is left behind. This
is so exactly when no last write of the run succeeds. -/
theorem lifecycle_iff (u : Uninit) (world : σ) (error : Bool) {events : List Event}
    (h : run d junk (handleAccept u world error) events = some s) :
    (∀ seen s', seen <+: events → run d junk (handleAccept u world error) seen = some s' → Lifecycle d junk s') ↔
      .lastWrite false ∉ events := by
  constructor
  · intro hall hmem
    obtain ⟨seen, rest, rfl⟩ := List.append_of_mem hmem
    rw [run_append, Option.bind_eq_some_iff] at h
    obtain ⟨s₁, hseen, hrest⟩ := h
    obtain ⟨s₂, hstep, -⟩ := Option.bind_eq_some_iff.1 hrest
    have hbefore := hall seen s₁ (List.prefix_append _ _) hseen
    have hafter := hall (seen ++ [.lastWrite false]) s₂ ⟨rest, by simp⟩ (by rw [run_concat, hseen]; exact hstep)
    obtain ⟨hpending, hdeleted⟩ := lastWrite_leaks hbefore.owned hstep
    exact hafter.kept hdeleted hpending
  · intro hlast seen s' hseen hrun
    exact (run_owned (handleAccept_owned u world error) hrun fun hmem => hlast (hseen.subset hmem)).lifecycle

/-- **No callback runs on a deleted session**, in any run: what is deleted, or left behind, has nothing pending. -/
theorem callback_alive (u : Uninit) (world : σ) (error : Bool) {events : List Event}
    (h : run d junk (handleAccept u world error) events = some s) (hstep : step d junk s e = some s') :
    s.deleted = 0 := by
  have hone : ∀ (events : List Event) (s₀ : Session σ), (s₀.pending ≠ [] → s₀.Owned) →
      run d junk s₀ events = some s → s.pending ≠ [] → s.Owned := by
    intro events
    induction events with
    | nil =>
      intro s₀ hs₀ hrun
      rw [← Option.some.inj hrun]
      exact hs₀
    | cons e events ih =>
      intro s₀ hs₀ hrun
      obtain ⟨s₁, hfirst, hrest⟩ := Option.bind_eq_some_iff.1 hrun
      obtain ⟨c, hc, hzero⟩ := (hs₀ (step_pending hfirst)).of_step hfirst
      refine ih s₁ (fun hpending => ?_) hrest
      rcases step_owner hc hfirst with ⟨c', hc', hdeleted⟩ | ⟨hnone, -⟩ | ⟨-, hnone, -⟩
      · exact Or.inl ⟨by rw [hc']; rfl, by omega⟩
      · exact absurd hnone hpending
      · exact absurd hnone hpending
  have howned := hone events _ (fun _ => handleAccept_owned u world error) h (step_pending hstep)
  obtain ⟨-, -, hzero⟩ := howned.of_step hstep
  exact hzero

/-- a dispatcher whose every handler answers 404 -/
def notFound : Dispatcher Unit := ⟨fun s _ => (stockResponse StatusCode.not_found, s), false, fun s _ _ => s⟩

/-- a request answered and closed: the session is never deleted -/
theorem session_leaks :
    ∃ s, run notFound (fun _ => .GET) (handleAccept ⟨0, 0, 0⟩ () false)
        [.read (some (ascii "GET / HTTP/1.0\r\n\r\n")), .lastWrite false] = some s ∧
      ¬ Lifecycle notFound (fun _ => .GET) s := by
  have hpending : ((run notFound (fun _ => .GET) (handleAccept ⟨0, 0, 0⟩ () false)
      [.read (some (ascii "GET / HTTP/1.0\r\n\r\n")), .lastWrite false]).map fun s => (s.pending, s.deleted)) =
      some ([], 0) := by decide +kernel
  obtain ⟨s, hs, heq⟩ := Option.map_eq_some_iff.1 hpending
  refine ⟨s, hs, fun h => ?_⟩
  obtain ⟨hnone, hzero⟩ := Prod.mk.inj heq
  exact h.kept hzero hnone

/-- the theorem at a request whose answer cannot be written -/
theorem lifecycle_iff_failedWrite :
    ∃ s, run notFound (fun _ => .GET) (handleAccept ⟨0, 0, 0⟩ () false)
        [.read (some (ascii "GET / HTTP/1.0\r\n\r\n")), .lastWrite true] = some s ∧
      ((∀ seen s', seen <+: [Event.read (some (ascii "GET / HTTP/1.0\r\n\r\n")), .lastWrite true] →
        run notFound (fun _ => .GET) (handleAccept ⟨0, 0, 0⟩ () false) seen = some s' →
        Lifecycle notFound (fun _ => .GET) s') ↔
      .lastWrite false ∉ [Event.read (some (ascii "GET / HTTP/1.0\r\n\r\n")), .lastWrite true]) := by
  have hsome : (run notFound (fun _ => .GET) (handleAccept ⟨0, 0, 0⟩ () false)
      [.read (some (ascii "GET / HTTP/1.0\r\n\r\n")), .lastWrite true]).isSome = true := by decide
  obtain ⟨s, hs⟩ := Option.isSome_iff_exists.1 hsome
  exact ⟨s, hs, lifecycle_iff ⟨0, 0, 0⟩ () false hs⟩

end BlogServer.Server
