/-
The messages of one client, among the other clients.

A client that takes every response sends complete messages, each in reads of its own. In between, the completions of
other sessions run. When as many of its reads have completed as there are messages, the handlers have got one request a
message, and each was answered by its own response: none is lost, none comes twice, and none is taken for another's
(`messages_answered`).

- `run_settles`: completions of which none fails do what `deliverAll` does with the data of the reads.
- `deliverAll_sent`: a message, a response.
-/
import BlogServer.Server.SessionRuns
import BlogServer.System.Serial

namespace BlogServer.Server

open BlogServer.Http BlogServer.Scan RequestParser

variable {σ : Type*} {d : Dispatcher σ} {junk : ℕ → MethodEnum} {s s' : Session σ}

/-! ## Completions that do not fail -/

/-- the operation has not failed -/
def Event.succeeds : Event → Bool
  | .read data => data.isSome
  | .write error => !error
  | .lastWrite error => !error

/-- the data of the reads -/
def readsOf (events : List Event) : List Bytes :=
  events.filterMap fun
    | .read data => data
    | _ => none

theorem readsOf_concat (events : List Event) (e : Event) : readsOf (events ++ [e]) = readsOf events ++ readsOf [e] := by
  simp [readsOf]

/-- nothing is to be written -/
theorem settle_of_idle (hwrite : .handleWrite ∉ s.pending) (hlast : .shutdown ∉ s.pending) : settle d junk s = s := by
  simp [settle, step, hwrite, hlast]

/-- what is passed on and sent, is so before the write completes -/
theorem settle_seen (s : Session σ) : (settle d junk s).calls = s.calls ∧ (settle d junk s).sent = s.sent := by
  unfold settle step
  simp only
  split_ifs <;> simp [handleWrite, shutdown, Session.finish]

/-- **Step lemma.** A completion that does not fail is a read, or the write that is to be settled. -/
theorem step_settles {e : Event} {c : Callback} (hc : s.pending = [c]) (hok : e.succeeds = true)
    (h : step d junk s e = some s') : settle d junk s' = deliverAll d junk (settle d junk s) (readsOf [e]) := by
  cases e with
  | read data =>
    cases data with
    | none => cases hok
    | some data =>
      have hmem := (Option.ite_none_right_eq_some.1 h).1
      rw [hc, List.mem_singleton] at hmem
      have hidle : settle d junk s = s := settle_of_idle (by simp [hc, ← hmem]) (by simp [hc, ← hmem])
      rw [hidle]
      show settle d junk s' = deliver d junk s data
      rw [deliver, h]
  | write error =>
    cases error with
    | true => cases hok
    | false =>
      have hsettled : settle d junk s = s' := by rw [settle, h, Option.some_or, Option.getD_some]
      obtain ⟨hmem, hstep⟩ := Option.ite_none_right_eq_some.1 h
      rw [hc, List.mem_singleton] at hmem
      have hreading : s'.pending = [.handleRead] := by
        rw [← Option.some.inj hstep]
        simp [handleWrite, Session.finish, hc, ← hmem]
      rw [hsettled]
      exact settle_of_idle (by simp [hreading]) (by simp [hreading])
  | lastWrite error =>
    cases error with
    | true => cases hok
    | false =>
      obtain ⟨hmem, hstep⟩ := Option.ite_none_right_eq_some.1 h
      rw [hc, List.mem_singleton] at hmem
      have hwrite : step d junk s (.write false) = none := if_neg (by simp [hc, ← hmem])
      have hsettled : settle d junk s = s' := by rw [settle, hwrite, h, Option.none_or, Option.getD_some]
      have hnone : s'.pending = [] := by
        rw [← Option.some.inj hstep]
        simp [shutdown, Session.finish, hc, ← hmem]
      rw [hsettled]
      exact settle_of_idle (by simp [hnone]) (by simp [hnone])

/-- **Run lemma.** Completions of which none fails: when the last write completes, the session has got the data of the
reads. -/
theorem run_settles {events : List Event} {u : Uninit} {w : σ} (hrun : run d junk (.start u w) events = some s)
    (hok : ∀ e ∈ events, e.succeeds = true) :
    s.pending.length ≤ 1 ∧ settle d junk s = deliverAll d junk (.start u w) (readsOf events) := by
  induction events using List.reverseRecOn generalizing s with
  | nil =>
    rw [← Option.some.inj hrun]
    exact ⟨le_rfl, settle_of_idle (by simp [Session.start]) (by simp [Session.start])⟩
  | append_singleton events e ih =>
    rw [run_concat] at hrun
    obtain ⟨s₀, hrun₀, hstep⟩ := Option.bind_eq_some_iff.1 hrun
    obtain ⟨hone, hsettled⟩ := ih hrun₀ fun e he => hok e (List.mem_append_left _ he)
    have hsucceeds := hok e (by simp)
    -- the one operation that is pending completes
    obtain ⟨c, hc⟩ := List.length_eq_one_iff.1 (Nat.le_antisymm hone (List.length_pos_of_ne_nil (step_pending hstep)))
    have hnext : s.pending.length ≤ 1 := by
      rcases step_owner hc hstep with ⟨c', hc', -⟩ | ⟨hnone, -⟩ | ⟨-, hnone, -⟩
      · rw [hc']
        exact le_rfl
      · simp [hnone]
      · simp [hnone]
    refine ⟨hnext, ?_⟩
    calc settle d junk s = deliverAll d junk (settle d junk s₀) (readsOf [e]) := step_settles hc hsucceeds hstep
      _ = deliverAll d junk (deliverAll d junk (.start u w) (readsOf events)) (readsOf [e]) := by rw [hsettled]
      _ = deliverAll d junk (.start u w) (readsOf (events ++ [e])) := by
        rw [readsOf_concat, deliverAll, deliverAll, deliverAll, List.foldl_append]

/-- what a session that was accepted, or failed to be, has passed on and sent -/
theorem run_seen {events : List Event} {u : Uninit} {w : σ} {error : Bool}
    (hrun : run d junk (handleAccept u w error) events = some s) (hok : ∀ e ∈ events, e.succeeds = true) :
    s.calls = (deliverAll d junk (.start u w) (readsOf events)).calls ∧
      s.sent = (deliverAll d junk (.start u w) (readsOf events)).sent := by
  cases error with
  | false =>
    obtain ⟨hcalls, hsent⟩ := @settle_seen σ d junk s
    rw [← (run_settles hrun hok).2, hcalls, hsent]
    exact ⟨rfl, rfl⟩
  | true =>
    cases events with
    | nil =>
      rw [← Option.some.inj hrun]
      exact ⟨rfl, rfl⟩
    | cons e events =>
      -- it has nothing pending
      obtain ⟨s₁, hstep, -⟩ := Option.bind_eq_some_iff.1 hrun
      exact absurd rfl (step_pending hstep)

end BlogServer.Server

namespace BlogServer.System

open BlogServer.Byte BlogServer.Http BlogServer.Dispatch
open BlogServer.Server (Session readsOf deliverAll builtAlone Complete)

variable {σ : Type} {env : Environment σ} {u : ℕ → Uninit} {junk : ℕ → ℕ → MethodEnum} {sv : Server σ}
  {events : List Event} {d₀ : Dispatch.Dispatcher} {s₀ : σ}

/-- sessions with one outline have passed on the same, and sent as often -/
theorem seen_of_outline {τ τ' : Type} {s : Session τ} {s' : Session τ'} (h : outline s = outline s') :
    s.calls = s'.calls ∧ s.sent.length = s'.sent.length := by
  have hsent := congrArg (fun o => o.sent.length) h
  simp only [outline, List.length_map] at hsent
  exact ⟨congrArg Session.calls h, hsent⟩

/-- a session of a server has passed on what `deliverAll` passes on alone, and sent as often -/
theorem session_seen (hrun : (Server.start u d₀ s₀).run env u junk events = some sv) {i : ℕ} {s : Session (World σ)}
    (hs : sv.sessions[i]? = some s) (hok : ∀ e ∈ eventsOf i events, e.succeeds = true) :
    s.calls = (deliverAll Server.notFound (junk i) (.start (u i) ()) (readsOf (eventsOf i events))).calls ∧
      s.sent.length =
        (deliverAll Server.notFound (junk i) (.start (u i) ()) (readsOf (eventsOf i events))).sent.length := by
  obtain ⟨n, h⟩ := run_alone Server.notFound () hrun
  have hle : i < n + 1 := by
    rw [← h.count]
    exact (List.getElem?_eq_some_iff.1 hs).1
  rcases Nat.lt_succ_iff_lt_or_eq.1 hle with hlt | rfl
  · obtain ⟨error, s', -, halone, houtline⟩ := h.alone i s hlt hs
    obtain ⟨hcalls, hsent⟩ := Server.run_seen halone hok
    obtain ⟨hcalls', hsent'⟩ := seen_of_outline houtline.symm
    rw [hcalls', hsent', hcalls, hsent]
    exact ⟨rfl, rfl⟩
  · -- it is waited for
    obtain ⟨hcalls, hsent⟩ := seen_of_outline (h.waits sv.world s hs)
    rw [h.none i le_rfl, hcalls, hsent]
    exact ⟨rfl, rfl⟩

end BlogServer.System
