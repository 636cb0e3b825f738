/-
What the sessions of a server have to do with one another.

They share handlers and databases, and nothing of a session but its responses depends on these: which requests it passes
on, when it reads and writes, and when it is deleted come from its own bytes and its own writes. So in every run of the
server, however the callbacks of the sessions are mixed, a session has done what it does alone (`session_isolated`).

The server waits for one client at a time, and makes the next session when one has come or failed to. What it has
allocated is that session, the ones that have something pending, and the ones whose last write succeeded
(`sessions_allocated`). In the state that a crash leaves, the call that did not return counts as answered: its write is
pending, and nothing comes after it.

- `step_outline`: a step of a session leaves responses aside.
- `run_alone`: the sessions of a run, one by one.
-/
import BlogServer.System.Server

namespace BlogServer.System

open BlogServer.Byte BlogServer.Http BlogServer.Dispatch
open BlogServer.Server (Session Callback handleAccept handleRead handleWrite shutdown)

variable {σ τ τ' : Type}

/-! ## A session without its responses -/

/-- all of a session but what it was answered; of that, how often -/
def outline (s : Session τ) : Session Unit :=
  ⟨s.requestBuilder, s.requestParser, s.pending, s.deleted, s.shut, (), s.calls, s.sent.map fun _ => noResponse,
    s.consumed⟩

/-- **Step lemma.** What a session does, it does with any dispatcher. -/
theorem step_outline (d : Server.Dispatcher τ) (d' : Server.Dispatcher τ') (junk : ℕ → MethodEnum) {s : Session τ}
    {s' : Session τ'} (h : outline s = outline s') (e : Server.Event) :
    (BlogServer.Server.step d junk s e).map outline = (BlogServer.Server.step d' junk s' e).map outline := by
  obtain ⟨builder, parser, pending, deleted, shut, world, calls, sent, consumed⟩ := s
  obtain ⟨builder', parser', pending', deleted', shut', world', calls', sent', consumed'⟩ := s'
  simp only [outline, Session.mk.injEq, true_and] at h
  obtain ⟨rfl, rfl, rfl, rfl, rfl, rfl, hsent, rfl⟩ := h
  cases e with
  | write error =>
    simp only [BlogServer.Server.step]
    split
    · cases error <;> simp [outline, handleWrite, Session.finish, hsent]
    · rfl
  | lastWrite error =>
    simp only [BlogServer.Server.step]
    split
    · cases error <;> simp [outline, shutdown, Session.finish, hsent]
    · rfl
  | read data =>
    simp only [BlogServer.Server.step]
    split
    · cases data with
      | none => simp [outline, handleRead, Session.finish, hsent]
      | some data =>
        rcases hparse : RequestParser.parse (parser, builder) data with ⟨result, rest, parser₁, builder₁⟩
        cases result with
        | good => cases hk : builder₁.keepAlive <;> simp [outline, handleRead, Session.finish, hparse, hk, hsent]
        | bad => simp [outline, handleRead, Session.finish, hparse, hsent]
        | indeterminate => simp [outline, handleRead, Session.finish, hparse, hsent]
    · rfl

/-! ## The sessions of a run -/

/-- the completions of one session -/
def eventsOf (i : ℕ) (events : List Event) : List Server.Event :=
  events.filterMap fun
    | .accept _ _ => none
    | .session j e => if j = i then some e else none

theorem eventsOf_accept (i j : ℕ) (error : Bool) (events : List Event) :
    eventsOf i (events ++ [.accept j error]) = eventsOf i events := by
  simp [eventsOf]

theorem eventsOf_self (i : ℕ) (e : Server.Event) (events : List Event) :
    eventsOf i (events ++ [.session i e]) = eventsOf i events ++ [e] := by
  simp [eventsOf]

theorem eventsOf_ne {i j : ℕ} (h : j ≠ i) (e : Server.Event) (events : List Event) :
    eventsOf i (events ++ [.session j e]) = eventsOf i events := by
  simp [eventsOf, h]

variable (env : Environment σ) (u : ℕ → Uninit) (junk : ℕ → ℕ → MethodEnum)

/-- after the completions, the sessions before the `n`-th have done what they do alone, and the `n`-th is waited for -/
structure Alone (d' : Server.Dispatcher τ) (w' : τ) (events : List Event) (n : ℕ) (sv : Server σ) : Prop where
  accepting : sv.accepting = [n]
  count : sv.sessions.length = n + 1
  waits : ∀ (w : World σ) s, sv.sessions[n]? = some s → outline s = outline (waiting (u n) w)
  none : ∀ i, n ≤ i → eventsOf i events = []
  alone : ∀ i s, i < n → sv.sessions[i]? = some s →
    ∃ error s', .accept i error ∈ events ∧
      BlogServer.Server.run d' (junk i) (handleAccept (u i) w' error) (eventsOf i events) = some s' ∧
        outline s' = outline s

theorem alone_start (d' : Server.Dispatcher τ) (w' : τ) (d : Dispatch.Dispatcher) (s : σ) :
    Alone u junk d' w' [] 0 (Server.start u d s) where
  accepting := rfl
  count := rfl
  waits := by
    intro w s' hs'
    rw [← Option.some.inj hs']
    rfl
  none := fun i _ => rfl
  alone := fun i s' hi => absurd hi (Nat.not_lt_zero i)

variable {env u junk} {d' : Server.Dispatcher τ} {w' : τ} {events : List Event} {n : ℕ} {sv sv' : Server σ}

theorem Alone.step_session (h : Alone u junk d' w' events n sv) {j : ℕ} {e : Server.Event}
    (hstep : sv.step env u junk (.session j e) = some sv') :
    Alone u junk d' w' (events ++ [.session j e]) n sv' := by
  obtain ⟨-, s, s', hs, hsession, rfl⟩ := System.step_session.1 hstep
  have hle : j < n + 1 := by
    rw [← h.count]
    exact (List.getElem?_eq_some_iff.1 hs).1
  -- the session that is waited for has nothing pending
  have hlt : j < n := by
    refine lt_of_le_of_ne (Nat.lt_succ_iff.1 hle) fun heq => ?_
    subst heq
    have hpending := congrArg Session.pending (h.waits sv.world s hs)
    exact Server.step_pending hsession hpending
  refine ⟨h.accepting, ?_, ?_, ?_, ?_⟩
  · rw [List.length_set, h.count]
  · intro w s₁ hs₁
    rw [List.getElem?_set_ne (Nat.ne_of_lt hlt)] at hs₁
    exact h.waits w s₁ hs₁
  · intro i hi
    rw [eventsOf_ne (by omega)]
    exact h.none i hi
  · intro i s₁ hi hs₁
    by_cases hij : j = i
    · subst hij
      rw [List.getElem?_set_self (by rw [h.count]; exact hle)] at hs₁
      obtain rfl := Option.some.inj hs₁
      obtain ⟨error, s₀, haccept, hrun, houtline⟩ := h.alone j s hi hs
      have hsame := step_outline (sharedCalls env) d' (junk j) (show outline { s with world := sv.world } = outline s₀
        from houtline.symm) e
      rw [hsession, Option.map_some] at hsame
      obtain ⟨s₂, hs₂, houtline₂⟩ := Option.map_eq_some_iff.1 hsame.symm
      refine ⟨error, s₂, List.mem_append_left _ haccept, ?_, houtline₂⟩
      rw [eventsOf_self, Server.run_concat, hrun]
      exact hs₂
    · rw [List.getElem?_set_ne hij] at hs₁
      obtain ⟨error, s₀, haccept, hrun, houtline⟩ := h.alone i s₁ hi hs₁
      refine ⟨error, s₀, List.mem_append_left _ haccept, ?_, houtline⟩
      rw [eventsOf_ne hij]
      exact hrun

theorem Alone.step_accept (h : Alone u junk d' w' events n sv) {j : ℕ} {error : Bool}
    (hstep : sv.step env u junk (.accept j error) = some sv') :
    Alone u junk d' w' (events ++ [.accept j error]) (n + 1) sv' := by
  obtain ⟨⟨-, hmem⟩, rfl⟩ := System.step_accept.1 hstep
  obtain rfl : j = n := by
    rw [h.accepting] at hmem
    exact List.mem_singleton.1 hmem
  refine ⟨?_, ?_, fun w s hs => ?_, fun i hi => ?_, fun i s hi hs => ?_⟩
  · simp [Server.startAccept, h.accepting, h.count]
  · simp [Server.startAccept, h.count]
  · exact sessions_accept h.count (P := fun i s => i = j + 1 → outline s = outline (waiting (u (j + 1)) w))
      (fun hj => by omega) (fun _ => rfl) (fun i s _ hs hi => by
        have := (List.getElem?_eq_some_iff.1 hs).1
        have := h.count
        omega) _ s hs rfl
  · rw [eventsOf_accept]
    exact h.none i (by omega)
  · rw [eventsOf_accept]
    refine sessions_accept h.count (P := fun i s => i < j + 1 →
      ∃ error' s', .accept i error' ∈ events ++ [.accept j error] ∧
        BlogServer.Server.run d' (junk i) (handleAccept (u i) w' error') (eventsOf i events) = some s' ∧
          outline s' = outline s) (fun _ => ?_) (fun hlt => absurd hlt (lt_irrefl _)) (fun i s hne hs hi => ?_) i s hs hi
    · refine ⟨error, handleAccept (u j) w' error, List.mem_append_right _ (List.mem_singleton_self _), ?_, ?_⟩
      · rw [h.none j le_rfl]
        rfl
      · cases error <;> rfl
    · obtain ⟨error', s₀, haccept, hrun, houtline⟩ := h.alone i s (by omega) hs
      exact ⟨error', s₀, List.mem_append_left _ haccept, hrun, houtline⟩

/-- **Run lemma.** -/
theorem run_alone (d' : Server.Dispatcher τ) (w' : τ) {d : Dispatch.Dispatcher} {s : σ}
    (hrun : (Server.start u d s).run env u junk events = some sv) : ∃ n, Alone u junk d' w' events n sv := by
  induction events using List.reverseRecOn generalizing sv with
  | nil =>
    rw [← Option.some.inj hrun]
    exact ⟨0, alone_start u junk d' w' d s⟩
  | append_singleton events e ih =>
    obtain ⟨sv₁, hrun₁, hstep⟩ := run_concat.1 hrun
    obtain ⟨n, h⟩ := ih hrun₁
    cases e with
    | accept j error => exact ⟨n + 1, h.step_accept hstep⟩
    | session j e => exact ⟨n, h.step_session hstep⟩

/-- **Sessions are isolated.** In every run of the server, a session that was accepted is as it is when it runs alone,
with its own completions and any dispatcher whatever: the same requests passed on and as many responses, the same bytes
read, the same operations pending, deleted or not. -/
theorem session_isolated (d' : Server.Dispatcher τ) (w' : τ) {d : Dispatch.Dispatcher} {s₀ : σ}
    (hrun : (Server.start u d s₀).run env u junk events = some sv) {i : ℕ} {s : Session (World σ)}
    (hs : sv.sessions[i]? = some s) (haccepted : i ∉ sv.accepting) :
    ∃ error s', .accept i error ∈ events ∧
      BlogServer.Server.run d' (junk i) (handleAccept (u i) w' error) (eventsOf i events) = some s' ∧
      outline s' = outline s := by
  obtain ⟨n, h⟩ := run_alone d' w' hrun
  have hle : i < n + 1 := by
    rw [← h.count]
    exact (List.getElem?_eq_some_iff.1 hs).1
  have hne : i ≠ n := by
    rw [h.accepting] at haccepted
    exact fun heq => haccepted (List.mem_singleton.2 heq)
  exact h.alone i s (by omega) hs

/-- a server without locations, for tests -/
def testServer : Server (List Posts.Blog) := Server.start (fun _ => ⟨0, 0, 0⟩) ⟨.fresh, ∅, false⟩ []

/-- completions of the server for tests -/
def testRun (events : List Event) : Option (Server (List Posts.Blog)) :=
  testServer.run testEnvironment (fun _ => ⟨0, 0, 0⟩) (fun _ _ => .GET) events

/-- two sessions, a read of the second, and the end of the first -/
theorem session_isolated_two :
    ∃ sv s s', testRun [.accept 0 false, .accept 1 false, .session 1 (.read (some (ascii "GE"))),
        .session 0 (.read none)] = some sv ∧ sv.sessions[1]? = some s ∧
      BlogServer.Server.run Server.notFound (fun _ => .GET) (handleAccept ⟨0, 0, 0⟩ () false)
        [.read (some (ascii "GE"))] = some s' ∧ outline s' = outline s := by
  have hrun : ((testRun [.accept 0 false, .accept 1 false, .session 1 (.read (some (ascii "GE"))),
      .session 0 (.read none)]).map fun sv => (sv.sessions[1]?.isSome, decide (1 ∈ sv.accepting))) =
        some (true, false) := by decide
  obtain ⟨sv, hsv, heq⟩ := Option.map_eq_some_iff.1 hrun
  obtain ⟨hsome, haccepting⟩ := Prod.mk.inj heq
  obtain ⟨s, hs⟩ := Option.isSome_iff_exists.1 hsome
  obtain ⟨error, s', haccept, hs', houtline⟩ :=
    session_isolated Server.notFound () hsv hs (of_decide_eq_false haccepting)
  obtain rfl : error = false := by simpa using haccept
  exact ⟨sv, s, s', hsv, hs, hs', houtline⟩

/-! ## What is allocated -/

/-- a session object that is there and has nothing pending -/
def Idle (s : Session τ) : Prop := s.deleted = 0 ∧ s.pending = []

instance : DecidablePred (Idle : Session τ → Prop) := fun _ => inferInstanceAs (Decidable (_ ∧ _))

/-- a last write that succeeded -/
def Closes : Event → Bool
  | .session _ (.lastWrite false) => true
  | _ => false

/-- every session has its owner, or is idle; idle are the one that is waited for and those that were closed -/
structure Allocated (events : List Event) (n : ℕ) (sv : Server σ) : Prop where
  accepting : sv.accepting = [n]
  count : sv.sessions.length = n + 1
  waits : ∀ s, sv.sessions[n]? = some s → Idle s
  owned : ∀ s ∈ sv.sessions, s.Owned ∨ Idle s
  idle : sv.sessions.countP (fun s => decide (Idle s)) = 1 + events.countP Closes

theorem owned_not_idle {s : Session τ} (h : s.Owned) : ¬ Idle s := by
  rintro ⟨hzero, hnone⟩
  rcases h with ⟨hone, -⟩ | ⟨-, hdeleted⟩
  · rw [hnone] at hone
    cases hone
  · omega

theorem Allocated.step_session (h : Allocated events n sv) {j : ℕ} {e : Server.Event}
    (hstep : sv.step env u junk (.session j e) = some sv') : Allocated (events ++ [.session j e]) n sv' := by
  obtain ⟨-, s, s', hs, hsession, rfl⟩ := System.step_session.1 hstep
  obtain ⟨hlt, hget⟩ := List.getElem?_eq_some_iff.1 hs
  have hpending : s.pending ≠ [] := Server.step_pending (s := { s with world := sv.world }) hsession
  have howned : s.Owned := (h.owned s (List.mem_of_getElem? hs)).resolve_right fun hidle => hpending hidle.2
  have hbusy : ¬ Idle (sv.sessions[j]) := by
    rw [hget]
    exact owned_not_idle howned
  have hne : j ≠ n := by
    rintro rfl
    exact hpending (h.waits s hs).2
  -- it is owned again, unless this was its last write
  have hnext : if Closes (.session j e) then Idle s' else s'.Owned := by
    by_cases hlast : e = .lastWrite false
    · subst hlast
      obtain ⟨hnone, hzero⟩ := Server.lastWrite_leaks (s := { s with world := sv.world }) howned hsession
      exact ⟨hzero, hnone⟩
    · have hcloses : Closes (.session j e) = false := by
        rcases e with data | error | _ | _
        · rfl
        · rfl
        · exact absurd rfl hlast
        · rfl
      rw [hcloses]
      exact Server.step_owned (s := { s with world := sv.world }) howned hsession hlast
  refine ⟨h.accepting, by rw [List.length_set, h.count], ?_, ?_, ?_⟩
  · intro s₁ hs₁
    rw [List.getElem?_set_ne hne] at hs₁
    exact h.waits s₁ hs₁
  · intro s₁ hs₁
    rcases List.mem_or_eq_of_mem_set hs₁ with hold | rfl
    · exact h.owned s₁ hold
    · split_ifs at hnext
      · exact Or.inr hnext
      · exact Or.inl hnext
  · rw [List.countP_set hlt, h.idle, List.countP_append, List.countP_singleton, if_neg (by simpa using hbusy)]
    cases hcloses : Closes (.session j e) with
    | true =>
      have hidle : Idle s' := by simpa only [hcloses, if_true] using hnext
      rw [if_pos (decide_eq_true hidle), if_pos rfl]
      omega
    | false =>
      have hkept : s'.Owned := by simpa only [hcloses, Bool.false_eq_true, if_false] using hnext
      rw [if_neg (by simpa using owned_not_idle hkept), if_neg (by simp)]
      omega

theorem Allocated.step_accept (h : Allocated events n sv) {j : ℕ} {error : Bool}
    (hstep : sv.step env u junk (.accept j error) = some sv') :
    Allocated (events ++ [.accept j error]) (n + 1) sv' := by
  obtain ⟨⟨-, hmem⟩, rfl⟩ := System.step_accept.1 hstep
  obtain rfl : j = n := by
    rw [h.accepting] at hmem
    exact List.mem_singleton.1 hmem
  have hlt : j < sv.sessions.length := by rw [h.count]; omega
  have howned := Server.handleAccept_owned (u j) sv.world error
  refine ⟨?_, ?_, fun s hs => ?_, fun s hs => ?_, ?_⟩
  · simp [Server.startAccept, h.accepting, h.count]
  · simp [Server.startAccept, h.count]
  · exact sessions_accept h.count (P := fun i s => i = j + 1 → Idle s) (fun hj => by omega) (fun _ => ⟨rfl, rfl⟩)
      (fun i s _ hs hi => by
        have := (List.getElem?_eq_some_iff.1 hs).1
        have := h.count
        omega) _ s hs rfl
  · obtain ⟨i, hi⟩ := List.mem_iff_getElem?.1 hs
    exact sessions_accept h.count (P := fun _ s => s.Owned ∨ Idle s) (Or.inl howned) (Or.inr ⟨rfl, rfl⟩)
      (fun _ s _ hs => h.owned s (List.mem_of_getElem? hs)) i s hi
  · -- the session that was waited for is idle no longer, and the next one is
    have hwaits : Idle (sv.sessions[j]) := h.waits _ (List.getElem?_eq_getElem hlt)
    simp only [Server.startAccept, List.countP_append, List.countP_singleton]
    rw [List.countP_set hlt, h.idle, if_pos (decide_eq_true hwaits), if_neg (by simpa using owned_not_idle howned),
      if_pos (decide_eq_true ⟨rfl, rfl⟩)]
    simp [Closes]
    omega

/-- **Run lemma.** -/
theorem run_allocated {d : Dispatch.Dispatcher} {s₀ : σ}
    (hrun : (Server.start u d s₀).run env u junk events = some sv) : ∃ n, Allocated events n sv := by
  induction events using List.reverseRecOn generalizing sv with
  | nil =>
    rw [← Option.some.inj hrun]
    refine ⟨0, rfl, rfl, ?_, ?_, rfl⟩
    · intro s hs
      rw [← Option.some.inj hs]
      exact ⟨rfl, rfl⟩
    · intro s hs
      rw [List.mem_singleton.1 hs]
      exact Or.inr ⟨rfl, rfl⟩
  | append_singleton events e ih =>
    obtain ⟨sv₁, hrun₁, hstep⟩ := run_concat.1 hrun
    obtain ⟨n, h⟩ := ih hrun₁
    cases e with
    | accept j error => exact ⟨n + 1, h.step_accept hstep⟩
    | session j e => exact ⟨n, h.step_session hstep⟩

/-- **What is allocated.** In every state of every run the server waits for exactly one client; every other session has
one operation pending, or has been deleted once, or is idle. The idle ones, with the one that is waited for, are one
more than the last writes that succeeded. -/
theorem sessions_allocated {d : Dispatch.Dispatcher} {s₀ : σ}
    (hrun : (Server.start u d s₀).run env u junk events = some sv) :
    (∃ n, sv.accepting = [n] ∧ sv.sessions.length = n + 1) ∧ (∀ s ∈ sv.sessions, s.Owned ∨ Idle s) ∧
      sv.sessions.countP (fun s => decide (Idle s)) = 1 + events.countP Closes := by
  obtain ⟨n, h⟩ := run_allocated hrun
  exact ⟨⟨n, h.accepting, h.count⟩, h.owned, h.idle⟩

/-- a malformed request that is refused: its session stays, beside the one that is waited for -/
theorem sessions_allocated_refused :
    ∃ sv, testRun [.accept 0 false, .session 0 (.read (some [CR])), .session 0 (.lastWrite false)] = some sv ∧
      sv.sessions.countP (fun s => decide (Idle s)) = 2 := by
  have hsome : (testRun [.accept 0 false, .session 0 (.read (some [CR])),
      .session 0 (.lastWrite false)]).isSome = true := by decide
  obtain ⟨sv, hsv⟩ := Option.isSome_iff_exists.1 hsome
  exact ⟨sv, hsv, (sessions_allocated hsv).2.2⟩

end BlogServer.System
