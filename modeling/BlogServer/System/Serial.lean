/-
One order of the requests of all sessions.

The callbacks of a server come in any order, one at a time, each answering at most one request. The requests in the
order in which they were answered are a run of `Dispatcher.complete`, one request after another, that ends with the
dispatcher and the databases of the server; every session was sent the responses to its own requests, and perhaps a 400
after them (`run_serial`). What holds of requests that are completed one after another holds of the server then,
whatever the sessions: the status page accounts for all of them (`status_serial`).

- `step_does`: what a step of a session does to what is shared.
- `run_crash`: what ended the process was a request that `Dispatcher.complete` ends without a response.
-/
import BlogServer.System.Isolation

namespace BlogServer.System

open BlogServer.Byte BlogServer.Http BlogServer.Dispatch
open BlogServer.Server (Session Callback handleAccept handleRead handleWrite shutdown)

variable {σ : Type}

/-! ## One request after another -/

/-- a request that was answered, and the session that it came to -/
structure Answered where
  session : ℕ
  request : Request
  response : Response

/-- the dispatcher and the databases after requests that were completed one after another -/
inductive Serial (env : Environment σ) (d₀ : Dispatch.Dispatcher) (s₀ : σ) :
    List Answered → Dispatch.Dispatcher → σ → Prop where
  | start : Serial env d₀ s₀ [] d₀ s₀
  | next {log d s d' s'} {a : Answered} (h : Serial env d₀ s₀ log d s)
      (hcomplete : d.complete env a.request s = (.ok a.response, d', s')) : Serial env d₀ s₀ (log ++ [a]) d' s'

/-- what came to a session -/
def ofSession (i : ℕ) (log : List Answered) : List Answered := log.filter fun a => a.session == i

theorem ofSession_self (i : ℕ) (log : List Answered) (request : Request) (response : Response) :
    ofSession i (log ++ [⟨i, request, response⟩]) = ofSession i log ++ [⟨i, request, response⟩] := by
  simp [ofSession]

theorem ofSession_ne {i j : ℕ} (h : j ≠ i) (log : List Answered) (request : Request) (response : Response) :
    ofSession j (log ++ [⟨i, request, response⟩]) = ofSession j log := by
  simp [ofSession, h.symm]

/-! ## One step of a session -/

/-- the request was malformed -/
abbrev refusal : Response := stockResponse StatusCode.bad_request

/-- what a step of a session does to what is shared -/
inductive Does (env : Environment σ) (s s' : Session (World σ)) : Prop where
  | nothing (hworld : s'.world = s.world) (hcalls : s'.calls = s.calls) (hsent : s'.sent = s.sent)
      (hpending : ∀ c ∈ s'.pending, c ≠ .shutdown → ∃ c ∈ s.pending, c ≠ .shutdown)
  | refuses (hworld : s'.world = s.world) (hcalls : s'.calls = s.calls) (hsent : s'.sent = s.sent ++ [refusal])
      (hread : .handleRead ∈ s.pending) (hpending : s'.pending = s.pending.erase .handleRead ++ [.shutdown])
  | answers (request : Request) (hworld : s'.world = s.world.after env request)
      (hcalls : s'.calls = s.calls ++ [request])
      (hsent : s'.sent = s.sent ++ [((sharedCalls env).handleRequest s.world request).1])
      (hread : .handleRead ∈ s.pending)

theorem step_does {env : Environment σ} {junk : ℕ → MethodEnum} {s s' : Session (World σ)} {e : Server.Event}
    (h : BlogServer.Server.step (sharedCalls env) junk s e = some s') : Does env s s' := by
  have herase : ∀ c ∈ s.pending.erase .shutdown, c ≠ .shutdown → ∃ c ∈ s.pending, c ≠ .shutdown :=
    fun c hc hne => ⟨c, List.mem_of_mem_erase hc, hne⟩
  cases e with
  | write error =>
    simp only [BlogServer.Server.step, Option.ite_none_right_eq_some, Option.some.injEq] at h
    obtain ⟨hmem, rfl⟩ := h
    cases error <;> exact .nothing rfl rfl rfl fun _ _ _ => ⟨_, hmem, by decide⟩
  | lastWrite error =>
    simp only [BlogServer.Server.step, Option.ite_none_right_eq_some, Option.some.injEq] at h
    obtain ⟨hmem, rfl⟩ := h
    cases error <;> exact .nothing rfl rfl rfl herase
  | read data =>
    simp only [BlogServer.Server.step, Option.ite_none_right_eq_some, Option.some.injEq] at h
    obtain ⟨hmem, rfl⟩ := h
    have hother : ∃ c ∈ s.pending, c ≠ .shutdown := ⟨_, hmem, by decide⟩
    cases data with
    | none => exact .nothing rfl rfl rfl fun _ _ _ => hother
    | some data =>
      rcases hparse : RequestParser.parse (s.requestParser, s.requestBuilder) data with ⟨result, rest, parser, builder⟩
      cases result with
      | good =>
        refine .answers (builder.buildRequest (junk s.calls.length)) ?_ ?_ ?_ hmem
        · cases hk : builder.keepAlive <;> simp [handleRead, Session.finish, hparse, hk, World.after, sharedCalls]
        · cases hk : builder.keepAlive <;> simp [handleRead, Session.finish, hparse, hk]
        · cases hk : builder.keepAlive <;> simp [handleRead, Session.finish, hparse, hk]
      | bad =>
        exact .refuses (by simp [handleRead, Session.finish, hparse]) (by simp [handleRead, Session.finish, hparse])
          (by simp [handleRead, Session.finish, hparse]) hmem (by simp [handleRead, Session.finish, hparse])
      | indeterminate =>
        exact .nothing (by simp [handleRead, Session.finish, hparse]) (by simp [handleRead, Session.finish, hparse])
          (by simp [handleRead, Session.finish, hparse]) fun _ _ _ => hother

/-! ## The sessions of a run -/

/-- the responses to the requests of a session, and perhaps a refusal, after which it reads no more -/
def Sent (replies : List Response) (s : Session (World σ)) : Prop :=
  s.sent = replies ∨ s.sent = replies ++ [refusal] ∧ ∀ c ∈ s.pending, c = .shutdown

/-- a server that has answered the requests of the log -/
structure Explained (env : Environment σ) (d₀ : Dispatch.Dispatcher) (s₀ : σ) (log : List Answered) (sv : Server σ) :
    Prop where
  serial : Serial env d₀ s₀ log sv.world.dispatcher sv.world.state
  made : ∀ a ∈ log, a.session < sv.sessions.length
  calls : ∀ i s, sv.sessions[i]? = some s → s.calls = (ofSession i log).map Answered.request
  sent : ∀ i s, sv.sessions[i]? = some s → Sent ((ofSession i log).map Answered.response) s

variable {env : Environment σ} {u : ℕ → Uninit} {junk : ℕ → ℕ → MethodEnum} {sv sv' : Server σ} {events : List Event}
  {d₀ : Dispatch.Dispatcher} {s₀ : σ} {log : List Answered}

/-- of a new session there is nothing in the log -/
theorem Explained.ofSession_new (h : Explained env d₀ s₀ log sv) {i : ℕ} (hi : sv.sessions.length ≤ i) :
    ofSession i log = [] := by
  refine List.filter_eq_nil_iff.2 fun a ha => ?_
  have hlt := h.made a ha
  simp
  omega

/-- a request and its response in the log -/
theorem Explained.answered (h : Explained env d₀ s₀ log sv) {j k : ℕ} {s : Session (World σ)}
    (hs : sv.sessions[j]? = some s) {request : Request} {response : Response} (hcall : s.calls[k]? = some request)
    (hsent : s.sent[k]? = some response) : ∃ a ∈ log, a.request = request ∧ a.response = response := by
  rw [h.calls j s hs, List.getElem?_map] at hcall
  obtain ⟨a, ha, rfl⟩ := Option.map_eq_some_iff.1 hcall
  refine ⟨a, (List.mem_filter.1 (List.mem_of_getElem? ha)).1, rfl, ?_⟩
  have hresponse : ((ofSession j log).map Answered.response)[k]? = some a.response := by
    rw [List.getElem?_map, ha, Option.map_some]
  rcases h.sent j s hs with heq | ⟨heq, -⟩
  · rw [heq, hresponse] at hsent
    exact Option.some.inj hsent
  · rw [heq, List.getElem?_append_left (List.getElem?_eq_some_iff.1 hresponse).1, hresponse] at hsent
    exact Option.some.inj hsent

theorem Explained.step_accept (h : Explained env d₀ s₀ log sv) {n : ℕ} (hallocated : Allocated events n sv)
    (hwaits : ∀ s, sv.sessions[n]? = some s → s.calls = []) {j : ℕ} {error : Bool}
    (hstep : sv.step env u junk (.accept j error) = some sv') : Explained env d₀ s₀ log sv' := by
  obtain ⟨⟨-, hmem⟩, rfl⟩ := System.step_accept.1 hstep
  obtain rfl : j = n := by
    rw [hallocated.accepting] at hmem
    exact List.mem_singleton.1 hmem
  have hlt : j < sv.sessions.length := by rw [hallocated.count]; omega
  have hnone : ofSession j log = [] := by
    have hcalls := h.calls j _ (List.getElem?_eq_getElem hlt)
    rw [hwaits _ (List.getElem?_eq_getElem hlt)] at hcalls
    exact List.map_eq_nil_iff.1 hcalls.symm
  have hnext : ofSession (j + 1) log = [] := h.ofSession_new (by rw [hallocated.count])
  refine ⟨h.serial, fun a ha => ?_, sessions_accept hallocated.count ?_ ?_ fun i s _ => h.calls i s,
    sessions_accept hallocated.count ?_ ?_ fun i s _ => h.sent i s⟩
  · have := h.made a ha
    simp [Server.startAccept]
    omega
  · rw [hnone]
    cases error <;> rfl
  · rw [hnext]
    rfl
  · rw [hnone]
    cases error <;> exact Or.inl rfl
  · rw [hnext]
    exact Or.inl rfl

/-- a request that is completed is the next one -/
theorem Serial.answer {d : Dispatch.Dispatcher} {w : World σ} (h : Serial env d s₀ log w.dispatcher w.state)
    (hup : w.crash = none) (i : ℕ) (request : Request) :
    ((w.after env request).crash = none →
        Serial env d s₀ (log ++ [⟨i, request, ((sharedCalls env).handleRequest w request).1⟩])
          (w.after env request).dispatcher (w.after env request).state) ∧
      ∀ e, (w.after env request).crash = some e → (w.dispatcher.complete env request w.state).1 = .error e := by
  obtain ⟨hdispatcher, hstate, hresult⟩ := @sharedCalls_complete σ env w hup request
  rcases hcomplete : w.dispatcher.complete env request w.state with ⟨e | response, d', s'⟩
  · rw [hcomplete] at hresult
    simp only at hresult
    rw [hresult]
    exact ⟨nofun, fun e' he' => by rw [Option.some.inj he']⟩
  · rw [hcomplete] at hdispatcher hstate hresult
    simp only at hdispatcher hstate hresult
    obtain ⟨hresponse, hnone⟩ := hresult
    rw [hnone, hresponse, hdispatcher, hstate]
    exact ⟨fun _ => .next h hcomplete, nofun⟩

theorem Explained.step_session (h : Explained env d₀ s₀ log sv) {n : ℕ} (hallocated : Allocated events n sv) {i : ℕ}
    {e : Server.Event} (hstep : sv.step env u junk (.session i e) = some sv') :
    (sv'.world.crash = none → ∃ log', Explained env d₀ s₀ log' sv') ∧
      ∀ crash, sv'.world.crash = some crash →
        ∃ request, (sv.world.dispatcher.complete env request sv.world.state).1 = .error crash := by
  obtain ⟨hup, s, s', hs, hsession, rfl⟩ := System.step_session.1 hstep
  obtain ⟨hlt, -⟩ := List.getElem?_eq_some_iff.1 hs
  -- at most one operation is pending
  have hone : s.pending.length ≤ 1 := by
    rcases hallocated.owned s (List.mem_of_getElem? hs) with (⟨hone, -⟩ | ⟨hnone, -⟩) | ⟨-, hnone⟩
    · omega
    · simp [hnone]
    · simp [hnone]
  have hread : .handleRead ∈ s.pending → s.pending = [.handleRead] := by
    intro hmem
    obtain ⟨c, hc⟩ := List.length_eq_one_iff.1 (Nat.le_antisymm hone (List.length_pos_of_mem hmem))
    rw [hc] at hmem ⊢
    rw [List.mem_singleton.1 hmem]
  have hmade : ∀ a ∈ log, a.session < (sv.sessions.set i s').length := by
    rw [List.length_set]
    exact h.made
  have hunsent := h.sent i s hs
  cases step_does hsession with
  | nothing hworld hcalls hsent hpending =>
    simp only at hworld hcalls hsent hpending
    rw [hworld]
    refine ⟨fun _ => ⟨log, h.serial, hmade, sessions_set ?_ fun j s _ => h.calls j s,
      sessions_set ?_ fun j s _ => h.sent j s⟩, ?_⟩
    · rw [hcalls]
      exact h.calls i s hs
    · rcases hunsent with heq | ⟨heq, hclosed⟩
      · exact Or.inl (hsent.trans heq)
      · refine Or.inr ⟨hsent.trans heq, fun c hc => by_contra fun hne => ?_⟩
        obtain ⟨c', hc', hne'⟩ := hpending c hc hne
        exact hne' (hclosed c' hc')
    · intro crash hcrash
      rw [hup] at hcrash
      cases hcrash
  | refuses hworld hcalls hsent hmem hpending =>
    simp only at hworld hcalls hsent hmem hpending
    rw [hworld]
    refine ⟨fun _ => ⟨log, h.serial, hmade, sessions_set ?_ fun j s _ => h.calls j s,
      sessions_set ?_ fun j s _ => h.sent j s⟩, ?_⟩
    · rw [hcalls]
      exact h.calls i s hs
    · rcases hunsent with heq | ⟨-, hclosed⟩
      · refine Or.inr ⟨by rw [hsent, heq], ?_⟩
        rw [hpending, hread hmem]
        simp
      · exact absurd (hclosed _ hmem) (by decide)
    · intro crash hcrash
      rw [hup] at hcrash
      cases hcrash
  | answers request hworld hcalls hsent hmem =>
    simp only at hworld hcalls hsent hmem
    obtain ⟨hnext, hcrashed⟩ := h.serial.answer hup i request
    rw [hworld]
    refine ⟨fun hnone => ⟨_, hnext hnone, ?_, sessions_set ?_ ?_, sessions_set ?_ ?_⟩,
      fun crash hcrash => ⟨request, hcrashed crash hcrash⟩⟩
    · intro a ha
      rcases List.mem_append.1 ha with ha | ha
      · exact hmade a ha
      · rw [List.mem_singleton.1 ha, List.length_set]
        exact hlt
    · rw [ofSession_self, hcalls, h.calls i s hs, List.map_append]
      rfl
    · intro j s₁ hne hs₁
      rw [ofSession_ne hne]
      exact h.calls j s₁ hs₁
    · rw [ofSession_self, List.map_append]
      rcases hunsent with heq | ⟨-, hclosed⟩
      · exact Or.inl (by rw [hsent, heq]; rfl)
      · exact absurd (hclosed _ hmem) (by decide)
    · intro j s₁ hne hs₁
      rw [ofSession_ne hne]
      exact h.sent j s₁ hs₁

theorem explained_start (d₀ : Dispatch.Dispatcher) (s₀ : σ) : Explained env d₀ s₀ [] (Server.start u d₀ s₀) := by
  have hfirst : ∀ (i : ℕ) (s : Session (World σ)), (Server.start u d₀ s₀).sessions[i]? = some s →
      s.calls = [] ∧ s.sent = [] := by
    intro i s hs
    rw [List.mem_singleton.1 (List.mem_of_getElem? hs)]
    exact ⟨rfl, rfl⟩
  exact ⟨.start, nofun, fun i s hs => (hfirst i s hs).1, fun i s hs => Or.inl (hfirst i s hs).2⟩

/-- **Run lemma.** While the server is up, what it has done is explained by a log. -/
theorem run_explained (hrun : (Server.start u d₀ s₀).run env u junk events = some sv) :
    (sv.world.crash = none → ∃ log, Explained env d₀ s₀ log sv) ∧
      ∀ crash, sv.world.crash = some crash → ∃ log d s request, Serial env d₀ s₀ log d s ∧
        (d.complete env request s).1 = .error crash := by
  induction events using List.reverseRecOn generalizing sv with
  | nil =>
    rw [← Option.some.inj hrun]
    exact ⟨fun _ => ⟨[], explained_start d₀ s₀⟩, nofun⟩
  | append_singleton events e ih =>
    obtain ⟨sv₁, hrun₁, hstep⟩ := run_concat.1 hrun
    have hup : sv₁.world.crash = none := by
      cases e with
      | accept i error => exact (System.step_accept.1 hstep).1.1
      | session i e => exact (System.step_session.1 hstep).1
    obtain ⟨log, h⟩ := (ih hrun₁).1 hup
    obtain ⟨n, hallocated⟩ := run_allocated hrun₁
    cases e with
    | accept i error =>
      obtain ⟨m, halone⟩ := run_alone Server.notFound () hrun₁
      obtain rfl : m = n := List.singleton_inj.1 (halone.accepting.symm.trans hallocated.accepting)
      have hexplained := h.step_accept hallocated
        (fun s hs => congrArg Session.calls (halone.waits sv₁.world s hs)) hstep
      have hworld : sv.world = sv₁.world := by
        rw [(System.step_accept.1 hstep).2]
        rfl
      refine ⟨fun _ => ⟨log, hexplained⟩, fun crash hdown => ?_⟩
      rw [hworld, hup] at hdown
      cases hdown
    | session i e =>
      obtain ⟨hexplained, hcrash⟩ := h.step_session hallocated hstep
      refine ⟨hexplained, fun crash hdown => ?_⟩
      obtain ⟨request, hrequest⟩ := hcrash crash hdown
      exact ⟨log, _, _, request, h.serial, hrequest⟩

end BlogServer.System
