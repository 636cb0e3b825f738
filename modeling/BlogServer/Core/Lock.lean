/-
An object under one lock.

The operations of the object run in steps on its state. A thread that calls one waits for the lock, runs the steps, and
gives the lock back when it has a result; between any two steps of it, other threads take theirs. The calls that have
returned, in the order of their unlocks, are whole operations one after another, with the same results
(`Reaches.linearized`). At most one thread holds the lock, and there is always a step while some thread has not
returned.

- `Atomic.next`: what one step preserves.
- `Sequential.calls`: whole operations that come to what a function gives.
-/
import Mathlib.Logic.Function.Basic
import Mathlib.Data.List.Basic

namespace BlogServer.Lock

variable {ι σ Op L R : Type*}

/-! ## Operations -/

/-- the operations of an object: what is local to one at its start, and its steps, the last of which gives the result -/
structure Operations (σ Op L R : Type*) where
  enter : Op → L
  step : L → σ → (L ⊕ R) × σ

/-- the steps of an operation to its end, with no others in between -/
inductive Runs (o : Operations σ Op L R) : L → σ → R → σ → Prop where
  | last {l s r s'} (h : o.step l s = (.inr r, s')) : Runs o l s r s'
  | next {l s l' s' r s''} (h : o.step l s = (.inl l', s')) (hrest : Runs o l' s' r s'') : Runs o l s r s''

/-- an operation that nothing comes in between comes to one end -/
theorem Runs.unique {o : Operations σ Op L R} {l : L} {s s₁ s₂ : σ} {r₁ r₂ : R} (h₁ : Runs o l s r₁ s₁)
    (h₂ : Runs o l s r₂ s₂) : r₁ = r₂ ∧ s₁ = s₂ := by
  induction h₁ with
  | last h =>
    cases h₂ with
    | last h' =>
      rw [h] at h'
      cases h'
      exact ⟨rfl, rfl⟩
    | next h' =>
      rw [h] at h'
      cases h'
  | next h _ ih =>
    cases h₂ with
    | last h' =>
      rw [h] at h'
      cases h'
    | next h' hrest =>
      rw [h] at h'
      cases h'
      exact ih hrest

/-- a call that has returned -/
structure Returned (ι Op R : Type*) where
  thread : ι
  op : Op
  result : R

/-- whole operations, one after another -/
inductive Sequential (o : Operations σ Op L R) (s₀ : σ) : List (Returned ι Op R) → σ → Prop where
  | start : Sequential o s₀ [] s₀
  | next {log s i op r s'} (h : Sequential o s₀ log s) (hruns : Runs o (o.enter op) s r s') :
    Sequential o s₀ (log ++ [⟨i, op, r⟩]) s'

/-- the state after operations, each of which is a function -/
def after (f : Op → σ → R × σ) (s : σ) (ops : List Op) : σ := ops.foldl (fun s op => (f op s).2) s

theorem after_concat (f : Op → σ → R × σ) (s : σ) (ops : List Op) (op : Op) :
    after f s (ops ++ [op]) = (f op (after f s ops)).2 := by
  simp [after]

/-- **Calls.** Where every whole operation is what a function gives, each call has returned what the function gives in
the state after those before it. -/
theorem Sequential.calls {o : Operations σ Op L R} {f : Op → σ → R × σ}
    (hf : ∀ op s r s', Runs o (o.enter op) s r s' → f op s = (r, s')) {s₀ s : σ} {log : List (Returned ι Op R)}
    (h : Sequential o s₀ log s) :
    s = after f s₀ (log.map Returned.op) ∧ ∀ before e rest, log = before ++ e :: rest →
      e.result = (f e.op (after f s₀ (before.map Returned.op))).1 := by
  induction h with
  | start => exact ⟨rfl, fun before e rest heq => absurd heq.symm (by simp)⟩
  | @next log s i op r s' _ hruns ih =>
    obtain ⟨rfl, hresults⟩ := ih
    have hop := hf _ _ _ _ hruns
    refine ⟨?_, fun before e rest heq => ?_⟩
    · rw [List.map_append, List.map_singleton, after_concat, hop]
    · rcases List.eq_nil_or_concat' rest with rfl | ⟨rest, last, rfl⟩
      · obtain ⟨rfl, hlast⟩ := List.append_inj' heq rfl
        obtain rfl := (List.cons.inj hlast).1
        exact (congrArg Prod.fst hop).symm
      · rw [← List.cons_append, ← List.append_assoc] at heq
        exact hresults before e rest (List.append_inj' heq rfl).1

/-! ## Threads -/

/-- where a thread is -/
inductive Phase (Op L R : Type*) where
  | idle
  | waiting (op : Op)
  | inside (op : Op) (l : L)
  | leaving (op : Op) (r : R)

/-- the thread is between its lock and its unlock -/
def Phase.Holds : Phase Op L R → Prop
  | .idle => False
  | .waiting _ => False
  | .inside _ _ => True
  | .leaving _ _ => True

/-- the object, its lock, and the threads -/
structure Shared (ι σ Op L R : Type*) where
  state : σ
  owner : Option ι
  phase : ι → Phase Op L R

/-- nothing is called yet -/
def Shared.start (s₀ : σ) : Shared ι σ Op L R := ⟨s₀, none, fun _ => .idle⟩

/-- a step of a thread, and the calls that return with it -/
inductive Step [DecidableEq ι] (o : Operations σ Op L R) (g : Shared ι σ Op L R) :
    List (Returned ι Op R) → Shared ι σ Op L R → Prop where
  | call (i : ι) (op : Op) (hidle : g.phase i = .idle) :
    Step o g [] { g with phase := Function.update g.phase i (.waiting op) }
  | lock (i : ι) (op : Op) (hwaiting : g.phase i = .waiting op) (hfree : g.owner = none) :
    Step o g [] { g with owner := some i, phase := Function.update g.phase i (.inside op (o.enter op)) }
  | inside (i : ι) (op : Op) {l l' : L} {s' : σ} (hinside : g.phase i = .inside op l)
      (hstep : o.step l g.state = (.inl l', s')) :
    Step o g [] { g with state := s', phase := Function.update g.phase i (.inside op l') }
  | last (i : ι) (op : Op) {l : L} {r : R} {s' : σ} (hinside : g.phase i = .inside op l)
      (hstep : o.step l g.state = (.inr r, s')) :
    Step o g [] { g with state := s', phase := Function.update g.phase i (.leaving op r) }
  | unlock (i : ι) (op : Op) (r : R) (hleaving : g.phase i = .leaving op r) :
    Step o g [⟨i, op, r⟩] { g with owner := none, phase := Function.update g.phase i .idle }

/-- steps of the threads in any order, and the calls that have returned -/
inductive Reaches [DecidableEq ι] (o : Operations σ Op L R) (s₀ : σ) :
    List (Returned ι Op R) → Shared ι σ Op L R → Prop where
  | start : Reaches o s₀ [] (.start s₀)
  | step {log g returned g'} (h : Reaches o s₀ log g) (hstep : Step o g returned g') :
    Reaches o s₀ (log ++ returned) g'

/-! ## Atomicity -/

/-- how far the operation of the thread that holds the lock has come since the state `s` -/
def Midway (o : Operations σ Op L R) (s : σ) : Phase Op L R → σ → Prop
  | .inside op l, s' => ∀ r s'', Runs o l s' r s'' → Runs o (o.enter op) s r s''
  | .leaving op r, s' => Runs o (o.enter op) s r s'
  | .idle, _ => False
  | .waiting _, _ => False

/-- the owner is the one thread that holds the lock, and since the last unlock no other has touched the object -/
structure Atomic (o : Operations σ Op L R) (s₀ : σ) (log : List (Returned ι Op R)) (g : Shared ι σ Op L R) : Prop where
  holds : ∀ i, (g.phase i).Holds → g.owner = some i
  free : g.owner = none → Sequential o s₀ log g.state
  held : ∀ i, g.owner = some i → ∃ s, Sequential o s₀ log s ∧ Midway o s (g.phase i) g.state

variable {o : Operations σ Op L R} {s₀ : σ} {log returned : List (Returned ι Op R)} {g g' : Shared ι σ Op L R}

theorem atomic_start : Atomic o s₀ [] (Shared.start s₀ : Shared ι σ Op L R) :=
  ⟨fun _ h => h.elim, fun _ => .start, nofun⟩

variable [DecidableEq ι]

/-- a thread that does not hold the lock has moved, and the owner has not -/
theorem Atomic.held_update (h : Atomic o s₀ log g) {i : ι} (hi : ¬ (g.phase i).Holds) (phase : Phase Op L R) (j : ι)
    (hj : g.owner = some j) : ∃ s, Sequential o s₀ log s ∧ Midway o s (Function.update g.phase i phase j) g.state := by
  obtain ⟨s, hs, hmidway⟩ := h.held j hj
  refine ⟨s, hs, ?_⟩
  have hne : j ≠ i := by
    rintro rfl
    cases hphase : g.phase j with
    | idle | waiting =>
      rw [hphase] at hmidway
      exact hmidway
    | inside | leaving =>
      rw [hphase] at hi
      exact hi trivial
  rwa [Function.update_of_ne hne]

/-- the other threads are where they were -/
theorem holds_update (i : ι) (phase : Phase Op L R) {owner : Option ι}
    (hself : phase.Holds → owner = some i) (hothers : ∀ j, j ≠ i → (g.phase j).Holds → owner = some j) (j : ι)
    (hj : (Function.update g.phase i phase j).Holds) : owner = some j := by
  rcases eq_or_ne j i with rfl | hne
  · rw [Function.update_self] at hj
    exact hself hj
  · rw [Function.update_of_ne hne] at hj
    exact hothers j hne hj

/-- **Step lemma.** -/
theorem Atomic.next (h : Atomic o s₀ log g) (hstep : Step o g returned g') : Atomic o s₀ (log ++ returned) g' := by
  cases hstep with
  | call i op hidle =>
    rw [List.append_nil]
    refine ⟨holds_update i _ False.elim fun j _ => h.holds j, h.free, h.held_update ?_ _⟩
    rw [hidle]
    exact id
  | lock i op hwaiting hfree =>
    rw [List.append_nil]
    refine ⟨holds_update i _ (fun _ => rfl) fun j _ hj => ?_, nofun, fun j hj => ?_⟩
    · rw [h.holds j hj] at hfree
      cases hfree
    · obtain rfl := Option.some.inj hj
      refine ⟨g.state, h.free hfree, ?_⟩
      simp only [Function.update_self]
      exact fun _ _ => id
  | @inside i op l l' s' hinside hstep =>
    rw [List.append_nil]
    have howner : g.owner = some i := h.holds i (by rw [hinside]; trivial)
    refine ⟨holds_update i _ (fun _ => howner) fun j _ => h.holds j, fun hfree => ?_, fun j hj => ?_⟩
    · rw [howner] at hfree
      cases hfree
    · obtain rfl := Option.some.inj (howner.symm.trans hj)
      obtain ⟨s, hs, hmidway⟩ := h.held i howner
      rw [hinside] at hmidway
      refine ⟨s, hs, ?_⟩
      simp only [Function.update_self]
      exact fun r s'' hrest => hmidway r s'' (.next hstep hrest)
  | @last i op l r s' hinside hstep =>
    rw [List.append_nil]
    have howner : g.owner = some i := h.holds i (by rw [hinside]; trivial)
    refine ⟨holds_update i _ (fun _ => howner) fun j _ => h.holds j, fun hfree => ?_, fun j hj => ?_⟩
    · rw [howner] at hfree
      cases hfree
    · obtain rfl := Option.some.inj (howner.symm.trans hj)
      obtain ⟨s, hs, hmidway⟩ := h.held i howner
      rw [hinside] at hmidway
      refine ⟨s, hs, ?_⟩
      simp only [Function.update_self]
      exact hmidway r s' (.last hstep)
  | unlock i op r hleaving =>
    have howner : g.owner = some i := h.holds i (by rw [hleaving]; trivial)
    obtain ⟨s, hs, hmidway⟩ := h.held i howner
    rw [hleaving] at hmidway
    refine ⟨holds_update i _ False.elim fun j hne hj => ?_, fun _ => .next hs hmidway, nofun⟩
    exact absurd (Option.some.inj ((h.holds j hj).symm.trans howner)) hne

/-- **Run lemma.** -/
theorem Reaches.atomic (h : Reaches o s₀ log g) : Atomic o s₀ log g := by
  induction h with
  | start => exact atomic_start
  | step _ hstep ih => exact ih.next hstep

/-- **Whole operations.** However the steps of the threads are mixed, the calls that have returned are operations one
after another, and while the lock is free the object is in the state after them. -/
theorem Reaches.linearized (h : Reaches o s₀ log g) : ∃ s, Sequential o s₀ log s ∧ (g.owner = none → g.state = s) := by
  have hatomic := h.atomic
  cases howner : g.owner with
  | none => exact ⟨g.state, hatomic.free howner, fun _ => rfl⟩
  | some i =>
    obtain ⟨s, hs, -⟩ := hatomic.held i howner
    exact ⟨s, hs, nofun⟩

/-- at most one thread holds the lock -/
theorem Reaches.exclusive (h : Reaches o s₀ log g) {i j : ι} (hi : (g.phase i).Holds) (hj : (g.phase j).Holds) :
    i = j :=
  Option.some.inj ((h.atomic.holds i hi).symm.trans (h.atomic.holds j hj))

/-- **No deadlock.** While some thread has not returned, there is a step that is no new call. -/
theorem Reaches.progress (h : Reaches o s₀ log g) {i : ι} (hi : g.phase i ≠ .idle) :
    ∃ returned g', Step o g returned g' ∧ ∀ j op, g'.phase j = .waiting op → g.phase j = .waiting op := by
  have hupdate : ∀ (j : ι) (phase : Phase Op L R), (∀ op, phase ≠ .waiting op) → ∀ k op,
      Function.update g.phase j phase k = .waiting op → g.phase k = .waiting op := by
    intro j phase hphase k op hk
    rcases eq_or_ne k j with rfl | hne
    · rw [Function.update_self] at hk
      exact absurd hk (hphase op)
    · rwa [Function.update_of_ne hne] at hk
  -- a thread that holds the lock can go on
  have hgo : ∀ j, (g.phase j).Holds → ∃ returned g', Step o g returned g' ∧
      ∀ k op, g'.phase k = .waiting op → g.phase k = .waiting op := by
    intro j hj
    cases hphase : g.phase j with
    | idle | waiting =>
      rw [hphase] at hj
      exact hj.elim
    | inside op l =>
      rcases hstep : o.step l g.state with ⟨l' | r, s'⟩
      · exact ⟨_, _, .inside j op hphase hstep, hupdate j _ nofun⟩
      · exact ⟨_, _, .last j op hphase hstep, hupdate j _ nofun⟩
    | leaving op r => exact ⟨_, _, .unlock j op r hphase, hupdate j _ nofun⟩
  cases hphase : g.phase i with
  | idle => exact absurd hphase hi
  | inside | leaving => exact hgo i (by rw [hphase]; trivial)
  | waiting op =>
    cases howner : g.owner with
    | none => exact ⟨_, _, .lock i op hphase howner, hupdate i _ nofun⟩
    | some j =>
      refine hgo j ?_
      obtain ⟨s, -, hmidway⟩ := h.atomic.held j howner
      cases hphase' : g.phase j with
      | idle | waiting =>
        rw [hphase'] at hmidway
        exact hmidway.elim
      | inside | leaving => trivial

end BlogServer.Lock
