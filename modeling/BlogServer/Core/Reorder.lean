/-
Actions that may be taken in another order.

Some actions of a sequence may change places, and others stay between them (`weave`). An action may fail, and what it
does may depend on what was done before it. Where in every order of the movable actions each action succeeds and makes
one and the same change to what is observed, and the changes of a movable action commute with all others, every order
succeeds, and the same is observed in the end (`Independent.run_perm`).

- `foldl_weave_perm`: changes that commute.
- `Independent.of_invariant`: an invariant under which every action makes its change.
-/
import Mathlib.Data.List.Induction
import Mathlib.Data.List.Perm.Basic
import Mathlib.Logic.Function.Conjugate

namespace BlogServer.Reorder

variable {α σ ω : Type*}

/-- movable actions, each with one behind it that stays, as long as there are any -/
def weave : List α → List α → List α
  | _, [] => []
  | [], a :: as => a :: weave [] as
  | b :: bs, a :: as => a :: b :: weave bs as

@[simp] theorem weave_nil (as : List α) : weave [] as = as := by
  induction as with
  | nil => rfl
  | cons a as ih => rw [weave, ih]

theorem mem_weave {bs as : List α} {x : α} (h : x ∈ weave bs as) : x ∈ as ∨ x ∈ bs := by
  induction bs, as using weave.induct with
  | case1 bs => cases h
  | case2 a as ih =>
    rcases List.mem_cons.1 h with rfl | h
    · exact Or.inl List.mem_cons_self
    · exact (ih h).imp (List.mem_cons_of_mem a) id
  | case3 b bs a as ih =>
    rcases List.mem_cons.1 h with rfl | h
    · exact Or.inl List.mem_cons_self
    · rcases List.mem_cons.1 h with rfl | h
      · exact Or.inr List.mem_cons_self
      · exact (ih h).imp (List.mem_cons_of_mem a) (List.mem_cons_of_mem b)

/-! ## Changes -/

/-- one change after the other -/
def changes (change : α → ω → ω) (l : List α) (w : ω) : ω := l.foldl (fun w a => change a w) w

/-- **Changes that commute** come to the same in every order. -/
theorem changes_weave_perm {change : α → ω → ω} {as as' : List α} (hperm : as'.Perm as) (bs : List α)
    (hmovable : ∀ a ∈ as, ∀ a' ∈ as, Function.Commute (change a) (change a'))
    (hfixed : ∀ a ∈ as, ∀ b ∈ bs, Function.Commute (change a) (change b)) (w : ω) :
    changes change (weave bs as') w = changes change (weave bs as) w := by
  induction hperm generalizing bs w with
  | nil => rfl
  | @cons a as' as _ ih =>
    have hrest : ∀ x ∈ as, ∀ y ∈ as, Function.Commute (change x) (change y) := fun x hx y hy =>
      hmovable x (List.mem_cons_of_mem a hx) y (List.mem_cons_of_mem a hy)
    cases bs with
    | nil => exact ih [] hrest (fun _ _ _ hb => absurd hb List.not_mem_nil) _
    | cons b bs =>
      exact ih bs hrest (fun x hx y hy => hfixed x (List.mem_cons_of_mem a hx) y (List.mem_cons_of_mem b hy)) _
  | swap a a' as =>
    have hswap : Function.Commute (change a) (change a') :=
      hmovable a List.mem_cons_self a' (List.mem_cons_of_mem a List.mem_cons_self)
    -- what stays between the two
    rcases bs with _ | ⟨b, bs⟩
    · exact congrArg (changes change (weave [] as)) (hswap w)
    · have hb : Function.Commute (change a) (change b) := hfixed a List.mem_cons_self b List.mem_cons_self
      have hb' : Function.Commute (change a') (change b) :=
        hfixed a' (List.mem_cons_of_mem a List.mem_cons_self) b List.mem_cons_self
      have hthree : change a' (change b (change a w)) = change a (change b (change a' w)) := by
        rw [hb' (change a w), hb (change a' w), hswap w]
      rcases bs with _ | ⟨b', bs⟩
      · exact congrArg (changes change (weave [] as)) hthree.symm
      · exact congrArg (fun w => changes change (weave bs as) (change b' w)) hthree.symm
  | @trans as₁ as₂ as₃ h₁₂ h₂₃ ih₁₂ ih₂₃ =>
    have hmem : ∀ {a}, a ∈ as₂ → a ∈ as₃ := fun ha => h₂₃.mem_iff.1 ha
    rw [ih₁₂ bs (fun a ha a' ha' => hmovable a (hmem ha) a' (hmem ha')) (fun a ha => hfixed a (hmem ha)),
      ih₂₃ bs hmovable hfixed]

/-! ## Actions -/

/-- one action after the other; one that fails ends the run -/
def run (step : α → σ → Option σ) (l : List α) (s : σ) : Option σ := l.foldlM (fun s a => step a s) s

section Run

variable {step : α → σ → Option σ}

theorem run_append (l l' : List α) (s : σ) : run step (l ++ l') s = (run step l s).bind (run step l') :=
  List.foldlM_append

theorem run_concat (l : List α) (a : α) (s : σ) : run step (l ++ [a]) s = (run step l s).bind (step a) := by
  rw [run_append]
  congr 1
  funext s'
  exact bind_pure (step a s')

variable (step) (obs : σ → ω) (change : α → ω → ω)

/-- after any of the actions before it, each of these succeeds and makes its change to what is observed -/
def Alike (l : List α) (s : σ) : Prop :=
  ∀ before a behind, l = before ++ a :: behind → ∀ s', run step before s = some s' →
    ∃ s'', step a s' = some s'' ∧ obs s'' = change a (obs s')

variable {step obs change} {l : List α} {s : σ}

/-- **Run lemma.** -/
theorem Alike.run (h : Alike step obs change l s) :
    ∃ s', run step l s = some s' ∧ obs s' = changes change l (obs s) := by
  -- on the actions up to some place
  suffices hpart : ∀ before behind, l = before ++ behind →
      ∃ s', Reorder.run step before s = some s' ∧ obs s' = changes change before (obs s) from
    hpart l [] (List.append_nil l).symm
  intro before
  induction before using List.reverseRecOn with
  | nil => exact fun _ _ => ⟨s, rfl, rfl⟩
  | append_singleton before a ih =>
    intro behind heq
    rw [List.append_assoc, List.singleton_append] at heq
    obtain ⟨s₁, hrun, hobs⟩ := ih (a :: behind) heq
    obtain ⟨s₂, hstep, hchange⟩ := h before a behind heq s₁ hrun
    refine ⟨s₂, ?_, ?_⟩
    · rw [run_concat, hrun]
      exact hstep
    · rw [hchange, hobs, changes, changes, List.foldl_append]
      rfl

/-- in every order of the movable actions `as`, with `bs` between them, each action makes its change, and the changes of
a movable one commute with all others -/
structure Independent (step : α → σ → Option σ) (obs : σ → ω) (change : α → ω → ω) (bs as : List α) (s : σ) : Prop where
  alike : ∀ as', as'.Perm as → Alike step obs change (weave bs as') s
  movable : ∀ a ∈ as, ∀ a' ∈ as, Function.Commute (change a) (change a')
  fixed : ∀ a ∈ as, ∀ b ∈ bs, Function.Commute (change a) (change b)

variable {bs as as' : List α}

/-- **The order is immaterial**: every order succeeds, and the same is observed in the end. -/
theorem Independent.run_perm (h : Independent step obs change bs as s) (hperm : as'.Perm as) :
    ∃ s₁ s₂, Reorder.run step (weave bs as') s = some s₁ ∧ Reorder.run step (weave bs as) s = some s₂ ∧
      obs s₁ = obs s₂ := by
  obtain ⟨s₁, hrun₁, hobs₁⟩ := (h.alike as' hperm).run
  obtain ⟨s₂, hrun₂, hobs₂⟩ := (h.alike as (.refl as)).run
  refine ⟨s₁, s₂, hrun₁, hrun₂, ?_⟩
  rw [hobs₁, hobs₂, changes_weave_perm hperm bs h.movable h.fixed]

/-- **An invariant for independence**: it holds at the beginning, and where it does every action keeps it and makes its
change. -/
theorem Independent.of_invariant {I : σ → Prop} (hstart : I s)
    (hstep : ∀ a, a ∈ as ∨ a ∈ bs → ∀ s', I s' → ∃ s'', step a s' = some s'' ∧ I s'' ∧ obs s'' = change a (obs s'))
    (hmovable : ∀ a ∈ as, ∀ a' ∈ as, Function.Commute (change a) (change a'))
    (hfixed : ∀ a ∈ as, ∀ b ∈ bs, Function.Commute (change a) (change b)) :
    Independent step obs change bs as s := by
  refine ⟨fun as' hperm before a behind heq s' hrun => ?_, hmovable, hfixed⟩
  have hmem : ∀ x ∈ before ++ a :: behind, x ∈ as ∨ x ∈ bs := fun x hx =>
    (mem_weave (heq ▸ hx)).imp hperm.mem_iff.1 id
  have hkept : I s' := by
    clear heq
    induction before using List.reverseRecOn generalizing s' with
    | nil => exact Option.some.inj hrun ▸ hstart
    | append_singleton before x ih =>
      rw [run_concat] at hrun
      obtain ⟨s₁, hrun₁, hlast⟩ := Option.bind_eq_some_iff.1 hrun
      have hI := ih s₁ hrun₁ fun y hy => hmem y (by simp at hy ⊢; tauto)
      obtain ⟨s₂, hstep₂, hI₂, -⟩ := hstep x (hmem x (by simp)) s₁ hI
      exact Option.some.inj (hstep₂.symm.trans hlast) ▸ hI₂
  obtain ⟨s'', hgoes, -, hobs⟩ := hstep a (hmem a (by simp)) s' hkept
  exact ⟨s'', hgoes, hobs⟩

end Run

end BlogServer.Reorder
