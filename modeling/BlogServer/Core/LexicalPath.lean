/-
Paths as lists of components, resolved without looking at what they name.

`resolve` reads a path from left to right against the stack of what it has come to: `.` changes nothing, `..` takes the
last name away, or stays when there is none. A path is confined when no `..` is left.

- `confined_iff_balanced`: a path is confined exactly when it never goes up more often than it has gone down.
-/
import Mathlib.Tactic

namespace BlogServer.LexicalPath

/-- a component: nothing or `.`, `..`, or a name -/
inductive Component (α : Type*) where
  | here
  | up
  | name (a : α)
deriving DecidableEq

variable {α : Type*}

/-- a component against the resolved path before it, innermost component first -/
def push : List (Component α) → Component α → List (Component α)
  | stack, .here => stack
  | .name _ :: stack, .up => stack
  | stack, c => c :: stack

/-- the resolved path, innermost component first -/
def resolve (path : List (Component α)) : List (Component α) := path.foldl push []

/-- the resolved path does not begin above where the path begins -/
def Confined (path : List (Component α)) : Prop := .up ∉ resolve path

instance [DecidableEq α] (path : List (Component α)) : Decidable (Confined path) :=
  inferInstanceAs (Decidable (¬ _))

def Component.isUp : Component α → Bool
  | .up => true
  | _ => false

def Component.isName : Component α → Bool
  | .name _ => true
  | _ => false

/-- no beginning of the path goes up more often than down -/
def Balanced (path : List (Component α)) : Prop :=
  ∀ start, start <+: path → start.countP Component.isUp ≤ start.countP Component.isName

/-! ## Resolution, component by component -/

theorem resolve_snoc (path : List (Component α)) (c : Component α) : resolve (path ++ [c]) = push (resolve path) c := by
  rw [resolve, List.foldl_append]
  rfl

/-- a `..` at the bottom of the stack stays -/
theorem up_mem_push {stack : List (Component α)} (h : .up ∈ stack) (c : Component α) : .up ∈ push stack c := by
  cases c with
  | here => exact h
  | name a => exact List.mem_cons_of_mem _ h
  | up =>
    cases stack with
    | nil => cases h
    | cons d stack =>
      cases d with
      | here | up => exact List.mem_cons_self
      | name a =>
        rcases List.mem_cons.1 h with h | h
        · cases h
        · exact h

theorem Confined.of_snoc {path : List (Component α)} {c : Component α} (h : Confined (path ++ [c])) : Confined path := by
  intro hup
  apply h
  rw [resolve_snoc]
  exact up_mem_push hup c

/-- a confined path has come to a stack of names, as many as it went down more often than up -/
theorem Confined.depth {path : List (Component α)} (h : Confined path) :
    (∀ c ∈ resolve path, c.isName = true) ∧
      (resolve path).length + path.countP Component.isUp = path.countP Component.isName := by
  induction path using List.reverseRecOn with
  | nil => exact ⟨fun c hc => absurd hc List.not_mem_nil, rfl⟩
  | append_singleton path c ih =>
    obtain ⟨hnames, hdepth⟩ := ih h.of_snoc
    rw [resolve_snoc, List.countP_append, List.countP_append]
    cases c with
    | here => exact ⟨hnames, hdepth⟩
    | name a =>
      refine ⟨fun d hd => ?_, ?_⟩
      · rcases List.mem_cons.1 hd with rfl | hd
        · rfl
        · exact hnames d hd
      · simp only [push, List.length_cons, List.countP_singleton, Component.isUp, Component.isName, if_true,
          Bool.false_eq_true, if_false]
        omega
    | up =>
      cases hstack : resolve path with
      | nil =>
        -- the `..` would stay
        refine absurd ?_ h
        rw [resolve_snoc, hstack]
        exact List.mem_cons_self
      | cons d stack =>
        rw [hstack] at hnames hdepth
        cases d with
        | here | up => exact absurd (hnames _ List.mem_cons_self) Bool.false_ne_true
        | name a =>
          refine ⟨fun e he => hnames e (List.mem_cons_of_mem _ he), ?_⟩
          simp only [push, List.length_cons, List.countP_singleton, Component.isUp, Component.isName, if_true,
            Bool.false_eq_true, if_false] at hdepth ⊢
          omega

theorem Balanced.of_snoc {path : List (Component α)} {c : Component α} (h : Balanced (path ++ [c])) : Balanced path :=
  fun start hstart => h start (hstart.trans (List.prefix_append path [c]))

/-- **Confinement is balance**: no `..` is left exactly when no beginning of the path goes up more often than down. -/
theorem confined_iff_balanced (path : List (Component α)) : Confined path ↔ Balanced path := by
  constructor
  · intro h start hstart
    obtain ⟨rest, rfl⟩ := hstart
    have hconfined : Confined start := by
      induction rest using List.reverseRecOn with
      | nil => rwa [List.append_nil] at h
      | append_singleton rest c ih =>
        rw [← List.append_assoc] at h
        exact ih h.of_snoc
    have := hconfined.depth.2
    omega
  · intro h
    induction path using List.reverseRecOn with
    | nil => exact List.not_mem_nil
    | append_singleton path c ih =>
      have hconfined := ih h.of_snoc
      obtain ⟨hnames, hdepth⟩ := hconfined.depth
      intro hup
      rw [resolve_snoc] at hup
      cases c with
      | here => exact hconfined hup
      | name a =>
        rcases List.mem_cons.1 hup with hup | hup
        · cases hup
        · exact hconfined hup
      | up =>
        cases hstack : resolve path with
        | nil =>
          -- the path has gone up as often as down, and goes up once more
          have hall := h (path ++ [.up]) List.prefix_rfl
          rw [hstack] at hdepth
          simp only [List.countP_append, List.countP_singleton, Component.isUp, Component.isName, if_true,
            Bool.false_eq_true, if_false, List.length_nil] at hall hdepth
          omega
        | cons d stack =>
          rw [hstack] at hup hnames
          cases d with
          | here | up => exact absurd (hnames _ List.mem_cons_self) Bool.false_ne_true
          | name a =>
            apply hconfined
            rw [hstack]
            exact List.mem_cons_of_mem _ hup

end BlogServer.LexicalPath
