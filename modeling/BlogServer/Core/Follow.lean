/-
Following one thing to the next, until there is an end.

`next i a` is what is found at `a` in the call number `i`: another thing to go on with, or the end. `follow` makes a
bounded number of calls. It has the end exactly when fewer hops than calls lead to it (`follow_eq_some_iff`), and none
exactly when there are as many hops as calls (`follow_eq_none_iff`).

- `follow_eq_of_variant`: a loop that comes closer to its end with every hop, and at every hop to the same end.
- `follow_ends_iff`: some number of calls is enough exactly when the hops come to an end.
- `follow_never_iff`: no number of calls is enough exactly when the hops go on forever.
-/
import Mathlib.Tactic

namespace BlogServer

variable {α β : Type}

/-- at most `fuel` calls -/
def follow (next : ℕ → α → α ⊕ β) : ℕ → α → Option β
  | 0, _ => none
  | fuel + 1, a =>
    match next 0 a with
    | .inl b => follow (fun i => next (i + 1)) fuel b
    | .inr e => some e

/-- what is there after so many hops -/
inductive Reached (next : ℕ → α → α ⊕ β) (a : α) : ℕ → α → Prop where
  | start : Reached next a 0 a
  | hop {n b c} (h : Reached next a n b) (hnext : next n b = .inl c) : Reached next a (n + 1) c

/-- the hops after the first are those from where it leads to -/
theorem Reached.tail_iff {next : ℕ → α → α ⊕ β} {a b : α} (h : next 0 a = .inl b) (n : ℕ) (c : α) :
    Reached next a (n + 1) c ↔ Reached (fun i => next (i + 1)) b n c := by
  induction n generalizing c with
  | zero =>
    constructor
    · intro hc
      cases hc with
      | hop hstart hnext =>
        cases hstart
        rw [Sum.inl.inj (hnext.symm.trans h)]
        exact .start
    · intro hc
      cases hc
      exact .hop .start h
  | succ n ih =>
    constructor
    · intro hc
      cases hc with
      | hop hbefore hnext => exact .hop ((ih _).1 hbefore) hnext
    · intro hc
      cases hc with
      | hop hbefore hnext => exact .hop ((ih _).2 hbefore) hnext

/-- the hops lead to one place -/
theorem Reached.unique {next : ℕ → α → α ⊕ β} {a : α} {n : ℕ} {b c : α} (hb : Reached next a n b)
    (hc : Reached next a n c) : b = c := by
  induction n generalizing b c with
  | zero =>
    cases hb
    cases hc
    rfl
  | succ n ih =>
    cases hb with
    | hop hb hnext =>
      cases hc with
      | hop hc hnext' =>
        rw [ih hb hc] at hnext
        exact Sum.inl.inj (hnext.symm.trans hnext')

/-- nothing comes after an end -/
theorem Reached.of_end {next : ℕ → α → α ⊕ β} {a : α} {e : β} (h : next 0 a = .inr e) {n : ℕ} {c : α}
    (hc : Reached next a n c) : n = 0 := by
  induction hc with
  | start => rfl
  | hop hbefore hnext ih =>
    obtain rfl := ih
    cases hbefore
    rw [h] at hnext
    cases hnext

/-- **A loop with a variant.** If every call finds the end that it is to lead to, or a hop that makes `size` smaller and
leaves what it is to lead to as it is, the loop ends there, with one call more than the size. -/
theorem follow_eq_of_variant {next : ℕ → α → α ⊕ β} (size : α → ℕ) (value : α → β)
    (hnext : ∀ i a, next i a = .inr (value a) ∨ ∃ b, next i a = .inl b ∧ size b < size a ∧ value b = value a)
    {fuel : ℕ} {a : α} (h : size a < fuel) : follow next fuel a = some (value a) := by
  induction fuel generalizing next a with
  | zero => exact absurd h (Nat.not_lt_zero _)
  | succ fuel ih =>
    rw [follow]
    rcases hnext 0 a with hend | ⟨b, hhop, hsmaller, hsame⟩
    · rw [hend]
    · rw [hhop, ← hsame]
      exact ih (fun i => hnext (i + 1)) (by omega)

/-- **When there is an end**: fewer hops than calls lead to it. -/
theorem follow_eq_some_iff {next : ℕ → α → α ⊕ β} {fuel : ℕ} {a : α} {e : β} :
    follow next fuel a = some e ↔ ∃ n c, n < fuel ∧ Reached next a n c ∧ next n c = .inr e := by
  induction fuel generalizing next a with
  | zero => simp [follow]
  | succ fuel ih =>
    rw [follow]
    cases hnext : next 0 a with
    | inr e' =>
      constructor
      · intro h
        exact ⟨0, a, by omega, .start, by rw [hnext, Option.some.inj h]⟩
      · rintro ⟨n, c, -, hreached, hend⟩
        obtain rfl := hreached.of_end hnext
        cases hreached
        rw [hnext] at hend
        rw [Sum.inr.inj hend]
    | inl b =>
      simp only [ih]
      constructor
      · rintro ⟨n, c, hlt, hreached, hend⟩
        exact ⟨n + 1, c, by omega, (Reached.tail_iff hnext n c).2 hreached, hend⟩
      · rintro ⟨n, c, hlt, hreached, hend⟩
        cases n with
        | zero =>
          cases hreached
          rw [hnext] at hend
          cases hend
        | succ n => exact ⟨n, c, by omega, (Reached.tail_iff hnext n c).1 hreached, hend⟩

/-- **When there is none**: there are as many hops as calls. -/
theorem follow_eq_none_iff {next : ℕ → α → α ⊕ β} {fuel : ℕ} {a : α} :
    follow next fuel a = none ↔ ∃ c, Reached next a fuel c := by
  induction fuel generalizing next a with
  | zero => exact iff_of_true rfl ⟨a, .start⟩
  | succ fuel ih =>
    rw [follow]
    cases hnext : next 0 a with
    | inr e =>
      constructor
      · intro h
        cases h
      · rintro ⟨c, hreached⟩
        cases hreached.of_end hnext
    | inl b => simp only [ih, Reached.tail_iff hnext]

/-- **Some number of calls is enough** exactly when the hops come to the end. -/
theorem follow_ends_iff {next : ℕ → α → α ⊕ β} {a : α} {e : β} :
    (∃ fuel, follow next fuel a = some e) ↔ ∃ n c, Reached next a n c ∧ next n c = .inr e := by
  simp only [follow_eq_some_iff]
  constructor
  · rintro ⟨fuel, n, c, -, hreached, hend⟩
    exact ⟨n, c, hreached, hend⟩
  · rintro ⟨n, c, hreached, hend⟩
    exact ⟨n + 1, n, c, by omega, hreached, hend⟩

/-- **No number of calls is enough** exactly when the hops go on forever. -/
theorem follow_never_iff {next : ℕ → α → α ⊕ β} {a : α} :
    (∀ fuel, follow next fuel a = none) ↔ ∃ path : ℕ → α, path 0 = a ∧ ∀ n, next n (path n) = .inl (path (n + 1)) := by
  simp only [follow_eq_none_iff]
  constructor
  · intro h
    choose path hpath using h
    refine ⟨path, (hpath 0).unique .start, fun n => ?_⟩
    cases hpath (n + 1) with
    | hop hbefore hnext => rwa [(hpath n).unique hbefore]
  · rintro ⟨path, hstart, hnext⟩ fuel
    refine ⟨path fuel, ?_⟩
    induction fuel with
    | zero =>
      rw [hstart]
      exact .start
    | succ n ih => exact .hop ih (hnext n)

end BlogServer
