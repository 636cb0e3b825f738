/-
Replacing every occurrence of a pattern by one symbol, from left to right.

`Replaced pat c s t` says what `t` is to be: as `s`, if the pattern does not occur in it, and else `c` in the place of
the first occurrence, and the same behind it. There is one such `t` at most (`Replaced.unique`), and when `c` is no
symbol of the pattern, the pattern does not occur in it (`Replaced.none_left`). Nothing here is about any particular
pattern.
-/
import Mathlib.Data.List.Infix

namespace BlogServer

variable {α : Type*} {pat : List α} {c : α}

/-- `t` is `s` with every occurrence replaced -/
inductive Replaced (pat : List α) (c : α) : List α → List α → Prop where
  | absent {s} (h : ¬ pat <:+: s) : Replaced pat c s s
  | first {p s t} (hfirst : ∀ u v, p ++ (pat ++ s) = u ++ (pat ++ v) → p.length ≤ u.length) (h : Replaced pat c s t) :
      Replaced pat c (p ++ (pat ++ s)) (p ++ c :: t)

/-- a pattern does not occur across a symbol that it does not have -/
theorem infix_append_cons (hne : pat ≠ []) (hc : c ∉ pat) {u v : List α} (h : pat <:+: u ++ c :: v) :
    pat <:+: u ∨ pat <:+: v := by
  rcases List.infix_append_iff_ne_nil.1 h with hu | hv | ⟨l, r, -, hr, rfl, -, hprefix⟩
  · exact Or.inl hu
  · rcases List.infix_cons_iff.1 hv with hprefix | hv
    · obtain ⟨d, ds, rfl⟩ := List.exists_cons_of_ne_nil hne
      rw [(List.cons_prefix_cons.1 hprefix).1] at hc
      exact absurd List.mem_cons_self hc
    · exact Or.inr hv
  · obtain ⟨d, ds, rfl⟩ := List.exists_cons_of_ne_nil hr
    rw [(List.cons_prefix_cons.1 hprefix).1] at hc
    exact absurd (List.mem_append_right l List.mem_cons_self) hc

/-- before the first occurrence there is none -/
theorem not_infix_of_first (hne : pat ≠ []) {p s : List α}
    (hfirst : ∀ u v, p ++ (pat ++ s) = u ++ (pat ++ v) → p.length ≤ u.length) : ¬ pat <:+: p := by
  rintro ⟨u, v, rfl⟩
  have hle := hfirst u (v ++ (pat ++ s)) (by simp)
  have hpos : 0 < pat.length := List.length_pos_iff.2 hne
  simp only [List.length_append] at hle
  omega

/-- **No occurrence is left.** -/
theorem Replaced.none_left (hne : pat ≠ []) (hc : c ∉ pat) {s t : List α} (h : Replaced pat c s t) : ¬ pat <:+: t := by
  induction h with
  | absent h => exact h
  | first hfirst _ ih =>
    intro hinfix
    rcases infix_append_cons hne hc hinfix with hbefore | hbehind
    · exact not_infix_of_first hne hfirst hbefore
    · exact ih hbehind

/-- **There is one result.** -/
theorem Replaced.unique {s t t' : List α} (h : Replaced pat c s t) (h' : Replaced pat c s t') : t = t' := by
  induction h generalizing t' with
  | absent habsent =>
    cases h' with
    | absent => rfl
    | first => exact absurd (List.infix_append' _ _ _) habsent
  | @first p s t hfirst _ ih =>
    generalize hwhole : p ++ (pat ++ s) = whole at h'
    cases h' with
    | absent habsent =>
      rw [← hwhole] at habsent
      exact absurd (List.infix_append' _ _ _) habsent
    | @first p' s' t' hfirst' h' =>
      have hlength : p.length = p'.length :=
        le_antisymm (hfirst p' s' hwhole) (hfirst' p s hwhole.symm)
      obtain ⟨rfl, hrest⟩ := List.append_inj hwhole hlength
      rw [← List.append_cancel_left hrest] at h'
      rw [ih h']

end BlogServer
