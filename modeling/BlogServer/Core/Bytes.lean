/-
Byte strings: the values of `std::string` and `std::vector<char>`, and the few string operations the server uses.

A byte string is a list of `UInt8`. Keys of ordered maps are compared as `std::string` compares them: lexicographically
by unsigned bytes, which is Mathlib's order on lists once `UInt8` carries its linear order.
-/
import Mathlib.Data.List.Lex
import Mathlib.Data.List.ModifyLast
import Mathlib.Data.List.Infix
import Mathlib.Data.UInt
import Mathlib.Tactic

namespace BlogServer

/-- the unsigned order of bytes, on the comparison `UInt8` already has -/
instance linearOrderUInt8 : LinearOrder UInt8 where
  toLE := instLEUInt8
  toLT := instLTUInt8
  le_refl := fun _ => UInt8.le_refl _
  le_trans := fun _ _ _ => UInt8.le_trans
  le_antisymm := fun _ _ => UInt8.le_antisymm
  le_total := UInt8.le_total
  lt_iff_le_not_ge := fun a b => by rw [UInt8.lt_iff_toNat_lt, UInt8.le_iff_toNat_le, UInt8.le_iff_toNat_le]; omega
  toDecidableLE := inferInstance
  toDecidableEq := inferInstance
  toDecidableLT := inferInstance

abbrev Bytes := List UInt8

instance (priority := high) lawfulBEqBytes : LawfulBEq Bytes := inferInstance

/-- a property of all bytes of a string is decided along the string, not over the 256 bytes -/
instance (priority := high) decidableForallBytes (w : Bytes) (P : UInt8 → Prop) [DecidablePred P] :
    Decidable (∀ c ∈ w, P c) := List.decidableBAll P w

/-- the bytes of an ASCII literal -/
def ascii (s : String) : Bytes := s.toList.map fun c => UInt8.ofNat c.toNat

theorem forall_mem_snoc {P : UInt8 → Prop} {u : Bytes} {c : UInt8} (h : ∀ d ∈ u, P d) (hc : P c) :
    ∀ d ∈ u ++ [c], P d := by
  intro d hd
  rcases List.mem_append.1 hd with hd | hd
  · exact h d hd
  · rw [List.mem_singleton.1 hd]; exact hc

namespace Byte

abbrev NUL : UInt8 := 0
abbrev HT : UInt8 := 9
abbrev LF : UInt8 := 10
abbrev CR : UInt8 := 13
abbrev SP : UInt8 := 32
/-- `"` -/
abbrev DQUOTE : UInt8 := 34
/-- `#` -/
abbrev HASH : UInt8 := 35
/-- `%` -/
abbrev PERCENT : UInt8 := 37
/-- `&` -/
abbrev AMP : UInt8 := 38
/-- `'` -/
abbrev SQUOTE : UInt8 := 39
/-- `+` -/
abbrev PLUS : UInt8 := 43
/-- `-` -/
abbrev MINUS : UInt8 := 45
/-- `.` -/
abbrev DOT : UInt8 := 46
/-- `/` -/
abbrev SLASH : UInt8 := 47
/-- `:` -/
abbrev COLON : UInt8 := 58
/-- `;` -/
abbrev SEMI : UInt8 := 59
/-- `=` -/
abbrev EQUALS : UInt8 := 61
/-- `{` -/
abbrev LBRACE : UInt8 := 123
/-- `}` -/
abbrev RBRACE : UInt8 := 125

/-- `isdigit`: '0' to '9' -/
def isDigit (c : UInt8) : Bool := 48 ≤ c && c ≤ 57

/-- `tolower` in the C locale -/
def toLower (c : UInt8) : UInt8 := if 65 ≤ c && c ≤ 90 then c + 32 else c

end Byte

namespace Bytes

/-- `strcasecmp(a, b) == 0`, for strings without NUL -/
def strcasecmp (a b : Bytes) : Bool := a.map Byte.toLower == b.map Byte.toLower

theorem strcasecmp_iff {a b : Bytes} : strcasecmp a b = true ↔ a.map Byte.toLower = b.map Byte.toLower := by
  simp [strcasecmp]

theorem strcasecmp_self (a : Bytes) : strcasecmp a a = true := by simp [strcasecmp]

/-- `s.find(pat)`: the first position at which `pat` occurs -/
def find (pat : Bytes) : Bytes → Option ℕ
  | [] => if pat = [] then some 0 else none
  | c :: s => if pat <+: c :: s then some 0 else (find pat s).map (· + 1)

/-- `s.find(pat, pos)` -/
def findFrom (pat s : Bytes) (pos : ℕ) : Option ℕ := (find pat (s.drop pos)).map (· + pos)

/-- `s.find(pat) != npos` -/
def includes (pat s : Bytes) : Bool := (find pat s).isSome

/-- nothing is found exactly where the text does not occur -/
theorem find_eq_none_iff {pat s : Bytes} : find pat s = none ↔ ¬ pat <:+: s := by
  induction s with
  | nil => simp [find]
  | cons c s ih =>
    rw [find, List.infix_cons_iff, not_or, ← ih]
    by_cases hpre : pat <+: c :: s
    · simp [hpre]
    · simp [hpre]

theorem find_of_not_mem {c : UInt8} {s : Bytes} (h : c ∉ s) : find [c] s = none :=
  find_eq_none_iff.2 fun hinfix => h ((List.singleton_infix_iff c s).1 hinfix)

/-- a last byte that is another is not found -/
theorem find_concat_of_ne {c d : UInt8} (h : d ≠ c) (s : Bytes) : find [c] (s ++ [d]) = find [c] s := by
  induction s with
  | nil => exact find_of_not_mem (by simpa using h.symm)
  | cons e s ih =>
    rw [List.cons_append, find, find, ih]
    simp

theorem find_add_length_le {pat s : Bytes} {i : ℕ} (h : find pat s = some i) : i + pat.length ≤ s.length := by
  induction s generalizing i with
  | nil =>
    unfold find at h
    split_ifs at h with hpat
    cases h
    simp [hpat]
  | cons c s ih =>
    unfold find at h
    split_ifs at h with hpre
    · cases h
      simpa using hpre.length_le
    · obtain ⟨j, hj, rfl⟩ := Option.map_eq_some_iff.1 h
      have := ih hj
      simp only [List.length_cons]
      omega

theorem find_begins {pat s : Bytes} {i : ℕ} (h : find pat s = some i) : pat <+: s.drop i := by
  induction s generalizing i with
  | nil =>
    unfold find at h
    split_ifs at h with hpat
    rw [hpat]
    exact List.nil_prefix
  | cons c s ih =>
    unfold find at h
    split_ifs at h with hpre
    · cases h
      exact hpre
    · obtain ⟨j, hj, rfl⟩ := Option.map_eq_some_iff.1 h
      exact ih hj

/-- what is found is the first occurrence -/
theorem find_le {pat s : Bytes} {i : ℕ} (h : find pat s = some i) (u v : Bytes) (hs : s = u ++ (pat ++ v)) :
    i ≤ u.length := by
  induction s generalizing i u with
  | nil =>
    unfold find at h
    split_ifs at h with hpat
    cases h
    exact Nat.zero_le _
  | cons c s ih =>
    unfold find at h
    split_ifs at h with hpre
    · cases h
      exact Nat.zero_le _
    · obtain ⟨j, hj, rfl⟩ := Option.map_eq_some_iff.1 h
      cases u with
      | nil => exact absurd ⟨v, hs.symm⟩ hpre
      | cons d u => exact Nat.succ_le_succ (ih hj u (List.cons.inj hs).2)

theorem includes_of_prefix {pat s : Bytes} (h : pat <+: s) : includes pat s = true := by
  unfold includes
  cases s with
  | nil =>
    rw [List.prefix_nil.1 h]
    rfl
  | cons c s =>
    rw [find, if_pos h]
    rfl

/-- what is as long as the text is found in it only as the text itself -/
theorem includes_of_length_le {pat s : Bytes} (hlen : s.length ≤ pat.length) (h : includes pat s = true) : pat = s := by
  obtain ⟨i, hi⟩ := Option.isSome_iff_exists.1 h
  have hle := find_add_length_le hi
  obtain rfl : i = 0 := by omega
  exact (find_begins hi).eq_of_length (by rw [List.drop_zero]; omega)

theorem findFrom_add_length_le {pat s : Bytes} {pos i : ℕ} (h : findFrom pat s pos = some i) (hpat : pat ≠ []) :
    i + pat.length ≤ s.length := by
  obtain ⟨j, hj, rfl⟩ := Option.map_eq_some_iff.1 h
  have hle := find_add_length_le hj
  have hpos := List.length_pos_iff.2 hpat
  rw [List.length_drop] at hle
  omega

/-- `s.find_last_of(c)`: the last position of `c` -/
def findLastOf (c : UInt8) : Bytes → Option ℕ
  | [] => none
  | d :: s =>
    match findLastOf c s with
    | some i => some (i + 1)
    | none => if d = c then some 0 else none

theorem findLastOf_eq_none {c : UInt8} {s : Bytes} : findLastOf c s = none ↔ c ∉ s := by
  induction s with
  | nil => simp [findLastOf]
  | cons d s ih =>
    simp only [findLastOf, List.mem_cons, not_or]
    cases h : findLastOf c s with
    | some i => simp [h] at ih; simp [ih]
    | none => simp [h] at ih; simp [ih, eq_comm]

/-- the last occurrence splits the string: nothing after it is `c` -/
theorem findLastOf_eq_some {c : UInt8} {s : Bytes} {i : ℕ} :
    findLastOf c s = some i ↔ ∃ t, s = s.take i ++ c :: t ∧ i < s.length ∧ c ∉ t := by
  induction s generalizing i with
  | nil => simp [findLastOf]
  | cons d s ih =>
    simp only [findLastOf]
    cases h : findLastOf c s with
    | some j =>
      have hj := ih.1 h
      constructor
      · rintro ⟨rfl⟩
        obtain ⟨t, h1, h2, h3⟩ := hj
        exact ⟨t, by simpa using h1, by simpa using h2, h3⟩
      · rintro ⟨t, h1, h2, h3⟩
        cases i with
        | zero =>
          simp only [List.take_zero, List.nil_append, List.cons.injEq] at h1
          have : c ∈ s := by by_contra hc; rw [findLastOf_eq_none.2 hc] at h; cases h
          exact absurd (h1.2 ▸ this) h3
        | succ i =>
          have := (ih (i := i)).2 ⟨t, by simpa using h1, by simpa using h2, h3⟩
          rw [h] at this; simpa using this
    | none =>
      have hc := findLastOf_eq_none.1 h
      constructor
      · intro hi
        split_ifs at hi with hd
        cases hi
        exact ⟨s, by simp [hd], by simp, hc⟩
      · rintro ⟨t, h1, h2, h3⟩
        cases i with
        | zero => simp at h1; simp [h1.1]
        | succ i =>
          simp only [List.take_succ_cons, List.cons_append, List.cons.injEq, true_and] at h1
          exact absurd (h1 ▸ List.mem_append_right _ List.mem_cons_self) hc

end Bytes

end BlogServer
