/-
Numbers in text and in registers: `std::to_string`, `std::stoi` and the 32-bit `int`.

`int32` is what two's-complement arithmetic leaves of an exact result. `toString` writes the canonical decimal of an
`int`; `stoi` skips blanks, takes an optional sign and the longest run of digits, ignores what follows, and fails (the
C++ function throws `invalid_argument` or `out_of_range`) when there is no digit or the value does not fit an `int`.

- `value_decimal`, `stoi_decimal`: reading back what `to_string` wrote.
- `int32_digit_step`: an accumulator that wraps at every digit.
-/
import BlogServer.Core.Bytes
import Mathlib.Data.List.TakeWhile

namespace BlogServer.Decimal

/-! ## The 32-bit register -/

/-- two's-complement wrap-around to 32 bits -/
def int32 (z : ℤ) : ℤ := (z + 2147483648) % 4294967296 - 2147483648

theorem int32_of_range {z : ℤ} (h1 : -2147483648 ≤ z) (h2 : z < 2147483648) : int32 z = z := by
  unfold int32; omega

/-- the values of a 32-bit `int` -/
def IsInt (z : ℤ) : Prop := -2147483648 ≤ z ∧ z < 2147483648

instance decidableIsInt (z : ℤ) : Decidable (IsInt z) :=
  inferInstanceAs (Decidable (-2147483648 ≤ z ∧ z < 2147483648))

@[simp] theorem int32_zero : int32 0 = 0 := by decide

theorem int32_range (z : ℤ) : -2147483648 ≤ int32 z ∧ int32 z < 2147483648 := by
  unfold int32; omega

/-- wrapping early does not change the wrapped result of a digit step -/
theorem int32_digit (z d : ℤ) : int32 (int32 z * 10 + d) = int32 (z * 10 + d) := by
  unfold int32; omega

/-! ## Decimal digits -/

/-- the decimal digits of a natural number, most significant first -/
def decimal (n : ℕ) : Bytes := (Nat.toDigits 10 n).map fun c => UInt8.ofNat c.toNat

/-- `std::to_string` of an `int` -/
def toString (z : ℤ) : Bytes := if z < 0 then Byte.MINUS :: decimal z.natAbs else decimal z.toNat

/-- the number a string of digits denotes -/
def value (ds : Bytes) : ℕ := ds.foldl (fun v c => v * 10 + (c.toNat - 48)) 0

/-- the digit byte of a number below ten -/
def digit (d : ℕ) : UInt8 := UInt8.ofNat (48 + d)

theorem isDigit_iff {c : UInt8} : Byte.isDigit c = true ↔ 48 ≤ c.toNat ∧ c.toNat ≤ 57 := by
  simp [Byte.isDigit, UInt8.le_iff_toNat_le]

theorem digit_toNat {d : ℕ} (h : d < 10) : (digit d).toNat = 48 + d := by
  simp [digit]; omega

theorem isDigit_digit {d : ℕ} (h : d < 10) : Byte.isDigit (digit d) = true := by
  rw [isDigit_iff, digit_toNat h]; omega

theorem digitChar_toNat {d : ℕ} (h : d < 10) : UInt8.ofNat d.digitChar.toNat = digit d := by
  interval_cases d <;> rfl

theorem decimal_of_lt {n : ℕ} (h : n < 10) : decimal n = [digit n] := by
  rw [decimal, Nat.toDigits_of_lt_base h, List.map_singleton, digitChar_toNat h]

theorem decimal_of_le {n : ℕ} (h : 10 ≤ n) : decimal n = decimal (n / 10) ++ [digit (n % 10)] := by
  rw [decimal, Nat.toDigits_of_base_le (by decide) h, List.map_append, List.map_singleton,
    digitChar_toNat (Nat.mod_lt _ (by decide))]
  rfl

theorem decimal_ne_nil (n : ℕ) : decimal n ≠ [] := by
  simp [decimal, Nat.toDigits_ne_nil]

theorem length_decimal_le {n k : ℕ} (h : 0 < k) : (decimal n).length ≤ k ↔ n < 10 ^ k := by
  rw [decimal, List.length_map, Nat.length_toDigits_le_iff (by decide) h]

theorem isDigit_decimal (n : ℕ) : ∀ c ∈ decimal n, Byte.isDigit c = true := by
  induction n using Nat.strong_induction_on with
  | _ n ih =>
    intro c hc
    by_cases h : n < 10
    · rw [decimal_of_lt h, List.mem_singleton] at hc
      rw [hc]; exact isDigit_digit h
    · rw [decimal_of_le (by omega), List.mem_append, List.mem_singleton] at hc
      rcases hc with hc | rfl
      · exact ih (n / 10) (by omega) c hc
      · exact isDigit_digit (Nat.mod_lt _ (by decide))

theorem value_append (ds : Bytes) (c : UInt8) : value (ds ++ [c]) = value ds * 10 + (c.toNat - 48) := by
  simp [value]

/-- **Reading the decimal of a number gives the number.** -/
theorem value_decimal (n : ℕ) : value (decimal n) = n := by
  induction n using Nat.strong_induction_on with
  | _ n ih =>
    by_cases h : n < 10
    · rw [decimal_of_lt h]; simp [value, digit_toNat h]
    · rw [decimal_of_le (by omega), value_append, ih (n / 10) (by omega), digit_toNat (Nat.mod_lt _ (by decide))]
      omega

/-- a string of `k` digits denotes a number below the `k`-th power of ten -/
theorem value_lt (ds : Bytes) (hd : ∀ c ∈ ds, Byte.isDigit c = true) : value ds < 10 ^ ds.length := by
  induction ds using List.reverseRecOn with
  | nil => simp [value]
  | append_singleton ds c ih =>
    have hc := isDigit_iff.1 (hd c (by simp))
    have hlt := ih fun d hd' => hd d (by simp [hd'])
    rw [value_append, List.length_append, List.length_singleton, pow_succ]
    omega

theorem decimal_injective : Function.Injective decimal := fun a b h => by
  rw [← value_decimal a, ← value_decimal b, h]

/-- one digit step of a 32-bit accumulator -/
theorem int32_digit_step (n : ℕ) {c : UInt8} (hc : Byte.isDigit c = true) :
    int32 (int32 n * 10 + (c.toNat : ℤ) - 48) = int32 ((n * 10 + (c.toNat - 48) : ℕ) : ℤ) := by
  have h48 : 48 ≤ c.toNat := (isDigit_iff.1 hc).1
  rw [show int32 n * 10 + (c.toNat : ℤ) - 48 = int32 n * 10 + ((c.toNat : ℤ) - 48) by ring, int32_digit]
  push_cast [h48]
  rfl

/-! ## stoi -/

/-- `isspace` in the C locale -/
def isSpace (c : UInt8) : Bool := (9 ≤ c && c ≤ 13) || c == 32

/-- the sign `strtol` accepts, and what follows it -/
def splitSign : Bytes → Bool × Bytes
  | [] => (false, [])
  | c :: s => if c = Byte.MINUS then (true, s) else if c = Byte.PLUS then (false, s) else (false, c :: s)

/-- the result of `strtol` as an `int`, if it is one -/
def narrow (v : ℤ) : Option ℤ := if -2147483648 ≤ v ∧ v < 2147483648 then some v else none

theorem narrow_eq_some {v z : ℤ} : narrow v = some z ↔ v = z ∧ -2147483648 ≤ z ∧ z < 2147483648 := by
  rw [narrow, Option.ite_none_right_eq_some]
  constructor
  · rintro ⟨h, h'⟩
    obtain rfl := Option.some.inj h'
    exact ⟨rfl, h⟩
  · rintro ⟨rfl, h⟩
    exact ⟨h, rfl⟩

/-- `std::stoi(s)`; `none` is the exception -/
def stoi (s : Bytes) : Option ℤ :=
  let (neg, rest) := splitSign (s.dropWhile isSpace)
  let ds := rest.takeWhile Byte.isDigit
  if ds = [] then none else narrow (if neg then -(value ds : ℤ) else value ds)

theorem stoi_range {s : Bytes} {z : ℤ} (h : stoi s = some z) : -2147483648 ≤ z ∧ z < 2147483648 := by
  rw [stoi, Option.ite_none_left_eq_some, narrow_eq_some] at h
  exact h.2.2

theorem not_space_of_isDigit {c : UInt8} (h : Byte.isDigit c = true) : isSpace c = false := by
  rw [isDigit_iff] at h
  simp only [isSpace, Bool.or_eq_false_iff, Bool.and_eq_false_iff, decide_eq_false_iff_not, beq_eq_false_iff_ne,
    UInt8.le_iff_toNat_le, ne_eq, ← UInt8.toNat_inj]
  simp; omega

theorem splitSign_digit {c : UInt8} (s : Bytes) (h : Byte.isDigit c = true) : splitSign (c :: s) = (false, c :: s) := by
  have h1 : c ≠ Byte.MINUS := by rintro rfl; exact absurd h (by decide)
  have h2 : c ≠ Byte.PLUS := by rintro rfl; exact absurd h (by decide)
  simp [splitSign, h1, h2]

/-- an unsigned number followed by a byte that is not a digit -/
theorem stoi_digits {ds r : Bytes} (hne : ds ≠ []) (hd : ∀ c ∈ ds, Byte.isDigit c = true)
    (hr : ∀ c ∈ r.head?, Byte.isDigit c = false) :
    stoi (ds ++ r) = narrow (value ds) := by
  obtain ⟨c, ds', rfl⟩ := List.exists_cons_of_ne_nil hne
  have hc := hd c (by simp)
  have htake : (c :: ds' ++ r).takeWhile Byte.isDigit = c :: ds' := by
    rw [List.takeWhile_append_of_pos hd]
    cases r with
    | nil => simp
    | cons d r => simp [hr d (by simp)]
  have hdrop : (c :: ds' ++ r).dropWhile isSpace = c :: (ds' ++ r) := by
    simp [not_space_of_isDigit hc]
  simp only [stoi, hdrop, splitSign_digit _ hc]
  rw [show c :: (ds' ++ r) = c :: ds' ++ r by simp, htake]
  simp

/-- `std::stoi` of a string of digits -/
theorem stoi_of_digits {ds : Bytes} (hne : ds ≠ []) (hd : ∀ c ∈ ds, Byte.isDigit c = true) :
    stoi ds = narrow (value ds) := by
  have h := stoi_digits (r := []) hne hd (by simp)
  rwa [List.append_nil] at h

theorem stoi_decimal (n : ℕ) : stoi (decimal n) = narrow n := by
  rw [stoi_of_digits (decimal_ne_nil n) (isDigit_decimal n), value_decimal]

theorem narrow_natCast {n : ℕ} (h : n < 2147483648) : narrow n = some (n : ℤ) :=
  narrow_eq_some.2 ⟨rfl, by omega, by omega⟩

theorem narrow_none {n : ℕ} (h : 2147483648 ≤ n) : narrow n = none := by
  rw [narrow, if_neg (by omega)]

theorem toString_natCast (n : ℕ) : toString (n : ℤ) = decimal n := by
  simp [toString]

/-- **Reading what `to_string` wrote gives the number.** -/
theorem toString_injective : Function.Injective toString := by
  have hminus : ∀ m n : ℕ, Byte.MINUS :: decimal m ≠ decimal n := by
    intro m n heq
    exact absurd (isDigit_decimal n Byte.MINUS (heq ▸ List.mem_cons_self)) (by decide)
  intro a b h
  unfold toString at h
  split_ifs at h with ha hb hb
  · have := decimal_injective (List.cons.inj h).2
    omega
  · exact absurd h (hminus _ _)
  · exact absurd h.symm (hminus _ _)
  · have := decimal_injective h
    omega

theorem stoi_toString {z : ℤ} (h : IsInt z) : stoi (toString z) = some z := by
  obtain ⟨hlow, hhigh⟩ := h
  by_cases hneg : z < 0
  · have htake : (decimal z.natAbs).takeWhile Byte.isDigit = decimal z.natAbs :=
      List.takeWhile_eq_self_iff.2 (isDigit_decimal z.natAbs)
    have hsign : splitSign ((Byte.MINUS :: decimal z.natAbs).dropWhile isSpace) = (true, decimal z.natAbs) := rfl
    rw [toString, if_pos hneg, stoi, hsign]
    simp only [htake, decimal_ne_nil, if_false, if_true, value_decimal]
    exact narrow_eq_some.2 ⟨by omega, hlow, hhigh⟩
  · rw [toString, if_neg hneg, stoi_decimal]
    exact narrow_eq_some.2 ⟨by omega, hlow, hhigh⟩

/-- a blank after a number is not read -/
theorem stoi_append_blank (s : Bytes) {c : UInt8} (hblank : isSpace c = true) (hdigit : Byte.isDigit c = false) :
    stoi (s ++ [c]) = stoi s := by
  have htake : ∀ ds : Bytes, (ds ++ [c]).takeWhile Byte.isDigit = ds.takeWhile Byte.isDigit := by
    intro ds
    rw [List.takeWhile_append]
    split_ifs with hall
    · rw [List.takeWhile_cons_of_neg (by rw [hdigit]; decide), List.append_nil]
      exact ((List.takeWhile_prefix _).eq_of_length hall).symm
    · rfl
  unfold stoi
  rw [List.dropWhile_append]
  split_ifs with hempty
  · rw [List.isEmpty_iff.1 hempty, List.dropWhile_cons_of_pos hblank]
    rfl
  · obtain ⟨d, ds, hds⟩ := List.exists_cons_of_ne_nil fun hnil => hempty (List.isEmpty_iff.2 hnil)
    rw [hds, List.cons_append, splitSign, splitSign]
    split_ifs
    · simp only [htake]
    · simp only [htake]
    · simp only [← List.cons_append, htake]

/-! ## Hexadecimal digits -/

/-- the value of a hexadecimal digit -/
def hexDigitValue (c : UInt8) : ℕ :=
  if Byte.isDigit c then c.toNat - 48 else if c.toNat < 97 then c.toNat - 55 else c.toNat - 87

/-- `std::stoi(s, 0, 16)` of a string of hexadecimal digits; `none` is the exception -/
def stoiHex (s : Bytes) : Option ℤ :=
  if s = [] then none else narrow (s.foldl (fun v c => v * 16 + hexDigitValue c) 0 : ℕ)

end BlogServer.Decimal
