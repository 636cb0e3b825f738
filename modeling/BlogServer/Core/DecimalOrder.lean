/-
The byte order of decimal numerals.

Numerals without padding are not in the order of their values: `10` comes before `9`. Among the numerals of `0, …, n`
the last in byte order is a run of nines, unless `n` itself agrees with that run in all digits but its last.

- `decimal_greatest_iff`: the numeral of `n` is the last of those up to it exactly when `n` is one of the ten numbers
  below a power of ten.
-/
import BlogServer.Core.Decimal

namespace BlogServer.Decimal

/-- the byte of the digit nine, the greatest of all digits -/
abbrev NINE : UInt8 := 57

/-! ## Runs of nines -/

theorem digit_le_nine {c : UInt8} (h : Byte.isDigit c = true) : c ≤ NINE := by
  rw [UInt8.le_iff_toNat_le]
  exact (isDigit_iff.1 h).2

/-- no digits come after as many nines, or more -/
theorem nines_not_lt {u : Bytes} (hu : ∀ c ∈ u, c ≤ NINE) {k : ℕ} (hk : u.length ≤ k) (w : Bytes) :
    ¬ List.replicate k NINE ++ w < u := by
  induction u generalizing k with
  | nil => exact List.not_lt_nil _
  | cons c u ih =>
    obtain ⟨j, rfl⟩ : ∃ j, k = j + 1 := ⟨k - 1, by simp only [List.length_cons] at hk; omega⟩
    rw [List.replicate_succ, List.cons_append, List.cons_lt_cons_iff]
    intro h
    rcases h with h | ⟨-, h⟩
    · exact absurd h (not_lt.2 (hu c List.mem_cons_self))
    · exact ih (fun d hd => hu d (List.mem_cons_of_mem c hd)) (by simpa using hk) h

/-- digits that are not all nines come before as many nines, whatever is behind them -/
theorem lt_nines {u : Bytes} (hu : ∀ c ∈ u, c ≤ NINE) (hne : u ≠ List.replicate u.length NINE) (w v : Bytes) :
    u ++ w < List.replicate u.length NINE ++ v := by
  induction u with
  | nil => exact absurd rfl hne
  | cons c u ih =>
    rw [List.length_cons, List.replicate_succ, List.cons_append, List.cons_append, List.cons_lt_cons_iff]
    rcases lt_or_eq_of_le (hu c List.mem_cons_self) with hc | hc
    · exact Or.inl hc
    · refine Or.inr ⟨hc, ih (fun d hd => hu d (List.mem_cons_of_mem c hd)) fun hall => hne ?_⟩
      rw [List.length_cons, List.replicate_succ, hc, ← hall]

theorem decimal_le_nine (n : ℕ) : ∀ c ∈ decimal n, c ≤ NINE := fun c hc => digit_le_nine (isDigit_decimal n c hc)

/-- the numeral of the number before a power of ten -/
theorem decimal_nines {k : ℕ} (hk : 0 < k) : decimal (10 ^ k - 1) = List.replicate k NINE := by
  induction k with
  | zero => omega
  | succ k ih =>
    rcases Nat.eq_zero_or_pos k with rfl | hpos
    · decide
    · have hpow : 10 ≤ 10 ^ k := Nat.le_self_pow (by omega) 10
      have hsucc : 10 ^ (k + 1) = 10 * 10 ^ k := by rw [pow_succ, mul_comm]
      have hdiv : (10 ^ (k + 1) - 1) / 10 = 10 ^ k - 1 := by omega
      have hmod : (10 ^ (k + 1) - 1) % 10 = 9 := by omega
      rw [decimal_of_le (by omega), hdiv, hmod, ih hpos, List.replicate_succ']
      rfl

/-! ## The last numeral -/

/-- `n` is one of the ten numbers below a power of ten (or 0) -/
def EndsDecade (n : ℕ) : Prop := ∃ d, 10 ^ d ≤ n + 10 ∧ n < 10 ^ d

theorem digit_lt_digit {a b : ℕ} (hb : b < 10) (h : a < b) : digit a < digit b := by
  rw [UInt8.lt_iff_toNat_lt, digit_toNat (by omega), digit_toNat hb]
  omega

theorem digit_le_digit {a b : ℕ} (hb : b < 10) (h : a ≤ b) : digit a ≤ digit b := by
  rcases Nat.lt_or_eq_of_le h with h | rfl
  · exact le_of_lt (digit_lt_digit hb h)
  · exact le_rfl

theorem snoc_le_snoc (u : Bytes) {a b : UInt8} (h : a ≤ b) : u ++ [a] ≤ u ++ [b] := by
  rcases lt_or_eq_of_le h with hlt | rfl
  · exact le_of_lt (List.append_left_lt (List.cons_lt_cons_iff.2 (Or.inl hlt)))
  · exact le_rfl

/-- after a run of nines the last digit decides -/
theorem decimal_le_of_nines {k : ℕ} (hk : 0 < k) {i n : ℕ} (hn : n / 10 = 10 ^ k - 1) (hi : i ≤ n) :
    decimal i ≤ decimal n := by
  have hpow : 10 ≤ 10 ^ k := Nat.le_self_pow (by omega) 10
  have hsucc : 10 ^ (k + 1) = 10 * 10 ^ k := by rw [pow_succ, mul_comm]
  have hnines : decimal n = List.replicate k NINE ++ [digit (n % 10)] := by
    rw [decimal_of_le (by omega), hn, decimal_nines hk]
  rw [hnines]
  by_cases hshort : (decimal i).length ≤ k
  · exact not_lt.1 (nines_not_lt (decimal_le_nine i) hshort _)
  · have hten : 10 ≤ i := by
      by_contra hlt
      rw [decimal_of_lt (by omega), List.length_singleton] at hshort
      omega
    have hlong : (decimal i).length ≤ k + 1 := (length_decimal_le (by omega)).2 (by omega)
    have hsplit : decimal i = decimal (i / 10) ++ [digit (i % 10)] := decimal_of_le hten
    have hlength : (decimal (i / 10)).length = k := by
      rw [hsplit, List.length_append, List.length_singleton] at hshort hlong
      omega
    rw [hsplit]
    by_cases hall : decimal (i / 10) = List.replicate (decimal (i / 10)).length NINE
    · have hsame : i / 10 = 10 ^ k - 1 := decimal_injective (by rw [hall, hlength, decimal_nines hk])
      rw [hall, hlength]
      exact snoc_le_snoc _ (digit_le_digit (by omega) (by omega))
    · have hlt := lt_nines (decimal_le_nine (i / 10)) hall [digit (i % 10)] [digit (n % 10)]
      rw [hlength] at hlt
      exact le_of_lt hlt

/-- a numeral of `k` digits is that of a number from the `k`-th power of ten on -/
theorem pow_le_of_length {n k : ℕ} (hn : 0 < n) (h : (decimal n).length = k + 1) : 10 ^ k ≤ n := by
  by_contra hlt
  rcases Nat.eq_zero_or_pos k with rfl | hpos
  · rw [pow_zero] at hlt
    omega
  · have := (length_decimal_le hpos).2 (not_le.1 hlt)
    omega

/-- **The last numeral.** The numeral of `n` is the last, in byte order, of the numerals up to it exactly when `n` is
one of the ten numbers below a power of ten. -/
theorem decimal_greatest_iff (n : ℕ) : (∀ i ≤ n, decimal i ≤ decimal n) ↔ EndsDecade n := by
  by_cases hsmall : n < 10
  · refine iff_of_true (fun i hi => ?_) ⟨1, by omega, by omega⟩
    rw [decimal_of_lt (by omega), decimal_of_lt hsmall]
    exact snoc_le_snoc [] (digit_le_digit hsmall hi)
  constructor
  · intro h
    obtain ⟨k, hk⟩ : ∃ k, (decimal (n / 10)).length = k + 1 :=
      ⟨(decimal (n / 10)).length - 1, by have := List.length_pos_iff.2 (decimal_ne_nil (n / 10)); omega⟩
    have hlow : 10 ^ k ≤ n / 10 := pow_le_of_length (by omega) hk
    have hsucc : 10 ^ (k + 1) = 10 * 10 ^ k := by rw [pow_succ, mul_comm]
    have hsucc' : 10 ^ (k + 1 + 1) = 10 * 10 ^ (k + 1) := by rw [pow_succ, mul_comm]
    have hle := h (10 ^ (k + 1) - 1) (by omega)
    rw [decimal_nines (by omega), decimal_of_le (by omega : 10 ≤ n)] at hle
    -- the digits of `n` before its last are a run of nines, or `n` would come before that run
    have hall : decimal (n / 10) = List.replicate (decimal (n / 10)).length NINE := by
      by_contra hne
      have hlt := lt_nines (decimal_le_nine (n / 10)) hne [digit (n % 10)] []
      rw [List.append_nil, hk] at hlt
      exact absurd hle (not_le.2 hlt)
    have hdiv : n / 10 = 10 ^ (k + 1) - 1 := decimal_injective (by rw [hall, hk, decimal_nines (by omega)])
    have hpos : 0 < 10 ^ (k + 1) := by positivity
    exact ⟨k + 1 + 1, by omega, by omega⟩
  · intro h i hi
    obtain ⟨d, hd, hlt⟩ := h
    obtain ⟨k, rfl⟩ : ∃ k, d = k + 1 := by
      cases d with
      | zero => rw [pow_zero] at hlt; omega
      | succ k => exact ⟨k, rfl⟩
    have hsucc : 10 ^ (k + 1) = 10 * 10 ^ k := by rw [pow_succ, mul_comm]
    have hk : 0 < k := by
      by_contra hzero
      rw [Nat.eq_zero_of_not_pos hzero, zero_add, pow_one] at hlt
      omega
    exact decimal_le_of_nines hk (by omega) hi

/-- the sign comes before every digit -/
theorem minus_lt_decimal (s : Bytes) (n : ℕ) : Byte.MINUS :: s < decimal n := by
  obtain ⟨c, ds, hds⟩ := List.exists_cons_of_ne_nil (decimal_ne_nil n)
  have hc : Byte.isDigit c = true := isDigit_decimal n c (by rw [hds]; exact List.mem_cons_self)
  rw [hds, List.cons_lt_cons_iff]
  left
  rw [UInt8.lt_iff_toNat_lt]
  exact lt_of_lt_of_le (by decide) (isDigit_iff.1 hc).1

end BlogServer.Decimal
