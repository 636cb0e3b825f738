/-
Recognisers that read a decimal number into an `int`, one digit at a step.

A step computes `n * 10 + c - '0'` from the left, so the sum overflows a digit's worth (48) before the number does.
`DigitLoop` is what a recogniser has to offer: where the number starts, where it goes on, and the member it is read
into, which is zero at the start.

- `DigitLoop.reads_digits`, `DigitLoop.number`: the member holds the digits read, wrapped, and nothing else leads there.
- `DigitLoop.inRange_iff`: every operator of every step stays in range exactly when no run of digits exceeds the bound.
-/
import BlogServer.Core.Scan
import BlogServer.Core.Decimal

namespace BlogServer.Scan

open BlogServer.Byte BlogServer.Decimal

/-! ## Steps in range -/

/-- what `n * 10 + c - '0'` computes, one operator after the other -/
def digitStep (n : ℤ) (c : UInt8) : List ℤ := [n * 10, n * 10 + c.toNat, n * 10 + c.toNat - 48]

variable {σ : Type*}

/-- `computed s c` are the values a step computes: up to the first answer to `w` they are all values of an `int` -/
def InRange (step : σ → UInt8 → Verdict × σ) (computed : σ → UInt8 → List ℤ) (s₀ : σ) (w : Bytes) : Prop :=
  ∀ v c s, v ++ [c] <+: w → Reads step s₀ v s → ∀ z ∈ computed s c, IsInt z

/-- the numbers that start in a state with `starts`, as far as they are in `w`, leave room for one more `'0'` -/
def SmallNumbers (step : σ → UInt8 → Verdict × σ) (starts : σ → Prop) (s₀ : σ) (w : Bytes) : Prop :=
  ∀ x ds s, x ++ ds <+: w → Reads step s₀ x s → starts s → (∀ c ∈ ds, isDigit c = true) → value ds < 2147483600

/-- the digit steps of a small number -/
theorem digitStep_isInt {ds : Bytes} {c : UInt8} (hc : isDigit c = true) :
    (∀ z ∈ digitStep (value ds) c, IsInt z) ↔ value (ds ++ [c]) < 2147483600 := by
  obtain ⟨hge, hle⟩ := isDigit_iff.1 hc
  rw [value_append]
  simp only [digitStep, List.forall_mem_cons, List.not_mem_nil, false_implies, implies_true, and_true, IsInt]
  omega

theorem value_le_append (ds : Bytes) (c : UInt8) : value ds ≤ value (ds ++ [c]) := by
  rw [value_append]
  omega

/-! ## The loop -/

/-- a number that a recogniser started in `s₀` reads into `acc` -/
structure DigitLoop (step : σ → UInt8 → Verdict × σ) (s₀ : σ) where
  starts : σ → Prop
  loops : σ → Prop
  acc : σ → ℤ
  fresh : ¬ loops s₀
  acc_start : ∀ x s, Reads step s₀ x s → starts s → acc s = 0
  digit : ∀ s c, starts s ∨ loops s → isDigit c = true →
    ∃ s', step s c = (.indeterminate, s') ∧ loops s' ∧ acc s' = int32 (acc s * 10 + (c.toNat : ℤ) - 48)
  back : ∀ s c s', step s c = (.indeterminate, s') → loops s' → (starts s ∨ loops s) ∧ isDigit c = true

namespace DigitLoop

variable {step : σ → UInt8 → Verdict × σ} {s₀ : σ} (L : DigitLoop step s₀)

/-- the state in front of the digits `ds` of a number, or after them -/
def At (ds : Bytes) (s : σ) : Prop := (L.starts s ∨ L.loops s) ∧ L.acc s = int32 (value ds)

theorem At.digit {ds : Bytes} {s : σ} (h : L.At ds s) {c : UInt8} (hc : isDigit c = true) :
    ∃ s', step s c = (.indeterminate, s') ∧ L.loops s' ∧ L.At (ds ++ [c]) s' := by
  obtain ⟨s', hs, hloop, hacc⟩ := L.digit s c h.1 hc
  refine ⟨s', hs, hloop, Or.inr hloop, ?_⟩
  rw [hacc, h.2, int32_digit_step _ hc, value_append]

/-- **The digits of a number** are read one after the other, and the member holds their value, wrapped. -/
theorem reads_digits {s : σ} (h : L.At [] s) {ds : Bytes} (hd : ∀ c ∈ ds, isDigit c = true) :
    ∃ t, Reads step s ds t ∧ L.At ds t := by
  induction ds using List.reverseRecOn with
  | nil => exact ⟨s, .nil s, h⟩
  | append_singleton ds c ih =>
    obtain ⟨t, hread, ht⟩ := ih fun d hd' => hd d (List.mem_append_left _ hd')
    obtain ⟨t', hs, -, ht'⟩ := ht.digit L (hd c (by simp))
    exact ⟨t', hread.snoc hs, ht'⟩

/-- what has been read ends with the digits `ds` of a number -/
def Number (v ds : Bytes) (s : σ) : Prop :=
  ∃ x r, v = x ++ ds ∧ Reads step s₀ x r ∧ L.starts r ∧ (∀ c ∈ ds, isDigit c = true) ∧ L.At ds s

theorem Number.start {x : Bytes} {s : σ} (h : Reads step s₀ x s) (hs : L.starts s) : L.Number x [] s :=
  ⟨x, s, by simp, h, hs, by simp, Or.inl hs, by rw [L.acc_start x s h hs]; rfl⟩

/-- **Where a number is read**, what has been read ends with its digits. -/
theorem number {v : Bytes} {s : σ} (h : Reads step s₀ v s) (hs : L.starts s ∨ L.loops s) : ∃ ds, L.Number v ds s := by
  rcases hs with hs | hs
  · exact ⟨[], .start L h hs⟩
  · refine h.invariant_within (fun v s => L.loops s → ∃ ds, L.Number v ds s) (fun h => absurd h L.fresh) ?_
      (List.prefix_refl v) hs
    intro v s c s' _ hread hnumber hstep hloop
    obtain ⟨hin, hc⟩ := L.back s c s' hstep hloop
    have hds : ∃ ds, L.Number v ds s := by
      rcases hin with hin | hin
      · exact ⟨[], .start L hread hin⟩
      · exact hnumber hin
    obtain ⟨ds, x, r, rfl, hx, hr, hd, hat⟩ := hds
    obtain ⟨t, ht, -, hat'⟩ := hat.digit L hc
    rw [hstep] at ht
    obtain rfl : s' = t := (Prod.mk.inj ht).2
    exact ⟨ds ++ [c], x, r, by simp, hx, hr, forall_mem_snoc hd hc, hat'⟩

/-- **The range of a number.** All its digit steps stay in range exactly when no run of its digits reaches the bound. -/
theorem inRange_iff (w : Bytes) :
    (∀ v c s, v ++ [c] <+: w → Reads step s₀ v s → L.starts s ∨ L.loops s → isDigit c = true →
      ∀ z ∈ digitStep (L.acc s) c, IsInt z) ↔ SmallNumbers step L.starts s₀ w := by
  constructor
  · intro h x ds s hw hx hs hd
    have hstart : L.At [] s := ⟨Or.inl hs, by rw [L.acc_start x s hx hs]; rfl⟩
    induction ds using List.reverseRecOn with
    | nil => decide
    | append_singleton ds c ih =>
      have hd' : ∀ d ∈ ds, isDigit d = true := fun d hmem => hd d (List.mem_append_left _ hmem)
      have hsmall := ih ((List.prefix_append (x ++ ds) [c]).trans (by simpa using hw)) hd'
      obtain ⟨t, hread, ht, hacc⟩ := L.reads_digits hstart hd'
      have hsteps := h (x ++ ds) c t (by simpa using hw) (hx.append hread) ht (hd c (by simp))
      rw [hacc, int32_of_range (by omega) (by omega)] at hsteps
      exact (digitStep_isInt (hd c (by simp))).1 hsteps
  · intro h v c s hw hv hs hc
    obtain ⟨ds, x, r, rfl, hx, hr, hd, -, hacc⟩ := L.number hv hs
    have hsmall := h x (ds ++ [c]) r (by simpa using hw) hx hr (forall_mem_snoc hd hc)
    have hle := value_le_append ds c
    rw [hacc, int32_of_range (by omega) (by omega)]
    exact (digitStep_isInt hc).2 hsmall

/-- a recogniser whose steps are in range at the digits reads small numbers -/
theorem small_of_inRange {computed : σ → UInt8 → List ℤ} {w : Bytes} (h : InRange step computed s₀ w)
    (hcomputed : ∀ {s c}, L.starts s ∨ L.loops s → isDigit c = true → computed s c = digitStep (L.acc s) c) :
    SmallNumbers step L.starts s₀ w := by
  apply (L.inRange_iff w).1
  intro v c s hv hr hs hc z hz
  apply h v c s hv hr z
  rwa [hcomputed hs hc]

/-- and its digit steps are in range when all the numbers are small -/
theorem inRange_of_small {starts : σ → Prop} {w : Bytes} (h : SmallNumbers step starts s₀ w)
    (hstarts : ∀ {s}, L.starts s → starts s) {v : Bytes} {c : UInt8} {s : σ} (hv : v ++ [c] <+: w)
    (hr : Reads step s₀ v s) (hs : L.starts s ∨ L.loops s) (hc : isDigit c = true) :
    ∀ z ∈ digitStep (L.acc s) c, IsInt z := by
  refine (L.inRange_iff w).2 ?_ v c s hv hr hs hc
  intro x ds r hw hx hstart
  exact h x ds r hw hx (hstarts hstart)

end DigitLoop

end BlogServer.Scan
