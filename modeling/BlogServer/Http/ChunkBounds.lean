/-
Chunk bodies against the sizes declared for them.

A chunk is open from the LF of its size line: `InData` says which bytes have been read of it and that `chunksize` has
been counted down by their number. The count goes on below zero, so a chunk whose data is not followed by a CR never
ends, and takes everything for data.

- `reads_chunkData`: the open chunk, past its declared size too, as long as no CR stands where it has to end.
- `chunks_bounded_iff`: no body exceeds the declared sizes, and every chunk left open is refused, exactly when a CR
  follows the data of every chunk.
- `chunks_bounded_fails`: two bytes in a chunk of one.
-/
import BlogServer.Http.Chunked

namespace BlogServer.Http.ResponseParser

open BlogServer.Byte BlogServer.Scan BlogServer.Decimal

/-! ## The sizes declared -/

/-- the size of a chunk, at the byte that ends its size line -/
def sizeRead (s : St) (c : UInt8) : ℤ :=
  if s.1 = .chunkSize ∧ c = CR then (stoiHex s.2.chunksizehex).getD 0 else 0

/-- the sum of the chunk sizes read -/
def declared (s : St) : Bytes → ℤ
  | [] => 0
  | c :: w => sizeRead s c + declared (consume s c).2 w

theorem declared_snoc {s t : St} {v : Bytes} (h : Reads consume s v t) (c : UInt8) :
    declared s (v ++ [c]) = declared s v + sizeRead t c := by
  induction v generalizing s with
  | nil =>
    obtain rfl : s = t := by cases h; rfl
    simp [declared]
  | cons d v ih =>
    rcases hs : consume s d with ⟨x, s'⟩
    have hx : x = .indeterminate := by
      by_contra hx
      rw [Reads, feed_cons_answer hs hx] at h
      exact hx (Prod.mk.inj h).1
    subst hx
    rw [Reads, feed_cons_indeterminate hs] at h
    rw [List.cons_append, declared, declared, hs, ih h, add_assoc]

/-- a size is not negative, and one that ends no response is not zero -/
theorem stoiHex_range {s : Bytes} {n : ℤ} (h : stoiHex s = some n) : 0 ≤ n ∧ n < 2147483648 := by
  unfold stoiHex at h
  split_ifs at h
  obtain ⟨hn, -, hlt⟩ := narrow_eq_some.1 h
  exact ⟨hn ▸ Int.natCast_nonneg _, hlt⟩

/-- the size of a chunk whose size line has been read -/
theorem reads_size_range {u : ResponseUninit} {x : Bytes} {r : St} (h : Reads consume (fresh u) x r)
    (hr : r.1 = .expectingNewline4) : 0 < r.2.chunksize ∧ r.2.chunksize < 2147483648 := by
  refine h.invariant (fun _ s => s.1 = .expectingNewline4 → 0 < s.2.chunksize ∧ s.2.chunksize < 2147483648)
    (by simp [fresh]) ?_ hr
  intro v s c s' _ hs
  cases consume_moves hs with
  | sizeEnd hn h0 =>
    obtain ⟨hge, hlt⟩ := stoiHex_range hn
    exact fun _ => ⟨lt_of_le_of_ne hge (Ne.symm h0), hlt⟩
  | _ => exact fun h => State.noConfusion h

/-! ## The open chunk -/

/-- `data` is what has been read of the chunk whose size line `x` ends with; a CR at its end would have closed it -/
structure InData (s₀ : St) (v : Bytes) (s : St) (x data : Bytes) (r : St) : Prop where
  split : v = x ++ LF :: data
  line : Reads consume s₀ x r
  state : r.1 = .expectingNewline4
  count : s.2.chunksize = r.2.chunksize - data.length
  closed : data[r.2.chunksize.toNat]? ≠ some CR

theorem InData.start {s₀ : St} {x : Bytes} {r : St} (h : Reads consume s₀ x r) (hr : r.1 = .expectingNewline4) :
    InData s₀ (x ++ [LF]) (.expectingChunk, saw r.2 LF) x [] r :=
  ⟨rfl, h, hr, by simp [saw], by simp⟩

/-- **Step lemma.** One byte more of the chunk that is open. -/
theorem InData.step {u : ResponseUninit} {v x data : Bytes} {s s' r : St} {c : UInt8}
    (h : InData (fresh u) v s x data r) (hst : s.1 = .expectingChunk) (hrange : -2147483648 ≤ s.2.chunksize - 1)
    (hs : consume s c = (.indeterminate, s')) (hst' : s'.1 = .expectingChunk) :
    InData (fresh u) (v ++ [c]) s' x (data ++ [c]) r := by
  obtain ⟨hpos, hlt⟩ := reads_size_range h.line h.state
  have hcount := h.count
  have h32 : int32 (s.2.chunksize - 1) = s.2.chunksize - 1 := int32_of_range hrange (by omega)
  obtain ⟨st, b⟩ := s
  obtain rfl : st = .expectingChunk := hst
  cases consume_moves hs with
  | data hc =>
    refine ⟨by rw [h.split]; simp, h.line, h.state, ?_, ?_⟩
    · simp only at h32 hcount ⊢
      rw [h32, hcount, List.length_append, List.length_singleton]
      push_cast
      ring
    · intro hend
      by_cases hlen : r.2.chunksize.toNat < data.length
      · rw [List.getElem?_append_left hlen] at hend
        exact h.closed hend
      · rw [List.getElem?_append_right (not_lt.1 hlen)] at hend
        obtain ⟨hzero, hcr⟩ := List.getElem?_eq_some_iff.1 hend
        rw [List.length_singleton] at hzero
        refine hc (by simpa using hcr) ?_
        simp only at h32 hcount
        rw [h32]
        omega
  | dataEnd hb => cases hst'

/-- **The open chunk.** Where no CR stands at the end of the chunk, all is data, until the count leaves the range of
an `int`. -/
theorem reads_chunkData {r : St} (hr : r.1 = .expectingNewline4) (hpos : 0 < r.2.chunksize)
    (hlt : r.2.chunksize < 2147483648) {data : Bytes} (hrange : (data.length : ℤ) ≤ r.2.chunksize + 2147483648)
    (hclosed : data[r.2.chunksize.toNat]? ≠ some CR) :
    ∃ f, Reads consume r (LF :: data)
      (.expectingChunk,
        { r.2 with chunksize := r.2.chunksize - data.length, body := r.2.body ++ data, fullmessage := f }) := by
  obtain ⟨st, b⟩ := r
  obtain rfl : st = .expectingNewline4 := hr
  have hline : consume (.expectingNewline4, b) LF = (.indeterminate, .expectingChunk, saw b LF) := by simp [consume, saw]
  have hloop : Reads consume _ data _ := Reads.loop
    (fun d => (.expectingChunk, { b with
      chunksize := b.chunksize - d.length, body := b.body ++ d, fullmessage := b.fullmessage ++ [LF] ++ d })) ?_
  · simp only [List.length_nil, List.append_nil, Nat.cast_zero, sub_zero] at hloop
    exact ⟨_, .cons hline hloop⟩
  · intro d c e hd
    have hlen : (d.length : ℤ) + 1 ≤ data.length := by rw [hd]; simp
    have h32 : int32 (b.chunksize - d.length - 1) = b.chunksize - d.length - 1 :=
      int32_of_range (by simp only at hrange; omega) (by simp only at hlt; omega)
    have hdata : ¬ (c = CR ∧ b.chunksize - d.length - 1 = -1) := by
      intro h
      obtain ⟨hc, hend⟩ := h
      have hat : b.chunksize.toNat = d.length := by omega
      exact hclosed (by simp [hat, hd, hc])
    simp only [consume, h32, if_neg hdata, List.length_append, List.length_singleton, List.append_assoc]
    push_cast
    simp only [sub_sub]

/-! ## Bodies and sizes -/

/-- chunk bodies are kept to their sizes: at no point before an answer is the body longer than the sizes read, and what
follows the data of a chunk is refused unless it is a CR -/
structure ChunksBounded (u : ResponseUninit) (w : Bytes) : Prop where
  size : ∀ v s, v <+: w → Reads consume (fresh u) v s → s.2.chunked = true → (s.2.body.length : ℤ) ≤ declared (fresh u) v
  close : ∀ x data c r, x ++ LF :: (data ++ [c]) <+: w → Reads consume (fresh u) x r → r.1 = .expectingNewline4 →
    (data.length : ℤ) = r.2.chunksize → c ≠ CR → Rejects consume (fresh u) (x ++ LF :: (data ++ [c]))

/-- the byte after the data of each chunk, where there is one, is a CR -/
def ChunksClosed (u : ResponseUninit) (w : Bytes) : Prop :=
  ∀ x data c r, x ++ LF :: (data ++ [c]) <+: w → Reads consume (fresh u) x r → r.1 = .expectingNewline4 →
    (data.length : ℤ) = r.2.chunksize → c = CR

/-- what is still to be read of a chunk -/
def pending (s : St) : ℤ :=
  match s.1 with
  | .expectingNewline4 | .expectingChunk => s.2.chunksize
  | _ => 0

/-- the body and what is still to come are the sizes declared; there is none of it in a body without chunks -/
structure Balanced (s₀ : St) (v : Bytes) (s : St) : Prop where
  sum : s.1 ≠ .expectingBody → s.2.body.length + pending s = declared s₀ v
  nonneg : 0 ≤ pending s
  chunk : s.1 = .expectingChunk → ∃ x data r, InData s₀ v s x data r

/-- **Step lemma.** Closed chunks keep the balance. -/
theorem step_balanced {u : ResponseUninit} {w v : Bytes} {s s' : St} {c : UInt8} (hw : ChunksClosed u w)
    (hv : v ++ [c] <+: w) (hr : Reads consume (fresh u) v s) (h : Balanced (fresh u) v s)
    (hs : consume s c = (.indeterminate, s')) : Balanced (fresh u) (v ++ [c]) s' := by
  obtain ⟨hsum, hnonneg, hchunk⟩ := h
  have hdeclared := declared_snoc hr c
  cases consume_moves hs with
  | toBody | body => exact ⟨fun h => absurd rfl h, le_rfl, fun h => State.noConfusion h⟩
  | size hc =>
    have hcr : c ≠ CR := fun h => absurd (h ▸ hc) (by decide)
    have hbefore := hsum (by simp)
    refine ⟨fun _ => ?_, le_rfl, fun h => State.noConfusion h⟩
    rw [hdeclared, ← hbefore]
    simp [sizeRead, pending, saw, hcr]
  | sizeEnd hn h0 =>
    have hbefore := hsum (by simp)
    refine ⟨fun _ => ?_, (stoiHex_range hn).1, fun h => State.noConfusion h⟩
    simp only [sizeRead, hn, true_and, if_true, Option.getD_some] at hdeclared
    rw [hdeclared, ← hbefore]
    simp [pending, saw]
  | newline4 =>
    have hbefore := hsum (by simp)
    refine ⟨fun _ => ?_, hnonneg, fun _ => ⟨v, [], _, .start hr rfl⟩⟩
    simp only [sizeRead, reduceCtorEq, false_and, if_false, add_zero] at hdeclared
    rw [hdeclared, ← hbefore]
    rfl
  | @data b c hc =>
    obtain ⟨x, data, r, hin⟩ := hchunk rfl
    obtain ⟨-, hlt⟩ := reads_size_range hin.line hin.state
    have hcount : b.chunksize = r.2.chunksize - data.length := hin.count
    have hge : 0 ≤ b.chunksize := hnonneg
    -- at zero the byte would have to be the CR that closes the chunk
    have hne : b.chunksize ≠ 0 := by
      intro hzero
      have hcr : c = CR := hw x data c r (by simpa [hin.split] using hv) hin.line hin.state (by omega)
      exact hc hcr (by rw [hzero]; decide)
    have h32 : int32 (b.chunksize - 1) = b.chunksize - 1 := int32_of_range (by omega) (by omega)
    have hbefore := hsum (by simp)
    refine ⟨fun _ => ?_, ?_, fun _ => ⟨x, data ++ [c], r, hin.step rfl (by simp only; omega) hs rfl⟩⟩
    · simp only [sizeRead, reduceCtorEq, false_and, if_false, add_zero] at hdeclared
      rw [hdeclared, ← hbefore]
      simp only [pending, addBody, saw, h32, List.length_append, List.length_singleton]
      push_cast
      ring
    · simp only [pending, h32]
      omega
  | @dataEnd b hb =>
    obtain ⟨x, data, r, hin⟩ := hchunk rfl
    obtain ⟨-, hlt⟩ := reads_size_range hin.line hin.state
    have hcount : b.chunksize = r.2.chunksize - data.length := hin.count
    have hge : 0 ≤ b.chunksize := hnonneg
    have hzero : b.chunksize = 0 := by
      rw [int32_of_range (by omega) (by omega)] at hb
      omega
    have hbefore := hsum (by simp)
    refine ⟨fun _ => ?_, le_rfl, fun h => State.noConfusion h⟩
    simp only [sizeRead, reduceCtorEq, false_and, if_false, add_zero] at hdeclared
    rw [hdeclared, ← hbefore]
    simp [pending, saw, hzero]
  | _ =>
    have hbefore := hsum (by simp)
    refine ⟨fun _ => ?_, le_rfl, fun h => State.noConfusion h⟩
    rw [hdeclared, ← hbefore]
    simp [sizeRead, pending, saw, addName, addValue, noteFlags_eq]

theorem reads_balanced {u : ResponseUninit} {w v : Bytes} {s : St} (hw : ChunksClosed u w) (hv : v <+: w)
    (h : Reads consume (fresh u) v s) : Balanced (fresh u) v s :=
  h.invariant_within (Balanced (fresh u)) ⟨fun _ => rfl, le_rfl, fun h => State.noConfusion h⟩
    (fun _ _ _ _ hv hr hbal hs => step_balanced hw hv hr hbal hs) hv

/-- **Chunk bodies and their sizes.** The body never exceeds the sizes read, and a byte other than CR after the data of
a chunk is refused, exactly when there is no such byte. -/
theorem chunks_bounded_iff (u : ResponseUninit) (w : Bytes) : ChunksBounded u w ↔ ChunksClosed u w := by
  constructor
  · intro h x data c r hx hr hst hlen
    by_contra hc
    obtain ⟨hpos, hlt⟩ := reads_size_range hr hst
    have hend : (data ++ [c])[r.2.chunksize.toNat]? ≠ some CR := by
      have hat : r.2.chunksize.toNat = data.length := by omega
      simp [hat, hc]
    have hrange : ((data ++ [c]).length : ℤ) ≤ r.2.chunksize + 2147483648 := by
      simp
      omega
    obtain ⟨f, hall⟩ := reads_chunkData hst hpos hlt hrange hend
    have hbad := h.close x data c r hx hr hst hlen hc
    rw [Rejects, hr.append hall] at hbad
    cases hbad
  · intro hw
    refine ⟨fun v s hv hr hchunked => ?_, fun x data c r hx hr hst hlen hc => absurd (hw x data c r hx hr hst hlen) hc⟩
    have hbal := reads_balanced hw hv hr
    have hst : s.1 ≠ .expectingBody := by
      intro hst
      rw [(framing_fresh u).reads hr |>.plain hst] at hchunked
      cases hchunked
    have hsum := hbal.sum hst
    have hnonneg := hbal.nonneg
    omega

/-- a chunk of one byte, and two bytes -/
def twoForOne : Bytes := ascii "HTTP/1.1 200 OK\r\nTransfer-Encoding: chunked\r\n\r\n1\r\nAB"

/-- **The count goes on below zero.** The second byte is data like the first. -/
theorem chunks_bounded_fails : ¬ ChunksBounded ⟨0, 0, 0, 0, 0⟩ twoForOne := by
  intro h
  have hread : Reads consume (fresh ⟨0, 0, 0, 0, 0⟩) twoForOne (feed consume (fresh ⟨0, 0, 0, 0, 0⟩) twoForOne).2.1 := by
    rw [Reads]
    decide +kernel
  have hsize := h.size twoForOne _ (List.prefix_refl _) hread (by decide +kernel)
  revert hsize
  decide +kernel

end BlogServer.Http.ResponseParser
