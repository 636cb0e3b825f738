/-
The `int` arithmetic of the two parsers.

`computed` lists what the operators of a step compute, each on its own, as mathematical integers. Three kinds of them
can leave the range of an `int`: the digit steps of a version number, and two counts of the response parser that go on
below zero, of a body whose announced size was never written and of a chunk that is not closed. The size of a request
body and the status code cannot.

- `request_inRange_iff`, `response_inRange_iff`: for each parser, the input on which every value is in range.
- `arithmetic_inRange_iff`: both.
- `arithmetic_overflows`: a version number of ten digits.
-/
import BlogServer.Core.DigitLoop
import BlogServer.Http.ChunkBounds
import BlogServer.Http.RequestFraming

namespace BlogServer.Http

open BlogServer.Byte BlogServer.Scan BlogServer.Decimal

/-- the digit steps of a number of at most three digits -/
theorem digitStep_small {n : ℤ} (h0 : 0 ≤ n) (hn : n < 100) (c : UInt8) : ∀ z ∈ digitStep n c, IsInt z := by
  have := c.toNat_lt
  simp only [digitStep, List.forall_mem_cons, List.not_mem_nil, false_implies, implies_true, and_true, IsInt]
  omega

/-! ## The request parser -/

namespace RequestParser

/-- what the `int` operators of `consume` compute -/
def computed (s : St) (c : UInt8) : List ℤ :=
  match s.1.state with
  | .httpVersionMajorStart => if isDigit c then digitStep s.2.httpVersionMajor c else []
  | .httpVersionMajor => if isDigit c then digitStep s.2.httpVersionMajor c else []
  | .httpVersionMinorStart => if isDigit c then digitStep s.2.httpVersionMinor c else []
  | .httpVersionMinor => if isDigit c then digitStep s.2.httpVersionMinor c else []
  | .headerValue =>
    if c = CR ∧ isContentLength (back s.2.headers).name = true then (stoi (back s.2.headers).value).toList else []
  | .expectingBody => [s.1.contentsize - 1]
  | _ => []

/-- the version numbers are zero until their digits are read -/
def StartsAtZero (s : St) : Prop :=
  match s.1.state with
  | .httpVersionMajorStart => s.2.httpVersionMajor = 0 ∧ s.2.httpVersionMinor = 0
  | .httpVersionMajor | .httpVersionMinorStart => s.2.httpVersionMinor = 0
  | _ => True

theorem reads_startsAtZero {u : Uninit} {v : Bytes} {s : St} (h : Reads consume (fresh, .fresh u) v s) :
    StartsAtZero s := by
  refine h.invariant (fun _ s => StartsAtZero s) (by trivial) ?_
  intro v s c s' hzero hs
  cases consume_moves hs with
  | versionSlash => exact ⟨rfl, rfl⟩
  | majorStart => exact hzero.2
  | major | majorEnd => exact hzero
  | _ => trivial

/-- the first number of the version -/
def majorLoop (u : Uninit) : DigitLoop consume (fresh, .fresh u) where
  starts s := s.1.state = .httpVersionMajorStart
  loops s := s.1.state = .httpVersionMajor
  acc s := s.2.httpVersionMajor
  fresh := State.noConfusion
  acc_start x s h hs := by
    have hzero := reads_startsAtZero h
    rw [StartsAtZero, hs] at hzero
    exact hzero.1
  digit s c hs hc := by
    obtain ⟨⟨st, n⟩, b⟩ := s
    rcases hs with rfl | rfl
    · exact ⟨_, (Moves.majorStart hc).consume_eq, rfl, rfl⟩
    · exact ⟨_, (Moves.major hc).consume_eq, rfl, rfl⟩
  back s c s' hs hloop := by
    cases consume_moves hs with
    | majorStart hc => exact ⟨Or.inl rfl, hc⟩
    | major hc => exact ⟨Or.inr rfl, hc⟩
    | _ => cases hloop

/-- the second number of the version -/
def minorLoop (u : Uninit) : DigitLoop consume (fresh, .fresh u) where
  starts s := s.1.state = .httpVersionMinorStart
  loops s := s.1.state = .httpVersionMinor
  acc s := s.2.httpVersionMinor
  fresh := State.noConfusion
  acc_start x s h hs := by
    have hzero := reads_startsAtZero h
    rwa [StartsAtZero, hs] at hzero
  digit s c hs hc := by
    obtain ⟨⟨st, n⟩, b⟩ := s
    rcases hs with rfl | rfl
    · exact ⟨_, (Moves.minorStart hc).consume_eq, rfl, rfl⟩
    · exact ⟨_, (Moves.minor hc).consume_eq, rfl, rfl⟩
  back s c s' hs hloop := by
    cases consume_moves hs with
    | minorStart hc => exact ⟨Or.inl rfl, hc⟩
    | minor hc => exact ⟨Or.inr rfl, hc⟩
    | _ => cases hloop

/-- a number of the version starts -/
def numberStarts (s : St) : Prop := s.1.state = .httpVersionMajorStart ∨ s.1.state = .httpVersionMinorStart

theorem computed_major {s : St} {c : UInt8}
    (hs : s.1.state = .httpVersionMajorStart ∨ s.1.state = .httpVersionMajor) (hc : isDigit c = true) :
    computed s c = digitStep s.2.httpVersionMajor c := by
  rcases hs with hs | hs <;> simp [computed, hs, hc]

theorem computed_minor {s : St} {c : UInt8}
    (hs : s.1.state = .httpVersionMinorStart ∨ s.1.state = .httpVersionMinor) (hc : isDigit c = true) :
    computed s c = digitStep s.2.httpVersionMinor c := by
  rcases hs with hs | hs <;> simp [computed, hs, hc]

/-- **The range of the request parser.** Everything it computes is in range exactly when the version numbers are
small. -/
theorem request_inRange_iff (u : Uninit) (w : Bytes) :
    InRange consume computed (fresh, .fresh u) w ↔ SmallNumbers consume numberStarts (fresh, .fresh u) w := by
  constructor
  · intro h x ds s hw hx hs hd
    rcases hs with hs | hs
    · exact (majorLoop u).small_of_inRange h computed_major x ds s hw hx hs hd
    · exact (minorLoop u).small_of_inRange h computed_minor x ds s hw hx hs hd
  · intro h v c s hv hr
    have hmajor := (majorLoop u).inRange_of_small h Or.inl hv hr
    have hminor := (minorLoop u).inRange_of_small h Or.inr hv hr
    intro z hz
    unfold computed at hz
    split at hz
    case h_1 hst =>
      obtain ⟨hc, hz⟩ := List.mem_ite_nil_right.1 hz
      exact hmajor (Or.inl hst) hc z hz
    case h_2 hst =>
      obtain ⟨hc, hz⟩ := List.mem_ite_nil_right.1 hz
      exact hmajor (Or.inr hst) hc z hz
    case h_3 hst =>
      obtain ⟨hc, hz⟩ := List.mem_ite_nil_right.1 hz
      exact hminor (Or.inl hst) hc z hz
    case h_4 hst =>
      obtain ⟨hc, hz⟩ := List.mem_ite_nil_right.1 hz
      exact hminor (Or.inr hst) hc z hz
    case h_5 =>
      exact stoi_range (Option.mem_toList.1 (List.mem_ite_nil_right.1 hz).2)
    case h_6 hst =>
      have hread := reads_lengthRead hr
      have hcounts := hread.counts
      have hlt := hread.lt
      rw [Counts, hst] at hcounts
      obtain rfl := List.mem_singleton.1 hz
      exact ⟨by omega, by omega⟩
    case h_7 => cases hz

end RequestParser

/-! ## The response parser -/

namespace ResponseParser

/-- what the `int` operators of `consume` compute -/
def computed (s : St) (c : UInt8) : List ℤ :=
  match s.1 with
  | .httpVersionMajorStart => if isDigit c then digitStep s.2.httpVersionMajor c else []
  | .httpVersionMajor => if isDigit c then digitStep s.2.httpVersionMajor c else []
  | .httpVersionMinorStart => if isDigit c then digitStep s.2.httpVersionMinor c else []
  | .httpVersionMinor => if isDigit c then digitStep s.2.httpVersionMinor c else []
  | .statusCode1 => if 49 ≤ c ∧ c ≤ 53 then [(c.toNat : ℤ) - 48] else []
  | .statusCode2 => if isDigit c then digitStep s.2.code c else []
  | .statusCode3 => if isDigit c then digitStep s.2.code c else []
  | .headerValue =>
    if c = CR ∧ isContentLength (RequestParser.back s.2.headers).name = true then
      (stoi (RequestParser.back s.2.headers).value).toList
    else []
  | .expectingBody => [s.2.contentsize - 1]
  | .chunkSize => if c = CR then (stoiHex s.2.chunksizehex).toList else []
  | .expectingChunk => [s.2.chunksize - 1]
  | _ => []

/-- the version numbers are zero until their digits are read, and the status code has as many digits as were read -/
def SmallSoFar (s : St) : Prop :=
  match s.1 with
  | .httpVersionMajorStart => s.2.httpVersionMajor = 0 ∧ s.2.httpVersionMinor = 0
  | .httpVersionMajor | .httpVersionMinorStart => s.2.httpVersionMinor = 0
  | .statusCode2 => 0 ≤ s.2.code ∧ s.2.code < 10
  | .statusCode3 => 0 ≤ s.2.code ∧ s.2.code < 100
  | _ => True

theorem reads_smallSoFar {u : ResponseUninit} {v : Bytes} {s : St} (h : Reads consume (fresh u) v s) :
    SmallSoFar s := by
  refine h.invariant (fun _ s => SmallSoFar s) (by trivial) ?_
  intro v s c s' hsmall hs
  cases consume_moves hs with
  | versionSlash => exact ⟨rfl, rfl⟩
  | majorStart => exact hsmall.2
  | major | majorEnd => exact hsmall
  | code1 hc =>
    simp only [UInt8.le_iff_toNat_le, UInt8.reduceToNat] at hc
    exact ⟨by simp only; omega, by simp only; omega⟩
  | @code2 b c hc =>
    obtain ⟨hge, hlt⟩ : 0 ≤ b.code ∧ b.code < 10 := hsmall
    obtain ⟨hlow, hhigh⟩ := isDigit_iff.1 hc
    have h32 : int32 (b.code * 10 + (c.toNat : ℤ) - 48) = b.code * 10 + (c.toNat : ℤ) - 48 :=
      int32_of_range (by omega) (by omega)
    simp only [SmallSoFar, h32]
    omega
  | _ => trivial

/-- the first number of the version -/
def majorLoop (u : ResponseUninit) : DigitLoop consume (fresh u) where
  starts s := s.1 = .httpVersionMajorStart
  loops s := s.1 = .httpVersionMajor
  acc s := s.2.httpVersionMajor
  fresh := State.noConfusion
  acc_start x s h hs := by
    have hzero := reads_smallSoFar h
    rw [SmallSoFar, hs] at hzero
    exact hzero.1
  digit s c hs hc := by
    obtain ⟨st, b⟩ := s
    rcases hs with rfl | rfl
    · exact ⟨_, (Moves.majorStart hc).consume_eq, rfl, rfl⟩
    · exact ⟨_, (Moves.major hc).consume_eq, rfl, rfl⟩
  back s c s' hs hloop := by
    cases consume_moves hs with
    | majorStart hc => exact ⟨Or.inl rfl, hc⟩
    | major hc => exact ⟨Or.inr rfl, hc⟩
    | _ => cases hloop

/-- the second number of the version -/
def minorLoop (u : ResponseUninit) : DigitLoop consume (fresh u) where
  starts s := s.1 = .httpVersionMinorStart
  loops s := s.1 = .httpVersionMinor
  acc s := s.2.httpVersionMinor
  fresh := State.noConfusion
  acc_start x s h hs := by
    have hzero := reads_smallSoFar h
    rwa [SmallSoFar, hs] at hzero
  digit s c hs hc := by
    obtain ⟨st, b⟩ := s
    rcases hs with rfl | rfl
    · exact ⟨_, (Moves.minorStart hc).consume_eq, rfl, rfl⟩
    · exact ⟨_, (Moves.minor hc).consume_eq, rfl, rfl⟩
  back s c s' hs hloop := by
    cases consume_moves hs with
    | minorStart hc => exact ⟨Or.inl rfl, hc⟩
    | minor hc => exact ⟨Or.inr rfl, hc⟩
    | _ => cases hloop

/-- a number of the version starts -/
def numberStarts (s : St) : Prop := s.1 = .httpVersionMajorStart ∨ s.1 = .httpVersionMinorStart

theorem computed_major {s : St} {c : UInt8} (hs : s.1 = .httpVersionMajorStart ∨ s.1 = .httpVersionMajor)
    (hc : isDigit c = true) : computed s c = digitStep s.2.httpVersionMajor c := by
  rcases hs with hs | hs <;> simp [computed, hs, hc]

theorem computed_minor {s : St} {c : UInt8} (hs : s.1 = .httpVersionMinorStart ∨ s.1 = .httpVersionMinor)
    (hc : isDigit c = true) : computed s c = digitStep s.2.httpVersionMinor c := by
  rcases hs with hs | hs <;> simp [computed, hs, hc]

/-! ## The count over a plain body -/

/-- the size of a plain body is that of an `int` -/
theorem reads_contentsize_isInt {u : ResponseUninit} (hu : IsInt u.contentsize) {v : Bytes} {s : St}
    (h : Reads consume (fresh u) v s) : IsInt s.2.contentsize := by
  refine h.invariant (fun _ s => IsInt s.2.contentsize) hu ?_
  intro v s c s' hsize hs
  cases consume_moves hs with
  | valueEnd =>
    rw [noteFlags_eq]
    exact hsize
  | lengthEnd hl hk =>
    rw [noteFlags_eq]
    exact stoi_range hk
  | body => exact int32_range _
  | _ => exact hsize

/-- `data` is what has been read of a body without chunks after the header section `x`, whose size is not zero; a
positive size has not been reached -/
structure InBody (s₀ : St) (v : Bytes) (s : St) (x data : Bytes) (r : St) : Prop where
  split : v = x ++ LF :: data
  line : Reads consume s₀ x r
  state : r.1 = .expectingNewline3
  plain : r.2.chunked = false
  count : s.2.contentsize = r.2.contentsize - data.length
  short : 0 ≤ r.2.contentsize → (data.length : ℤ) < r.2.contentsize

/-- a body whose size is below zero is not longer than the count can tell -/
def BodyCounted (u : ResponseUninit) (w : Bytes) : Prop :=
  ∀ x data r, x ++ LF :: data <+: w → Reads consume (fresh u) x r → r.1 = .expectingNewline3 → r.2.chunked = false →
    r.2.contentsize < 0 → (data.length : ℤ) ≤ r.2.contentsize + 2147483648

/-- the count stays in range -/
theorem InBody.isInt {u : ResponseUninit} {w v x data : Bytes} {s r : St} {c : UInt8} (hw : BodyCounted u w)
    (h : InBody (fresh u) v s x data r) (hsize : IsInt r.2.contentsize) (hv : v ++ [c] <+: w) :
    IsInt (s.2.contentsize - 1) := by
  obtain ⟨rfl, hline, hst, hplain, hcount, hshort⟩ := h
  obtain ⟨-, hlt⟩ := hsize
  by_cases hneg : r.2.contentsize < 0
  · have hlen := hw x (data ++ [c]) r (by simpa using hv) hline hst hplain hneg
    rw [List.length_append, List.length_singleton] at hlen
    push_cast at hlen
    exact ⟨by omega, by omega⟩
  · have hlen := hshort (by omega)
    exact ⟨by omega, by omega⟩

/-- **Where a body without chunks is read**, it is counted from the size it started with. -/
theorem reads_inBody {u : ResponseUninit} (hu : IsInt u.contentsize) {w v : Bytes} (hw : BodyCounted u w) {s : St}
    (h : Reads consume (fresh u) v s) (hv : v <+: w) (hs : s.1 = .expectingBody) :
    ∃ x data r, InBody (fresh u) v s x data r := by
  refine h.invariant_within (fun v s => s.1 = .expectingBody → ∃ x data r, InBody (fresh u) v s x data r)
    (fun h => State.noConfusion h) ?_ hv hs
  intro v s c s' hv hread hbody hstep
  cases consume_moves hstep with
  | toBody hb hn =>
    refine fun _ => ⟨v, [], _, rfl, hread, rfl, hb, by simp [saw], fun h0 => ?_⟩
    exact lt_of_le_of_ne h0 (Ne.symm hn)
  | @body b c hn =>
    intro _
    obtain ⟨x, data, r, hin⟩ := hbody rfl
    have hsize := reads_contentsize_isInt hu hin.line
    obtain ⟨hge, hlt⟩ := hin.isInt hw hsize hv
    obtain ⟨rfl, hline, hst, hplain, hcount, hshort⟩ := hin
    simp only at hge hlt hcount
    have h32 : int32 (b.contentsize - 1) = b.contentsize - 1 := int32_of_range hge hlt
    rw [h32] at hn
    refine ⟨x, data ++ [c], r, by simp, hline, hst, hplain, ?_, fun h0 => ?_⟩
    · simp only [h32, List.length_append, List.length_singleton]
      push_cast
      omega
    · have := hshort h0
      rw [List.length_append, List.length_singleton]
      push_cast
      omega
  | _ => exact fun h => State.noConfusion h

/-- **A body whose size is below zero** is counted on until the count leaves the range of an `int`. -/
theorem reads_bodyData {r : St} (hr : r.1 = .expectingNewline3) (hplain : r.2.chunked = false)
    (hneg : r.2.contentsize < 0) {data : Bytes} (hrange : (data.length : ℤ) ≤ r.2.contentsize + 2147483648) :
    ∃ f, Reads consume r (LF :: data) (.expectingBody,
      { r.2 with contentsize := r.2.contentsize - data.length, body := r.2.body ++ data, fullmessage := f }) := by
  obtain ⟨st, b⟩ := r
  obtain rfl : st = .expectingNewline3 := hr
  have hline := (Moves.toBody hplain (ne_of_lt hneg)).consume_eq
  have hloop : Reads consume _ data _ := Reads.loop
    (fun d => (.expectingBody, { b with
      contentsize := b.contentsize - d.length, body := b.body ++ d, fullmessage := b.fullmessage ++ [LF] ++ d })) ?_
  · simp only [List.length_nil, List.append_nil, Nat.cast_zero, sub_zero] at hloop
    exact ⟨_, .cons hline hloop⟩
  · intro d c e hd
    have hlen : (d.length : ℤ) + 1 ≤ data.length := by rw [hd]; simp
    simp only at hrange hneg
    have h32 : int32 (b.contentsize - d.length - 1) = b.contentsize - d.length - 1 :=
      int32_of_range (by omega) (by omega)
    refine (Moves.body (by simp only; rw [h32]; omega)).consume_eq.trans ?_
    simp only [h32, saw, addBody, List.length_append, List.length_singleton, List.append_assoc]
    push_cast
    simp only [sub_sub]

/-! ## The count over a chunk -/

/-- a chunk is closed by a CR, or not longer than the count can tell -/
def ChunksCounted (u : ResponseUninit) (w : Bytes) : Prop :=
  ∀ x data r, x ++ LF :: data <+: w → Reads consume (fresh u) x r → r.1 = .expectingNewline4 →
    (data.length : ℤ) ≤ r.2.chunksize + 2147483648 ∨ data[r.2.chunksize.toNat]? = some CR

/-- the count stays in range -/
theorem InData.isInt {u : ResponseUninit} {w v x data : Bytes} {s r : St} {c : UInt8} (hw : ChunksCounted u w)
    (h : InData (fresh u) v s x data r) (hv : v ++ [c] <+: w) : IsInt (s.2.chunksize - 1) := by
  obtain ⟨hpos, hlt⟩ := reads_size_range h.line h.state
  obtain ⟨rfl, hline, hst, hcount, hclosed⟩ := h
  rcases hw x (data ++ [c]) r (by simpa using hv) hline hst with hlen | hcr
  · rw [List.length_append, List.length_singleton] at hlen
    push_cast at hlen
    exact ⟨by omega, by omega⟩
  · -- the CR that closes the chunk can only be the byte that comes now
    have hend : data.length ≤ r.2.chunksize.toNat := by
      by_contra hlong
      rw [List.getElem?_append_left (by omega)] at hcr
      exact hclosed hcr
    exact ⟨by omega, by omega⟩

/-- **Where a chunk is read**, it is counted from the size declared for it. -/
theorem reads_inData {u : ResponseUninit} {w v : Bytes} (hw : ChunksCounted u w) {s : St}
    (h : Reads consume (fresh u) v s) (hv : v <+: w) (hs : s.1 = .expectingChunk) :
    ∃ x data r, InData (fresh u) v s x data r := by
  refine h.invariant_within (fun v s => s.1 = .expectingChunk → ∃ x data r, InData (fresh u) v s x data r)
    (fun h => State.noConfusion h) ?_ hv hs
  intro v s c s' hv hread hdata hstep
  cases consume_moves hstep with
  | newline4 => exact fun _ => ⟨v, [], _, .start hread rfl⟩
  | data hc =>
    intro hst
    obtain ⟨x, data, r, hin⟩ := hdata rfl
    exact ⟨x, data ++ [c], r, hin.step rfl (hin.isInt hw hv).1 hstep hst⟩
  | _ => exact fun h => State.noConfusion h

/-! ## All of it -/

theorem exists_split {l : Bytes} {k : ℕ} (h : k < l.length) : ∃ d c e, l = d ++ c :: e ∧ d.length = k :=
  ⟨l.take k, l[k], l.drop (k + 1), by simp, by simp; omega⟩

theorem prefix_of_split {x d e w : Bytes} {c : UInt8} (h : x ++ LF :: (d ++ c :: e) <+: w) :
    x ++ LF :: d ++ [c] <+: w :=
  (List.prefix_append (x ++ LF :: d ++ [c]) e).trans (by simpa using h)

theorem bodyCounted_of_inRange {u : ResponseUninit} (hu : IsInt u.contentsize) {w : Bytes}
    (h : InRange consume computed (fresh u) w) : BodyCounted u w := by
  intro x data r hx hr hst hplain hneg
  by_contra hlong
  obtain ⟨hge, -⟩ := reads_contentsize_isInt hu hr
  obtain ⟨d, c, e, rfl, hd⟩ := exists_split (l := data) (k := (r.2.contentsize + 2147483648).toNat) (by omega)
  have hrange : (d.length : ℤ) ≤ r.2.contentsize + 2147483648 := by omega
  obtain ⟨f, hbody⟩ := reads_bodyData hst hplain hneg hrange
  obtain ⟨hlow, -⟩ := h _ c _ (prefix_of_split hx) (hr.append hbody) _ (List.mem_singleton_self _)
  simp only at hlow
  omega

theorem chunksCounted_of_inRange {u : ResponseUninit} {w : Bytes} (h : InRange consume computed (fresh u) w) :
    ChunksCounted u w := by
  intro x data r hx hr hst
  by_contra hlong
  obtain ⟨hlen, hclosed⟩ := not_or.1 hlong
  obtain ⟨hpos, hlt⟩ := reads_size_range hr hst
  obtain ⟨d, c, e, rfl, hd⟩ := exists_split (l := data) (k := (r.2.chunksize + 2147483648).toNat) (by omega)
  have hd' : d[r.2.chunksize.toNat]? ≠ some CR := by
    rwa [List.getElem?_append_left (by omega)] at hclosed
  have hrange : (d.length : ℤ) ≤ r.2.chunksize + 2147483648 := by omega
  obtain ⟨f, hchunk⟩ := reads_chunkData hst hpos hlt hrange hd'
  obtain ⟨hlow, -⟩ := h _ c _ (prefix_of_split hx) (hr.append hchunk) _ (List.mem_singleton_self _)
  simp only at hlow
  omega

/-- **The range of the response parser.** Everything it computes is in range exactly when the version numbers are
small, a body whose size was never written ends in time, and so does every chunk that is not closed. -/
theorem response_inRange_iff {u : ResponseUninit} (hu : IsInt u.contentsize) (w : Bytes) :
    InRange consume computed (fresh u) w ↔
      SmallNumbers consume numberStarts (fresh u) w ∧ BodyCounted u w ∧ ChunksCounted u w := by
  constructor
  · intro h
    refine ⟨fun x ds s hw hx hs hd => ?_, bodyCounted_of_inRange hu h, chunksCounted_of_inRange h⟩
    rcases hs with hs | hs
    · exact (majorLoop u).small_of_inRange h computed_major x ds s hw hx hs hd
    · exact (minorLoop u).small_of_inRange h computed_minor x ds s hw hx hs hd
  · intro h v c s hv hr
    obtain ⟨hnumbers, hbodies, hchunks⟩ := h
    have hmajor := (majorLoop u).inRange_of_small hnumbers Or.inl hv hr
    have hminor := (minorLoop u).inRange_of_small hnumbers Or.inr hv hr
    have hsmall := reads_smallSoFar hr
    intro z hz
    unfold computed at hz
    split at hz
    case h_1 hst =>
      obtain ⟨hc, hz⟩ := List.mem_ite_nil_right.1 hz
      exact hmajor (Or.inl hst) hc z hz
    case h_2 hst =>
      obtain ⟨hc, hz⟩ := List.mem_ite_nil_right.1 hz
      exact hmajor (Or.inr hst) hc z hz
    case h_3 hst =>
      obtain ⟨hc, hz⟩ := List.mem_ite_nil_right.1 hz
      exact hminor (Or.inl hst) hc z hz
    case h_4 hst =>
      obtain ⟨hc, hz⟩ := List.mem_ite_nil_right.1 hz
      exact hminor (Or.inr hst) hc z hz
    case h_5 =>
      obtain ⟨-, hz⟩ := List.mem_ite_nil_right.1 hz
      obtain rfl := List.mem_singleton.1 hz
      have := c.toNat_lt
      exact ⟨by omega, by omega⟩
    case h_6 hst =>
      obtain ⟨hc, hz⟩ := List.mem_ite_nil_right.1 hz
      rw [SmallSoFar, hst] at hsmall
      exact digitStep_small hsmall.1 (by omega) c z hz
    case h_7 hst =>
      obtain ⟨hc, hz⟩ := List.mem_ite_nil_right.1 hz
      rw [SmallSoFar, hst] at hsmall
      exact digitStep_small hsmall.1 hsmall.2 c z hz
    case h_8 => exact stoi_range (Option.mem_toList.1 (List.mem_ite_nil_right.1 hz).2)
    case h_9 hst =>
      obtain rfl := List.mem_singleton.1 hz
      obtain ⟨x, data, r, hin⟩ := reads_inBody hu hbodies hr ((List.prefix_append v [c]).trans hv) hst
      exact hin.isInt hbodies (reads_contentsize_isInt hu hin.line) hv
    case h_10 =>
      obtain ⟨hge, hlt⟩ := stoiHex_range (Option.mem_toList.1 (List.mem_ite_nil_right.1 hz).2)
      exact ⟨by omega, hlt⟩
    case h_11 hst =>
      obtain rfl := List.mem_singleton.1 hz
      obtain ⟨x, data, r, hin⟩ := reads_inData hchunks hr ((List.prefix_append v [c]).trans hv) hst
      exact hin.isInt hchunks hv
    case h_12 => cases hz

end ResponseParser

/-! ## Both parsers -/

/-- **The arithmetic of the parsers.** Up to the first answer every `int` they compute is in range exactly when their
version numbers are small and, for a response, no count goes on below the least `int`. -/
theorem arithmetic_inRange_iff (u : Uninit) (u' : ResponseUninit) (hu : IsInt u'.contentsize) (w : Bytes) :
    (InRange RequestParser.consume RequestParser.computed (RequestParser.fresh, .fresh u) w ↔
        SmallNumbers RequestParser.consume RequestParser.numberStarts (RequestParser.fresh, .fresh u) w) ∧
      (InRange ResponseParser.consume ResponseParser.computed (ResponseParser.fresh u') w ↔
        SmallNumbers ResponseParser.consume ResponseParser.numberStarts (ResponseParser.fresh u') w ∧
          ResponseParser.BodyCounted u' w ∧ ResponseParser.ChunksCounted u' w) :=
  ⟨RequestParser.request_inRange_iff u w, ResponseParser.response_inRange_iff hu w⟩

/-- the theorem at a body of unknown size, whose count starts below zero -/
theorem arithmetic_inRange_iff_noLength :
    InRange ResponseParser.consume ResponseParser.computed (ResponseParser.fresh ⟨0, 0, 0, -7, 0⟩)
        (ascii "HTTP/1.0 200 OK\r\n\r\nA body up to the end of the connection") ↔
      SmallNumbers ResponseParser.consume ResponseParser.numberStarts (ResponseParser.fresh ⟨0, 0, 0, -7, 0⟩)
          (ascii "HTTP/1.0 200 OK\r\n\r\nA body up to the end of the connection") ∧
        ResponseParser.BodyCounted ⟨0, 0, 0, -7, 0⟩
          (ascii "HTTP/1.0 200 OK\r\n\r\nA body up to the end of the connection") ∧
        ResponseParser.ChunksCounted ⟨0, 0, 0, -7, 0⟩
          (ascii "HTTP/1.0 200 OK\r\n\r\nA body up to the end of the connection") :=
  (arithmetic_inRange_iff ⟨0, 0, 0⟩ ⟨0, 0, 0, -7, 0⟩ ⟨by decide, by decide⟩ _).2

/-- **Overflow.** The tenth digit of a version number is too much. -/
theorem arithmetic_overflows :
    ¬ InRange RequestParser.consume RequestParser.computed (RequestParser.fresh, .fresh ⟨0, 0, 0⟩)
      (ascii "GET / HTTP/3000000000") := by
  intro h
  have hread : Reads RequestParser.consume (RequestParser.fresh, .fresh ⟨0, 0, 0⟩) (ascii "GET / HTTP/300000000")
      (feed RequestParser.consume (RequestParser.fresh, .fresh ⟨0, 0, 0⟩) (ascii "GET / HTTP/300000000")).2.1 := by
    rw [Reads]
    decide +kernel
  obtain ⟨-, hlt⟩ := h _ 48 _ (by decide +kernel) hread 3000000000 (by decide +kernel)
  exact absurd hlt (by decide)

end BlogServer.Http
