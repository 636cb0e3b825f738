/-
The length of a request body.

`contentsize_` is read at the end of each line of a Content-Length value, so a value that is folded is read once for
each of its lines, and counted down over the body. Between headers it is the size that the last Content-Length announces
(`Sized`); inside a header it is the size announced before, until the line ends (`LengthRead`, `step_lengthRead`).

- `content_length_framing`: the body of an accepted request has the size that its last Content-Length announces, and the
  count is never negative on the way there.
-/
import BlogServer.Http.RequestCodec
import BlogServer.Http.RequestGrammar

namespace BlogServer.Http.RequestParser

open BlogServer.Byte BlogServer.Scan BlogServer.Decimal

/-! ## The announced size -/

/-- `n` is what `std::stoi` makes of the last Content-Length, or zero if there is none -/
def Sized (hs : List Header) (n : ℤ) : Prop :=
  match lastLength hs with
  | some h => stoi h.value = some n
  | none => n = 0

theorem sized_snoc_other {hs : List Header} {h : Header} (hl : isContentLength h.name = false) (n : ℤ) :
    Sized (hs ++ [h]) n ↔ Sized hs n := by
  rw [Sized, Sized, lastLength_snoc, hl, if_neg (by decide)]

theorem sized_snoc_length {hs : List Header} {h : Header} (hl : isContentLength h.name = true) (n : ℤ) :
    Sized (hs ++ [h]) n ↔ stoi h.value = some n := by
  rw [Sized, lastLength_snoc, if_pos hl]

/-! ## The count in each state -/

/-- what `contentsize_` counts in a state -/
def Counts (s : St) : Prop :=
  match s.1.state with
  | .headerName | .spaceBeforeHeaderValue => ∃ hs h, s.2.headers = hs ++ [h] ∧ Sized hs s.1.contentsize
  | .headerValue =>
    -- a Content-Length is read anew when its line ends
    ∃ hs h, s.2.headers = hs ++ [h] ∧ (isContentLength h.name = false → Sized hs s.1.contentsize)
  | .headerLws => s.2.headers ≠ [] ∧ Sized s.2.headers s.1.contentsize
  | .expectingBody => 0 < s.1.contentsize ∧ Sized s.2.headers (s.1.contentsize + s.2.body.length)
  | _ => Sized s.2.headers s.1.contentsize

/-- the count is an announced size, less what has been read of the body -/
structure LengthRead (s : St) : Prop where
  nonneg : 0 ≤ s.1.contentsize
  lt : s.1.contentsize < 2147483648
  counts : Counts s

theorem LengthRead.keep {s s' : St} (h : LengthRead s) (hn : s'.1.contentsize = s.1.contentsize) (hc : Counts s') :
    LengthRead s' :=
  ⟨hn ▸ h.nonneg, hn ▸ h.lt, hc⟩

/-- **Step lemma.** Every step that gives no answer keeps the count right. -/
theorem step_lengthRead {s s' : St} {c : UInt8} (h : LengthRead s)
    (hbody : s.1.state ≠ .expectingBody → s.2.body = []) (hs : consume s c = (.indeterminate, s')) :
    LengthRead s' := by
  have hcounts := h.counts
  cases consume_moves hs with
  | fold hne hc => exact h.keep rfl ⟨hne, hcounts⟩
  | nameStart hc => exact h.keep rfl ⟨_, _, rfl, hcounts⟩
  | lwsEnd => exact h.keep rfl hcounts.2
  | lws hc => exact h.keep rfl hcounts
  | @lwsValue n b c hsp hc =>
    obtain ⟨hne, hsized⟩ := hcounts
    obtain ⟨hs, x, hb⟩ := (List.eq_nil_or_concat b.headers).resolve_left hne
    rw [List.concat_eq_append] at hb
    refine h.keep rfl ⟨hs, ⟨x.name, x.value ++ [c]⟩, ?_, fun hl => ?_⟩
    · simp [addValue, saw, hb, List.modifyLast_concat]
    · rw [hb] at hsized
      exact (sized_snoc_other (h := x) hl n).1 hsized
  | nameEnd => exact h.keep rfl hcounts
  | @name n b c hc =>
    obtain ⟨hs, x, hb, hsized⟩ := hcounts
    refine h.keep rfl ⟨hs, ⟨x.name ++ [c], x.value⟩, ?_, hsized⟩
    simp only at hb
    simp [addName, saw, hb, List.modifyLast_concat]
  | valueStart =>
    obtain ⟨hs, x, hb, hsized⟩ := hcounts
    exact h.keep rfl ⟨hs, x, hb, fun _ => hsized⟩
  | @value n b c hc =>
    obtain ⟨hs, x, hb, hsized⟩ := hcounts
    refine h.keep rfl ⟨hs, ⟨x.name, x.value ++ [c]⟩, ?_, hsized⟩
    simp only at hb
    simp [addValue, saw, hb, List.modifyLast_concat]
  | @valueEnd n b hl =>
    obtain ⟨hs, x, hb, hsized⟩ := hcounts
    simp only at hb
    rw [hb, back_append] at hl
    refine h.keep rfl ?_
    simp only [Counts, noteKeepAlive_headers, saw, hb]
    exact (sized_snoc_other hl n).2 (hsized hl)
  | @lengthEnd n b k hl hk h0 =>
    obtain ⟨hs, x, hb, -⟩ := hcounts
    simp only at hb
    rw [hb, back_append] at hl hk
    refine ⟨h0, (stoi_range hk).2, ?_⟩
    simp only [Counts, noteKeepAlive_headers, saw, hb]
    exact (sized_snoc_length hl k).2 hk
  | @newline3 n b c hn =>
    have hempty : b.body = [] := hbody (by simp)
    have hsized : Sized b.headers n := hcounts
    refine h.keep rfl ⟨lt_of_le_of_ne h.nonneg (Ne.symm hn), ?_⟩
    simpa [saw, hempty] using hsized
  | @body n b c hn =>
    obtain ⟨hpos, hsized⟩ := hcounts
    have hlt := h.lt
    simp only at hpos hsized hlt
    have hone : int32 (n - 1) = n - 1 := int32_of_range (by omega) (by omega)
    rw [hone] at hn ⊢
    refine ⟨by simp only; omega, by simp only; omega, by simp only; omega, ?_⟩
    have hlength : n - 1 + ((b.body ++ [c]).length : ℤ) = n + b.body.length := by
      rw [List.length_append, List.length_singleton]
      push_cast
      ring
    simpa only [saw, hlength] using hsized
  | _ => exact h.keep rfl hcounts

/-- **Run lemma.** -/
theorem reads_lengthRead {u : Uninit} {v : Bytes} {s : St} (h : Reads consume (fresh, .fresh u) v s) :
    LengthRead s := by
  have hstart : Spells [] (fresh, .fresh u) ∧ LengthRead (fresh, .fresh u) :=
    ⟨spells_fresh 0 u, le_rfl, by norm_num [fresh], rfl⟩
  refine (h.invariant (fun v s => Spells v s ∧ LengthRead s) hstart ?_).2
  intro v s c s' hread hs
  exact ⟨step_spells hread.1 hs, step_lengthRead hread.2 hread.1.body hs⟩

/-- the body of an accepted request has the announced size, and nothing is left to count -/
theorem sized_of_good {u : Uninit} {w r : Bytes} {t : St} (h : parse (fresh, .fresh u) w = (.good, r, t)) :
    Sized t.2.headers t.2.body.length ∧ t.1.contentsize = 0 := by
  obtain ⟨-, hacc⟩ := parse_good_iff.1 h
  obtain ⟨v, c, s, -, hr, hs⟩ := hacc.last
  have hread := reads_lengthRead hr
  have hcounts := hread.counts
  refine ⟨?_, consume_good_contentsize hs⟩
  rcases consume_good hs with ⟨hst, h0, -, rfl⟩ | ⟨hst, h0, rfl⟩
  · rw [Counts, hst] at hcounts
    have hempty : s.2.body = [] := (reads_spells hr).body (by rw [hst]; decide)
    simpa [saw, hempty, h0] using hcounts
  · rw [Counts, hst] at hcounts
    obtain ⟨hpos, hsized⟩ := hcounts
    have hone : int32 (s.1.contentsize - 1) = s.1.contentsize - 1 :=
      int32_of_range (by omega) (by have := hread.lt; omega)
    rw [hone] at h0
    have hlength : s.1.contentsize + (s.2.body.length : ℤ) = ((s.2.body ++ [c]).length : ℤ) := by
      rw [List.length_append, List.length_singleton]
      push_cast
      linarith
    simpa only [saw, hlength] using hsized

/-- the size of the body of an accepted request is an `int` -/
theorem body_length_lt {u : Uninit} {w r : Bytes} {t : St} (h : parse (fresh, .fresh u) w = (.good, r, t)) :
    t.2.body.length < 2147483648 := by
  obtain ⟨hsized, -⟩ := sized_of_good h
  unfold Sized at hsized
  cases hlast : lastLength t.2.headers with
  | none =>
    rw [hlast] at hsized
    simp only at hsized
    omega
  | some header =>
    rw [hlast] at hsized
    have hint := (stoi_range hsized).2
    omega

/-- **Framing.** The body of an accepted request has the size its last Content-Length announces, whatever its letter
case and however it is folded, and is empty if there is none. On the way there the count is never negative; it is
positive in the body, and zero at the end. -/
theorem content_length_framing {u : Uninit} {w r : Bytes} {t : St}
    (h : parse (fresh, .fresh u) w = (.good, r, t)) :
    Sized t.2.headers t.2.body.length ∧ t.1.contentsize = 0 ∧
      ∀ v s, v <+: w → Reads consume (fresh, .fresh u) v s →
        0 ≤ s.1.contentsize ∧ (s.1.state = .expectingBody → 0 < s.1.contentsize) := by
  obtain ⟨hsized, hzero⟩ := sized_of_good h
  refine ⟨hsized, hzero, fun v s _ hv => ?_⟩
  have hread := reads_lengthRead hv
  refine ⟨hread.nonneg, fun hst => ?_⟩
  have hcounts := hread.counts
  rw [Counts, hst] at hcounts
  exact hcounts.1

/-- a Content-Length that is overwritten, and one whose value goes on in the next line -/
def foldedLength : Bytes := ascii "POST / HTTP/1.0\r\nContent-Length: 7\r\nCONTENT-length: 0\r\n 2\r\n\r\nab"

theorem content_length_framing_folded :
    ∃ t, parse (fresh, .fresh ⟨0, 0, 0⟩) foldedLength = (.good, [], t) ∧
      lastLength t.2.headers = some ⟨ascii "CONTENT-length", ascii "02"⟩ ∧ Sized t.2.headers t.2.body.length := by
  obtain ⟨t, hparse, hlast⟩ : ∃ t, parse (fresh, .fresh ⟨0, 0, 0⟩) foldedLength = (.good, [], t) ∧
      lastLength t.2.headers = some ⟨ascii "CONTENT-length", ascii "02"⟩ :=
    ⟨(parse (fresh, .fresh ⟨0, 0, 0⟩) foldedLength).2.2, by decide +kernel, by decide +kernel⟩
  exact ⟨t, hparse, hlast, (content_length_framing hparse).1⟩

end BlogServer.Http.RequestParser
