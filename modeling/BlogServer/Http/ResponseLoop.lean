/-
The loop of `response_parser::parse` against the recogniser it drives.

`feed` stops at the first answer. The loop stops there too when the answer is bad, and when it is good and the response
is chunked; after the good of any other response it goes on to the end of the buffer. `Framing` is what makes the
difference visible in the state: chunks are read by a builder that knows it is chunked, a plain body by one that is not.

- `consume_good`: the three places where a response is complete.
- `parse_append`, `parse_stop`, `parse_complete`: a buffer by its first answer.
- `parseLoop_plainBody`, `parseLoop_noBody`: what the loop makes of bytes after a complete response.
-/
import BlogServer.Http.ResponseCodec

namespace BlogServer.Http

open BlogServer.Byte BlogServer.Scan BlogServer.Decimal

namespace ResponseParser

/-! ## Where a response is complete -/

/-- the states in which chunks are read -/
def inChunks : State → Bool
  | .chunkSizeStart | .chunkSize | .expectingNewline4 | .expectingChunk | .expectingNewline5 => true
  | _ => false

/-- how the builder stands to the state of the parser -/
structure Framing (s : St) : Prop where
  plain : s.1 = .expectingBody → s.2.chunked = false
  chunks : inChunks s.1 = true → s.2.chunked = true
  empty : inChunks s.1 = false → s.1 ≠ .expectingBody → s.2.body = []

theorem Framing.of_header {st : State} {b : ResponseBuilder} (hchunks : inChunks st = false) (hst : st ≠ .expectingBody)
    (hbody : b.body = []) : Framing (st, b) :=
  ⟨fun h => absurd h hst, fun h => absurd (hchunks.symm.trans h) (by decide), fun _ _ => hbody⟩

theorem Framing.of_chunk {st : State} {b : ResponseBuilder} (hchunks : inChunks st = true) (hb : b.chunked = true) :
    Framing (st, b) where
  plain h := by
    obtain rfl : st = .expectingBody := h
    cases hchunks
  chunks _ := hb
  empty h := absurd (hchunks.symm.trans h) (by decide)

theorem Framing.of_body {b : ResponseBuilder} (hb : b.chunked = false) : Framing (.expectingBody, b) where
  plain _ := hb
  chunks h := absurd (show inChunks .expectingBody = true from h) (by decide)
  empty _ h := absurd rfl h

theorem framing_fresh (u : ResponseUninit) : Framing (fresh u) := .of_header rfl (by simp) rfl

/-- **Step lemma.** A step that gives no answer keeps the framing. -/
theorem step_framing {s s' : St} {c : UInt8} (h : Framing s) (hs : consume s c = (.indeterminate, s')) :
    Framing s' := by
  cases consume_moves hs with
  | valueEnd | lengthEnd =>
    refine .of_header rfl (by simp) ?_
    rw [noteFlags_eq]
    exact h.empty rfl (by simp)
  | toChunks hb => exact .of_chunk rfl hb
  | toBody hb => exact .of_body hb
  | body => exact .of_body (h.plain rfl)
  | sizeStart | size | sizeEnd | newline4 | data | dataEnd | newline5 => exact .of_chunk rfl (h.chunks rfl)
  | _ => exact .of_header rfl (by simp) (h.empty rfl (by simp))

theorem Framing.reads {s t : St} {w : Bytes} (h : Framing s) (hr : Reads consume s w t) : Framing t :=
  hr.invariant (fun _ s => Framing s) h fun _ _ _ _ hs hstep => step_framing hs hstep

/-- **A response is complete** after a blank line with nothing to follow, after the last byte of a plain body, or after
the size of an empty chunk. -/
theorem consume_good {s t : St} {c : UInt8} (h : consume s c = (.good, t)) :
    (s.1 = .expectingNewline3 ∧ s.2.chunked = false ∧ s.2.contentsize = 0 ∧
        t = (.expectingNewline3, { s.2 with fullmessage := s.2.fullmessage ++ [c] })) ∨
      (s.1 = .expectingBody ∧ t.1 = .expectingBody ∧ t.2.chunked = s.2.chunked ∧ t.2.body = s.2.body ++ [c]) ∨
      (s.1 = .chunkSize ∧ t.1 = .expectingNewline4 ∧ t.2.chunked = s.2.chunked ∧ t.2.chunksize = 0) := by
  cases consume_finishes h with
  | blankLine hb h0 => exact Or.inl ⟨rfl, hb, h0, rfl⟩
  | body => exact Or.inr (Or.inl ⟨rfl, rfl, rfl, rfl⟩)
  | lastChunk => exact Or.inr (Or.inr ⟨rfl, rfl, rfl, rfl⟩)

/-! ## A buffer by its first answer -/

/-- the loop leaves off at an answer -/
def Stops (v : Verdict) (t : St) : Prop := v = .bad ∨ v = .good ∧ t.2.chunked = true

/-- a chunked response that is complete is so at its empty chunk -/
theorem Framing.stops_iff {s t : St} {c : UInt8} {v : Verdict} (h : Framing s) (hs : consume s c = (v, t)) :
    Stops v t ↔ v = .bad ∨ v = .good ∧ t.2.chunked = true ∧ t.2.chunksize = 0 := by
  constructor
  · rintro (hbad | ⟨rfl, hchunked⟩)
    · exact Or.inl hbad
    · refine Or.inr ⟨rfl, hchunked, ?_⟩
      rcases consume_good hs with ⟨-, hplain, -, rfl⟩ | ⟨hst, -, hsame, -⟩ | ⟨-, -, -, hzero⟩
      · exact absurd (hplain.symm.trans hchunked) (by decide)
      · rw [hsame, h.plain hst] at hchunked
        cases hchunked
      · exact hzero
  · rintro (hbad | ⟨hgood, hchunked, -⟩)
    · exact Or.inl hbad
    · exact Or.inr ⟨hgood, hchunked⟩

/-- what gives no answer leaves the rest of the buffer to the state it leads to -/
theorem parseLoop_reads {s t : St} {x : Bytes} (h : Reads consume s x t) (result : Verdict) (y : Bytes) :
    parseLoop s result (x ++ y) = parseLoop t (if x = [] then result else .indeterminate) y := by
  induction x generalizing s result with
  | nil =>
    obtain rfl : s = t := by cases h; rfl
    rfl
  | cons c x ih =>
    rcases hs : consume s c with ⟨v, s'⟩
    have hv : v = .indeterminate := by
      by_contra hv
      rw [Reads, feed_cons_answer hs hv] at h
      exact hv (Prod.mk.inj h).1
    subst hv
    rw [Reads, feed_cons_indeterminate hs] at h
    rw [List.cons_append, parseLoop, hs]
    simp only [reduceCtorEq, if_false, false_and]
    rw [ih h]
    simp

theorem parse_append {s t : St} {x : Bytes} (h : Reads consume s x t) (y : Bytes) : parse s (x ++ y) = parse t y := by
  rw [parse, parseLoop_reads h]
  simp [parse]

theorem parse_reads {s t : St} {x : Bytes} (h : Reads consume s x t) : parse s x = (.indeterminate, [], t) := by
  rw [← List.append_nil x, parse_append h]
  rfl

/-- an answer of the recogniser is given at a byte, after bytes that give none -/
theorem feed_answer {s t : St} {w r : Bytes} {v : Verdict} (h : feed consume s w = (v, t, r))
    (hv : v ≠ .indeterminate) : ∃ x c t₀, w = x ++ c :: r ∧ Reads consume s x t₀ ∧ consume t₀ c = (v, t) := by
  induction w generalizing s with
  | nil =>
    cases h
    exact absurd rfl hv
  | cons c w ih =>
    rcases hs : consume s c with ⟨v', s'⟩
    by_cases hv' : v' = .indeterminate
    · subst hv'
      rw [feed_cons_indeterminate hs] at h
      obtain ⟨x, c', t₀, rfl, hr, hlast⟩ := ih h
      exact ⟨c :: x, c', t₀, rfl, .cons hs hr, hlast⟩
    · rw [feed_cons_answer hs hv'] at h
      cases h
      exact ⟨[], c, s, rfl, .nil s, hs⟩

/-- **The first answer of a buffer.** Where the loop stops at it, `parse` gives that answer; where it does not, the loop
goes on from a complete response. -/
theorem parse_answer {s t : St} {w r : Bytes} {v : Verdict} (hf : Framing s) (h : feed consume s w = (v, t, r))
    (hv : v ≠ .indeterminate) :
    (Stops v t → parse s w = (v, r, t)) ∧ (¬ Stops v t → parse s w = parseLoop t .good r) := by
  obtain ⟨x, c, t₀, rfl, hr, hlast⟩ := feed_answer h hv
  have hstops := (hf.reads hr).stops_iff hlast
  rw [parse_append hr, parse, parseLoop, hlast]
  simp only
  constructor
  · intro hstop
    rcases hstops.1 hstop with hbad | hdone
    · rw [if_pos hbad]
    · rw [if_neg (by rw [hdone.1]; decide), if_pos hdone]
  · intro hgo
    rw [hstops, not_or] at hgo
    rw [if_neg hgo.1, if_neg hgo.2]
    cases v with
    | good => rfl
    | bad => exact absurd rfl hgo.1
    | indeterminate => exact absurd rfl hv

/-- a buffer that ends where the response is complete -/
theorem parse_complete {s t : St} {w : Bytes} (hf : Framing s) (h : Accepts consume s w t) :
    parse s w = (.good, [], t) := by
  obtain ⟨hstop, hgo⟩ := parse_answer hf h (by decide)
  by_cases hs : Stops .good t
  · exact hstop hs
  · rw [hgo hs]
    rfl

/-! ## Bytes after a complete response -/

/-- after a plain body every byte goes into the body -/
theorem parseLoop_plainBody {b : ResponseBuilder} (hb : b.chunked = false) (result : Verdict) (r : Bytes) :
    (parseLoop (.expectingBody, b) result r).2.2.2.body = b.body ++ r := by
  induction r generalizing b result with
  | nil => simp [parseLoop]
  | cons c r ih =>
    have hgo : parseLoop (.expectingBody, b) result (c :: r) =
        parseLoop (consume (.expectingBody, b) c).2 (consume (.expectingBody, b) c).1 r := by
      rw [parseLoop]
      simp only [consume, hb, Bool.false_eq_true, false_and, and_false, if_false]
      rw [if_neg]
      split_ifs <;> simp
    rw [hgo]
    exact (ih (b := (consume (.expectingBody, b) c).2.2) hb _).trans (by simp [consume])

/-- after a response without a body the loop takes further line feeds for its end, and any other byte for an error -/
theorem parseLoop_noBody {b : ResponseBuilder} (hb : b.chunked = false) (hsize : b.contentsize = 0) (r : Bytes) :
    ((∀ c ∈ r, c = LF) → ∃ f, parseLoop (.expectingNewline3, b) .good r =
        (.good, [], .expectingNewline3, { b with fullmessage := f })) ∧
      ((∃ c ∈ r, c ≠ LF) → (parseLoop (.expectingNewline3, b) .good r).1 = .bad) := by
  induction r generalizing b with
  | nil =>
    refine ⟨fun _ => ⟨b.fullmessage, rfl⟩, fun h => ?_⟩
    obtain ⟨c, hc, -⟩ := h
    cases hc
  | cons c r ih =>
    by_cases hc : c = LF
    · have hgo : parseLoop (.expectingNewline3, b) .good (c :: r) =
          parseLoop (.expectingNewline3, { b with fullmessage := b.fullmessage ++ [c] }) .good r := by
        rw [parseLoop]
        simp [consume, hc, hb, hsize]
      obtain ⟨hall, hany⟩ := ih (b := { b with fullmessage := b.fullmessage ++ [c] }) hb hsize
      rw [hgo]
      refine ⟨fun h => hall fun d hd => h d (List.mem_cons_of_mem c hd), fun h => ?_⟩
      obtain ⟨d, hd, hne⟩ := h
      rcases List.mem_cons.1 hd with rfl | hd
      · exact absurd hc hne
      · exact hany ⟨d, hd, hne⟩
    · refine ⟨fun h => absurd (h c List.mem_cons_self) hc, fun _ => ?_⟩
      rw [parseLoop]
      simp [consume, hc]

end ResponseParser

end BlogServer.Http
