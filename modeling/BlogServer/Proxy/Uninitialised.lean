/-
What `read_response` makes of members that no constructor sets.

Two parsers on the same bytes, with builders that start with different values, stay in the same place: `Twin` says which
members agree by then (the status code once its first digit is read, the size of a chunk once its line is read, the size
of a plain body once a Content-Length is read). Nothing is read before it is written but `contentsize`, at the blank
line of a response that is not chunked and has no Content-Length.

- `step_twin`, `reads_twin`, `parseLoop_twin`: a step, bytes without an answer, a read.
- `bytes_only_iff`: verdicts and responses depend on the bytes alone exactly when no such blank line is read.
- `bytes_only_fails`: a response 204 without headers.
-/
import BlogServer.Proxy.ReadLoop

namespace BlogServer.Proxy

open BlogServer.Http BlogServer.Byte BlogServer.Scan BlogServer.Decimal ResponseParser

/-! ## Headers that announce a size -/

/-- one of the headers is a Content-Length -/
def Announced (hs : List Header) : Prop := ∃ h ∈ hs, isContentLength h.name = true

theorem Announced.of_dropLast {hs : List Header} (h : Announced hs.dropLast) : Announced hs := by
  obtain ⟨x, hx, hl⟩ := h
  exact ⟨x, List.mem_of_mem_dropLast hx, hl⟩

theorem announced_dropLast {hs : List Header} (hl : isContentLength (RequestParser.back hs).name = false)
    (h : Announced hs) : Announced hs.dropLast := by
  obtain ⟨x, hx, hname⟩ := h
  rcases List.eq_nil_or_concat hs with rfl | ⟨hs, y, rfl⟩
  · cases hx
  · rw [List.concat_eq_append] at hx hl ⊢
    rw [RequestParser.back_append] at hl
    rw [List.dropLast_concat]
    rcases List.mem_append.1 hx with hx | hx
    · exact ⟨x, hx, hname⟩
    · rw [List.mem_singleton.1 hx, hl] at hname
      cases hname

theorem dropLast_modifyLast (f : Header → Header) (hs : List Header) : (hs.modifyLast f).dropLast = hs.dropLast := by
  rcases List.eq_nil_or_concat hs with rfl | ⟨hs, x, rfl⟩
  · rfl
  · rw [List.concat_eq_append, List.modifyLast_concat, List.dropLast_concat, List.dropLast_concat]

/-- a byte more of the last value -/
theorem announced_addValue (hs : List Header) (c : UInt8) :
    Announced (hs.modifyLast fun h => { h with value := h.value ++ [c] }) ↔ Announced hs := by
  rcases List.eq_nil_or_concat hs with rfl | ⟨hs, x, rfl⟩
  · exact Iff.rfl
  · rw [List.concat_eq_append, List.modifyLast_concat]
    simp [Announced, or_and_right, exists_or]

theorem announced_back {hs : List Header} (hl : isContentLength (RequestParser.back hs).name = true) : Announced hs := by
  rcases List.eq_nil_or_concat hs with rfl | ⟨hs, x, rfl⟩
  · exact absurd hl (by decide)
  · rw [List.concat_eq_append] at hl ⊢
    rw [RequestParser.back_append] at hl
    exact ⟨x, by simp, hl⟩

/-! ## What a run has written -/

/-- the headers whose Content-Length has been read for certain: the last one may not have ended -/
def ended (st : State) (hs : List Header) : List Header :=
  match st with
  | .headerName | .spaceBeforeHeaderValue | .headerValue => hs.dropLast
  | _ => hs

/-- the status code has been written -/
def coded : State → Bool
  | .httpVersionH | .httpVersionT1 | .httpVersionT2 | .httpVersionP | .httpVersionSlash | .httpVersionMajorStart
  | .httpVersionMajor | .httpVersionMinorStart | .httpVersionMinor | .statusCode1 => false
  | _ => true

/-- the bytes of a plain body are counted -/
def countsBody : State → Bool
  | .expectingBody => true
  | _ => false

/-- the bytes of a chunk are counted -/
def countsChunk : State → Bool
  | .expectingNewline4 | .expectingChunk => true
  | _ => false

/-- two runs on the same bytes agree on all that decides verdicts and responses and has been written -/
structure Twin (s t : St) : Prop where
  state : t.1 = s.1
  headers : t.2.headers = s.2.headers
  body : t.2.body = s.2.body
  chunked : t.2.chunked = s.2.chunked
  hex : t.2.chunksizehex = s.2.chunksizehex
  code : coded s.1 = true → t.2.code = s.2.code
  size : Announced (ended s.1 s.2.headers) → t.2.contentsize = s.2.contentsize
  plain : countsBody s.1 = true → t.2.contentsize = s.2.contentsize
  unchunked : countsBody s.1 = true → s.2.chunked = false
  chunk : countsChunk s.1 = true → t.2.chunksize = s.2.chunksize

theorem twin_fresh (u u' : ResponseUninit) : Twin (fresh u) (fresh u') where
  state := rfl
  headers := rfl
  body := rfl
  chunked := rfl
  hex := rfl
  code h := Bool.noConfusion h
  size h := by
    obtain ⟨x, hx, -⟩ := h
    cases hx
  plain h := Bool.noConfusion h
  unchunked h := Bool.noConfusion h
  chunk h := Bool.noConfusion h

/-- the step that reads a `contentsize` which has not been written -/
def ReadsUnwritten (s : St) (c : UInt8) : Prop :=
  s.1 = .expectingNewline3 ∧ c = LF ∧ s.2.chunked = false ∧ ¬ Announced s.2.headers

/-- **Step lemma.** Every other step gives the same verdict in both runs, and keeps them together. -/
theorem step_twin {s t : St} (h : Twin s t) {c : UInt8} (hread : ¬ ReadsUnwritten s c) :
    (consume s c).1 = (consume t c).1 ∧ ((consume s c).1 ≠ .bad → Twin (consume s c).2 (consume t c).2) := by
  obtain ⟨st, b⟩ := s
  obtain ⟨st', M, m, k, reason, hs, body, f, alive, chunked, n, hex, y⟩ := t
  obtain ⟨hst, hheaders, hbody, hchunked, hhex, hcode, hsize, hplain, hunchunked, hchunk⟩ := h
  simp only at hst hheaders hbody hchunked hhex hcode hsize hplain hunchunked hchunk
  subst hst hheaders hbody hchunked hhex
  cases st' with
  | statusCode1 =>
    simp only [consume]
    split_ifs
    · exact ⟨rfl, fun _ => ⟨rfl, rfl, rfl, rfl, rfl, fun _ => rfl, hsize, hplain, hunchunked, hchunk⟩⟩
    · exact ⟨rfl, fun h => absurd rfl h⟩
  | statusCode2 | statusCode3 =>
    simp only [consume, hcode rfl]
    split_ifs
    · exact ⟨rfl, fun _ => ⟨rfl, rfl, rfl, rfl, rfl, fun _ => rfl, hsize, hplain, hunchunked, hchunk⟩⟩
    · exact ⟨rfl, fun h => absurd rfl h⟩
  | headerLineStart =>
    simp only [consume]
    split_ifs
    · exact ⟨rfl, fun _ => ⟨rfl, rfl, rfl, rfl, rfl, hcode, hsize, hplain, hunchunked, hchunk⟩⟩
    · exact ⟨rfl, fun _ => ⟨rfl, rfl, rfl, rfl, rfl, hcode, hsize, hplain, hunchunked, hchunk⟩⟩
    · exact ⟨rfl, fun h => absurd rfl h⟩
    · refine ⟨rfl, fun _ => ⟨rfl, rfl, rfl, rfl, rfl, hcode, fun h => hsize ?_, hplain, hunchunked, hchunk⟩⟩
      simpa [ended] using h
  | headerLws | headerName =>
    simp only [consume]
    split_ifs
    all_goals
      first
        | exact ⟨rfl, fun h => absurd rfl h⟩
        | exact ⟨rfl, fun _ => ⟨rfl, rfl, rfl, rfl, rfl, hcode, hsize, hplain, hunchunked, hchunk⟩⟩
        | refine ⟨rfl, fun _ => ⟨rfl, rfl, rfl, rfl, rfl, hcode, fun h => hsize ?_, hplain, hunchunked, hchunk⟩⟩
          simp only [ended, dropLast_modifyLast] at h ⊢
          first
            | exact h
            | exact h.of_dropLast
  | headerValue =>
    simp only [consume, readContentLength]
    split_ifs with hcr hl hctl
    · cases stoi (RequestParser.back b.headers).value with
      | none => exact ⟨rfl, fun h => absurd rfl h⟩
      | some k =>
        by_cases h0 : 0 ≤ k
        · simp only [h0, decide_true, noteFlags_eq]
          refine ⟨trivial, fun _ => ?_⟩
          exact ⟨rfl, rfl, rfl, rfl, rfl, hcode, fun _ => rfl, fun _ => rfl, Bool.noConfusion, hchunk⟩
        · simp only [h0, decide_false]
          exact ⟨trivial, fun h => absurd rfl h⟩
    · simp only [noteFlags_eq]
      refine ⟨trivial, fun _ => ⟨rfl, rfl, rfl, rfl, rfl, hcode, fun h => hsize ?_, hplain, Bool.noConfusion, hchunk⟩⟩
      exact announced_dropLast (by simpa using hl) h
    · exact ⟨rfl, fun h => absurd rfl h⟩
    · refine ⟨rfl, fun _ => ⟨rfl, rfl, rfl, rfl, rfl, hcode, fun h => hsize ?_, hplain, hunchunked, hchunk⟩⟩
      simpa only [ended, dropLast_modifyLast] using h
  | expectingNewline3 =>
    by_cases hlf : c = LF
    · by_cases hchunks : b.chunked = true
      · simp only [consume, hlf, hchunks]
        exact ⟨rfl, fun _ => ⟨rfl, rfl, rfl, rfl, rfl, hcode, hsize, hplain, Bool.noConfusion, hchunk⟩⟩
      · have hknown : Announced b.headers := by
          by_contra hnone
          exact hread ⟨rfl, hlf, by simpa using hchunks, hnone⟩
        have hn : n = b.contentsize := hsize hknown
        subst hn
        simp only [consume, hlf, hchunks, ne_eq, not_true_eq_false, Bool.false_eq_true, if_false]
        split_ifs
        · exact ⟨rfl, fun _ => ⟨rfl, rfl, rfl, rfl, rfl, hcode, hsize, hplain, Bool.noConfusion, hchunk⟩⟩
        · exact ⟨rfl, fun _ => ⟨rfl, rfl, rfl, rfl, rfl, hcode, hsize, fun _ => rfl, fun _ => rfl, hchunk⟩⟩
    · simp only [consume, if_pos hlf]
      exact ⟨trivial, fun h => absurd rfl h⟩
  | expectingBody =>
    simp only [consume, hplain rfl]
    exact ⟨trivial, fun _ => ⟨rfl, rfl, rfl, rfl, rfl, hcode, fun _ => rfl, fun _ => rfl, hunchunked, hchunk⟩⟩
  | chunkSize =>
    simp only [consume]
    split_ifs
    · exact ⟨rfl, fun _ => ⟨rfl, rfl, rfl, rfl, rfl, hcode, hsize, hplain, hunchunked, hchunk⟩⟩
    · cases stoiHex b.chunksizehex with
      | none => exact ⟨rfl, fun h => absurd rfl h⟩
      | some n => exact ⟨rfl, fun _ => ⟨rfl, rfl, rfl, rfl, rfl, hcode, hsize, hplain, hunchunked, fun _ => rfl⟩⟩
    · exact ⟨rfl, fun h => absurd rfl h⟩
  | expectingChunk =>
    simp only [consume, hchunk rfl]
    split_ifs
    all_goals exact ⟨rfl, fun _ => ⟨rfl, rfl, rfl, rfl, rfl, hcode, hsize, hplain, hunchunked, fun _ => rfl⟩⟩
  | _ =>
    simp only [consume]
    split_ifs
    all_goals
      first
        | exact ⟨rfl, fun h => absurd rfl h⟩
        | exact ⟨rfl, fun _ => ⟨rfl, rfl, rfl, rfl, rfl, hcode, hsize, hplain, hunchunked, hchunk⟩⟩

/-! ## Runs -/

theorem reads_expectingBody {s t : St} {w : Bytes} (h : Reads consume s w t) (hs : s.1 = .expectingBody) :
    t.1 = .expectingBody := by
  refine h.invariant (fun _ s => s.1 = .expectingBody) hs ?_
  intro v s c s' hst hstep
  cases consume_moves hstep with
  | body => rfl
  | _ => cases hst

/-- a step that reads an unwritten size and gives no answer goes on to a body -/
theorem ReadsUnwritten.next {s s' : St} {c : UInt8} (h : ReadsUnwritten s c)
    (hs : consume s c = (.indeterminate, s')) : s'.1 = .expectingBody := by
  obtain ⟨hst, -, hplain, -⟩ := h
  cases consume_moves hs with
  | toChunks hb => exact absurd (hplain.symm.trans hb) (by decide)
  | toBody => rfl
  | _ => cases hst

/-- **Run lemma.** Bytes that lead elsewhere than into a plain body keep the two runs together. -/
theorem reads_twin {s t r : St} {w : Bytes} (h : Twin s t) (hw : Reads consume s w r) (hr : r.1 ≠ .expectingBody) :
    ∃ r', Reads consume t w r' ∧ Twin r r' := by
  induction w generalizing s t with
  | nil =>
    obtain rfl : s = r := by cases hw; rfl
    exact ⟨t, .nil t, h⟩
  | cons c w ih =>
    rcases hs : consume s c with ⟨v, s'⟩
    have hv : v = .indeterminate := by
      by_contra hv
      rw [Reads, feed_cons_answer hs hv] at hw
      exact hv (Prod.mk.inj hw).1
    subst hv
    rw [Reads, feed_cons_indeterminate hs] at hw
    have hread : ¬ ReadsUnwritten s c := fun hread => hr (reads_expectingBody hw (hread.next hs))
    obtain ⟨hverdict, hnext⟩ := step_twin h hread
    rcases ht : consume t c with ⟨v', t'⟩
    rw [hs, ht] at hverdict hnext
    obtain rfl : .indeterminate = v' := hverdict
    obtain ⟨r', hread', htwin⟩ := ih (hnext (by simp)) hw
    exact ⟨r', .cons ht hread', htwin⟩

/-- no size is read any more, or it has been written -/
def Settled (s : St) : Prop :=
  inChunks s.1 = true ∨ s.1 = .expectingBody ∨ s.1 = .expectingNewline3 ∧ Announced s.2.headers

theorem step_settled {s : St} (h : Settled s) (c : UInt8) : Settled (consume s c).2 := by
  obtain ⟨st, b⟩ := s
  cases st with
  | expectingNewline3 =>
    obtain hchunk | hbody | ⟨-, hknown⟩ := h
    · cases hchunk
    · cases hbody
    · simp only [consume]
      split_ifs
      · exact Or.inr (Or.inr ⟨rfl, hknown⟩)
      · exact Or.inl rfl
      · exact Or.inr (Or.inr ⟨rfl, hknown⟩)
      · exact Or.inr (Or.inr ⟨rfl, hknown⟩)
      · exact Or.inr (Or.inl rfl)
  | expectingBody => exact Or.inr (Or.inl rfl)
  | chunkSizeStart | expectingNewline4 | expectingChunk | expectingNewline5 =>
    simp only [consume]
    split_ifs
    all_goals exact Or.inl rfl
  | chunkSize =>
    simp only [consume]
    split_ifs
    · exact Or.inl rfl
    · cases stoiHex b.chunksizehex <;> exact Or.inl rfl
    · exact Or.inl rfl
  | _ => simp [Settled, inChunks] at h

/-- what is still to be read never reads an unwritten size -/
def Ahead (s : St) (w : Bytes) : Prop :=
  Settled s ∨ ∀ a c r t, w = a ++ c :: r → Reads consume s a t → ¬ ReadsUnwritten t c

theorem Ahead.head {s : St} {c : UInt8} {w : Bytes} (h : Ahead s (c :: w)) : ¬ ReadsUnwritten s c := by
  rcases h with h | h
  · intro hread
    obtain ⟨hst, -, -, hnone⟩ := hread
    rcases h with h | h | h
    · rw [hst] at h
      cases h
    · rw [hst] at h
      cases h
    · exact hnone h.2
  · exact h [] c w s rfl (.nil s)

theorem Ahead.tail {s s' : St} {c : UInt8} {v : Verdict} {w : Bytes} (h : Ahead s (c :: w)) (hs : consume s c = (v, s'))
    (hv : v ≠ .bad) : Ahead s' w := by
  have hread := h.head
  rcases h with h | h
  · have := step_settled h c
    rw [hs] at this
    exact Or.inl this
  · cases v with
    | bad => exact absurd rfl hv
    | indeterminate => exact Or.inr fun a d r t hw ha => h (c :: a) d r t (by simp [hw]) (.cons hs ha)
    | good =>
      cases consume_finishes hs with
      | blankLine hplain =>
        refine Or.inl (Or.inr (Or.inr ⟨rfl, ?_⟩))
        by_contra hnone
        exact hread ⟨rfl, rfl, hplain, hnone⟩
      | body => exact Or.inl (Or.inr (Or.inl rfl))
      | lastChunk => exact Or.inl (Or.inl rfl)

/-- the loop of `parse` stops at the same byte in both runs -/
theorem stops_twin {s s' t' : St} {c : UInt8} {v : Verdict} (hs : consume s c = (v, s'))
    (hplain : countsBody s.1 = true → s.2.chunked = false) (h : Twin s' t') :
    (v = .good ∧ t'.2.chunked = true ∧ t'.2.chunksize = 0) ↔ (v = .good ∧ s'.2.chunked = true ∧ s'.2.chunksize = 0) := by
  rw [h.chunked]
  refine and_congr_right fun hgood => and_congr_right fun hchunked => ?_
  rw [hgood] at hs
  cases consume_finishes hs with
  | blankLine hno => exact absurd (hno.symm.trans hchunked) (by decide)
  | body => exact absurd ((hplain rfl).symm.trans hchunked) (by decide)
  | lastChunk => rw [h.chunk rfl]

/-- **A read.** The loop of `parse` gives the same verdict in both runs and leaves them together. -/
theorem parseLoop_twin {s t : St} (h : Twin s t) (result : Verdict) {data more : Bytes} (ha : Ahead s (data ++ more)) :
    (parseLoop s result data).1 = (parseLoop t result data).1 ∧
      ((parseLoop s result data).1 ≠ .bad → Twin (parseLoop s result data).2.2 (parseLoop t result data).2.2) ∧
      ((parseLoop s result data).1 = .indeterminate → Ahead (parseLoop s result data).2.2 more) := by
  induction data generalizing s t result with
  | nil => exact ⟨rfl, fun _ => h, fun _ => ha⟩
  | cons c data ih =>
    obtain ⟨hverdict, hnext⟩ := step_twin h ha.head
    rcases hs : consume s c with ⟨v, s'⟩
    rcases ht : consume t c with ⟨v', t'⟩
    rw [hs, ht] at hverdict hnext
    obtain rfl : v = v' := hverdict
    simp only [parseLoop, hs, ht]
    by_cases hbad : v = .bad
    · rw [if_pos hbad, if_pos hbad]
      exact ⟨rfl, fun hgood => absurd hbad hgood, fun hind => absurd (hbad.symm.trans hind) (by decide)⟩
    · have htwin := hnext hbad
      rw [if_neg hbad, if_neg hbad]
      by_cases hstop : v = .good ∧ s'.2.chunked = true ∧ s'.2.chunksize = 0
      · rw [if_pos hstop, if_pos ((stops_twin hs h.unchunked htwin).2 hstop)]
        exact ⟨rfl, fun _ => htwin, fun hind => absurd (hstop.1.symm.trans hind) (by decide)⟩
      · rw [if_neg hstop, if_neg fun h' => hstop ((stops_twin hs h.unchunked htwin).1 h')]
        exact ih htwin v (ha.tail hs hbad)

theorem coded_of_done {st : State} (h : headersDone st) : coded st = true := by
  cases st <;> first | rfl | cases h

/-- **The loop of `read_response`** has the same outcome in both runs. -/
theorem readLoop_twin {s t : St} (h : Twin s t) {reads : List Bytes} (ha : Ahead s reads.flatten) :
    outcome (readLoop s reads) = outcome (readLoop t reads) := by
  induction reads generalizing s t with
  | nil => rfl
  | cons data reads ih =>
    obtain ⟨hverdict, htwin, hahead⟩ := parseLoop_twin h .indeterminate ha
    change (parse s data).1 = (parse t data).1 at hverdict
    change (parse s data).1 ≠ .bad → Twin (parse s data).2.2 (parse t data).2.2 at htwin
    change (parse s data).1 = .indeterminate → Ahead (parse s data).2.2 reads.flatten at hahead
    have hdone : (parse s data).1 = .good → _ := parse_headersDone
    rcases hs : parse s data with ⟨v, r, s'⟩
    rcases ht : parse t data with ⟨v', r', t'⟩
    rw [hs, ht] at hverdict htwin
    rw [hs] at hahead hdone
    obtain rfl : v = v' := hverdict
    cases v with
    | indeterminate =>
      simp only [readLoop, hs, ht]
      exact ih (htwin (by simp)) (hahead rfl)
    | bad => simp [readLoop, hs, ht, outcome]
    | good =>
      have hsame : Twin s' t' := htwin (by simp)
      have hcode : t'.2.code = s'.2.code := hsame.code (coded_of_done (hdone rfl))
      simp only [readLoop, hs, ht, outcome, if_true, ResponseBuilder.buildResponse, hcode, hsame.headers, hsame.body]

/-! ## The size of a response without Content-Length -/

/-- the headers whose names are complete -/
def named (st : State) (hs : List Header) : List Header := if st = .headerName then hs.dropLast else hs

/-- a size that no header announced is the one the builder started with -/
theorem reads_unwritten {u : ResponseUninit} {w : Bytes} {s : St} (h : Reads consume (fresh u) w s)
    (hs : s.1 = .expectingNewline3) (hnone : ¬ Announced s.2.headers) : s.2.contentsize = u.contentsize := by
  refine h.invariant (fun _ s => s.1 ≠ .expectingBody → ¬ Announced (named s.1 s.2.headers) →
    s.2.contentsize = u.contentsize) (fun _ _ => rfl) ?_ (by rw [hs]; decide) (by rwa [hs])
  intro v s c s' hsize hstep
  cases consume_moves hstep with
  | nameStart =>
    intro _ hnone
    refine hsize State.noConfusion ?_
    simpa [named] using hnone
  | lwsValue | value =>
    intro _ hnone
    refine hsize State.noConfusion ?_
    simpa [named, addValue, saw, announced_addValue] using hnone
  | name =>
    intro _ hnone
    refine hsize State.noConfusion ?_
    simpa [named, addName, saw, dropLast_modifyLast] using hnone
  | nameEnd =>
    intro _ hnone
    refine hsize State.noConfusion fun h => hnone ?_
    simp only [named, if_true] at h
    exact h.of_dropLast
  | valueEnd =>
    intro _ hnone
    rw [noteFlags_eq] at hnone ⊢
    exact hsize State.noConfusion hnone
  | lengthEnd hl =>
    intro _ hnone
    rw [noteFlags_eq] at hnone
    exact absurd (announced_back hl) hnone
  | toBody => exact fun h => absurd rfl h
  | body => exact fun h => absurd rfl h
  | _ => exact fun _ hnone => hsize State.noConfusion hnone

/-! ## Bytes only -/

/-- the members hold values of an `int` -/
def Ints (u : ResponseUninit) : Prop :=
  IsInt u.httpVersionMajor ∧ IsInt u.httpVersionMinor ∧ IsInt u.code ∧ IsInt u.contentsize ∧ IsInt u.chunksize

instance decidableInts (u : ResponseUninit) : Decidable (Ints u) :=
  inferInstanceAs (Decidable (_ ∧ _ ∧ _ ∧ _ ∧ _))

/-- after every read of the bytes `w`, the verdict and the response are the same, whatever the members hold that no
constructor sets -/
def BytesOnly (w : Bytes) : Prop :=
  ∀ reads : List Bytes, reads.flatten <+: w → ∀ u u', Ints u → Ints u' → readOutcome u reads = readOutcome u' reads

/-- the blank line of a response that is not chunked comes after a Content-Length -/
def SizeAnnounced (w : Bytes) : Prop :=
  ∀ u a s, a ++ [LF] <+: w → Reads consume (fresh u) a s → s.1 = .expectingNewline3 → s.2.chunked = false →
    Announced s.2.headers

/-- the LF of a blank line with a size of zero and with another one -/
theorem parse_blankLine {s : St} (hs : s.1 = .expectingNewline3) (hplain : s.2.chunked = false) :
    (parse s [LF]).1 = if s.2.contentsize = 0 then .good else .indeterminate := by
  obtain ⟨st, b⟩ := s
  obtain rfl : st = .expectingNewline3 := hs
  by_cases h0 : b.contentsize = 0 <;> simp_all [parse, parseLoop, consume]

/-- **Bytes only.** The verdict after every read and the response depend on the bytes alone exactly when every response
that is not chunked announces its size. -/
theorem bytes_only_iff (w : Bytes) : BytesOnly w ↔ SizeAnnounced w := by
  constructor
  · intro h u a s ha hr hst hplain
    by_contra hnone
    have hverdict : ∀ u', (readOutcome u' [a ++ [LF]]).1 = if u'.contentsize = 0 then .good else .indeterminate := by
      intro u'
      obtain ⟨t, ht, htwin⟩ := reads_twin (twin_fresh u u') hr (by rw [hst]; decide)
      rw [readOutcome, readLoop_singleton, parse_append ht, outcome,
        parse_blankLine (htwin.state.trans hst) (htwin.chunked.trans hplain),
        reads_unwritten ht (htwin.state.trans hst) (by rwa [htwin.headers])]
    have hsame := congrArg Prod.fst (h [a ++ [LF]] (by simpa using ha) ⟨0, 0, 0, 0, 0⟩ ⟨0, 0, 0, 1, 0⟩
      (by decide) (by decide))
    rw [hverdict, hverdict] at hsame
    cases hsame
  · intro h reads hw u u' _ _
    refine readLoop_twin (twin_fresh u u') (Or.inr fun a c r t hreads ha hread => ?_)
    obtain ⟨hst, rfl, hplain, hnone⟩ := hread
    refine hnone (h u a t ?_ ha hst hplain)
    rw [hreads] at hw
    exact (List.prefix_append (a ++ [LF]) r).trans (by simpa using hw)

/-- a complete response without headers -/
def noContent : Bytes := ascii "HTTP/1.1 204 No Content\r\n\r\n"

/-- **The stack shows.** With a size of zero left in the builder the response is complete; with another one it waits for
a body. -/
theorem bytes_only_fails : ¬ BytesOnly noContent := by
  intro h
  have hsame := h [noContent] (by decide) ⟨0, 0, 0, 0, 0⟩ ⟨0, 0, 0, 5, 0⟩ (by decide) (by decide)
  revert hsame
  decide

end BlogServer.Proxy
