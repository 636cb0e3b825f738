/-
The loop of `read_response`, and how much of its result is due to the way the stream was cut into reads.

The reads are what `read_some` delivers one after the other; the loop hands each to the parser and stops at the first
verdict other than indeterminate. What a stream says on its own is the first answer of the parser, a byte at a time
(`answer`). The loop agrees with it on every cut, unless a complete response that is not chunked is followed by more:
the parser reads on after such a response, to the end of the read.

- `readLoop_answer`: where nothing follows, the loop gives the answer of the stream.
- `segmentation_iff`: every cut of a stream gives the same verdict and response, and what follows a complete response
  changes neither, exactly when nothing follows one that is not chunked.
- `segmentation_fails`: one byte after a body of one byte.
-/
import BlogServer.Http.ResponseLoop
import BlogServer.Proxy.ProxyHandler

namespace BlogServer.Proxy

open BlogServer.Http BlogServer.Byte BlogServer.Scan ResponseParser

/-! ## The loop -/

/-- the loop of `read_response`, with the verdict it stops with: indeterminate while it is still reading -/
def readLoop (s : St) : List Bytes → Verdict × St
  | [] => (.indeterminate, s)
  | data :: reads =>
    match parse s data with
    | (.indeterminate, _, s') => readLoop s' reads
    | (v, _, s') => (v, s')

/-- a verdict and, when it is good, the response that is built -/
def outcome (r : Verdict × St) : Verdict × Option Response :=
  (r.1, if r.1 = .good then some r.2.2.buildResponse else none)

/-- what `read_response` makes of the reads, with a new parser and a new builder -/
def readOutcome (u : ResponseUninit) (reads : List Bytes) : Verdict × Option Response :=
  outcome (readLoop (fresh u) reads)

theorem readLoop_singleton (s : St) (data : Bytes) : readLoop s [data] = ((parse s data).1, (parse s data).2.2) := by
  rcases h : parse s data with ⟨v, r, t⟩
  cases v <;> simp [readLoop, h]

theorem readLoop_stop {s t : St} {data r : Bytes} {v : Verdict} (h : parse s data = (v, r, t)) (hv : v ≠ .indeterminate)
    (reads : List Bytes) : readLoop s (data :: reads) = (v, t) := by
  cases v with
  | indeterminate => exact absurd rfl hv
  | _ => simp [readLoop, h]

theorem readLoop_reads {s t : St} {data : Bytes} (h : Reads consume s data t) (reads : List Bytes) :
    readLoop s (data :: reads) = readLoop t reads := by
  simp [readLoop, parse_reads h]

/-- `read_response` returns the response of the outcome -/
theorem readResponse_outcome (s : St) (reads : List Bytes) : readResponse s reads = (outcome (readLoop s reads)).2 := by
  induction reads generalizing s with
  | nil => rfl
  | cons data reads ih =>
    rcases h : parse s data with ⟨v, r, t⟩
    cases v with
    | indeterminate => simp only [readResponse, readLoop, h, ih]
    | _ => simp [readResponse, readLoop, outcome, h]

/-! ## The answer of a stream -/

/-- the parser's first answer to the bytes of a stream, and the response it stands for -/
def answer (s : St) (w : Bytes) : Verdict × Option Response :=
  outcome ((feed consume s w).1, (feed consume s w).2.1)

/-- a complete response that is not chunked ends the stream, but for line feeds after one without a body -/
def NothingFollows (s : St) (w : Bytes) : Prop :=
  ∀ x t r, w = x ++ r → Accepts consume s x t → t.2.chunked = false → r = [] ∨ t.2.body = [] ∧ ∀ c ∈ r, c = LF

theorem accepts_of_feed {s t : St} {w r : Bytes} (h : feed consume s w = (.good, t, r)) :
    ∃ x, w = x ++ r ∧ Accepts consume s x t := by
  obtain ⟨x, c, t₀, rfl, hr, hlast⟩ := feed_answer h (by decide)
  exact ⟨x ++ [c], by simp, accepts_snoc hr hlast⟩

/-- a complete response without chunks has no body, or its body is what was read last -/
theorem good_unchunked {s t : St} {w r : Bytes} (hf : Framing s) (h : feed consume s w = (.good, t, r))
    (hchunked : t.2.chunked = false) :
    (t.1 = .expectingNewline3 ∧ t.2.contentsize = 0 ∧ t.2.body = []) ∨ (t.1 = .expectingBody ∧ t.2.body ≠ []) := by
  obtain ⟨x, c, t₀, rfl, hr, hlast⟩ := feed_answer h (by decide)
  have hf₀ := hf.reads hr
  rcases consume_good hlast with ⟨hst, -, hsize, rfl⟩ | ⟨-, hst, -, hbody⟩ | ⟨hst, -, hsame, -⟩
  · exact Or.inl ⟨rfl, hsize, hf₀.empty (by rw [hst]; rfl) (by rw [hst]; simp)⟩
  · exact Or.inr ⟨hst, by rw [hbody]; simp⟩
  · have hchunks := hf₀.chunks (by rw [hst]; rfl)
    rw [← hsame, hchunked] at hchunks
    cases hchunks

/-- **The loop gives the answer of the stream** on every cut, where nothing follows a complete response. -/
theorem readLoop_answer {s : St} (hf : Framing s) (reads : List Bytes) (hend : NothingFollows s reads.flatten) :
    outcome (readLoop s reads) = answer s reads.flatten := by
  induction reads generalizing s with
  | nil => rfl
  | cons data reads ih =>
    rw [List.flatten_cons] at hend ⊢
    rcases h : feed consume s data with ⟨v, t, r⟩
    by_cases hv : v = .indeterminate
    · subst hv
      have hr : Reads consume s data t := by rw [Reads, h, feed_indeterminate h]
      rw [readLoop_reads hr, answer, feed_append hr, ← answer]
      refine ih (hf.reads hr) fun x t' r' hw hacc hchunked => ?_
      exact hend (data ++ x) t' r' (by rw [hw, List.append_assoc]) (hr.accepts hacc) hchunked
    · have hall := feed_stop h hv reads.flatten
      obtain ⟨hstop, hgo⟩ := parse_answer hf h hv
      by_cases hs : Stops v t
      · rw [readLoop_stop (hstop hs) hv, answer, hall]
      · obtain rfl : v = .good := by
          cases v with
          | good => rfl
          | bad => exact absurd (Or.inl rfl) hs
          | indeterminate => exact absurd rfl hv
        have hchunked : t.2.chunked = false := by
          by_contra hc
          exact hs (Or.inr ⟨rfl, by simpa using hc⟩)
        obtain ⟨x, hx, hacc⟩ := accepts_of_feed hall
        rw [answer, hall]
        rcases hend x t _ hx hacc hchunked with hnil | ⟨hempty, hlf⟩
        · obtain ⟨rfl, -⟩ := List.append_eq_nil_iff.1 hnil
          rw [readLoop_stop (hgo hs) (by decide)]
        · rcases good_unchunked hf h hchunked with ⟨hst, hsize, -⟩ | ⟨-, hbody⟩
          · obtain ⟨st, b⟩ := t
            obtain rfl : st = .expectingNewline3 := hst
            obtain ⟨f, hparse⟩ := (parseLoop_noBody hchunked hsize r).1 fun c hc => hlf c (by simp [hc])
            rw [readLoop_stop ((hgo hs).trans hparse) (by decide)]
            rfl
          · exact absurd hempty hbody

/-! ## Every cut of a stream -/

/-- the result of the loop is that of the stream, however it is cut, and what follows a complete response has no part
in it -/
structure CutFree (u : ResponseUninit) (w : Bytes) : Prop where
  cuts : ∀ reads reads' : List Bytes, (∀ data ∈ reads, data ≠ []) → (∀ data ∈ reads', data ≠ []) →
    reads.flatten = w → reads'.flatten = w → readOutcome u reads = readOutcome u reads'
  trailing : ∀ x t r, w = x ++ r → Accepts consume (fresh u) x t → ∀ reads : List Bytes, (∀ data ∈ reads, data ≠ []) →
    reads.flatten = w → readOutcome u reads = (.good, some t.2.buildResponse)

/-- what is read beyond a complete response, in one read with it, changes the result -/
theorem trailing_changes {u : ResponseUninit} {t : St} {x r : Bytes} (hacc : Accepts consume (fresh u) x t)
    (hchunked : t.2.chunked = false) (hr : r ≠ [])
    (hsame : readOutcome u [x ++ r] = (.good, some t.2.buildResponse)) : t.2.body = [] ∧ ∀ c ∈ r, c = LF := by
  have hall : feed consume (fresh u) (x ++ r) = (.good, t, r) := by rw [feed_stop hacc (by decide), List.nil_append]
  have hgo := (parse_answer (framing_fresh u) hall (by decide)).2 fun hs => by
    rcases hs with hbad | ⟨-, hc⟩
    · cases hbad
    · rw [hchunked] at hc
      cases hc
  rw [readOutcome, readLoop_singleton, hgo] at hsame
  obtain ⟨hv, hbuilt⟩ := Prod.mk.inj hsame
  simp only at hv hbuilt
  rw [if_pos hv] at hbuilt
  obtain ⟨st, b⟩ := t
  rcases good_unchunked (framing_fresh u) hall hchunked with ⟨hst, hsize, hempty⟩ | ⟨hst, -⟩
  · obtain rfl : st = .expectingNewline3 := hst
    refine ⟨hempty, fun c hc => ?_⟩
    by_contra hne
    have hbad := (parseLoop_noBody hchunked hsize r).2 ⟨c, hc, hne⟩
    rw [hv] at hbad
    cases hbad
  · obtain rfl : st = .expectingBody := hst
    have hbody : b.body ++ r = b.body := by
      rw [← parseLoop_plainBody hchunked .good r]
      exact congrArg Response.body (Option.some.inj hbuilt)
    exact absurd (by simpa using hbody) hr

/-- **Segmentation.** All cuts of a stream into reads have the same verdict and the same response, and what follows a
complete response changes neither, exactly when nothing follows a complete response that is not chunked, line feeds
after one without a body apart. -/
theorem segmentation_iff (u : ResponseUninit) (w : Bytes) : CutFree u w ↔ NothingFollows (fresh u) w := by
  constructor
  · intro hfree x t r hw hacc hchunked
    by_cases hr : r = []
    · exact Or.inl hr
    · refine Or.inr (trailing_changes hacc hchunked hr ?_)
      refine hfree.trailing x t r hw hacc [x ++ r] (fun data hdata => ?_) (by simp [hw])
      rw [List.mem_singleton.1 hdata]
      simp [hr]
  · intro hend
    have hanswer : ∀ reads : List Bytes, reads.flatten = w → readOutcome u reads = answer (fresh u) w := by
      intro reads hw
      rw [← hw]
      exact readLoop_answer (framing_fresh u) reads (hw ▸ hend)
    refine ⟨fun reads reads' _ _ h h' => by rw [hanswer reads h, hanswer reads' h'], ?_⟩
    intro x t r hw hacc reads _ hreads
    rw [hanswer reads hreads, answer, hw, feed_stop hacc (by decide)]
    rfl

/-- a complete response of one body byte, and one more byte -/
def oneTooMany : Bytes := ascii "HTTP/1.0 200 OK\r\nContent-Length: 1\r\n\r\nAB"

/-- **The cut shows.** In a read with the body, the byte after it makes a complete response incomplete. -/
theorem segmentation_fails : ¬ CutFree ⟨0, 0, 0, 0, 0⟩ oneTooMany := by
  intro h
  have hcuts := h.cuts [oneTooMany] [oneTooMany.dropLast, ascii "B"] (by decide +kernel) (by decide +kernel)
    (by decide +kernel) (by decide +kernel)
  revert hcuts
  decide +kernel

end BlogServer.Proxy
