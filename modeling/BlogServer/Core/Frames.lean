/-
Messages one after another.

A reader takes up a recogniser for each message, and lets it go where the message is complete. When every message is
accepted from its own encoding, and built again from where that leads, the messages that are read from their encodings
in a row are the messages (`readFrames_flatMap`); and from a part of these symbols nothing is read that is not a message
of them, in their order (`readFrames_prefix`).
-/
import BlogServer.Core.Scan

namespace BlogServer.Scan

variable {σ α β : Type*}

section Reader

variable (step : σ → α → Verdict × σ) (start : ℕ → σ) (build : σ → β)

/-- at most `n` messages that are accepted one after another, and what is left -/
def readFrames : ℕ → List α → List β × List α
  | 0, w => ([], w)
  | n + 1, w =>
    match feed step (start n) w with
    | (.good, t, rest) => (build t :: (readFrames n rest).1, (readFrames n rest).2)
    | (_, _, _) => ([], w)

/-- whatever is taken up for it, the message is accepted and built again -/
def Framed (encode : β → List α) (x : β) : Prop :=
  ∀ n, ∃ t, Accepts step (start n) (encode x) t ∧ build t = x

end Reader

variable {step : σ → α → Verdict × σ} {start : ℕ → σ} {build : σ → β} {encode : β → List α} {x : β} {xs : List β}

/-- the first message -/
theorem readFrames_append (h : Framed step start build encode x) (n : ℕ) (w : List α) :
    readFrames step start build (n + 1) (encode x ++ w) =
      (x :: (readFrames step start build n w).1, (readFrames step start build n w).2) := by
  obtain ⟨t, haccepts, rfl⟩ := h n
  have hfeed : feed step (start n) (encode (build t) ++ w) = (.good, t, w) := feed_stop haccepts (by decide) w
  rw [readFrames, hfeed]

/-- a part of a message -/
theorem readFrames_part (h : Framed step start build encode x) (n : ℕ) {w v : List α} (hw : encode x = w ++ v)
    (hv : v ≠ []) : readFrames step start build n w = ([], w) := by
  cases n with
  | zero => rfl
  | succ n =>
    obtain ⟨t, haccepts, -⟩ := h n
    obtain ⟨s, hreads⟩ := haccepts.reads_prefix hw hv
    rw [readFrames, show feed step (start n) w = _ from hreads]

theorem readFrames_nil (n : ℕ) : readFrames step start build n [] = ([], []) := by
  cases n <;> rfl

/-- **What is written is read.** From the encodings in a row the messages are read, in order. -/
theorem readFrames_flatMap (h : ∀ x ∈ xs, Framed step start build encode x) (n : ℕ) :
    readFrames step start build n (xs.flatMap encode) = (xs.take n, (xs.drop n).flatMap encode) := by
  induction xs generalizing n with
  | nil => simp [readFrames_nil]
  | cons x xs ih =>
    cases n with
    | zero => rfl
    | succ n =>
      have hrest := ih (fun y hy => h y (List.mem_cons_of_mem _ hy)) n
      rw [List.flatMap_cons, readFrames_append (h x List.mem_cons_self), hrest]
      rfl

/-- **Nothing else is read.** From the first part of the encodings, wherever it ends, first messages are read. -/
theorem readFrames_prefix (h : ∀ x ∈ xs, Framed step start build encode x) (n : ℕ) {w : List α}
    (hw : w <+: xs.flatMap encode) : (readFrames step start build n w).1 <+: xs := by
  induction xs generalizing n w with
  | nil => rw [List.prefix_nil.1 hw, readFrames_nil]
  | cons x xs ih =>
    have hwhole : ∀ w', w' <+: xs.flatMap encode → (readFrames step start build n (encode x ++ w')).1 <+: x :: xs := by
      intro w' hw'
      cases n with
      | zero => exact List.nil_prefix
      | succ n =>
        rw [readFrames_append (h x List.mem_cons_self)]
        exact (List.prefix_cons_inj x).2 (ih (fun y hy => h y (List.mem_cons_of_mem _ hy)) n hw')
    obtain ⟨v, hv⟩ := hw
    rw [List.flatMap_cons] at hv
    rcases List.append_eq_append_iff.1 hv with ⟨missing, hpart, -⟩ | ⟨w', rfl, hrest⟩
    · rcases eq_or_ne missing [] with rfl | hne
      · obtain rfl : encode x = w := by rw [hpart, List.append_nil]
        simpa using hwhole [] List.nil_prefix
      · rw [readFrames_part (h x List.mem_cons_self) n hpart hne]
        exact List.nil_prefix
    · exact hwhole w' ⟨v, hrest.symm⟩

end BlogServer.Scan
