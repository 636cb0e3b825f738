/-
Byte-at-a-time recognisers: a step function that consumes one symbol and answers good, bad or "go on".

`feed` runs a recogniser up to its first answer and hands back what it has not read. The laws are those a reader of
segmented input needs: feeding a concatenation is feeding the parts (`feed_append`), a recogniser that has answered
does not look further (`feed_stop`), and what holds initially and is kept by every step holds whenever the recogniser
is still reading (`Reads.invariant`). Nothing here is about any particular grammar.
-/
import Mathlib.Tactic

namespace BlogServer.Scan

/-- the answer of one step: a complete message, a malformed one, or neither yet -/
inductive Verdict where
  | good
  | bad
  | indeterminate
deriving DecidableEq, Repr

variable {σ α : Type*}

/-- run until the first answer; the last component is the input left unread -/
def feed (step : σ → α → Verdict × σ) : σ → List α → Verdict × σ × List α
  | s, [] => (.indeterminate, s, [])
  | s, a :: w =>
    match step s a with
    | (.indeterminate, s') => feed step s' w
    | (v, s') => (v, s', w)

/-- `w` is read to the end without an answer -/
def Reads (step : σ → α → Verdict × σ) (s : σ) (w : List α) (s' : σ) : Prop :=
  feed step s w = (.indeterminate, s', [])

/-- the answer good comes exactly at the last symbol of `w` -/
def Accepts (step : σ → α → Verdict × σ) (s : σ) (w : List α) (s' : σ) : Prop :=
  feed step s w = (.good, s', [])

/-- the answer bad comes somewhere in `w` -/
def Rejects (step : σ → α → Verdict × σ) (s : σ) (w : List α) : Prop := (feed step s w).1 = .bad

variable {step : σ → α → Verdict × σ}

@[simp] theorem feed_nil (s : σ) : feed step s [] = (.indeterminate, s, []) := rfl

theorem feed_cons_indeterminate {s s' : σ} {a : α} (h : step s a = (.indeterminate, s')) (w : List α) :
    feed step s (a :: w) = feed step s' w := by
  simp [feed, h]

theorem feed_cons_answer {s s' : σ} {a : α} {v : Verdict} (h : step s a = (v, s')) (hv : v ≠ .indeterminate)
    (w : List α) : feed step s (a :: w) = (v, s', w) := by
  cases v <;> simp_all [feed]

theorem Reads.nil (s : σ) : Reads step s [] s := rfl

theorem Reads.cons {s s' t : σ} {a : α} {w : List α} (h : step s a = (.indeterminate, s'))
    (hw : Reads step s' w t) : Reads step s (a :: w) t := by
  rw [Reads, feed_cons_indeterminate h]; exact hw

/-- an input that is still being read leaves nothing unread -/
theorem feed_indeterminate {s s' : σ} {w r : List α} (h : feed step s w = (.indeterminate, s', r)) : r = [] := by
  induction w generalizing s with
  | nil => cases h; rfl
  | cons a w ih =>
    rcases hs : step s a with ⟨v, t⟩
    cases v with
    | indeterminate => exact ih (by rwa [feed_cons_indeterminate hs] at h)
    | _ => rw [feed_cons_answer hs (by decide)] at h; cases h

theorem feed_rest_length (s : σ) (w : List α) : (feed step s w).2.2.length ≤ w.length := by
  induction w generalizing s with
  | nil => exact le_rfl
  | cons a w ih =>
    rcases hs : step s a with ⟨v, t⟩
    by_cases hv : v = .indeterminate
    · subst hv
      rw [feed_cons_indeterminate hs, List.length_cons]
      exact Nat.le_succ_of_le (ih t)
    · rw [feed_cons_answer hs hv, List.length_cons]
      exact Nat.le_succ _

/-- **Feeding a concatenation.** After a part that gives no answer, the rest is fed from the state reached. -/
theorem feed_append {s t : σ} {u : List α} (h : Reads step s u t) (w : List α) :
    feed step s (u ++ w) = feed step t w := by
  induction u generalizing s with
  | nil => cases h; rfl
  | cons a u ih =>
    rcases hs : step s a with ⟨v, s'⟩
    cases v with
    | indeterminate =>
      rw [List.cons_append, feed_cons_indeterminate hs]
      exact ih (by rwa [Reads, feed_cons_indeterminate hs] at h)
    | _ => rw [Reads, feed_cons_answer hs (by decide)] at h; cases h

/-- an answer given inside a part is the answer of the whole; the rest is left unread -/
theorem feed_stop {s t : σ} {u r : List α} {v : Verdict} (h : feed step s u = (v, t, r)) (hv : v ≠ .indeterminate)
    (w : List α) : feed step s (u ++ w) = (v, t, r ++ w) := by
  induction u generalizing s with
  | nil => cases h; exact absurd rfl hv
  | cons a u ih =>
    rcases hs : step s a with ⟨v', s'⟩
    cases v' with
    | indeterminate =>
      rw [List.cons_append, feed_cons_indeterminate hs]
      exact ih (by rwa [feed_cons_indeterminate hs] at h)
    | _ =>
      rw [feed_cons_answer hs (by decide)] at h
      rw [List.cons_append, feed_cons_answer hs (by decide)]
      cases h; rfl

theorem Reads.append {s t r : σ} {u w : List α} (h : Reads step s u t) (hw : Reads step t w r) :
    Reads step s (u ++ w) r := (feed_append h w).trans hw

theorem Reads.accepts {s t r : σ} {u w : List α} (h : Reads step s u t) (hw : Accepts step t w r) :
    Accepts step s (u ++ w) r := (feed_append h w).trans hw

theorem Reads.rejects {s t : σ} {u w : List α} (h : Reads step s u t) (hw : Rejects step t w) :
    Rejects step s (u ++ w) := by rw [Rejects, feed_append h w]; exact hw

theorem Rejects.append {s : σ} {u : List α} (h : Rejects step s u) (w : List α) : Rejects step s (u ++ w) := by
  rcases hf : feed step s u with ⟨v, t, r⟩
  have hv : v = .bad := by rw [Rejects, hf] at h; exact h
  rw [Rejects, feed_stop hf (by rw [hv]; decide) w]; exact hv

theorem Rejects.not_accepts {s t : σ} {w : List α} (h : Rejects step s w) : ¬ Accepts step s w t := by
  intro ha; rw [Rejects, ha] at h; cases h

/-- every proper prefix of an accepted input is still being read -/
theorem Accepts.reads_prefix {s t : σ} {w u v : List α} (h : Accepts step s w t) (hw : w = u ++ v) (hv : v ≠ []) :
    ∃ r, Reads step s u r := by
  rcases hf : feed step s u with ⟨x, r, rest⟩
  by_cases hx : x = .indeterminate
  · subst hx; exact ⟨r, by rw [Reads, hf, feed_indeterminate hf]⟩
  · have := feed_stop hf hx v
    rw [← hw, h] at this
    simp_all

/-- an accepted input is a part that gives no answer and a last symbol that answers good -/
theorem Accepts.last {s t : σ} {w : List α} (h : Accepts step s w t) :
    ∃ u a r, w = u ++ [a] ∧ Reads step s u r ∧ step r a = (.good, t) := by
  rcases List.eq_nil_or_concat w with rfl | ⟨u, a, rfl⟩
  · cases h
  · obtain ⟨r, hr⟩ := h.reads_prefix (u := u) (v := [a]) (by simp) (by simp)
    refine ⟨u, a, r, by simp, hr, ?_⟩
    have h1 : feed step r [a] = (.good, t, []) := by rw [← feed_append hr, ← List.concat_eq_append]; exact h
    rcases hs : step r a with ⟨v, r'⟩
    cases v with
    | indeterminate => rw [feed_cons_indeterminate hs] at h1; cases h1
    | _ => rw [feed_cons_answer hs (by decide)] at h1; cases h1; try rfl

theorem accepts_snoc {s r t : σ} {u : List α} {a : α} (h : Reads step s u r) (hs : step r a = (.good, t)) :
    Accepts step s (u ++ [a]) t :=
  h.accepts (by rw [Accepts, feed_cons_answer hs (by decide)])

/-- **Run invariant.** `P u s` relates the input read so far to the state. If it holds before the first symbol and
every step that gives no answer keeps it, it holds after any input that is still being read. -/
theorem Reads.invariant (P : List α → σ → Prop) {s₀ : σ} (h0 : P [] s₀)
    (hstep : ∀ u s a s', P u s → step s a = (.indeterminate, s') → P (u ++ [a]) s')
    {w : List α} {s : σ} (h : Reads step s₀ w s) : P w s := by
  have key : ∀ w u r, P u r → Reads step r w s → P (u ++ w) s := by
    intro w
    induction w with
    | nil => intro u r hp hr; cases hr; simpa using hp
    | cons a w ih =>
      intro u r hp hr
      rcases hs : step r a with ⟨v, r'⟩
      cases v with
      | indeterminate =>
        have := ih (u ++ [a]) r' (hstep u r a r' hp hs) (by rwa [Reads, feed_cons_indeterminate hs] at hr)
        simpa using this
      | _ => rw [Reads, feed_cons_answer hs (by decide)] at hr; cases hr
  simpa using key w [] s₀ h0 h

/-- **Run invariant of a given input.** As `Reads.invariant`, where a step may use that all before it was read and is
part of `w`. -/
theorem Reads.invariant_within (P : List α → σ → Prop) {s₀ : σ} (h0 : P [] s₀) {w : List α}
    (hstep : ∀ u s a s', u ++ [a] <+: w → Reads step s₀ u s → P u s → step s a = (.indeterminate, s') → P (u ++ [a]) s')
    {v : List α} {s : σ} (h : Reads step s₀ v s) (hv : v <+: w) : P v s := by
  refine (h.invariant (fun v s => Reads step s₀ v s ∧ (v <+: w → P v s)) ⟨.nil s₀, fun _ => h0⟩ ?_).2 hv
  intro u s a s' hbefore hs
  obtain ⟨hread, hp⟩ := hbefore
  refine ⟨hread.append (.cons hs (.nil s')), fun hw => ?_⟩
  exact hstep u s a s' hw hread (hp ((List.prefix_append u [a]).trans hw)) hs

/-- **A loop that carries what it has read.** If every symbol of `w` is read in the state that stands for the part
before it, all of `w` is. -/
theorem Reads.loop (f : List α → σ) {w : List α}
    (h : ∀ u a v, w = u ++ a :: v → step (f u) a = (.indeterminate, f (u ++ [a]))) : Reads step (f []) w (f w) := by
  have key : ∀ v u, w = u ++ v → Reads step (f u) v (f w) := by
    intro v
    induction v with
    | nil => intro u hu; rw [List.append_nil] at hu; rw [hu]; exact .nil _
    | cons a v ih => intro u hu; exact .cons (h u a v hu) (ih (u ++ [a]) (by simpa using hu))
  exact key w [] rfl

theorem Reads.loop_mem (f : List α → σ) {w : List α}
    (h : ∀ u, ∀ a ∈ w, step (f u) a = (.indeterminate, f (u ++ [a]))) : Reads step (f []) w (f w) :=
  .loop f fun u a v hw => h u a (by rw [hw]; simp)

theorem Reads.snoc {s r t : σ} {u : List α} {a : α} (h : Reads step s u r) (hs : step r a = (.indeterminate, t)) :
    Reads step s (u ++ [a]) t :=
  h.append (.cons hs (.nil t))

/-- an input that gives no answer gives none at any cut, and is fed piece by piece -/
theorem Reads.split {s t : σ} {u w : List α} (h : Reads step s (u ++ w) t) :
    ∃ r, Reads step s u r ∧ Reads step r w t := by
  rcases hf : feed step s u with ⟨v, r, rest⟩
  by_cases hv : v = .indeterminate
  · subst hv
    have hr : Reads step s u r := by rw [Reads, hf, feed_indeterminate hf]
    exact ⟨r, hr, by rw [Reads, ← feed_append hr]; exact h⟩
  · rw [Reads, feed_stop hf hv] at h
    exact absurd (Prod.mk.inj h).1 hv

/-- **A loop that keeps an invariant.** If every symbol of `w` is read in any state with the invariant, and keeps it,
all of `w` is. -/
theorem Reads.keep (P : σ → Prop) {w : List α}
    (hstep : ∀ s, ∀ a ∈ w, P s → ∃ s', step s a = (.indeterminate, s') ∧ P s') {s : σ} (h : P s) :
    ∃ s', Reads step s w s' ∧ P s' := by
  induction w generalizing s with
  | nil => exact ⟨s, .nil s, h⟩
  | cons a w ih =>
    obtain ⟨s₁, hs₁, h₁⟩ := hstep s a List.mem_cons_self h
    obtain ⟨s₂, hs₂, h₂⟩ := ih (fun r b hb => hstep r b (List.mem_cons_of_mem a hb)) h₁
    exact ⟨s₂, .cons hs₁ hs₂, h₂⟩

/-- **Run simulation.** Two recognisers whose related states answer alike and step to related states answer alike on
every input, leave the same rest and end related. -/
theorem feed_simulation {τ : Type*} {step' : τ → α → Verdict × τ} (R : σ → τ → Prop)
    (hstep : ∀ s t a, R s t → (step s a).1 = (step' t a).1 ∧ R (step s a).2 (step' t a).2)
    {s : σ} {t : τ} (h : R s t) (w : List α) :
    (feed step s w).1 = (feed step' t w).1 ∧ R (feed step s w).2.1 (feed step' t w).2.1 ∧
      (feed step s w).2.2 = (feed step' t w).2.2 := by
  induction w generalizing s t with
  | nil => exact ⟨rfl, h, rfl⟩
  | cons a w ih =>
    obtain ⟨h1, h2⟩ := hstep s t a h
    rcases hs : step s a with ⟨v, s'⟩
    rcases ht : step' t a with ⟨v', t'⟩
    rw [hs, ht] at h1 h2
    obtain rfl : v = v' := h1
    by_cases hv : v = .indeterminate
    · subst hv; rw [feed_cons_indeterminate hs, feed_cons_indeterminate ht]; exact ih h2
    · rw [feed_cons_answer hs hv, feed_cons_answer ht hv]; exact ⟨rfl, h2, rfl⟩

/-! ## Runs that do not stop -/

/-- every symbol is consumed, whatever is answered: the answers, and the state after the last symbol -/
def trace (step : σ → α → Verdict × σ) : σ → List α → List Verdict × σ
  | s, [] => ([], s)
  | s, a :: w => ((step s a).1 :: (trace step (step s a).2 w).1, (trace step (step s a).2 w).2)

/-- **Lockstep.** Two recognisers that answer alike and stay related while the first is inside a set of states answer
every symbol alike for as long as it is inside. -/
theorem trace_simulation {τ : Type*} {step' : τ → α → Verdict × τ} (R : σ → τ → Prop) (Inside : σ → Prop)
    (hstep : ∀ s t a, R s t → Inside s → (step s a).1 = (step' t a).1 ∧ R (step s a).2 (step' t a).2)
    {s : σ} {t : τ} (h : R s t) {w : List α} (hin : ∀ v, v <+: w → v ≠ w → Inside (trace step s v).2) :
    (trace step s w).1 = (trace step' t w).1 ∧ R (trace step s w).2 (trace step' t w).2 := by
  induction w generalizing s t with
  | nil => exact ⟨rfl, h⟩
  | cons a w ih =>
    obtain ⟨hverdict, hnext⟩ := hstep s t a h (hin [] List.nil_prefix (List.cons_ne_nil a w).symm)
    have hin' : ∀ v, v <+: w → v ≠ w → Inside (trace step (step s a).2 v).2 := fun v hv hne =>
      hin (a :: v) (List.cons_prefix_cons.2 ⟨rfl, hv⟩) fun heq => hne (List.cons.inj heq).2
    obtain ⟨hverdicts, hlast⟩ := ih hnext hin'
    exact ⟨by rw [trace, trace, hverdict, hverdicts], hlast⟩

end BlogServer.Scan
