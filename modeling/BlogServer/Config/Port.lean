/-
Where the port of a configuration comes from.

A turn of `Parse` writes the port when the keyword of a port statement was the token before, and the token is a number
from 0 to 65535 (`values_port`); no other save of a turn touches it (`values_portNumber`). So a run ends with a port
when it had one, or is given one before it stops, whatever it returns then (`turns_port`).
-/
import BlogServer.Config.Expects

namespace BlogServer.Config

open BlogServer.Decimal

/-! ## The port of a turn -/

theorem setConfigPortNumberFromToken_portNumber (token : Bytes) (config : NginxConfig) :
    0 ≤ (setConfigPortNumberFromToken token config).portNumber ↔
      0 ≤ config.portNumber ∨ isValidPortNum token = some true := by
  unfold setConfigPortNumberFromToken isValidPortNum
  cases stoi (afterColon token) with
  | none => simp
  | some n =>
    by_cases hport : 0 ≤ n ∧ n ≤ 65535
    · simp [hport]
    · simp [hport]

theorem saveProxyPort_portNumber {st st' : ParseState} {token : Bytes} (h : saveProxyPort st token = .ok st') :
    st'.config.portNumber = st.config.portNumber := by
  unfold saveProxyPort at h
  split at h
  · split at h
    · cases h
    · cases h
    · split at h
      · cases h
      · rw [← Except.ok.inj h]
  · rw [← Except.ok.inj h]

theorem saveRoot_portNumber {st : ParseState} {token : Bytes} {r : ParseState × Bytes}
    (h : saveRoot st token = .ok r) : r.1.config.portNumber = st.config.portNumber := by
  unfold saveRoot at h
  split at h
  · split at h
    · cases h
    · rw [← Except.ok.inj h]
  · rw [← Except.ok.inj h]

theorem saveUnquoted_portNumber {flag : Bool} {save : Bytes → ParseState} {st st' : ParseState} {token : Bytes}
    (h : saveUnquoted flag save st token = .ok st')
    (hsave : ∀ value, (save value).config.portNumber = st.config.portNumber) :
    st'.config.portNumber = st.config.portNumber := by
  rcases saveUnquoted_inv h with rfl | ⟨value, rfl⟩
  · rfl
  · exact hsave value

theorem handlerType_portNumber (st : ParseState) (token : Bytes) :
    (handlerType st token).config.portNumber = st.config.portNumber := by
  obtain ⟨flags, location, config, heq, hport⟩ := handlerType_frame st token
  rw [heq]
  exact hport

/-- only the first save of a turn is of the port -/
theorem values_portNumber {st : ParseState} {token : Bytes} {r : ParseState × Bytes} (h : values st token = .ok r) :
    r.1.config.portNumber = (savePort st token).config.portNumber := by
  obtain ⟨st', token'⟩ := r
  have hstages : Stages st token st' token' := stages_of_values h
  obtain @⟨st₁, st₂, st₃, st₄, st₅, st₆, st₇, st₈, st₉, _, h₁, h₂, h₃, h₄, h₅, h₆, h₇, h₈, h₉⟩ := hstages
  calc st₉.config.portNumber
      = (handlerType st₈ token').config.portNumber := saveUnquoted_portNumber h₉ fun _ => rfl
    _ = st₈.config.portNumber := handlerType_portNumber _ _
    _ = st₇.config.portNumber := saveUnquoted_portNumber h₈ fun _ => rfl
    _ = st₆.config.portNumber := saveUnquoted_portNumber h₇ fun _ => rfl
    _ = st₅.config.portNumber := saveUnquoted_portNumber h₆ fun _ => rfl
    _ = st₄.config.portNumber := saveUnquoted_portNumber h₅ fun _ => rfl
    _ = st₃.config.portNumber := saveUnquoted_portNumber h₄ fun _ => rfl
    _ = st₂.config.portNumber := saveUnquoted_portNumber h₃ fun _ => rfl
    _ = st₁.config.portNumber := saveRoot_portNumber h₂
    _ = (savePort st token).config.portNumber := saveProxyPort_portNumber h₁

/-- a turn gets a port when it is supplied with one -/
theorem values_port {e : Expects} {st : ParseState} {token : Bytes} {r : ParseState × Bytes} (h : st.flags = e.flags)
    (hvalues : values st token = .ok r) :
    0 ≤ r.1.config.portNumber ↔
      0 ≤ st.config.portNumber ∨ e.awaited = some .serverPort ∧ isValidPortNum token = some true := by
  rw [values_portNumber hvalues, savePort, h, Expects.flags]
  by_cases hawaited : e.awaited = some .serverPort
  · rw [if_pos (decide_eq_true hawaited)]
    simp only [hawaited, true_and]
    exact setConfigPortNumberFromToken_portNumber token st.config
  · rw [if_neg (fun hflag => hawaited (of_decide_eq_true hflag))]
    simp [hawaited]

/-! ## The port of a run -/

/-- from a state of the counter and what is expected, a token is read that a port statement asks for and that is one -/
def PortGiven (s : BlockGrammar.State) (e : Expects) (ts : List Token) : Prop :=
  ∃ us t vs, ts = us ++ t :: vs ∧ (BlockGrammar.run s (symbols us)).isSome = true ∧
    (us.foldl Expects.next e).awaited = some .serverPort ∧ isValidPortNum t.2 = some true

theorem portGiven_cons {s : BlockGrammar.State} {e : Expects} {t : Token} {ts : List Token} :
    PortGiven s e (t :: ts) ↔
      (e.awaited = some .serverPort ∧ isValidPortNum t.2 = some true) ∨
        ∃ s', BlockGrammar.run s t.1.symbol.toList = some s' ∧ PortGiven s' (e.next t) ts := by
  constructor
  · intro h
    obtain ⟨us, u, vs, heq, hrun, hawaited, hvalid⟩ := h
    cases us with
    | nil =>
      obtain ⟨rfl, rfl⟩ := List.cons.inj heq
      exact Or.inl ⟨hawaited, hvalid⟩
    | cons w us =>
      obtain ⟨rfl, rfl⟩ := List.cons.inj heq
      rw [symbols_cons, BlockGrammar.run_append] at hrun
      cases hstep : BlockGrammar.run s t.1.symbol.toList with
      | none =>
        rw [hstep] at hrun
        cases hrun
      | some s' =>
        rw [hstep] at hrun
        exact Or.inr ⟨s', rfl, us, u, vs, rfl, hrun, hawaited, hvalid⟩
  · intro h
    rcases h with ⟨hawaited, hvalid⟩ | ⟨s', hstep, us, u, vs, rfl, hrun, hawaited, hvalid⟩
    · exact ⟨[], t, ts, rfl, rfl, hawaited, hvalid⟩
    · refine ⟨t :: us, u, vs, rfl, ?_, hawaited, hvalid⟩
      rw [symbols_cons, BlockGrammar.run_append, hstep]
      exact hrun

theorem portGiven_nil (s : BlockGrammar.State) (e : Expects) : ¬ PortGiven s e [] := by
  intro h
  obtain ⟨us, t, vs, heq, -⟩ := h
  cases us <;> cases heq

/-- **Run lemma.** A run over a stream ends with a port when it had one, or is given one before it stops. -/
theorem turns_port {ts : List Token} (hstream : Stream ts) {st : ParseState} {e : Expects} (hflags : st.flags = e.flags)
    (hnested : Nested st) (hstart : ∀ t ∈ ts, t.1 ≠ .start) {accepted : Bool} {config : NginxConfig}
    (h : turns st ts = .ok (.stop accepted config)) :
    0 ≤ config.portNumber ↔ 0 ≤ st.config.portNumber ∨ PortGiven st.counter e ts := by
  induction hstream generalizing st e with
  | @last t hends =>
    rw [turns] at h
    split at h
    · cases h
    rw [step_eq] at h
    cases hvalues : values st t.2 with
    | error fault =>
      rw [hvalues] at h
      cases h
    | ok r =>
      rw [hvalues] at h
      rw [transition_stop_result (Except.ok.inj h), portGiven_cons, ParseState.result]
      simp only [values_port hflags hvalues, portGiven_nil, and_false, exists_false, or_false]
  | @cons t ts hnot hts ih =>
    have hrest : ∀ u ∈ ts, u.1 ≠ .start := fun u hu => hstart u (List.mem_cons_of_mem t hu)
    rw [portGiven_cons]
    cases hvalues : values st t.2 with
    | error fault =>
      rw [turns, step_eq, hvalues] at h
      cases h
    | ok r =>
      have hport := values_port hflags hvalues
      cases hprogress : transition r.1 t.1 r.2 with
      | goOn st' =>
        have hstep : step st t.1 t.2 = .ok (.goOn st') := by rw [step_eq, hvalues, Except.map, hprogress]
        have hexpects := (step_expects hflags hstep).2
        obtain ⟨hrun, hnested'⟩ := step_counter hnested (hstart t List.mem_cons_self) hstep
        rw [turns_cons hstep] at h
        rw [ih hexpects hnested' hrest h, (transition_goOn hprogress).2.2, hport, hrun]
        simp only [Option.some.injEq, exists_eq_left', or_assoc]
      | stop accepted' config' =>
        have hstep : step st t.1 t.2 = .ok (.stop accepted' config') := by rw [step_eq, hvalues, Except.map, hprogress]
        rw [turns, hstep] at h
        obtain ⟨rfl, rfl⟩ := Progress.stop.inj (Except.ok.inj h)
        have hnone : BlockGrammar.run st.counter t.1.symbol.toList = none := by
          rcases step_stops hnested (hstart t List.mem_cons_self) hstep with ⟨heof, -⟩ | ⟨herror, -⟩ | ⟨-, hnone, -⟩
          · exact absurd (Or.inl heof) hnot
          · exact absurd (Or.inr herror) hnot
          · exact hnone
        rw [transition_stop_result hprogress, ParseState.result, hport, hnone]
        simp only [reduceCtorEq, false_and, exists_false, or_false]

end BlogServer.Config
