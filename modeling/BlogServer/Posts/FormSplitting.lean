/-
The loop of `parseRequestBody`, index by index.

`Form.parseRequestBody` goes through the bytes of its argument. The loop of the source counts them, and where the one of
`urldecode` counts with a `string::size_type`, this one counts with an `int`. Adding one to the last `int` is undefined,
so the loop is `parseRequestBody` on strings of fewer than 2^31 bytes (`parseRequestBodyLoop_eq`), and has no result on
a longer one. No request brings one: the size of its body is an `int`, which `stoi` read, and `urldecode` makes no
string longer. So the handler may be modelled with `parseRequestBody` (`parseRequestBodyLoop_carried`).

- `parseRequestBody_joined`: splitting what was joined, with the value that a key has last.
- `splitsAs_joined_iff`: the same for the loop, exactly when an `int` counts the bytes.
- `splits_joined`: so for the body of every message.
-/
import BlogServer.Http.RequestFraming
import BlogServer.Posts.FormDecoding

namespace BlogServer.Posts

open BlogServer.Byte BlogServer.Http

/-! ## The loop -/

/-- the variables of `parseRequestBody`; `counter` is an `int` -/
structure SplitState where
  counter : ℕ
  isInt : counter < 2147483648
  form : FormState

/-- the body of the loop; `none` is a read past the end, or one more than the last `int` -/
def SplitState.turn (body : Bytes) (st : SplitState) : Option SplitState := do
  let c ← body[st.counter]?
  if h : st.counter + 1 < 2147483648 then pure ⟨st.counter + 1, h, st.form.step c⟩ else none

/-- `counter < body.length()`: another turn, or the result; the loop ends with `none` when a turn has none -/
def SplitState.next (body : Bytes) (st : SplitState) : SplitState ⊕ Option (SortedMap Bytes Bytes) :=
  if st.counter < body.length then
    match st.turn body with
    | some st' => .inl st'
    | none => .inr none
  else .inr (some st.form.result)

/-- `parseRequestBody` with at most `fuel` tests of the condition of its loop -/
def parseRequestBodyLoop (fuel : ℕ) (body : Bytes) : Option (Option (SortedMap Bytes Bytes)) :=
  follow (fun _ => SplitState.next body) fuel ⟨0, by decide, {}⟩

/-- a turn takes one byte, as long as the next place is an `int` -/
theorem SplitState.turn_eq {body : Bytes} {st : SplitState} (h : st.counter < body.length) :
    st.turn body =
      if hint : st.counter + 1 < 2147483648 then some ⟨st.counter + 1, hint, st.form.step body[st.counter]⟩
      else none := by
  unfold turn
  rw [List.getElem?_eq_getElem h]
  rfl

/-- **The loop is `parseRequestBody`** on fewer than 2^31 bytes, and has no result on more. -/
theorem parseRequestBodyLoop_eq {fuel : ℕ} {body : Bytes} (h : body.length < fuel) :
    parseRequestBodyLoop fuel body =
      some (if body.length < 2147483648 then some (parseRequestBody body) else none) := by
  refine follow_eq_of_variant (fun st : SplitState => body.length - st.counter)
    (fun st : SplitState =>
      if body.length < 2147483648 then some ((body.drop st.counter).foldl FormState.step st.form).result else none)
    (fun _ st => ?_) h
  have hcounter := st.isInt
  unfold SplitState.next
  by_cases hlt : st.counter < body.length
  · rw [if_pos hlt, SplitState.turn_eq hlt]
    by_cases hint : st.counter + 1 < 2147483648
    · rw [dif_pos hint]
      have hless : body.length - (st.counter + 1) < body.length - st.counter := by omega
      refine Or.inr ⟨_, rfl, hless, ?_⟩
      rw [List.drop_eq_getElem_cons hlt, List.foldl_cons]
    · -- the last `int` is the place of a byte
      rw [dif_neg hint, if_neg (by omega)]
      exact Or.inl rfl
  · have hnil : body.drop st.counter = [] := List.drop_eq_nil_iff.2 (not_lt.1 hlt)
    rw [if_neg hlt, if_pos (by omega), hnil]
    exact Or.inl rfl

/-! ## Joining -/

/-- the pairs of a form as one string -/
def joined (pairs : List (Bytes × Bytes)) : Bytes := [AMP].intercalate (pairs.map fun q => pair q.1 q.2)

theorem joined_cons (p : Bytes × Bytes) (ps : List (Bytes × Bytes)) :
    joined (p :: ps) = pair p.1 p.2 ++ ps.flatMap fun q => AMP :: pair q.1 q.2 := by
  induction ps generalizing p with
  | nil => simp [joined]
  | cons q ps ih =>
    rw [List.flatMap_cons, List.cons_append, ← ih q]
    simp [joined]

/-- the value of the last pair with the key -/
def lastValue (pairs : List (Bytes × Bytes)) (key : Bytes) : Option Bytes :=
  (pairs.reverse.find? fun q => q.1 = key).map Prod.snd

/-- **Splitting what was joined** gives every key the value that it has last, and nothing to other keys. -/
theorem parseRequestBody_joined {pairs : List (Bytes × Bytes)} (hne : pairs ≠ [])
    (hclean : ∀ q ∈ pairs, Clean q.1 ∧ Clean q.2) (key : Bytes) :
    (parseRequestBody (joined pairs)).find? key = lastValue pairs key := by
  obtain ⟨p, ps, rfl⟩ := List.exists_cons_of_ne_nil hne
  rw [joined_cons, parseRequestBody_pairs p ps hclean, SortedMap.find?_ofAssignments, lastValue]
  -- keys are compared through their order in the map
  congr! 2
  exact decide_eq_decide.2 Iff.rfl

/-! ## When the loop splits -/

/-- the loop ends with the map of the last values -/
def SplitsAs (body : Bytes) (pairs : List (Bytes × Bytes)) : Prop :=
  ∀ fuel, body.length < fuel →
    ∃ temp, parseRequestBodyLoop fuel body = some (some temp) ∧ ∀ key, temp.find? key = lastValue pairs key

/-- on 2^31 bytes or more the loop has no result -/
theorem not_splitsAs_of_long {body : Bytes} (h : 2147483648 ≤ body.length) (pairs : List (Bytes × Bytes)) :
    ¬ SplitsAs body pairs := by
  intro hsplits
  obtain ⟨temp, hresult, -⟩ := hsplits (body.length + 1) (Nat.lt_succ_self _)
  rw [parseRequestBodyLoop_eq (Nat.lt_succ_self _), if_neg (not_lt.2 h)] at hresult
  cases hresult

/-- **When splitting undoes joining.** For pairs without a delimiter in a key or a value, the loop of `parseRequestBody`
gives every key its last value, and nothing to other keys, exactly when the string has fewer than 2^31 bytes. -/
theorem splitsAs_joined_iff {pairs : List (Bytes × Bytes)} (hne : pairs ≠ [])
    (hclean : ∀ q ∈ pairs, Clean q.1 ∧ Clean q.2) :
    SplitsAs (joined pairs) pairs ↔ (joined pairs).length < 2147483648 := by
  constructor
  · intro hsplits
    by_contra hlong
    exact not_splitsAs_of_long (not_lt.1 hlong) pairs hsplits
  · intro hshort fuel hfuel
    refine ⟨parseRequestBody (joined pairs), ?_, parseRequestBody_joined hne hclean⟩
    rw [parseRequestBodyLoop_eq hfuel, if_pos hshort]

/-! ## The bodies of requests -/

section Carried

variable {u : Uninit} {message rest : Bytes} {t : RequestParser.St}

/-- **The loop on the body of an accepted message** is `parseRequestBody`: the size of a body is an `int`, and decoding
does not make it longer. -/
theorem parseRequestBodyLoop_carried
    (h : RequestParser.parse (RequestParser.fresh, .fresh u) message = (.good, rest, t)) {fuel : ℕ}
    (hfuel : (urldecode t.2.body).length < fuel) :
    parseRequestBodyLoop fuel (urldecode t.2.body) = some (some (parseRequestBody (urldecode t.2.body))) := by
  have hshort := (urldecode_length t.2.body).trans_lt (RequestParser.body_length_lt h)
  rw [parseRequestBodyLoop_eq hfuel, if_pos hshort]

/-- **Splitting undoes joining**, on the body of every accepted message that decodes to what was joined: the loop gives
every key its last value, and nothing to other keys. -/
theorem splits_joined {unset : MethodEnum} {pairs : List (Bytes × Bytes)}
    (h : RequestParser.parse (RequestParser.fresh, .fresh u) message = (.good, rest, t)) (hne : pairs ≠ [])
    (hclean : ∀ q ∈ pairs, Clean q.1 ∧ Clean q.2)
    (hbody : urldecode (t.2.buildRequest unset).body = joined pairs) : SplitsAs (joined pairs) pairs := by
  refine (splitsAs_joined_iff hne hclean).2 ?_
  rw [← hbody]
  exact (urldecode_length _).trans_lt (RequestParser.body_length_lt h)

end Carried

/-- a form with a key that comes twice, an empty key and an empty value -/
def twiceMessage : Bytes := ascii "POST /blog HTTP/1.0\r\nContent-Length: 11\r\n\r\na=b&=c&%61="

/-- the theorem at this form -/
theorem splits_joined_twice :
    SplitsAs (joined [(ascii "a", ascii "b"), ([], ascii "c"), (ascii "a", [])])
      [(ascii "a", ascii "b"), ([], ascii "c"), (ascii "a", [])] := by
  obtain ⟨t, hparse, hbody⟩ : ∃ t : RequestParser.St,
      RequestParser.parse (RequestParser.fresh, .fresh ⟨0, 0, 0⟩) twiceMessage = (.good, [], t) ∧
        urldecode (t.2.buildRequest .GET).body =
          joined [(ascii "a", ascii "b"), ([], ascii "c"), (ascii "a", [])] :=
    ⟨(RequestParser.parse (RequestParser.fresh, .fresh ⟨0, 0, 0⟩) twiceMessage).2.2, by decide +kernel,
      by decide +kernel⟩
  exact splits_joined hparse (by simp) (by unfold Clean; decide) hbody

end BlogServer.Posts
