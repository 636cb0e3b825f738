/-
The loop of `urldecode`, index by index.

`Form.urldecode` reads its argument from the left. The loop of the source has an index, reads `str[i]` and, behind a `%`
that is not too near the end, `str[i+1]` and `str[i+2]`. Here every such read is one that may be past the end, and every
turn one of a `follow`. It comes to the same (`urldecodeLoop_eq`), so the loop ends, reads nothing past the end, and
undoes every encoding.

- `urldecode_length`: decoding does not make a string longer.
- `form_decoding`: the loop on the encodings of a string, and on any bytes.
-/
import BlogServer.Core.Follow
import BlogServer.Posts.Form

namespace BlogServer.Posts

open BlogServer.Byte

/-! ## The loop -/

/-- the variables of `urldecode` -/
structure DecodeState where
  i : ℕ
  result : Bytes

/-- the body of the loop; `none` is a read past the end -/
def DecodeState.turn (str : Bytes) (st : DecodeState) : Option DecodeState := do
  let c ← str[st.i]?
  if c = PLUS then pure ⟨st.i + 1, st.result ++ [SP]⟩
  else if c = PERCENT ∧ st.i + 2 < str.length then do
    let ch1 ← str[st.i + 1]?
    let ch2 ← str[st.i + 2]?
    pure ⟨st.i + 3, st.result ++ [fromHex ch1 <<< 4 ||| fromHex ch2]⟩
  else pure ⟨st.i + 1, st.result ++ [c]⟩

/-- `i < str.size()`: another turn, or the result; the loop ends with `none` when a turn reads past the end -/
def DecodeState.next (str : Bytes) (st : DecodeState) : DecodeState ⊕ Option Bytes :=
  if st.i < str.length then
    match st.turn str with
    | some st' => .inl st'
    | none => .inr none
  else .inr (some st.result)

/-- `urldecode` with at most `fuel` tests of the condition of its loop -/
def urldecodeLoop (fuel : ℕ) (str : Bytes) : Option (Option Bytes) :=
  follow (fun _ => DecodeState.next str) fuel ⟨0, []⟩

/-! ## What a turn does -/

/-- what is left to decode starts with a byte, and with two more behind a `%` that is decoded -/
theorem DecodeState.turn_spec {str : Bytes} {st : DecodeState} (h : st.i < str.length) :
    ∃ st', st.turn str = some st' ∧ st.i < st'.i ∧
      st'.result ++ urldecode (str.drop st'.i) = st.result ++ urldecode (str.drop st.i) := by
  have hfirst : str[st.i]? = some str[st.i] := List.getElem?_eq_getElem h
  have hdrop : str.drop st.i = str[st.i] :: str.drop (st.i + 1) := List.drop_eq_getElem_cons h
  unfold turn
  simp only [hfirst, Option.bind_eq_bind, Option.bind_some]
  by_cases hplus : str[st.i] = PLUS
  · refine ⟨_, if_pos hplus, Nat.lt_succ_self _, ?_⟩
    rw [hdrop, hplus, urldecode_plus, List.append_assoc, List.singleton_append]
  rw [if_neg hplus]
  by_cases hescape : str[st.i] = PERCENT ∧ st.i + 2 < str.length
  · obtain ⟨hpercent, hlt⟩ := hescape
    have hsecond : str[st.i + 1]? = some str[st.i + 1] := List.getElem?_eq_getElem (by omega)
    have hthird : str[st.i + 2]? = some str[st.i + 2] := List.getElem?_eq_getElem hlt
    have hrest : str.drop (st.i + 1) = str[st.i + 1] :: str[st.i + 2] :: str.drop (st.i + 3) := by
      rw [List.drop_eq_getElem_cons (by omega), List.drop_eq_getElem_cons hlt]
    rw [if_pos ⟨hpercent, hlt⟩, hsecond, hthird]
    refine ⟨_, rfl, Nat.lt_add_of_pos_right (by decide), ?_⟩
    rw [hdrop, hpercent, hrest, urldecode_percent, List.append_assoc, List.singleton_append]
  · rw [if_neg hescape]
    refine ⟨_, rfl, Nat.lt_succ_self _, ?_⟩
    have hone : urldecode (str.drop st.i) = str[st.i] :: urldecode (str.drop (st.i + 1)) := by
      rw [hdrop]
      by_cases hpercent : str[st.i] = PERCENT
      · -- a `%` with fewer than two bytes behind it
        have hshort : (str.drop (st.i + 1)).length < 2 := by
          rw [List.length_drop]
          by_contra hlong
          exact hescape ⟨hpercent, by omega⟩
        match str.drop (st.i + 1), hshort with
        | [], _ => simp only [urldecode, if_neg hplus]
        | [_], _ => simp only [urldecode, if_neg hplus]
      · exact urldecode_literal hplus hpercent _
    rw [hone, List.append_assoc, List.singleton_append]

/-- **The loop is `urldecode`.** It ends, with one test more than there are bytes, and reads nothing past the end. -/
theorem urldecodeLoop_eq {fuel : ℕ} {str : Bytes} (h : str.length < fuel) :
    urldecodeLoop fuel str = some (some (urldecode str)) := by
  refine follow_eq_of_variant (fun st : DecodeState => str.length - st.i)
    (fun st : DecodeState => some (st.result ++ urldecode (str.drop st.i))) (fun _ st => ?_) h
  unfold DecodeState.next
  by_cases hlt : st.i < str.length
  · obtain ⟨after, hturn, hless, hvalue⟩ := DecodeState.turn_spec hlt
    rw [if_pos hlt, hturn]
    exact Or.inr ⟨after, rfl, by omega, congrArg some hvalue⟩
  · have hnil : str.drop st.i = [] := List.drop_eq_nil_iff.2 (not_lt.1 hlt)
    rw [if_neg hlt, hnil, urldecode, List.append_nil]
    exact Or.inl rfl

/-! ## Decoding -/

/-- **Decoding does not make a string longer.** -/
theorem urldecode_length (str : Bytes) : (urldecode str).length ≤ str.length := by
  induction str using urldecode.induct with
  | case1 => exact le_rfl
  | case2 ch1 ch2 str ih =>
    rw [urldecode_plus, List.length_cons, List.length_cons]
    exact Nat.succ_le_succ ih
  | case3 ch1 ch2 str hplus ih =>
    rw [urldecode_percent]
    simp only [List.length_cons]
    omega
  | case4 c ch1 ch2 str hplus hpercent ih =>
    rw [urldecode_literal hplus hpercent, List.length_cons, List.length_cons]
    exact Nat.succ_le_succ ih
  | case5 c str hshort ih =>
    rw [urldecode.eq_3 c str hshort, List.length_cons, List.length_cons]
    exact Nat.succ_le_succ ih

/-- **Decoding inverts encoding, and is total.** On every encoding of a string the loop of `urldecode` ends with that
string; on any bytes it ends, without a read past the end, with no more bytes than it was given. -/
theorem form_decoding :
    (∀ e s, EncodedAs e s → ∀ fuel, e.length < fuel → urldecodeLoop fuel e = some (some s)) ∧
      ∀ str fuel, str.length < fuel →
        ∃ result, urldecodeLoop fuel str = some (some result) ∧ result.length ≤ str.length := by
  constructor
  · intro e s hencoded fuel hfuel
    have hdecoded := urldecode_of_encodedAs hencoded []
    rw [List.append_nil, urldecode, List.append_nil] at hdecoded
    rw [urldecodeLoop_eq hfuel, hdecoded]
  · intro str fuel hfuel
    exact ⟨urldecode str, urldecodeLoop_eq hfuel, urldecode_length str⟩

/-- both cases of hexadecimal digits, a blank, and an escape cut off by the end -/
example : urldecodeLoop 20 (ascii "a%2f%2F+b%4") = some (some (ascii "a// b%4")) := by decide +kernel

end BlogServer.Posts
