/-
The loop over `%20`, turn by turn, and what the dispatcher and the static handler see of a URI.

Every turn looks for `%20` from `space_index` on and puts a space in its place. The string gets shorter, so the loop
ends (`decodeSpacesLoop_eq`), and since a space is no byte of `%20`, none is left and none comes to be where one was
replaced.

- `decodeSpaces_replaced`: every occurrence is replaced, from left to right.
- `space_decoding`: once decoded, a URI is decoded; so is what `get_handler` and the static handler go by.
-/
import BlogServer.Core.Follow
import BlogServer.Core.Replace
import BlogServer.Dispatch.Dispatcher

namespace BlogServer.Dispatch

open BlogServer.Byte BlogServer.Http

/-! ## The loop -/

/-- the variables of the loop -/
structure SpaceState where
  uri : Bytes
  spaceIndex : ℕ

/-- one turn: another one, or the string as it is when nothing is found -/
def SpaceState.next (st : SpaceState) : SpaceState ⊕ Bytes :=
  match Bytes.findFrom (ascii "%20") st.uri st.spaceIndex with
  | none => .inr st.uri
  | some i => .inl ⟨st.uri.take i ++ [SP] ++ st.uri.drop (i + 3), i⟩

/-- the loop with at most `fuel` calls of `find` -/
def decodeSpacesLoop (fuel : ℕ) (uri : Bytes) : Option Bytes := follow (fun _ => SpaceState.next) fuel ⟨uri, 0⟩

/-- what a turn leaves is shorter -/
theorem replaced_length {uri : Bytes} {i pos : ℕ} (h : Bytes.findFrom (ascii "%20") uri pos = some i) :
    (uri.take i ++ [SP] ++ uri.drop (i + 3)).length < uri.length := by
  have hle : i + 3 ≤ uri.length := Bytes.findFrom_add_length_le h (by decide)
  simp only [List.length_append, List.length_take, List.length_drop, List.length_singleton]
  omega

/-- **The loop ends**, with one call more than there are bytes at most. -/
theorem decodeSpacesLoop_eq {fuel : ℕ} {uri : Bytes} (h : uri.length < fuel) :
    decodeSpacesLoop fuel uri = some (decodeSpaces uri) := by
  refine follow_eq_of_variant (fun st : SpaceState => st.uri.length)
    (fun st : SpaceState => decodeSpacesFrom st.uri st.spaceIndex) (fun _ st => ?_) h
  unfold SpaceState.next
  cases hfind : Bytes.findFrom (ascii "%20") st.uri st.spaceIndex with
  | none =>
    rw [decodeSpacesFrom_none hfind]
    exact Or.inl rfl
  | some i => exact Or.inr ⟨_, rfl, replaced_length hfind, (decodeSpacesFrom_some hfind).symm⟩

/-! ## The result -/

/-- **Every `%20` is replaced**, from left to right. -/
theorem decodeSpaces_replaced (uri : Bytes) : Replaced (ascii "%20") SP uri (decodeSpaces uri) := by
  rw [decodeSpaces_eq]
  induction hn : uri.length using Nat.strong_induction_on generalizing uri with
  | _ n ih =>
    cases hfind : Bytes.find (ascii "%20") uri with
    | none =>
      rw [unescapeSpaces_of_none hfind]
      exact .absent (Bytes.find_eq_none_iff.1 hfind)
    | some i =>
      have hle : i + 3 ≤ uri.length := Bytes.find_add_length_le hfind
      obtain ⟨rest, hrest⟩ := Bytes.find_begins hfind
      have hbehind : uri.drop (i + 3) = rest := by
        rw [← List.drop_drop, ← hrest]
        rfl
      have hwhole : uri = uri.take i ++ (ascii "%20" ++ rest) := by
        rw [hrest, List.take_append_drop]
      have hshort : rest.length < n := by
        rw [← hbehind, List.length_drop]
        omega
      have hfirst : ∀ u v, uri.take i ++ (ascii "%20" ++ rest) = u ++ (ascii "%20" ++ v) →
          (uri.take i).length ≤ u.length := by
        intro u v huv
        rw [List.length_take]
        exact (Nat.min_le_left _ _).trans (Bytes.find_le hfind u v (hwhole.trans huv))
      have hreplaced := Replaced.first hfirst (ih _ hshort rest rfl)
      rw [unescapeSpaces_of_some hfind, hbehind]
      rwa [← hwhole] at hreplaced

/-- **No `%20` is left.** -/
theorem decodeSpaces_none_left (uri : Bytes) : ¬ ascii "%20" <:+: decodeSpaces uri :=
  (decodeSpaces_replaced uri).none_left (by decide) (by decide)

/-- **Decoding again changes nothing.** -/
theorem decodeSpaces_idem (uri : Bytes) : decodeSpaces (decodeSpaces uri) = decodeSpaces uri :=
  (decodeSpaces_replaced (decodeSpaces uri)).unique (.absent (decodeSpaces_none_left uri))

/-! ## The dispatcher and the static handler -/

/-- `get_handler` does not tell a URI from the decoded one -/
theorem getHandler_decodeSpaces (d : Dispatcher) (uri : Bytes) : d.getHandler (decodeSpaces uri) = d.getHandler uri := by
  unfold Dispatcher.getHandler
  rw [decodeSpaces_idem]

/-- nor does the static handler -/
theorem handleRequest_decodeSpaces (files : Bytes → Option Bytes) (h : StaticHandler) (request : Request) :
    h.handleRequest files { request with uri := decodeSpaces request.uri } = h.handleRequest files request := by
  unfold StaticHandler.handleRequest StaticHandler.fileName StaticHandler.subUriPath
  simp only [decodeSpaces_idem]

/-- **Decoding spaces.** On any URI the loop over `%20` ends, with the one string in which every occurrence is replaced
by a space, from left to right. None is left in it and the loop on it ends with it, so the handler that the dispatcher
finds and the response of the static handler are the same for the URI and for that string. -/
theorem space_decoding (uri : Bytes) :
    ∃ result, (∀ fuel, uri.length < fuel → decodeSpacesLoop fuel uri = some result) ∧
      (∀ s, Replaced (ascii "%20") SP uri s ↔ s = result) ∧ ¬ ascii "%20" <:+: result ∧
      (∀ fuel, result.length < fuel → decodeSpacesLoop fuel result = some result) ∧
      (∀ d : Dispatcher, d.getHandler result = d.getHandler uri) ∧
      ∀ (files : Bytes → Option Bytes) (h : StaticHandler) (request : Request), request.uri = uri →
        h.handleRequest files { request with uri := result } = h.handleRequest files request := by
  have hreplaced := decodeSpaces_replaced uri
  refine ⟨decodeSpaces uri, fun fuel hfuel => decodeSpacesLoop_eq hfuel, ?_, decodeSpaces_none_left uri, ?_,
    fun d => getHandler_decodeSpaces d uri, ?_⟩
  · intro s
    constructor
    · exact fun hs => hs.unique hreplaced
    · rintro rfl
      exact hreplaced
  · intro fuel hfuel
    rw [decodeSpacesLoop_eq hfuel, decodeSpaces_idem]
  · rintro files h request rfl
    exact handleRequest_decodeSpaces files h request

/-- around an escape that is replaced the bytes of another one do not meet -/
example : decodeSpacesLoop 9 (ascii "%2%200") = some (ascii "%2 0") := by decide

end BlogServer.Dispatch
