/-
What the dispatcher and the static handler do to a URI: `%20` becomes a space, and the path is cut at one slash after
the other, from the right.

The loops run on the string in place, as in the source; `unescapeSpaces` and `remainder` say what they come to.

- `decodeSpaces_eq`: the loop over `%20` replaces every occurrence, from left to right.
- `longestPrefixMatch_spec`: the loop of the dispatcher finds the longest location that the URI is under, if any.
- `stripLocation_eq`: what the loop of the static handler leaves of a URI.
-/
import BlogServer.Config.NginxConfig
import Mathlib.Data.List.TakeWhile

namespace BlogServer.Dispatch

open BlogServer.Byte BlogServer.Config

/-! ## Spaces -/

/-- the loop over `%20`, from `space_index` on -/
def decodeSpacesFrom (uri : Bytes) (spaceIndex : ℕ) : Bytes :=
  match _h : Bytes.findFrom (ascii "%20") uri spaceIndex with
  | none => uri
  | some i => decodeSpacesFrom (uri.take i ++ [SP] ++ uri.drop (i + 3)) i
termination_by uri.length
decreasing_by
  have hle : i + 3 ≤ uri.length := Bytes.findFrom_add_length_le _h (by decide)
  simp only [List.length_append, List.length_take, List.length_drop, List.length_singleton]
  omega

/-- every `%20` of the URI made a space -/
def decodeSpaces (uri : Bytes) : Bytes := decodeSpacesFrom uri 0

/-- `%20` read as a space, from left to right -/
def unescapeSpaces : Bytes → Bytes
  | [] => []
  | c :: d :: e :: s =>
    if c = PERCENT ∧ d = 50 ∧ e = 48 then SP :: unescapeSpaces s else c :: unescapeSpaces (d :: e :: s)
  | c :: s => c :: unescapeSpaces s

theorem unescapeSpaces_hit (s : Bytes) : unescapeSpaces (ascii "%20" ++ s) = SP :: unescapeSpaces s := by
  simp [ascii, unescapeSpaces]

theorem unescapeSpaces_miss {c : UInt8} {s : Bytes} (h : ¬ ascii "%20" <+: c :: s) :
    unescapeSpaces (c :: s) = c :: unescapeSpaces s := by
  match s with
  | [] | [_] => rfl
  | d :: e :: s =>
    rw [unescapeSpaces, if_neg]
    rintro ⟨rfl, rfl, rfl⟩
    exact h ⟨s, rfl⟩

theorem unescapeSpaces_cons {c : UInt8} (s : Bytes) (h : c ≠ PERCENT) :
    unescapeSpaces (c :: s) = c :: unescapeSpaces s :=
  unescapeSpaces_miss fun hpre => h (List.cons_prefix_cons.1 hpre).1.symm

/-- a text is read from left to right, three bytes for a space or one byte for itself -/
@[elab_as_elim]
theorem unescape_induction {P : Bytes → Prop} (nil : P []) (hit : ∀ s, P s → P (ascii "%20" ++ s))
    (miss : ∀ c s, ¬ ascii "%20" <+: c :: s → P s → P (c :: s)) (s : Bytes) : P s := by
  induction hn : s.length using Nat.strong_induction_on generalizing s with
  | _ n ih =>
    cases s with
    | nil => exact nil
    | cons c s =>
      rw [List.length_cons] at hn
      by_cases hpre : ascii "%20" <+: c :: s
      · obtain ⟨rest, hrest⟩ := hpre
        have hlength := congrArg List.length hrest
        have hthree : (ascii "%20").length = 3 := rfl
        rw [List.length_append, List.length_cons, hthree] at hlength
        rw [← hrest]
        exact hit rest (ih rest.length (by omega) rest rfl)
      · exact miss c s hpre (ih s.length (by omega) s rfl)

theorem unescapeSpaces_of_none {s : Bytes} (h : Bytes.find (ascii "%20") s = none) : unescapeSpaces s = s := by
  induction s with
  | nil => rfl
  | cons c s ih =>
    rw [Bytes.find] at h
    split_ifs at h with hpre
    rw [unescapeSpaces_miss hpre, ih (Option.map_eq_none_iff.1 h)]

theorem unescapeSpaces_of_some {s : Bytes} {i : ℕ} (h : Bytes.find (ascii "%20") s = some i) :
    unescapeSpaces s = s.take i ++ SP :: unescapeSpaces (s.drop (i + 3)) := by
  induction s generalizing i with
  | nil => cases h
  | cons c s ih =>
    rw [Bytes.find] at h
    split_ifs at h with hpre
    · obtain rfl := Option.some.inj h
      obtain ⟨rest, hrest⟩ := hpre
      rw [← hrest, unescapeSpaces_hit]
      rfl
    · obtain ⟨j, hj, rfl⟩ := Option.map_eq_some_iff.1 h
      rw [unescapeSpaces_miss hpre, ih hj]
      rfl

theorem unescapeSpaces_length_le (s : Bytes) : (unescapeSpaces s).length ≤ s.length := by
  induction s using unescape_induction with
  | nil => rfl
  | hit s ih =>
    have hthree : (ascii "%20").length = 3 := rfl
    rw [unescapeSpaces_hit, List.length_cons, List.length_append, hthree]
    omega
  | miss c s hmiss ih =>
    rw [unescapeSpaces_miss hmiss, List.length_cons, List.length_cons]
    exact Nat.succ_le_succ ih

theorem decodeSpacesFrom_none {uri : Bytes} {spaceIndex : ℕ}
    (h : Bytes.findFrom (ascii "%20") uri spaceIndex = none) : decodeSpacesFrom uri spaceIndex = uri := by
  rw [decodeSpacesFrom]
  split
  · rfl
  · rename_i i hi
    rw [h] at hi
    cases hi

theorem decodeSpacesFrom_some {uri : Bytes} {spaceIndex i : ℕ}
    (h : Bytes.findFrom (ascii "%20") uri spaceIndex = some i) :
    decodeSpacesFrom uri spaceIndex = decodeSpacesFrom (uri.take i ++ [SP] ++ uri.drop (i + 3)) i := by
  rw [decodeSpacesFrom]
  split
  · rename_i hi
    rw [h] at hi
    cases hi
  · rename_i j hj
    rw [h] at hj
    obtain rfl := Option.some.inj hj
    rfl

/-- what is before `space_index` is done -/
theorem decodeSpacesFrom_eq (done s : Bytes) :
    decodeSpacesFrom (done ++ s) done.length = done ++ unescapeSpaces s := by
  induction hn : s.length using Nat.strong_induction_on generalizing done s with
  | _ n ih =>
    have hfind : Bytes.findFrom (ascii "%20") (done ++ s) done.length =
        (Bytes.find (ascii "%20") s).map (· + done.length) := by
      rw [Bytes.findFrom, List.drop_left]
    cases hs : Bytes.find (ascii "%20") s with
    | none =>
      rw [hs] at hfind
      rw [decodeSpacesFrom_none hfind, unescapeSpaces_of_none hs]
    | some i =>
      rw [hs, Option.map_some] at hfind
      have hle : i + 3 ≤ s.length := Bytes.find_add_length_le hs
      have hnext : (done ++ s).take (i + done.length) ++ [SP] ++ (done ++ s).drop (i + done.length + 3) =
          (done ++ s.take i) ++ SP :: s.drop (i + 3) := by
        rw [Nat.add_comm i, List.take_length_add_append, Nat.add_assoc, List.drop_length_add_append]
        simp
      have hlength : (done ++ s.take i).length = i + done.length := by
        rw [List.length_append, List.length_take]
        omega
      have hshort : (SP :: s.drop (i + 3)).length < n := by
        rw [List.length_cons, List.length_drop]
        omega
      rw [decodeSpacesFrom_some hfind, hnext, ← hlength, ih _ hshort _ _ rfl, unescapeSpaces_of_some hs,
        unescapeSpaces_miss fun h => absurd (List.cons_prefix_cons.1 h).1 (by decide), List.append_assoc]

/-- **The loop over `%20`** replaces every occurrence. -/
theorem decodeSpaces_eq (uri : Bytes) : decodeSpaces uri = unescapeSpaces uri := decodeSpacesFrom_eq [] uri

/-! ## Cutting at slashes -/

theorem findLastOf_lt {c : UInt8} {s : Bytes} {i : ℕ} (h : Bytes.findLastOf c s = some i) : i < s.length := by
  obtain ⟨-, -, hlt, -⟩ := Bytes.findLastOf_eq_some.1 h
  exact hlt

/-- the loop of `request_dispatcher::longest_prefix_match` -/
def longestPrefixMatch (staticLocations : HashMap Bytes) (trimmedUri : Bytes) : Bytes :=
  if trimmedUri ∈ staticLocations then trimmedUri
  else
    match _h : Bytes.findLastOf SLASH trimmedUri with
    | none => []
    | some slashPos => longestPrefixMatch staticLocations (trimmedUri.take slashPos)
termination_by trimmedUri.length
decreasing_by
  have := findLastOf_lt _h
  rw [List.length_take]
  omega

/-- the loop of `static_request_handler::handle_request`, which ends with `sub_uri_path` -/
def stripLocation (clientLocationPath uri clientUriPath subUriPath : Bytes) : Bytes :=
  if clientUriPath = clientLocationPath then subUriPath
  else
    match _h : Bytes.findLastOf SLASH clientUriPath with
    | none => subUriPath
    | some slashPos => stripLocation clientLocationPath uri (clientUriPath.take slashPos) (uri.drop slashPos)
termination_by clientUriPath.length
decreasing_by
  have := findLastOf_lt _h
  rw [List.length_take]
  omega

/-- a URI is cut at its last slash -/
theorem findLastOf_slash {uri : Bytes} {i : ℕ} (h : Bytes.findLastOf SLASH uri = some i) :
    ∃ last, uri = uri.take i ++ SLASH :: last ∧ SLASH ∉ last ∧ uri.drop i = SLASH :: last := by
  obtain ⟨last, hsplit, hlt, hlast⟩ := Bytes.findLastOf_eq_some.1 h
  refine ⟨last, hsplit, hlast, ?_⟩
  have hdrop : (uri.take i ++ SLASH :: last).drop (uri.take i).length = SLASH :: last := List.drop_left
  rw [List.length_take, min_eq_left (by omega), ← hsplit] at hdrop
  exact hdrop

theorem stripLocation_here (clientLocationPath uri subUriPath : Bytes) :
    stripLocation clientLocationPath uri clientLocationPath subUriPath = subUriPath := by
  rw [stripLocation, if_pos rfl]

theorem stripLocation_end {clientLocationPath clientUriPath : Bytes} (uri subUriPath : Bytes)
    (h : SLASH ∉ clientUriPath) : stripLocation clientLocationPath uri clientUriPath subUriPath = subUriPath := by
  rw [stripLocation]
  split_ifs
  · rfl
  · split
    · rfl
    · rename_i i hi
      rw [Bytes.findLastOf_eq_none.2 h] at hi
      cases hi

theorem stripLocation_cut {clientLocationPath clientUriPath : Bytes} (uri subUriPath : Bytes) {i : ℕ}
    (hne : clientUriPath ≠ clientLocationPath) (hi : Bytes.findLastOf SLASH clientUriPath = some i) :
    stripLocation clientLocationPath uri clientUriPath subUriPath =
      stripLocation clientLocationPath uri (clientUriPath.take i) (uri.drop i) := by
  rw [stripLocation, if_neg hne]
  split
  · rename_i hj
    rw [hi] at hj
    cases hj
  · rename_i j hj
    rw [hi] at hj
    obtain rfl := Option.some.inj hj
    rfl

/-- the path is the location, or goes on after it with a slash -/
def Under (location path : Bytes) : Prop := path = location ∨ location ++ [SLASH] <+: path

instance (location path : Bytes) : Decidable (Under location path) := inferInstanceAs (Decidable (_ ∨ _))

/-- what a location leaves of a path: what is behind it when the path goes on after it with a slash; else what is from
the first slash on -/
def behind (location path : Bytes) : Bytes :=
  if path = location then []
  else if location ++ [SLASH] <+: path then path.drop location.length
  else path.dropWhile fun c => c != SLASH

/-- the part of a URI that the static handler asks for under the location -/
def remainder (location uri : Bytes) : Bytes := if uri = location ∨ SLASH ∉ uri then uri else behind location uri

theorem dropWhile_noSlash {s : Bytes} (h : SLASH ∉ s) : s.dropWhile (fun c => c != SLASH) = [] := by
  rw [List.dropWhile_eq_nil_iff]
  intro c hc
  simpa using fun he : c = SLASH => h (he ▸ hc)

theorem dropWhile_append_slash (path last : Bytes) :
    (path ++ SLASH :: last).dropWhile (fun c => c != SLASH) = path.dropWhile (fun c => c != SLASH) ++ SLASH :: last := by
  induction path with
  | nil => rfl
  | cons c path ih =>
    rw [List.cons_append, List.dropWhile_cons, List.dropWhile_cons]
    split_ifs
    · exact ih
    · rfl

/-- a location that a path goes on after, the last slash and what follows taken off, is that path or one it goes on
after -/
theorem prefix_of_append {location path last : Bytes} (hlast : SLASH ∉ last)
    (h : location ++ [SLASH] <+: path ++ SLASH :: last) : path = location ∨ location ++ [SLASH] <+: path := by
  obtain ⟨rest, hrest⟩ := h
  rcases List.append_eq_append_iff.1 hrest with ⟨as, hpath, -⟩ | ⟨bs, hlocation, htail⟩
  · exact Or.inr ⟨as, hpath.symm⟩
  · cases bs with
    | nil => exact Or.inr ⟨[], by rw [hlocation, List.append_nil, List.append_nil]⟩
    | cons b bs =>
      obtain ⟨rfl, hrest⟩ : SLASH = b ∧ last = bs ++ rest := List.cons.inj htail
      rcases List.eq_nil_or_concat bs with rfl | ⟨cs, c, rfl⟩
      · left
        exact (List.append_inj_left' hlocation rfl).symm
      · -- the slash after the location would be in `last`
        rw [List.concat_eq_append] at hlocation
        have hc : [SLASH] = [c] := by
          rw [← List.cons_append, ← List.append_assoc] at hlocation
          exact List.append_inj_right' hlocation rfl
        refine absurd ?_ hlast
        rw [hrest, List.head_eq_of_cons_eq hc, List.concat_eq_append]
        exact List.mem_append_left _ (List.mem_append_right _ List.mem_cons_self)

theorem behind_append (location path : Bytes) {last : Bytes} (hlast : SLASH ∉ last)
    (hne : path ++ SLASH :: last ≠ location) :
    behind location (path ++ SLASH :: last) = behind location path ++ SLASH :: last := by
  unfold behind
  rw [if_neg hne]
  by_cases hhere : path = location
  · have hpre : location ++ [SLASH] <+: path ++ SLASH :: last := ⟨last, by rw [hhere]; simp⟩
    rw [if_pos hhere, if_pos hpre, hhere, List.drop_left]
    rfl
  · rw [if_neg hhere]
    by_cases hpre : location ++ [SLASH] <+: path
    · have hle : location.length ≤ path.length := by
        have := hpre.length_le
        rw [List.length_append] at this
        omega
      rw [if_pos hpre, if_pos (hpre.trans (List.prefix_append _ _)), List.drop_append_of_le_length hle]
    · have hpre' : ¬ location ++ [SLASH] <+: path ++ SLASH :: last := by
        intro h
        rcases prefix_of_append hlast h with h | h
        · exact hhere h
        · exact hpre h
      rw [if_neg hpre, if_neg hpre', dropWhile_append_slash]

theorem Under.length_le {location path : Bytes} (h : Under location path) : location.length ≤ path.length := by
  rcases h with rfl | h
  · exact le_rfl
  · have := h.length_le
    rw [List.length_append] at this
    omega

/-- a path and what its last slash cuts it to are under the same other locations -/
theorem under_cut {location path : Bytes} {i : ℕ} (hi : Bytes.findLastOf SLASH path = some i) (hne : path ≠ location) :
    Under location path ↔ Under location (path.take i) := by
  obtain ⟨last, hsplit, hlast, -⟩ := findLastOf_slash hi
  constructor
  · intro h
    have hpre := h.resolve_left hne
    rw [hsplit] at hpre
    exact prefix_of_append hlast hpre
  · intro h
    right
    rw [hsplit]
    rcases h with h | h
    · rw [h]
      exact ⟨last, by simp⟩
    · exact h.trans (List.prefix_append _ _)

theorem longestPrefixMatch_here {staticLocations : HashMap Bytes} {uri : Bytes} (h : uri ∈ staticLocations) :
    longestPrefixMatch staticLocations uri = uri := by
  rw [longestPrefixMatch, if_pos h]

theorem longestPrefixMatch_end {staticLocations : HashMap Bytes} {uri : Bytes} (h : uri ∉ staticLocations)
    (hnone : Bytes.findLastOf SLASH uri = none) : longestPrefixMatch staticLocations uri = [] := by
  rw [longestPrefixMatch, if_neg h]
  split
  · rfl
  · rename_i i hi
    rw [hnone] at hi
    cases hi

theorem longestPrefixMatch_cut {staticLocations : HashMap Bytes} {uri : Bytes} {i : ℕ} (h : uri ∉ staticLocations)
    (hi : Bytes.findLastOf SLASH uri = some i) :
    longestPrefixMatch staticLocations uri = longestPrefixMatch staticLocations (uri.take i) := by
  rw [longestPrefixMatch, if_neg h]
  split
  · rename_i hj
    rw [hi] at hj
    cases hj
  · rename_i j hj
    rw [hi] at hj
    obtain rfl := Option.some.inj hj
    rfl

/-- **The loop of the dispatcher** finds the longest location that the URI is under; without one it returns the empty
string. -/
theorem longestPrefixMatch_spec (staticLocations : HashMap Bytes) (uri : Bytes) :
    (longestPrefixMatch staticLocations uri ∈ staticLocations ∧ Under (longestPrefixMatch staticLocations uri) uri ∧
        ∀ location ∈ staticLocations, Under location uri →
          location.length ≤ (longestPrefixMatch staticLocations uri).length) ∨
      longestPrefixMatch staticLocations uri = [] ∧ ∀ location ∈ staticLocations, ¬ Under location uri := by
  induction hn : uri.length using Nat.strong_induction_on generalizing uri with
  | _ n ih =>
    by_cases hmem : uri ∈ staticLocations
    · rw [longestPrefixMatch_here hmem]
      exact Or.inl ⟨hmem, Or.inl rfl, fun location _ h => h.length_le⟩
    have hne : ∀ location ∈ staticLocations, uri ≠ location := fun location hl he => hmem (he ▸ hl)
    cases hi : Bytes.findLastOf SLASH uri with
    | none =>
      refine Or.inr ⟨longestPrefixMatch_end hmem hi, fun location hl h => ?_⟩
      have hpre := h.resolve_left (hne location hl)
      exact Bytes.findLastOf_eq_none.1 hi (hpre.subset (by simp))
    | some i =>
      have hlt := findLastOf_lt hi
      have hshort : (uri.take i).length < n := by
        rw [List.length_take]
        omega
      have hcut : ∀ location ∈ staticLocations, (Under location uri ↔ Under location (uri.take i)) :=
        fun location hl => under_cut hi (hne location hl)
      rw [longestPrefixMatch_cut hmem hi]
      rcases ih _ hshort _ rfl with ⟨hfound, hunder, hlongest⟩ | ⟨hnil, hnone⟩
      · exact Or.inl ⟨hfound, (hcut _ hfound).2 hunder, fun location hl h => hlongest location hl ((hcut _ hl).1 h)⟩
      · exact Or.inr ⟨hnil, fun location hl h => hnone location hl ((hcut _ hl).1 h)⟩

/-- once a slash has been cut, `uri` is what is left followed by `sub_uri_path` -/
theorem stripLocation_behind (location path sub : Bytes) :
    stripLocation location (path ++ sub) path sub = behind location path ++ sub := by
  induction hn : path.length using Nat.strong_induction_on generalizing path sub with
  | _ n ih =>
    by_cases hhere : path = location
    · rw [hhere, stripLocation_here, behind, if_pos rfl]
      rfl
    cases hi : Bytes.findLastOf SLASH path with
    | none =>
      have hnone := Bytes.findLastOf_eq_none.1 hi
      have hpre : ¬ location ++ [SLASH] <+: path := fun h => hnone (h.subset (by simp))
      rw [stripLocation_end _ _ hnone, behind, if_neg hhere, if_neg hpre, dropWhile_noSlash hnone]
      rfl
    | some i =>
      obtain ⟨last, hsplit, hlast, hdrop⟩ := findLastOf_slash hi
      have hlt := findLastOf_lt hi
      have hcut : (path ++ sub).drop i = SLASH :: last ++ sub := by
        rw [List.drop_append_of_le_length (by omega), hdrop]
      have huri : path ++ sub = path.take i ++ (SLASH :: last ++ sub) := by
        rw [← List.append_assoc, ← hsplit]
      have hshort : (path.take i).length < n := by
        rw [List.length_take]
        omega
      calc stripLocation location (path ++ sub) path sub
          = stripLocation location (path.take i ++ (SLASH :: last ++ sub)) (path.take i) (SLASH :: last ++ sub) := by
            rw [stripLocation_cut _ _ hhere hi, hcut, huri]
        _ = behind location (path.take i) ++ (SLASH :: last ++ sub) := ih _ hshort _ _ rfl
        _ = behind location path ++ sub := by
            rw [← List.append_assoc, ← behind_append location _ hlast (by rw [← hsplit]; exact hhere), ← hsplit]

/-- **The loop of the static handler** leaves the part of the URI that is asked for under the location. -/
theorem stripLocation_eq (location uri : Bytes) : stripLocation location uri uri uri = remainder location uri := by
  unfold remainder
  split_ifs with h
  · rcases h with rfl | h
    · exact stripLocation_here _ _ _
    · exact stripLocation_end _ _ h
  · rw [not_or, not_not] at h
    cases hi : Bytes.findLastOf SLASH uri with
    | none => exact absurd h.2 (Bytes.findLastOf_eq_none.1 hi)
    | some i =>
      obtain ⟨last, hsplit, hlast, hdrop⟩ := findLastOf_slash hi
      calc stripLocation location uri uri uri
          = stripLocation location (uri.take i ++ SLASH :: last) (uri.take i) (SLASH :: last) := by
            rw [stripLocation_cut _ _ h.1 hi, hdrop, ← hsplit]
        _ = behind location (uri.take i) ++ SLASH :: last := stripLocation_behind _ _ _
        _ = behind location uri := by
            rw [← behind_append location _ hlast (by rw [← hsplit]; exact h.1), ← hsplit]

end BlogServer.Dispatch
