/-
How the URI of a static request is mapped to a file, by the dispatcher and by the handler.

Both cut the decoded URI at one slash after the other, from the right. The dispatcher stops at the first cut that is a
location: that is the longest one that the URI is under (`longest_prefix_match_exact`), after no more turns than there
are slashes. The handler starts with the whole URI as the rest and takes the location off only when it has cut at a
slash, so a URI that is the location itself keeps it (`static_mapping_iff`).

- `static_mapping_fails`: for `/static`, the file `/static` below the root is opened.
-/
import BlogServer.Core.Follow
import BlogServer.Dispatch.Confinement

namespace BlogServer.Dispatch

open BlogServer.Byte BlogServer.Config

/-! ## The longest location -/

/-- the longest of the keys that the URI is, or goes on after with a slash -/
structure LongestKey (staticLocations : HashMap Bytes) (uri key : Bytes) : Prop where
  mem : key ∈ staticLocations
  under : Under key uri
  longest : ∀ other ∈ staticLocations, Under other uri → other.length ≤ key.length

theorem Under.isPrefix {location path : Bytes} (h : Under location path) : location <+: path := by
  rcases h with rfl | h
  · exact List.prefix_rfl
  · exact (List.prefix_append _ _).trans h

/-- there is one at most -/
theorem LongestKey.unique {staticLocations : HashMap Bytes} {uri key other : Bytes}
    (h : LongestKey staticLocations uri key) (h' : LongestKey staticLocations uri other) : key = other := by
  have hlength : key.length = other.length :=
    le_antisymm (h'.longest key h.mem h.under) (h.longest other h'.mem h'.under)
  exact (List.prefix_of_prefix_length_le h.under.isPrefix h'.under.isPrefix hlength.le).eq_of_length hlength

/-- one turn of the loop of `longest_prefix_match`: what is trimmed further, or what is returned -/
def trimTurn (staticLocations : HashMap Bytes) (trimmedUri : Bytes) : Bytes ⊕ Bytes :=
  if trimmedUri ∈ staticLocations then .inr trimmedUri
  else
    match Bytes.findLastOf SLASH trimmedUri with
    | none => .inr []
    | some slashPos => .inl (trimmedUri.take slashPos)

/-- each turn that goes on has taken one slash off -/
theorem trimTurn_count {staticLocations : HashMap Bytes} {uri trimmed : Bytes}
    (h : trimTurn staticLocations uri = .inl trimmed) : uri.count SLASH = trimmed.count SLASH + 1 := by
  unfold trimTurn at h
  split_ifs at h with hmem
  cases hi : Bytes.findLastOf SLASH uri with
  | none =>
    rw [hi] at h
    cases h
  | some i =>
    rw [hi] at h
    obtain ⟨last, hsplit, hlast, -⟩ := findLastOf_slash hi
    calc uri.count SLASH = (uri.take i ++ SLASH :: last).count SLASH := by rw [← hsplit]
      _ = (uri.take i).count SLASH + 1 := by
        rw [List.count_append, List.count_cons_self, List.count_eq_zero.2 hlast]
      _ = trimmed.count SLASH + 1 := by rw [Sum.inl.inj h]

/-- what a turn returns or goes on with is what the loop comes to -/
theorem longestPrefixMatch_turn (staticLocations : HashMap Bytes) (uri : Bytes) :
    longestPrefixMatch staticLocations uri =
      match trimTurn staticLocations uri with
      | .inl trimmed => longestPrefixMatch staticLocations trimmed
      | .inr found => found := by
  unfold trimTurn
  by_cases hmem : uri ∈ staticLocations
  · rw [if_pos hmem, longestPrefixMatch_here hmem]
  · rw [if_neg hmem]
    cases hi : Bytes.findLastOf SLASH uri with
    | none => exact longestPrefixMatch_end hmem hi
    | some i => exact longestPrefixMatch_cut hmem hi

/-- the loop ends after a turn for each slash and one more -/
theorem follow_trimTurn (staticLocations : HashMap Bytes) (uri : Bytes) :
    follow (fun _ => trimTurn staticLocations) (uri.count SLASH + 1) uri =
      some (longestPrefixMatch staticLocations uri) := by
  induction hn : uri.count SLASH generalizing uri with
  | zero =>
    rw [longestPrefixMatch_turn, follow]
    cases hturn : trimTurn staticLocations uri with
    | inl trimmed =>
      have hcount := trimTurn_count hturn
      omega
    | inr found => rfl
  | succ n ih =>
    rw [longestPrefixMatch_turn, follow]
    cases hturn : trimTurn staticLocations uri with
    | inl trimmed =>
      have hcount := trimTurn_count hturn
      exact ih trimmed (by omega)
    | inr found => rfl

/-- **The loop of the dispatcher is exact.** It ends, with no more turns than the URI has slashes and one; and it
returns the longest key that the URI is or goes on after with a slash, the empty string exactly when that key is empty
or there is none. -/
theorem longest_prefix_match_exact (staticLocations : HashMap Bytes) (uri : Bytes) :
    follow (fun _ => trimTurn staticLocations) (uri.count SLASH + 1) uri =
        some (longestPrefixMatch staticLocations uri) ∧
      ∀ key, longestPrefixMatch staticLocations uri = key ↔
        LongestKey staticLocations uri key ∨ key = [] ∧ ∀ other ∈ staticLocations, ¬ Under other uri := by
  refine ⟨follow_trimTurn staticLocations uri, fun key => ?_⟩
  rcases longestPrefixMatch_spec staticLocations uri with ⟨hmem, hunder, hlongest⟩ | ⟨hnil, hnone⟩
  · have hfound : LongestKey staticLocations uri (longestPrefixMatch staticLocations uri) := ⟨hmem, hunder, hlongest⟩
    constructor
    · intro heq
      exact Or.inl (heq ▸ hfound)
    · intro h
      rcases h with hkey | ⟨-, hnone⟩
      · exact hfound.unique hkey
      · exact absurd hunder (hnone _ hmem)
  · rw [hnil]
    constructor
    · intro heq
      exact Or.inr ⟨heq.symm, hnone⟩
    · intro h
      rcases h with hkey | ⟨rfl, -⟩
      · exact absurd hkey.under (hnone key hkey.mem)
      · rfl

/-! ## The rest of a URI -/

/-- what the handler leaves of a URI is what is behind the location exactly when the URI goes on after it with a slash,
or when there is nothing to take off -/
theorem append_remainder_iff (location uri : Bytes) :
    location ++ remainder location uri = uri ↔
      location ++ [SLASH] <+: uri ∨ location = [] ∧ SLASH ∉ uri := by
  unfold remainder
  constructor
  · intro h
    split_ifs at h with hwhole
    · have hnil : location = [] := List.append_left_eq_self.1 h
      refine Or.inr ⟨hnil, ?_⟩
      rcases hwhole with rfl | hno
      · rw [hnil]
        exact List.not_mem_nil
      · exact hno
    · rw [not_or] at hwhole
      left
      unfold behind at h
      rw [if_neg hwhole.1] at h
      by_cases hpre : location ++ [SLASH] <+: uri
      · exact hpre
      -- what is left begins with the first slash of the URI
      rw [if_neg hpre] at h
      cases hrest : uri.dropWhile fun c => c != SLASH with
      | nil =>
        rw [hrest, List.append_nil] at h
        exact absurd h.symm hwhole.1
      | cons c rest =>
        have hc : ¬ (c != SLASH) = true := by
          have hhead := List.head?_dropWhile_not (fun c => c != SLASH) uri
          rw [hrest] at hhead
          simpa using hhead
        rw [Bool.not_eq_true, bne_eq_false_iff_eq] at hc
        exact ⟨rest, by rw [List.append_assoc, List.singleton_append, ← hc, ← hrest, h]⟩
  · intro h
    rcases h with hpre | ⟨rfl, hno⟩
    · have hslash : SLASH ∈ uri := hpre.subset (by simp)
      have hne : uri ≠ location := by
        rintro rfl
        have := hpre.length_le
        simp at this
      rw [if_neg (not_or.2 ⟨hne, not_not.2 hslash⟩), behind, if_neg hne, if_pos hpre]
      exact (List.prefix_iff_eq_append.1 ((List.prefix_append _ _).trans hpre))
    · rw [if_pos (Or.inr hno)]
      rfl

/-! ## The file that is opened -/

/-- **When the mapping agrees with the dispatch.** Whatever was asked of the dispatcher before: if a URI is given to the
static handler of a location, the decoded URI is the location followed by what is opened under the root exactly when it
goes on after the location with a slash, or the location is empty and the URI has no slash. -/
theorem static_mapping_iff {config : NginxConfig} {d : Dispatcher} (hd : Dispatcher.Reachable config d)
    {uri location root : Bytes} (hroot : config.staticLocations.lookup location = some root) {handler : StaticHandler}
    (hhandler : (d.getHandler uri).1 = some (.static handler)) (hlocation : handler.clientLocationPath = location) :
    (∃ rest, decodeSpaces uri = location ++ rest ∧ handler.fileName uri = root ++ rest) ↔
      location ++ [SLASH] <+: decodeSpaces uri ∨ location = [] ∧ SLASH ∉ decodeSpaces uri := by
  rw [← append_remainder_iff, static_fileName hd hroot hhandler hlocation]
  constructor
  · intro h
    obtain ⟨rest, huri, hrest⟩ := h
    rw [List.append_cancel_left hrest, ← huri]
  · intro h
    exact ⟨remainder location (decodeSpaces uri), h.symm, rfl⟩

/-- a page below the location -/
theorem static_mapping_iff_page :
    ∃ rest, decodeSpaces (ascii "/static/a%20b.html") = ascii "/static" ++ rest ∧
      filesHandler.fileName (ascii "/static/a%20b.html") = ascii "./files" ++ rest := by
  have hroot : filesConfig.staticLocations.lookup (ascii "/static") = some (ascii "./files") := rfl
  refine (static_mapping_iff (.init filesDispatcher_init) hroot (filesDispatcher_getHandler (by decide)) rfl).2 ?_
  rw [decodeSpaces_eq]
  decide

/-- the location itself: the file of that name below the root is asked for -/
theorem static_mapping_fails :
    ∃ d handler, Dispatcher.init filesConfig = some d ∧
      (d.getHandler (ascii "/static")).1 = some (.static handler) ∧
      handler.clientLocationPath = ascii "/static" ∧
      filesConfig.staticLocations.lookup (ascii "/static") = some (ascii "./files") ∧
      handler.fileName (ascii "/static") = ascii "./files/static" ∧
      ¬ ∃ rest, decodeSpaces (ascii "/static") = ascii "/static" ++ rest ∧
        handler.fileName (ascii "/static") = ascii "./files" ++ rest := by
  have hfile : filesHandler.fileName (ascii "/static") = ascii "./files/static" := by
    rw [StaticHandler.fileName, StaticHandler.subUriPath_eq, decodeSpaces_eq]
    decide
  refine ⟨filesDispatcher, filesHandler, filesDispatcher_init, filesDispatcher_getHandler (by decide), rfl, rfl, hfile,
    ?_⟩
  intro h
  obtain ⟨rest, huri, hrest⟩ := h
  have hdecoded : decodeSpaces (ascii "/static") = ascii "/static" := by
    rw [decodeSpaces_eq]
    decide
  rw [hdecoded] at huri
  have hnil : rest = [] := List.append_right_eq_self.1 huri.symm
  rw [hfile, hnil] at hrest
  exact absurd hrest (by decide)

end BlogServer.Dispatch
