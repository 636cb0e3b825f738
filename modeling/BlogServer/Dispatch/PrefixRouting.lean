/-
Which location the searches for a prefix find.

The locations of proxies and blogs are gone through in the iteration order of their hash map, and the first that the URI
begins with is taken. An order is a permutation of the entries (`Reordered`). What is found is the longest location, for
every order, exactly when there are no two to be found (`longest_routing_iff`).

- `longest_routing_blog2`: with "/blog" and "/blog2", "/blog" is found for "/blog2" if it comes first.
-/
import BlogServer.Dispatch.Completeness

namespace BlogServer.Dispatch

open BlogServer.Byte BlogServer.Config

/-! ## The longest location -/

/-- the longest of the locations that the URI begins with -/
structure Longest (locations : List Bytes) (uri location : Bytes) : Prop where
  mem : location ∈ locations
  isPrefix : location <+: uri
  longest : ∀ other ∈ locations, other <+: uri → other.length ≤ location.length

theorem exists_longest {locations : List Bytes} {uri location : Bytes} (hmem : location ∈ locations)
    (hpre : location <+: uri) : ∃ longest, Longest locations uri longest := by
  let found := locations.toFinset.filter fun other => other <+: uri
  have hfound : ∀ other, other ∈ found ↔ other ∈ locations ∧ other <+: uri := by
    intro other
    rw [Finset.mem_filter, List.mem_toFinset]
  obtain ⟨longest, hlongest, hmax⟩ := Finset.exists_max_image found List.length ⟨location, (hfound _).2 ⟨hmem, hpre⟩⟩
  obtain ⟨hin, hbegins⟩ := (hfound _).1 hlongest
  exact ⟨longest, hin, hbegins, fun other ho hp => hmax other ((hfound _).2 ⟨ho, hp⟩)⟩

/-- with at most one to be found, it is found in every order -/
theorem prefixLocation_of_unique {locations order : List Bytes} (hperm : order.Perm locations) {uri location : Bytes}
    (hmem : location ∈ locations) (hpre : location <+: uri)
    (hunique : ∀ other ∈ locations, other <+: uri → other = location) :
    Dispatcher.prefixLocation order uri = some location := by
  cases hfind : Dispatcher.prefixLocation order uri with
  | none => exact absurd hpre (prefixLocation_none hfind location (hperm.mem_iff.2 hmem))
  | some other =>
    obtain ⟨hother, hbegins⟩ := prefixLocation_some hfind
    rw [hunique other (hperm.mem_iff.1 hother) hbegins]

/-! ## Iteration orders -/

/-- an order that begins with a given key -/
theorem exists_order {V : Type} {table : HashMap V} {key : Bytes} (h : key ∈ table.keys) :
    ∃ table' : HashMap V, table'.entries.Perm table.entries ∧ table'.keys.head? = some key := by
  obtain ⟨entry, hentry, rfl⟩ := List.mem_map.1 h
  obtain ⟨before, after, hsplit⟩ := List.append_of_mem hentry
  have hperm : (entry :: (before ++ after)).Perm table.entries := hsplit ▸ List.perm_middle.symm
  exact ⟨⟨entry :: (before ++ after), (List.perm_nodupKeys hperm).2 table.nodupKeys⟩, hperm, rfl⟩

/-! ## The two searches -/

/-- no location is asked for that is looked up before the searches -/
structure Unclaimed (config : NginxConfig) (uri : Bytes) : Prop where
  echo : uri ∉ config.echoLocations
  static : longestPrefixMatch config.staticLocations uri = []
  status : uri ∉ config.statusLocations
  redirect : uri ∉ config.redirectLocations
  health : uri ∉ config.healthLocations
  uploadForm : uri ∉ config.uploadFormLocations

/-- the search over the locations of the type is reached -/
def Reached (config : NginxConfig) (uri : Bytes) : HandlerType → Prop
  | .proxy => Unclaimed config uri
  | .blog => Unclaimed config uri ∧ ∀ location ∈ config.proxyLocations.keys, ¬ location <+: uri
  | _ => False

theorem chosen_of_unclaimed {config : NginxConfig} {uri : Bytes} (h : Unclaimed config uri) :
    chosen config uri = (Dispatcher.prefixLocation config.proxyLocations.keys uri).or
      (Dispatcher.prefixLocation config.blogIps.keys uri) := by
  unfold chosen
  simp only [h.static, ne_eq, not_true_eq_false, if_false]
  rw [if_neg h.echo, if_neg h.status, if_neg h.redirect, if_neg h.health, if_neg h.uploadForm]

theorem prefixLocation_eq_none {locations : List Bytes} {uri : Bytes} (h : ∀ location ∈ locations, ¬ location <+: uri) :
    Dispatcher.prefixLocation locations uri = none :=
  List.find?_eq_none.2 fun location hl hbegins => h location hl ((begins_iff location uri).1 hbegins)

theorem Reordered.unclaimed {config config' : NginxConfig} (h : Reordered config config') {uri : Bytes}
    (hu : Unclaimed config uri) : Unclaimed config' uri := by
  rw [h.rest]
  exact ⟨hu.echo, hu.static, hu.status, hu.redirect, hu.health, hu.uploadForm⟩

/-- a location that the search finds is the one chosen -/
theorem chosen_of_reached {config config' : NginxConfig} (h : Reordered config config') {k : HandlerType} {uri : Bytes}
    (hreached : Reached config uri k) {location : Bytes}
    (hfind : Dispatcher.prefixLocation (k.locations config') uri = some location) :
    chosen config' uri = some location := by
  cases k with
  | proxy =>
    rw [chosen_of_unclaimed (h.unclaimed hreached), show Dispatcher.prefixLocation config'.proxyLocations.keys uri = _
      from hfind, Option.some_or]
  | blog =>
    have hnone : Dispatcher.prefixLocation config'.proxyLocations.keys uri = none := by
      apply prefixLocation_eq_none
      intro other hother
      exact hreached.2 other ((h.proxies.map _).mem_iff.1 hother)
    rw [chosen_of_unclaimed (h.unclaimed hreached.1), hnone, Option.none_or]
    exact hfind
  | _ => exact hreached.elim

/-- every order of iteration that begins with a given location -/
theorem exists_reordered {config : NginxConfig} {k : HandlerType} {uri location : Bytes}
    (hreached : Reached config uri k) (hmem : location ∈ k.locations config) :
    ∃ config', Reordered config config' ∧ (k.locations config').head? = some location := by
  cases k with
  | proxy =>
    obtain ⟨table, hperm, hhead⟩ := exists_order hmem
    exact ⟨{ config with proxyLocations := table }, ⟨rfl, hperm, List.Perm.refl _⟩, hhead⟩
  | blog =>
    obtain ⟨table, hperm, hhead⟩ := exists_order hmem
    exact ⟨{ config with blogIps := table }, ⟨rfl, List.Perm.refl _, hperm⟩, hhead⟩
  | _ => exact hreached.elim

/-- what is returned is what stands under the location, whatever the map holds -/
def AnswersFrom (config : NginxConfig) (uri location : Bytes) : Prop :=
  ∀ d : Dispatcher, d.config = config → d.getHandler uri = d.entry location

theorem answersFrom_of_chosen {config : NginxConfig} {uri location : Bytes}
    (h : chosen config (unescapeSpaces uri) = some location) : AnswersFrom config uri location := by
  intro d hd
  rw [getHandler_eq, hd, h]

/-- a URI is answered from one location at most -/
theorem AnswersFrom.unique {config : NginxConfig} {uri location other : Bytes} (h : AnswersFrom config uri location)
    (h' : AnswersFrom config uri other) : location = other := by
  by_contra hne
  let d : Dispatcher := ⟨config, AList.insert location (some .health) ∅, false⟩
  have hentry : (d.entry location).1 = (d.entry other).1 := by rw [← h d rfl, ← h' d rfl]
  have hlocation : d.dispatcher.lookup location = some (some .health) := AList.lookup_insert _
  have hother : d.dispatcher.lookup other = none := AList.lookup_insert_ne (Ne.symm hne)
  unfold Dispatcher.entry at hentry
  rw [hlocation, hother] at hentry
  cases hentry

/-- **When the longest location is found.** For a URI that reaches the search over the proxies (or the blogs): the
longest of their locations that the decoded URI begins with is the one that is answered from, for every order of
iteration, exactly when the URI begins with no two of them. -/
theorem longest_routing_iff {config : NginxConfig} {k : HandlerType} {uri : Bytes}
    (hreached : Reached config (unescapeSpaces uri) k) :
    (∀ location, Longest (k.locations config) (unescapeSpaces uri) location →
        ∀ config', Reordered config config' → AnswersFrom config' uri location) ↔
      ∀ location ∈ k.locations config, ∀ other ∈ k.locations config,
        location <+: unescapeSpaces uri → other <+: unescapeSpaces uri → location = other := by
  constructor
  · intro h location hlocation other hother hpre hpre'
    obtain ⟨longest, hlongest⟩ := exists_longest hlocation hpre
    -- a location comes first in some order, and is then answered from
    have hfirst : ∀ first ∈ k.locations config, first <+: unescapeSpaces uri → first = longest := by
      intro first hmem hbegins
      obtain ⟨config', hreordered, hhead⟩ := exists_reordered hreached hmem
      have hfind : Dispatcher.prefixLocation (k.locations config') (unescapeSpaces uri) = some first := by
        obtain ⟨rest, hrest⟩ := List.head?_eq_some_iff.1 hhead
        rw [hrest, Dispatcher.prefixLocation, List.find?_cons_of_pos]
        exact (begins_iff first _).2 hbegins
      have hanswers := answersFrom_of_chosen (chosen_of_reached hreordered hreached hfind)
      exact hanswers.unique (h longest hlongest config' hreordered)
    rw [hfirst location hlocation hpre, hfirst other hother hpre']
  · intro hunique location hlongest config' hreordered
    apply answersFrom_of_chosen
    refine chosen_of_reached hreordered hreached ?_
    apply prefixLocation_of_unique (hreordered.locations k) hlongest.mem hlongest.isPrefix
    intro other hother hpre
    exact hunique other hother location hlongest.mem hpre hlongest.isPrefix

/-! ## "/blog" and "/blog2" -/

/-- the locations of a configuration with two blogs, in the order that its text gives them -/
abbrev twoBlogs : List Bytes := [ascii "/blog", ascii "/blog2"]

abbrev twoBlogsText : Bytes :=
  ascii "location \"/blog2\" BlogHandler \x7b host \"h\"; port \"1\"; username \"u\"; password \"p\"; \x7d " ++
  ascii "location \"/blog\" BlogHandler \x7b host \"h\"; port \"1\"; username \"u\"; password \"p\"; \x7d"

/-- the two blogs are the only locations -/
def OnlyTwoBlogs (config : NginxConfig) : Prop :=
  config.blogIps.keys = twoBlogs ∧ config.staticLocations.keys = [] ∧ config.proxyLocations.keys = [] ∧
    config.redirectLocations.keys = [] ∧ config.echoLocations = [] ∧ config.statusLocations = [] ∧
    config.healthLocations = [] ∧ config.uploadFormLocations = []

instance : DecidablePred OnlyTwoBlogs := fun _ => inferInstanceAs (Decidable (_ ∧ _ ∧ _ ∧ _ ∧ _ ∧ _ ∧ _ ∧ _))

theorem twoBlogs_parsed : ∃ config, parse .fresh twoBlogsText = .ok (true, config) ∧ OnlyTwoBlogs config :=
  exists_of_run (by decide +kernel)

/-- every URI reaches the search over the blogs -/
theorem OnlyTwoBlogs.reached {config : NginxConfig} (h : OnlyTwoBlogs config) (uri : Bytes) :
    Reached config uri .blog := by
  obtain ⟨-, hstatic, hproxy, hredirect, hecho, hstatus, hhealth, hform⟩ := h
  have hnot : ∀ {locations : List Bytes}, locations = [] → uri ∉ locations := fun he => he ▸ List.not_mem_nil
  refine ⟨⟨hnot hecho, ?_, hnot hstatus, hnot hredirect, hnot hhealth, hnot hform⟩, fun location hl => ?_⟩
  · rcases longestPrefixMatch_spec config.staticLocations uri with ⟨hmem, -⟩ | ⟨hnil, -⟩
    · rw [AList.mem_keys, hstatic] at hmem
      exact absurd hmem List.not_mem_nil
    · exact hnil
  · rw [hproxy] at hl
    exact absurd hl List.not_mem_nil

/-- a post of the first blog: no other location is found for it -/
theorem longest_routing_iff_post :
    ∃ config, parse .fresh twoBlogsText = .ok (true, config) ∧
      ∀ config', Reordered config config' → AnswersFrom config' (ascii "/blog/1") (ascii "/blog") := by
  obtain ⟨config, hparse, honly⟩ := twoBlogs_parsed
  have hkeys : HandlerType.blog.locations config = twoBlogs := honly.1
  refine ⟨config, hparse, (longest_routing_iff (honly.reached _)).2 ?_ (ascii "/blog") ⟨?_, ?_, ?_⟩⟩
  · rw [hkeys]
    decide
  · rw [hkeys]
    decide
  · decide
  · rw [hkeys]
    decide

/-- the page of the second blog is answered from the first -/
theorem longest_routing_blog2 :
    ∃ config, parse .fresh twoBlogsText = .ok (true, config) ∧ Reached config (unescapeSpaces (ascii "/blog2")) .blog ∧
      Longest (HandlerType.blog.locations config) (unescapeSpaces (ascii "/blog2")) (ascii "/blog2") ∧
      AnswersFrom config (ascii "/blog2") (ascii "/blog") ∧ ¬ AnswersFrom config (ascii "/blog2") (ascii "/blog2") := by
  obtain ⟨config, hparse, honly⟩ := twoBlogs_parsed
  have hkeys : HandlerType.blog.locations config = twoBlogs := honly.1
  have hreached := honly.reached (unescapeSpaces (ascii "/blog2"))
  have hfind : Dispatcher.prefixLocation (HandlerType.blog.locations config) (unescapeSpaces (ascii "/blog2")) =
      some (ascii "/blog") := by
    rw [hkeys]
    decide
  have hfirst : AnswersFrom config (ascii "/blog2") (ascii "/blog") :=
    answersFrom_of_chosen (chosen_of_reached (.refl config) hreached hfind)
  refine ⟨config, hparse, hreached, ⟨?_, ?_, ?_⟩, hfirst, fun h => absurd (hfirst.unique h) (by decide)⟩
  · rw [hkeys]
    decide
  · decide
  · rw [hkeys]
    decide

end BlogServer.Dispatch
