/-
Which requests have a handler, and which.

`get_handler` decides by the tables of the configuration and answers from the map. That is one choice of a location
(`chosen`), made by the tables alone, and the entry under it; since every location has its handler, whatever was asked
before, the answer is never null (`dispatch_complete`).
-/
import BlogServer.Dispatch.Registration

namespace BlogServer.Dispatch

open BlogServer.Byte BlogServer.Config

/-- when a location of the type is asked for by a decoded URI -/
def AskedBy (uri location : Bytes) : HandlerType → Prop
  | .static => location ≠ [] ∧ Under location uri
  | .proxy => location <+: uri
  | .blog => location <+: uri
  | _ => uri = location

/-- a location of the configuration that a decoded URI asks for -/
def Matching (config : NginxConfig) (uri location : Bytes) : Prop :=
  ∃ k : HandlerType, location ∈ k.locations config ∧ AskedBy uri location k

/-! ## The choice of a location -/

/-- the key that `get_handler` reads, if it does not return the 404 handler -/
def chosen (config : NginxConfig) (uri : Bytes) : Option Bytes :=
  let staticPath := longestPrefixMatch config.staticLocations uri
  if uri ∈ config.echoLocations then some uri
  else if staticPath ≠ [] then some staticPath
  else if uri ∈ config.statusLocations then some uri
  else if uri ∈ config.redirectLocations then some uri
  else if uri ∈ config.healthLocations then some uri
  else if uri ∈ config.uploadFormLocations then some uri
  else (Dispatcher.prefixLocation config.proxyLocations.keys uri).or
    (Dispatcher.prefixLocation config.blogIps.keys uri)

theorem getHandler_eq (d : Dispatcher) (uri : Bytes) :
    d.getHandler uri =
      match chosen d.config (unescapeSpaces uri) with
      | some location => d.entry location
      | none => (some .error404, d) := by
  unfold Dispatcher.getHandler chosen
  rw [decodeSpaces_eq]
  simp only
  split_ifs
  · rfl
  · rfl
  · rfl
  · rfl
  · rfl
  · rfl
  · cases Dispatcher.prefixLocation d.config.proxyLocations.keys (unescapeSpaces uri) with
    | some location => rfl
    | none => cases Dispatcher.prefixLocation d.config.blogIps.keys (unescapeSpaces uri) <;> rfl

theorem begins_iff (location uri : Bytes) : (uri.take location.length == location) = true ↔ location <+: uri := by
  rw [beq_iff_eq, List.prefix_iff_eq_take, eq_comm]

theorem prefixLocation_some {locations : List Bytes} {uri location : Bytes}
    (h : Dispatcher.prefixLocation locations uri = some location) : location ∈ locations ∧ location <+: uri := by
  have hbegins := List.find?_some h
  exact ⟨List.mem_of_find?_eq_some h, (begins_iff location uri).1 hbegins⟩

theorem prefixLocation_none {locations : List Bytes} {uri : Bytes}
    (h : Dispatcher.prefixLocation locations uri = none) : ∀ location ∈ locations, ¬ location <+: uri := by
  intro location hl hpre
  exact List.find?_eq_none.1 h location hl ((begins_iff location uri).2 hpre)

/-- what is found among the static locations -/
theorem longestPrefixMatch_asked {config : NginxConfig} {uri : Bytes}
    (h : longestPrefixMatch config.staticLocations uri ≠ []) :
    Matching config uri (longestPrefixMatch config.staticLocations uri) := by
  rcases longestPrefixMatch_spec config.staticLocations uri with ⟨hmem, hunder, -⟩ | ⟨hnil, -⟩
  · exact ⟨.static, hmem, h, hunder⟩
  · exact absurd hnil h

/-- without one, at most the empty location is there -/
theorem longestPrefixMatch_nil {config : NginxConfig} {uri : Bytes}
    (h : longestPrefixMatch config.staticLocations uri = []) {location : Bytes}
    (hl : location ∈ config.staticLocations) (hunder : Under location uri) : location = [] := by
  rcases longestPrefixMatch_spec config.staticLocations uri with ⟨-, -, hlongest⟩ | ⟨-, hnone⟩
  · have hle := hlongest location hl hunder
    rw [h] at hle
    exact List.eq_nil_of_length_eq_zero (Nat.le_zero.1 hle)
  · exact absurd hunder (hnone location hl)

/-- the location that is chosen is asked for -/
theorem chosen_some {config : NginxConfig} {uri location : Bytes} (h : chosen config uri = some location) :
    Matching config uri location := by
  unfold chosen at h
  simp only at h
  split_ifs at h with hecho hstatic hstatus hredirect hhealth hform
  · exact Option.some.inj h ▸ ⟨.echo, hecho, rfl⟩
  · exact Option.some.inj h ▸ longestPrefixMatch_asked hstatic
  · exact Option.some.inj h ▸ ⟨.status, hstatus, rfl⟩
  · exact Option.some.inj h ▸ ⟨.redirect, hredirect, rfl⟩
  · exact Option.some.inj h ▸ ⟨.health, hhealth, rfl⟩
  · exact Option.some.inj h ▸ ⟨.uploadForm, hform, rfl⟩
  · rcases Option.or_eq_some_iff.1 h with hproxy | ⟨-, hblog⟩
    · obtain ⟨hmem, hpre⟩ := prefixLocation_some hproxy
      exact ⟨.proxy, hmem, hpre⟩
    · obtain ⟨hmem, hpre⟩ := prefixLocation_some hblog
      exact ⟨.blog, hmem, hpre⟩

/-- the 404 handler is returned only when no location is asked for -/
theorem chosen_none {config : NginxConfig} {uri : Bytes} (h : chosen config uri = none) (location : Bytes) :
    ¬ Matching config uri location := by
  unfold chosen at h
  simp only at h
  split_ifs at h with hecho hstatic hstatus hredirect hhealth hform
  obtain ⟨hproxy, hblog⟩ := Option.or_eq_none_iff.1 h
  rw [not_not] at hstatic
  rintro ⟨k, hl, hasked⟩
  cases k with
  | echo => exact hecho (hasked ▸ hl)
  | static => exact hasked.1 (longestPrefixMatch_nil hstatic hl hasked.2)
  | status => exact hstatus (hasked ▸ hl)
  | proxy => exact prefixLocation_none hproxy location hl hasked
  | redirect => exact hredirect (hasked ▸ hl)
  | health => exact hhealth (hasked ▸ hl)
  | uploadForm => exact hform (hasked ▸ hl)
  | blog => exact prefixLocation_none hblog location hl hasked

/-! ## The answer -/

/-- the answer is the 404 handler, or the handler of a location that is asked for; and the map stays as it was -/
theorem Registered.getHandler {config : NginxConfig} {d : Dispatcher} (h : Registered config d) (uri : Bytes) :
    ∃ handler, d.getHandler uri = (some handler, d) ∧
      match chosen config (unescapeSpaces uri) with
      | some location => Made config location handler
      | none => handler = .error404 := by
  rw [getHandler_eq, h.of_config]
  cases hchosen : chosen config (unescapeSpaces uri) with
  | none => exact ⟨.error404, rfl, rfl⟩
  | some location =>
    obtain ⟨k, hlocation, -⟩ := chosen_some hchosen
    exact h.entry_location k hlocation

/-- **Dispatch is complete.** Whatever text was parsed, in whatever order the maps are gone through, and whatever was
asked before: a URI always has a handler. It is the 404 handler exactly when the decoded URI asks for no location;
otherwise it was made with a location it asks for. -/
theorem dispatch_complete {text : Bytes} {accepted : Bool} {config : NginxConfig}
    (hparsed : ParsedAs text accepted config) {d : Dispatcher} (hd : Dispatcher.Reachable config d) (uri : Bytes) :
    ∃ handler, (d.getHandler uri).1 = some handler ∧
      (handler = .error404 ↔ ∀ location, ¬ Matching config (unescapeSpaces uri) location) ∧
      (handler ≠ .error404 →
        ∃ location, Matching config (unescapeSpaces uri) location ∧ Made config location handler) := by
  obtain ⟨handler, hanswer, hmade⟩ := (registered_of_reachable hparsed.recorded hd).getHandler uri
  refine ⟨handler, by rw [hanswer], ?_⟩
  cases hchosen : chosen config (unescapeSpaces uri) with
  | none =>
    rw [hchosen] at hmade
    exact ⟨⟨fun _ => chosen_none hchosen, fun _ => hmade⟩, fun hne => absurd hmade hne⟩
  | some location =>
    rw [hchosen] at hmade
    have hmatching := chosen_some hchosen
    refine ⟨⟨fun heq => absurd heq hmade.ne_error404, fun hnone => absurd hmatching (hnone location)⟩, fun _ => ?_⟩
    exact ⟨location, hmatching, hmade⟩

/-- an echo location with a space in it -/
def echoConfig : NginxConfig :=
  { NginxConfig.fresh with
    statements := [.mk [ascii "location", ascii "\"/a b\"", ascii "EchoHandler"] (some [])]
    echoLocations := [ascii "/a b"]
    handlerTypes := [ascii "EchoHandler"] }

/-- its dispatcher -/
def echoDispatcher : Dispatcher :=
  ⟨echoConfig, AList.insert (ascii "/a b") (some (.echo (ascii "/a b"))) ∅, false⟩

theorem echoConfig_parsed :
    parse .fresh (ascii "location \"/a b\" EchoHandler \x7b \x7d") = .ok (true, echoConfig) := by
  with_unfolding_all rfl

/-- after a URI without a location, one with -/
theorem dispatch_complete_echo :
    ∃ handler, ((echoDispatcher.getHandler (ascii "/none")).2.getHandler (ascii "/a%20b")).1 = some handler ∧
      handler ≠ .error404 := by
  have hd : Dispatcher.Reachable echoConfig (echoDispatcher.getHandler (ascii "/none")).2 := .getHandler (.init rfl) _
  obtain ⟨handler, hanswer, hiff, -⟩ := dispatch_complete (parsedAs_of_parse echoConfig_parsed) hd (ascii "/a%20b")
  exact ⟨handler, hanswer, fun h => hiff.1 h (ascii "/a b") ⟨.echo, List.mem_singleton.2 rfl, rfl⟩⟩

end BlogServer.Dispatch
