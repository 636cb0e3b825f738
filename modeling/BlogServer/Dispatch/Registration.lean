/-
What the constructor of `request_dispatcher` leaves in the map.

The types are gone through in the order they were recorded, and each puts a new handler under each of its locations. So
what stands under a key was made by the last recorded type that has the key among its locations
(`createHandlerMapping_lookup`). The constructor ends without an exception exactly when every handler can be made
(`init_ne_none_iff`). No request takes a handler away again, nor puts another in its place (`registered_of_reachable`).
The maps of a configuration are hash maps, and what is said of one that was parsed is said of every order of their
entries (`ParsedAs`).

- `staticOk_of_reachable`: a static handler in the map of a dispatcher, whatever was asked of it before, stands under
  its own location and has the root that the configuration gives it.
- `getHandler_static`: so does a static handler that is returned.
-/
import BlogServer.Config.Tables
import BlogServer.Dispatch.Dispatcher

namespace BlogServer.Dispatch

open BlogServer.Byte BlogServer.Config

/-! ## One type -/

theorem register_cons {init : Bytes → Option Handler} {dispatcher dispatcher' : HandlerMap} {location : Bytes}
    {locations : List Bytes} :
    register init dispatcher (location :: locations) = some dispatcher' ↔
      ∃ handler, init location = some handler ∧
        register init (dispatcher.insert location (some handler)) locations = some dispatcher' := by
  rw [register]
  cases hmade : init location with
  | none => simp
  | some handler => simp

/-- the handlers of a type can be registered exactly when each can be made -/
theorem register_ne_none_iff {init : Bytes → Option Handler} (dispatcher : HandlerMap) {locations : List Bytes} :
    register init dispatcher locations ≠ none ↔ ∀ location ∈ locations, init location ≠ none := by
  induction locations generalizing dispatcher with
  | nil => simp [register]
  | cons location locations ih =>
    rw [register]
    cases hmade : init location with
    | none => simp [hmade]
    | some handler => simp only [List.mem_cons, forall_eq_or_imp, hmade, ih]; simp

/-- its locations have new handlers, the other keys what they had -/
theorem register_lookup {init : Bytes → Option Handler} {dispatcher dispatcher' : HandlerMap} {locations : List Bytes}
    (h : register init dispatcher locations = some dispatcher') (key : Bytes) :
    dispatcher'.lookup key = if key ∈ locations then some (init key) else dispatcher.lookup key := by
  induction locations generalizing dispatcher with
  | nil =>
    rw [if_neg List.not_mem_nil, ← Option.some.inj h]
  | cons location locations ih =>
    obtain ⟨handler, hmade, hrest⟩ := register_cons.1 h
    rw [ih hrest]
    by_cases hkey : key = location
    · rw [hkey, AList.lookup_insert, hmade, if_pos List.mem_cons_self]
      split_ifs <;> rfl
    · rw [AList.lookup_insert_ne hkey]
      simp only [List.mem_cons, hkey, false_or]

/-! ## All types -/

/-- the last of the types that has the key among its locations -/
def owner (config : NginxConfig) (key : Bytes) (handlerTypes : List Bytes) : Option Bytes :=
  (handlerTypes.filter fun handlerType => key ∈ (handlersOf config handlerType).2).getLast?

theorem owner_cons (config : NginxConfig) (key handlerType : Bytes) (handlerTypes : List Bytes) :
    owner config key (handlerType :: handlerTypes) =
      (owner config key handlerTypes).or
        (if key ∈ (handlersOf config handlerType).2 then some handlerType else none) := by
  unfold owner
  rw [List.filter_cons]
  by_cases hkey : key ∈ (handlersOf config handlerType).2
  · rw [if_pos (by simpa using hkey), if_pos hkey, List.getLast?_cons]
    cases (handlerTypes.filter fun t => decide (key ∈ (handlersOf config t).2)).getLast? <;> rfl
  · rw [if_neg (by simpa using hkey), if_neg hkey, Option.or_none]

theorem owner_some {config : NginxConfig} {key handlerType : Bytes} {handlerTypes : List Bytes}
    (h : owner config key handlerTypes = some handlerType) :
    handlerType ∈ handlerTypes ∧ key ∈ (handlersOf config handlerType).2 := by
  have hmem := List.mem_filter.1 (List.mem_of_getLast? h)
  exact ⟨hmem.1, of_decide_eq_true hmem.2⟩

theorem owner_ne_none {config : NginxConfig} {key handlerType : Bytes} {handlerTypes : List Bytes}
    (htype : handlerType ∈ handlerTypes) (hkey : key ∈ (handlersOf config handlerType).2) :
    owner config key handlerTypes ≠ none := by
  intro h
  have hnil := List.getLast?_eq_none_iff.1 h
  have hmem : handlerType ∈ handlerTypes.filter fun t => key ∈ (handlersOf config t).2 :=
    List.mem_filter.2 ⟨htype, decide_eq_true hkey⟩
  rw [hnil] at hmem
  exact absurd hmem List.not_mem_nil

/-- one turn of the loop -/
theorem createHandlerMapping_cons {d d' : Dispatcher} {handlerType : Bytes} {handlerTypes : List Bytes} :
    createHandlerMapping d (handlerType :: handlerTypes) = some d' ↔
      ∃ dispatcher, register (handlersOf d.config handlerType).1 d.dispatcher (handlersOf d.config handlerType).2 =
          some dispatcher ∧
        createHandlerMapping ⟨d.config, dispatcher, d.statusHandlerEnabled ||
          (handlerType == ascii "StatusHandler" && (handlersOf d.config handlerType).2 != [])⟩ handlerTypes =
            some d' := by
  rw [createHandlerMapping]
  cases hregister : register (handlersOf d.config handlerType).1 d.dispatcher (handlersOf d.config handlerType).2 with
  | none => simp [hregister]
  | some dispatcher => simp [hregister]

theorem createHandlerMapping_config {handlerTypes : List Bytes} {d d' : Dispatcher}
    (h : createHandlerMapping d handlerTypes = some d') : d'.config = d.config := by
  induction handlerTypes generalizing d with
  | nil => rw [← Option.some.inj h]
  | cons handlerType handlerTypes ih =>
    obtain ⟨dispatcher, -, hrest⟩ := createHandlerMapping_cons.1 h
    have hconfig := ih hrest
    exact hconfig

/-- **What stands under a key** was made by the last type that has it. -/
theorem createHandlerMapping_lookup {handlerTypes : List Bytes} {d d' : Dispatcher}
    (h : createHandlerMapping d handlerTypes = some d') (key : Bytes) :
    d'.dispatcher.lookup key =
      ((owner d.config key handlerTypes).map fun handlerType => (handlersOf d.config handlerType).1 key).or
        (d.dispatcher.lookup key) := by
  induction handlerTypes generalizing d with
  | nil =>
    rw [← Option.some.inj h]
    rfl
  | cons handlerType handlerTypes ih =>
    obtain ⟨dispatcher, hregister, hrest⟩ := createHandlerMapping_cons.1 h
    rw [ih hrest, register_lookup hregister, owner_cons]
    simp only
    cases owner d.config key handlerTypes with
    | some last => rfl
    | none => split_ifs <;> rfl

theorem createHandlerMapping_ne_none_iff {handlerTypes : List Bytes} {d : Dispatcher} :
    createHandlerMapping d handlerTypes ≠ none ↔
      ∀ handlerType ∈ handlerTypes, ∀ location ∈ (handlersOf d.config handlerType).2,
        (handlersOf d.config handlerType).1 location ≠ none := by
  induction handlerTypes generalizing d with
  | nil => simp [createHandlerMapping]
  | cons handlerType handlerTypes ih =>
    rw [List.forall_mem_cons, ← register_ne_none_iff d.dispatcher, createHandlerMapping]
    cases hregister : register (handlersOf d.config handlerType).1 d.dispatcher (handlersOf d.config handlerType).2 with
    | none => simp [hregister]
    | some dispatcher => simp [hregister, ih]

/-- the constructor ends without an exception exactly when every handler can be made -/
theorem init_ne_none_iff (config : NginxConfig) :
    Dispatcher.init config ≠ none ↔
      ∀ handlerType ∈ config.handlerTypes, ∀ location ∈ (handlersOf config handlerType).2,
        (handlersOf config handlerType).1 location ≠ none :=
  createHandlerMapping_ne_none_iff

/-- `status_handler_enabled`: some status location was registered -/
theorem createHandlerMapping_statusHandlerEnabled {handlerTypes : List Bytes} {d d' : Dispatcher}
    (h : createHandlerMapping d handlerTypes = some d') :
    d'.statusHandlerEnabled = (d.statusHandlerEnabled ||
      decide (ascii "StatusHandler" ∈ handlerTypes ∧ d.config.statusLocations ≠ [])) := by
  induction handlerTypes generalizing d with
  | nil =>
    rw [← Option.some.inj h]
    simp
  | cons handlerType handlerTypes ih =>
    obtain ⟨dispatcher, -, hrest⟩ := createHandlerMapping_cons.1 h
    rw [ih hrest]
    by_cases htype : handlerType = ascii "StatusHandler"
    · rw [htype]
      have hlocations : (handlersOf d.config (ascii "StatusHandler")).2 = d.config.statusLocations := rfl
      rw [hlocations]
      cases d.statusHandlerEnabled <;> cases d.config.statusLocations <;> simp
    · rw [beq_eq_false_iff_ne.2 htype]
      simp [Ne.symm htype]

/-! ## What no request changes -/

theorem handlersOf_name (config : NginxConfig) (k : HandlerType) :
    (handlersOf config k.name).2 = k.locations config := by
  cases k <;> rfl

/-- the other names have no locations -/
theorem name_of_mem {config : NginxConfig} {handlerType location : Bytes}
    (h : location ∈ (handlersOf config handlerType).2) : ∃ k : HandlerType, handlerType = k.name := by
  unfold handlersOf at h
  split_ifs at h with h1 h2 h3 h4 h5 h6 h7 h8
  · exact ⟨.echo, h1⟩
  · exact ⟨.static, h2⟩
  · exact ⟨.status, h3⟩
  · exact ⟨.proxy, h4⟩
  · exact ⟨.redirect, h5⟩
  · exact ⟨.health, h6⟩
  · exact ⟨.uploadForm, h7⟩
  · exact ⟨.blog, h8⟩
  · exact absurd h List.not_mem_nil

/-- a handler that the `Init` of the last type with the location made with it, whatever it has recorded since -/
inductive Made (config : NginxConfig) (location : Bytes) : Handler → Prop where
  | init (k : HandlerType) {handler : Handler} (howner : owner config location config.handlerTypes = some k.name)
      (hinit : (handlersOf config k.name).1 location = some handler) : Made config location handler
  | record {handler : StatusHandler} (h : Made config location (.status handler)) (requestUri : Bytes)
      (responseStatus : ℤ) : Made config location (.status (handler.record requestUri responseStatus))

/-- `Init` makes no 404 handler -/
theorem Made.ne_error404 {config : NginxConfig} {location : Bytes} {handler : Handler}
    (h : Made config location handler) : handler ≠ .error404 := by
  cases h with
  | init k howner hinit =>
    rintro rfl
    cases k <;> simp [handlersOf, HandlerType.name, ascii] at hinit
  | record => exact Handler.noConfusion

/-- a static handler has its location, and the root of that location -/
theorem Made.static {config : NginxConfig} {location : Bytes} {handler : StaticHandler}
    (h : Made config location (.static handler)) :
    handler.clientLocationPath = location ∧ config.staticLocations.lookup location = some handler.serverRootPath := by
  cases h with
  | init k howner hinit =>
    cases k with
    | static =>
      obtain ⟨made, hmade, heq⟩ := Option.map_eq_some_iff.1 hinit
      obtain ⟨root, hroot, rfl⟩ := Option.map_eq_some_iff.1 hmade
      cases heq
      exact ⟨rfl, hroot⟩
    | echo => cases Option.some.inj hinit
    | status => cases Option.some.inj hinit
    | health => cases Option.some.inj hinit
    | uploadForm => cases Option.some.inj hinit
    | _ =>
      obtain ⟨made, -, heq⟩ := Option.map_eq_some_iff.1 hinit
      cases heq

/-! ### The handlers in the map -/

/-- the handlers of the map are those of the configuration -/
structure Standing (config : NginxConfig) (d : Dispatcher) : Prop where
  of_config : d.config = config
  made : ∀ {key handler}, d.dispatcher.lookup key = some (some handler) → Made config key handler

theorem standing_init {config : NginxConfig} {d : Dispatcher} (h : Dispatcher.init config = some d) :
    Standing config d := by
  refine ⟨createHandlerMapping_config h, fun {key handler} hkey => ?_⟩
  rw [createHandlerMapping_lookup h, AList.lookup_empty, Option.or_none] at hkey
  obtain ⟨handlerType, howner, hmade⟩ := Option.map_eq_some_iff.1 hkey
  obtain ⟨k, rfl⟩ := name_of_mem (owner_some howner).2
  exact .init k howner hmade

theorem Standing.insert {config : NginxConfig} {d : Dispatcher} (h : Standing config d) {key : Bytes}
    {value : Option Handler} (hvalue : ∀ handler, value = some handler → Made config key handler) :
    Standing config { d with dispatcher := d.dispatcher.insert key value } := by
  refine ⟨h.of_config, fun {k other} hk => ?_⟩
  rcases eq_or_ne k key with rfl | hkey
  · rw [AList.lookup_insert] at hk
    exact hvalue other (Option.some.inj hk)
  · rw [AList.lookup_insert_ne hkey] at hk
    exact h.made hk

/-- `operator[]` adds null at most -/
theorem Standing.entry {config : NginxConfig} {d : Dispatcher} (h : Standing config d) (key : Bytes) :
    Standing config (d.entry key).2 := by
  unfold Dispatcher.entry
  cases d.dispatcher.lookup key with
  | some handler => exact h
  | none => exact h.insert nofun

theorem getStatusHandler_lookup {d : Dispatcher} {handler : StatusHandler} (h : d.getStatusHandler.1 = some handler) :
    d.dispatcher.lookup (ascii "/status") = some (some (.status handler)) ∧ d.getStatusHandler.2 = d := by
  unfold Dispatcher.getStatusHandler Dispatcher.entry at h ⊢
  cases hlookup : d.dispatcher.lookup (ascii "/status") with
  | none =>
    rw [hlookup] at h
    cases h
  | some value =>
    rw [hlookup] at h
    cases value with
    | none => cases h
    | some found =>
      cases found with
      | status other =>
        obtain rfl := Option.some.inj h
        exact ⟨rfl, rfl⟩
      | _ => cases h

/-- **Whatever was asked before**, the handlers are those of the configuration. -/
theorem standing_of_reachable {config : NginxConfig} {d : Dispatcher} (h : Dispatcher.Reachable config d) :
    Standing config d := by
  induction h with
  | init h => exact standing_init h
  | @getHandler d _ uri ih =>
    rcases d.getHandler_entry uri with ⟨key, heq⟩ | heq
    · rw [heq]
      exact ih.entry key
    · rw [heq]
      exact ih
  | @record d handler _ hstatus requestUri responseStatus ih =>
    obtain ⟨hlookup, hsame⟩ := getStatusHandler_lookup hstatus
    rw [hsame]
    apply ih.insert
    intro recorded heq
    rw [← Option.some.inj heq]
    exact (ih.made hlookup).record requestUri responseStatus

namespace Dispatcher

/-- every static handler stands under its location, with the root of the configuration -/
def StaticOk (config : NginxConfig) (dispatcher : HandlerMap) : Prop :=
  ∀ key handler, dispatcher.lookup key = some (some (.static handler)) →
    handler.clientLocationPath = key ∧ config.staticLocations.lookup key = some handler.serverRootPath

/-- **Whatever was asked before**, every static handler stands under its location, with the root of the configuration.
-/
theorem staticOk_of_reachable {config : NginxConfig} {d : Dispatcher} (h : Reachable config d) :
    d.config = config ∧ StaticOk config d.dispatcher := by
  have hstanding := standing_of_reachable h
  exact ⟨hstanding.of_config, fun key handler hkey => (hstanding.made hkey).static⟩

/-- a static handler that is returned has its own location, and the root of that location -/
theorem getHandler_static {config : NginxConfig} {d : Dispatcher} (hd : Reachable config d) {uri : Bytes}
    {handler : StaticHandler} (h : (d.getHandler uri).1 = some (.static handler)) :
    config.staticLocations.lookup handler.clientLocationPath = some handler.serverRootPath := by
  have hstatic := (staticOk_of_reachable hd).2
  rcases d.getHandler_entry uri with ⟨key, heq⟩ | heq
  · rw [heq, entry] at h
    cases hkey : d.dispatcher.lookup key with
    | none => rw [hkey] at h; cases h
    | some value =>
      rw [hkey] at h
      obtain rfl : value = some (.static handler) := h
      obtain ⟨hlocation, hroot⟩ := hstatic key handler hkey
      rw [hlocation, hroot]
  · rw [heq] at h
    cases h

end Dispatcher

/-! ### Iteration orders -/

/-- the same configuration, its maps of proxies and blogs in any order of iteration -/
structure Reordered (config config' : NginxConfig) : Prop where
  rest : config' = { config with proxyLocations := config'.proxyLocations, blogIps := config'.blogIps }
  proxies : config'.proxyLocations.entries.Perm config.proxyLocations.entries
  blogs : config'.blogIps.entries.Perm config.blogIps.entries

theorem Reordered.refl (config : NginxConfig) : Reordered config config := ⟨rfl, List.Perm.refl _, List.Perm.refl _⟩

/-- every type has its locations, in some order -/
theorem Reordered.locations {config config' : NginxConfig} (h : Reordered config config') (k : HandlerType) :
    (k.locations config').Perm (k.locations config) := by
  cases k with
  | proxy => exact h.proxies.map _
  | blog => exact h.blogs.map _
  | _ =>
    rw [h.rest]
    exact List.Perm.refl _

/-- what `Parse` makes of the text, its maps in any order of iteration -/
def ParsedAs (text : Bytes) (accepted : Bool) (config : NginxConfig) : Prop :=
  ∃ parsed, parse .fresh text = .ok (accepted, parsed) ∧ Reordered parsed config

theorem parsedAs_of_parse {text : Bytes} {accepted : Bool} {config : NginxConfig}
    (h : parse .fresh text = .ok (accepted, config)) : ParsedAs text accepted config := ⟨config, h, .refl config⟩

/-- every type with a location is recorded, in whatever order the locations are -/
theorem ParsedAs.recorded {text : Bytes} {accepted : Bool} {config : NginxConfig} (h : ParsedAs text accepted config)
    (k : HandlerType) (hlocations : k.locations config ≠ []) : k.name ∈ config.handlerTypes := by
  obtain ⟨parsed, hparse, hreordered⟩ := h
  have htypes : config.handlerTypes = parsed.handlerTypes := by rw [hreordered.rest]
  rw [htypes]
  refine (tables_recorded hparse).2 k fun hnil => hlocations ?_
  have hperm := hreordered.locations k
  rw [hnil] at hperm
  exact hperm.eq_nil

/-! ### A handler for every location -/

/-- the handlers of the map are those of the configuration, and every location has one -/
structure Registered (config : NginxConfig) (d : Dispatcher) : Prop extends Standing config d where
  present : ∀ {key} (k : HandlerType), key ∈ k.locations config →
    ∃ handler, d.dispatcher.lookup key = some (some handler)

theorem registered_init {config : NginxConfig} {d : Dispatcher}
    (hrecorded : ∀ k : HandlerType, k.locations config ≠ [] → k.name ∈ config.handlerTypes)
    (h : Dispatcher.init config = some d) : Registered config d := by
  refine ⟨standing_init h, fun {key} k hk => ?_⟩
  have hinit := (init_ne_none_iff config).1 (by rw [h]; exact Option.some_ne_none d)
  have hmem : key ∈ (handlersOf config k.name).2 := by rwa [handlersOf_name]
  obtain ⟨handlerType, howner⟩ :=
    Option.ne_none_iff_exists'.1 (owner_ne_none (hrecorded k (List.ne_nil_of_mem hk)) hmem)
  obtain ⟨htype, hlocation⟩ := owner_some howner
  obtain ⟨handler, hmade⟩ := Option.ne_none_iff_exists'.1 (hinit handlerType htype key hlocation)
  refine ⟨handler, ?_⟩
  rw [createHandlerMapping_lookup h, howner, Option.map_some, hmade]
  rfl

theorem Registered.insert {config : NginxConfig} {d : Dispatcher} (h : Registered config d) {key : Bytes}
    {handler : Handler} (hmade : Made config key handler) :
    Registered config { d with dispatcher := d.dispatcher.insert key (some handler) } := by
  refine ⟨h.toStanding.insert fun other heq => by rwa [← Option.some.inj heq], fun {k} t hk => ?_⟩
  rcases eq_or_ne k key with rfl | hkey
  · exact ⟨handler, AList.lookup_insert _⟩
  · rw [AList.lookup_insert_ne hkey]
    exact h.present t hk

/-- `operator[]` adds null only where there is no location -/
theorem Registered.entry {config : NginxConfig} {d : Dispatcher} (h : Registered config d) (key : Bytes) :
    Registered config (d.entry key).2 := by
  refine ⟨h.toStanding.entry key, fun {k} t hk => ?_⟩
  obtain ⟨handler, hhandler⟩ := h.present t hk
  refine ⟨handler, ?_⟩
  unfold Dispatcher.entry
  cases hlookup : d.dispatcher.lookup key with
  | some other => exact hhandler
  | none =>
    have hkey : k ≠ key := by
      rintro rfl
      rw [hlookup] at hhandler
      cases hhandler
    rwa [AList.lookup_insert_ne hkey]

/-- a location's entry is its handler, and leaves the map as it was -/
theorem Registered.entry_location {config : NginxConfig} {d : Dispatcher} (h : Registered config d) (k : HandlerType)
    {key : Bytes} (hkey : key ∈ k.locations config) :
    ∃ handler, d.entry key = (some handler, d) ∧ Made config key handler := by
  obtain ⟨handler, hlookup⟩ := h.present k hkey
  refine ⟨handler, ?_, h.made hlookup⟩
  unfold Dispatcher.entry
  rw [hlookup]

/-- **Whatever was asked before**, every location has its handler. -/
theorem registered_of_reachable {config : NginxConfig} {d : Dispatcher}
    (hrecorded : ∀ k : HandlerType, k.locations config ≠ [] → k.name ∈ config.handlerTypes)
    (h : Dispatcher.Reachable config d) : Registered config d := by
  induction h with
  | init h => exact registered_init hrecorded h
  | @getHandler d _ uri ih =>
    rcases d.getHandler_entry uri with ⟨key, heq⟩ | heq
    · rw [heq]
      exact ih.entry key
    · rw [heq]
      exact ih
  | @record d handler _ hstatus requestUri responseStatus ih =>
    obtain ⟨hlookup, hsame⟩ := getStatusHandler_lookup hstatus
    rw [hsame]
    exact ih.insert ((ih.made hlookup).record requestUri responseStatus)

end BlogServer.Dispatch
