/-
Which requests are answered.

`session::handle_read` calls `get_handler(req.uri_)->handle_request(req)` without a `catch`. The pointer is never null;
the prefix that a blog handler cuts from the raw URI was matched on the decoded one, which is no longer. What is left is
`stoi` on a number that no `int` holds, the last byte of an empty prefix, a blog whose database could not be connected
to, and a file without an end (`served_iff`).

- `served_largeId`: a GET of post 2147483648.
-/
import BlogServer.Dispatch.Completeness
import BlogServer.Dispatch.Handlers
import BlogServer.Dispatch.Startup

namespace BlogServer.Dispatch

open BlogServer.Byte BlogServer.Config BlogServer.Http BlogServer.Posts

/-- `get_handler(request.uri_)->handle_request(request)` -/
def Dispatcher.handle {σ : Type} (env : Environment σ) (d : Dispatcher) (request : Request) (s : σ) :
    Except Crash Response × Dispatcher × σ :=
  match d.getHandler request.uri with
  | (none, d) => (.error .nullPointer, d, s)
  | (some handler, d) => ((handler.handleRequest env request s).1, d, (handler.handleRequest env request s).2)

/-! ## The handler of a location -/

theorem name_injective : Function.Injective HandlerType.name := by
  intro k k' h
  cases k <;> cases k' <;> first | rfl | exact absurd h (by decide)

/-- `Init` of a type makes handlers of that type -/
theorem init_type {config : NginxConfig} {location : Bytes} {k : HandlerType} {handler : Handler}
    (hinit : (handlersOf config k.name).1 location = some handler) : handler.type = some k := by
  cases k with
  | echo | status | health | uploadForm =>
    rw [← Option.some.inj hinit]
    rfl
  | static | proxy | redirect | blog =>
    obtain ⟨made, -, rfl⟩ := Option.map_eq_some_iff.1 hinit
    rfl

/-- the handler is of the type that has the location -/
theorem Made.type {config : NginxConfig} {location : Bytes} {handler : Handler} (h : Made config location handler) :
    ∃ k, handler.type = some k ∧ owner config location config.handlerTypes = some k.name := by
  induction h with
  | init k howner hinit => exact ⟨k, init_type hinit, howner⟩
  | record _ _ _ ih => exact ih

/-- a blog handler has its location as prefix -/
theorem Made.locationPrefix {config : NginxConfig} {location : Bytes} {handler : BlogUploadHandler}
    {connection : Connection} (h : Made config location (.blog handler connection)) :
    handler.locationPrefix = location := by
  cases h with
  | init k howner hinit =>
    obtain rfl : .blog = k := Option.some.inj (init_type hinit)
    obtain ⟨made, hmade, heq⟩ := Option.map_eq_some_iff.1 hinit
    cases heq
    unfold BlogUploadHandler.init at hmade
    simp only [Option.bind_eq_bind, Option.bind_eq_some_iff, Option.pure_def, Option.some.injEq] at hmade
    obtain ⟨-, -, -, -, -, -, -, -, rfl⟩ := hmade
    rfl

/-! ## The chosen location and the raw URI -/

/-- a location that is asked for begins the decoded URI -/
theorem AskedBy.isPrefix {uri location : Bytes} {k : HandlerType} (h : AskedBy uri location k) : location <+: uri := by
  cases k with
  | static =>
    rcases h.2 with heq | hpre
    · exact heq ▸ List.prefix_refl _
    · exact (List.prefix_append _ _).trans hpre
  | proxy => exact h
  | blog => exact h
  | _ => exact (show uri = location from h) ▸ List.prefix_refl _

/-- a handler that is returned is the 404 handler, or was made with a location that begins the decoded URI -/
theorem getHandler_made {config : NginxConfig} {d : Dispatcher} (hd : Dispatcher.Reachable config d) {uri : Bytes}
    {handler : Handler} (h : (d.getHandler uri).1 = some handler) :
    handler = .error404 ∨ ∃ location, location <+: unescapeSpaces uri ∧ Made config location handler := by
  have hstanding := standing_of_reachable hd
  rw [getHandler_eq, hstanding.of_config] at h
  cases hchosen : chosen config (unescapeSpaces uri) with
  | none =>
    rw [hchosen] at h
    exact Or.inl (Option.some.inj h).symm
  | some location =>
    rw [hchosen] at h
    simp only [Dispatcher.entry] at h
    cases hlookup : d.dispatcher.lookup location with
    | none =>
      rw [hlookup] at h
      cases h
    | some value =>
      rw [hlookup] at h
      obtain rfl : value = some handler := h
      obtain ⟨k, -, hasked⟩ := chosen_some hchosen
      exact Or.inr ⟨location, hasked.isPrefix, hstanding.made hlookup⟩

theorem chosen_length_le {config : NginxConfig} {uri location : Bytes}
    (h : chosen config (unescapeSpaces uri) = some location) : location.length ≤ uri.length := by
  obtain ⟨k, -, hasked⟩ := chosen_some h
  exact hasked.isPrefix.length_le.trans (unescapeSpaces_length_le uri)

/-! ## Served requests -/

/-- the URI is given to a handler that does not return: a blog handler that has no connection, or does not return from
the request, or a static handler that opens a file without an end -/
def Fatal {σ : Type} (env : Environment σ) (config : NginxConfig) (request : Request) : Prop :=
  ∃ location, chosen config (unescapeSpaces request.uri) = some location ∧
    (owner config location config.handlerTypes = some (ascii "BlogHandler") ∧
        (env.refused location = true ∨ Unanswered ⟨location⟩ request) ∨
      owner config location config.handlerTypes = some (ascii "StaticHandler") ∧
        ∃ root, config.staticLocations.lookup location = some root ∧
          env.endless (StaticHandler.opened ⟨location, root⟩ request) = true)

/-- the handler of the location that is chosen is stuck -/
theorem Made.stuck_iff {config : NginxConfig} {location : Bytes} {handler : Handler}
    (hmade : Made config location handler) {σ : Type} {env : Environment σ} {request : Request}
    (hchosen : chosen config (unescapeSpaces request.uri) = some location) :
    handler.Stuck env request ↔ Fatal env config request := by
  obtain ⟨k, htype, howner⟩ := hmade.type
  -- the location has one type
  have hname : ∀ k' : HandlerType, owner config location config.handlerTypes = some k'.name → k = k' :=
    fun k' howner' => name_injective (Option.some.inj (howner.symm.trans howner'))
  constructor
  · intro hstuck
    refine ⟨location, hchosen, ?_⟩
    cases handler with
    | static h =>
      obtain ⟨hlocation, hroot⟩ := hmade.static
      obtain rfl := Option.some.inj htype
      have hopened : h = ⟨location, h.serverRootPath⟩ := by rw [← hlocation]
      exact Or.inr ⟨howner, _, hroot, hopened ▸ hstuck⟩
    | blog h connection =>
      obtain rfl : h = ⟨location⟩ := by rw [← hmade.locationPrefix]
      obtain rfl := Option.some.inj htype
      exact Or.inl ⟨howner, hstuck⟩
    | _ => exact hstuck.elim
  · intro hfatal
    obtain ⟨found, hfound, hcases⟩ := hfatal
    obtain rfl := Option.some.inj (hchosen.symm.trans hfound)
    rcases hcases with ⟨hblog, hstuck⟩ | ⟨hstatic, root, hroot, hstuck⟩
    · obtain rfl := hname .blog hblog
      cases handler with
      | blog h connection =>
        obtain rfl : h = ⟨location⟩ := by rw [← hmade.locationPrefix]
        exact hstuck
      | _ => cases htype
    · obtain rfl := hname .static hstatic
      cases handler with
      | static h =>
        obtain ⟨hlocation, hroot'⟩ := hmade.static
        obtain rfl : root = h.serverRootPath := Option.some.inj (hroot.symm.trans hroot')
        have hopened : h = ⟨location, h.serverRootPath⟩ := by rw [← hlocation]
        show env.endless (h.opened request) = true
        rw [hopened]
        exact hstuck
      | _ => cases htype

/-- the call on a dispatcher that has a handler for every location -/
theorem Registered.handle_ok_iff {config : NginxConfig} {d : Dispatcher} (h : Registered config d)
    (hproxy : config.proxyLocations.keys = []) {σ : Type} (env : Environment σ) (request : Request) (s : σ) :
    (∃ response, (d.handle env request s).1 = .ok response) ↔ ¬ Fatal env config request := by
  obtain ⟨handler, hanswer, hmade⟩ := h.getHandler request.uri
  have hhandle : (d.handle env request s).1 = (handler.handleRequest env request s).1 := by
    rw [Dispatcher.handle, hanswer]
  rw [hhandle]
  cases hchosen : chosen config (unescapeSpaces request.uri) with
  | none =>
    rw [hchosen] at hmade
    subst hmade
    refine ⟨fun _ hfatal => ?_, fun _ => ⟨_, rfl⟩⟩
    obtain ⟨location, hlocation, -⟩ := hfatal
    rw [hchosen] at hlocation
    cases hlocation
  | some location =>
    rw [hchosen] at hmade
    have hmade : Made config location handler := hmade
    have hnoProxy : handler.type ≠ some .proxy := by
      obtain ⟨k, htype, howner⟩ := hmade.type
      rw [htype]
      intro hk
      obtain rfl := Option.some.inj hk
      have hmem : location ∈ config.proxyLocations.keys := (owner_some howner).2
      rw [hproxy] at hmem
      exact absurd hmem List.not_mem_nil
    rw [← hmade.stuck_iff hchosen]
    refine Handler.handleRequest_ok_iff env s hnoProxy fun h connection heq => ?_
    subst heq
    rw [hmade.locationPrefix]
    exact chosen_length_le hchosen

/-- **Which requests are answered.** Of a configuration without proxies, in whatever order its maps are gone through,
whatever was asked before and whatever the databases hold: the call returns a response unless the URI is given to a blog
handler that could not connect, or that the method or the number in the URI keeps from returning, or to a static handler
that opens a file without an end. -/
theorem served_iff {text : Bytes} {accepted : Bool} {config : NginxConfig}
    (hparsed : ParsedAs text accepted config) (hproxy : config.proxyLocations.keys = [])
    {d : Dispatcher} (hd : Dispatcher.Reachable config d) {σ : Type} (env : Environment σ) (request : Request) (s : σ) :
    (∃ response, (d.handle env request s).1 = .ok response) ↔ ¬ Fatal env config request :=
  (registered_of_reachable hparsed.recorded hd).handle_ok_iff hproxy env request s

/-! ## Post 2147483648 -/

/-- no files, and a database for tests behind every connection -/
def testEnvironment : Environment (List Blog) where
  files _ := none
  endless _ := false
  database _ := mockDatabase
  refused _ := false
  network _ _ _ := none
  html := ⟨id, fun _ page => page⟩
  junk _ := ⟨0, 0, 0, 0, 0⟩
  redirects := 0

/-- the URIs of the two posts are given to the one blog handler -/
def BlogOnly (config : NginxConfig) : Prop :=
  config.proxyLocations.keys = [] ∧ (Dispatcher.init config).isSome = true ∧
    owner config (ascii "/blog") config.handlerTypes = some (ascii "BlogHandler") ∧
    ∀ uri ∈ [ascii "/blog/2147483647", ascii "/blog/2147483648"],
      chosen config (unescapeSpaces uri) = some (ascii "/blog")

instance : DecidablePred BlogOnly := fun _ => inferInstanceAs (Decidable (_ ∧ _ ∧ _ ∧ _))

theorem blogOnly_parsed : ∃ config, parse .fresh completeText = .ok (true, config) ∧ BlogOnly config :=
  exists_of_run (by decide +kernel)

/-- the request that the parser makes of a message, and its verdict -/
def requestOf (message : Bytes) : Scan.Verdict × Request :=
  let (verdict, _, t) := RequestParser.parse (RequestParser.fresh, .fresh ⟨0, 0, 0⟩) message
  (verdict, t.2.buildRequest .GET)

/-- a GET of the last post -/
theorem served_iff_lastId :
    ∃ config d response, parse .fresh completeText = .ok (true, config) ∧ Dispatcher.init config = some d ∧
      (d.handle testEnvironment (requestOf (ascii "GET /blog/2147483647 HTTP/1.0\r\n\r\n")).2 []).1 = .ok response := by
  obtain ⟨config, hparse, hproxy, hsome, howner, hchosen⟩ := blogOnly_parsed
  obtain ⟨d, hd⟩ := Option.isSome_iff_exists.1 hsome
  let request := (requestOf (ascii "GET /blog/2147483647 HTTP/1.0\r\n\r\n")).2
  have huri : request.uri = ascii "/blog/2147483647" := by decide +kernel
  have hfatal : ¬ Fatal testEnvironment config request := by
    rintro ⟨location, hlocation, ⟨-, hrefused | hunanswered⟩ | ⟨-, root, -, hendless⟩⟩
    · cases hrefused
    · rw [huri, hchosen _ (by decide)] at hlocation
      obtain rfl := Option.some.inj hlocation
      exact absurd hunanswered (by decide +kernel)
    · cases hendless
  obtain ⟨response, hresponse⟩ :=
    (served_iff (parsedAs_of_parse hparse) hproxy (.init hd) testEnvironment request []).2 hfatal
  exact ⟨config, d, response, hparse, hd, hresponse⟩

/-- a GET of the one after it -/
theorem served_largeId :
    ∃ config d, parse .fresh completeText = .ok (true, config) ∧ config.proxyLocations.keys = [] ∧
      Dispatcher.init config = some d ∧
      (requestOf (ascii "GET /blog/2147483648 HTTP/1.0\r\n\r\n")).1 = .good ∧
      ∀ response, (d.handle testEnvironment (requestOf (ascii "GET /blog/2147483648 HTTP/1.0\r\n\r\n")).2 []).1 ≠
        .ok response := by
  obtain ⟨config, hparse, hproxy, hsome, howner, hchosen⟩ := blogOnly_parsed
  obtain ⟨d, hd⟩ := Option.isSome_iff_exists.1 hsome
  have hregistered := registered_of_reachable (tables_recorded hparse).2 (.init hd)
  refine ⟨config, d, hparse, hproxy, hd, by decide +kernel, fun response hresponse => ?_⟩
  refine (hregistered.handle_ok_iff hproxy testEnvironment _ []).1 ⟨response, hresponse⟩ ?_
  have huri : (requestOf (ascii "GET /blog/2147483648 HTTP/1.0\r\n\r\n")).2.uri = ascii "/blog/2147483648" := by
    decide +kernel
  refine ⟨ascii "/blog", ?_, Or.inl ⟨howner, Or.inr (by decide +kernel)⟩⟩
  rw [huri]
  exact hchosen _ (by decide)

end BlogServer.Dispatch
