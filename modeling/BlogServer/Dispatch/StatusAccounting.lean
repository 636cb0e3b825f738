/-
What the status handler knows of the requests.

After each request `session::handle_read` records it with `get_status_handler()`, if some status location was
registered. But `get_status_handler` looks under "/status", wherever the status locations are, and casts what it finds.
So the requests are accounted for under a location exactly when a GET of it is answered from the entry under "/status",
and that entry was last put there for a status location (`accounting_iff`). The counter is an `int`: the requests of a
run are fewer than 2^31.

- `Tracking.complete`: what one request does to the status handler, step by step of a run.
- `accounting_stat`: with a status handler under "/stat", the first request calls through a null pointer.
-/
import BlogServer.Dispatch.Serving

namespace BlogServer.Dispatch

open BlogServer.Byte BlogServer.Config BlogServer.Http BlogServer.Posts

variable {σ : Type}

/-! ## Runs -/

/-- `session::handle_read` from an accepted request to its response, which is then written -/
def Dispatcher.complete (env : Environment σ) (d : Dispatcher) (request : Request) (s : σ) :
    Except Crash Response × Dispatcher × σ :=
  match d.handle env request s with
  | (.error e, d, s) => (.error e, d, s)
  | (.ok response, d, s) =>
    if d.statusHandlerEnabled then
      match d.getStatusHandler with
      | (none, d) => (.error .nullPointer, d, s)
      | (some handler, d) => (.ok response, d.record handler request.uri response.code, s)
    else (.ok response, d, s)

/-- the requests completed so far, each with its URI and the status code of its response -/
abbrev Log := List (Bytes × ℤ)

/-- a state after requests were completed one after another -/
inductive Completed (config : NginxConfig) (env : Environment σ) (s₀ : σ) : Log → Dispatcher → σ → Prop where
  | start {d} (h : Dispatcher.init config = some d) : Completed config env s₀ [] d s₀
  | next {log d s request response d' s'} (h : Completed config env s₀ log d s)
      (hcomplete : d.complete env request s = (.ok response, d', s')) :
      Completed config env s₀ (log ++ [(request.uri, response.code)]) d' s'

/-! ## The report -/

/-- the line of a request -/
def line (entry : Bytes × ℤ) : Bytes := entry.1 ++ ascii " " ++ Decimal.toString entry.2 ++ CRLF

/-- the status page after the requests -/
def report (config : NginxConfig) (log : Log) : Bytes :=
  ascii "Number of requests received: " ++ Decimal.decimal log.length ++ CRLF ++
    (ascii "Received request(s):\r\n" ++ log.flatMap line) ++ (StatusHandler.init (ascii "/status") config).handlerList

/-- the requests are accounted for under a status location -/
structure Accounted (config : NginxConfig) (env : Environment σ) (location : Bytes) (log : Log) (d : Dispatcher)
    (s : σ) : Prop where
  /-- requests are recorded -/
  enabled : d.statusHandlerEnabled = true
  /-- by a status handler -/
  reaches : ∀ request, (d.complete env request s).1 ≠ .error .nullPointer
  /-- a GET of the location reports those that were -/
  reports : ∀ request : Request, request.method = .GET → request.uri = location →
    ∃ response, (d.handle env request s).1 = .ok response ∧ response.body = report config log

/-! ## The status handler of a run -/

/-- the handler under "/status" after the requests -/
def statusAfter (config : NginxConfig) (log : Log) : StatusHandler :=
  log.foldl (fun h entry => h.record entry.1 entry.2) (.init (ascii "/status") config)

theorem statusAfter_concat (config : NginxConfig) (log : Log) (entry : Bytes × ℤ) :
    statusAfter config (log ++ [entry]) = (statusAfter config log).record entry.1 entry.2 := by
  rw [statusAfter, List.foldl_append]
  rfl

/-- the counter wraps as an `int` does -/
theorem statusAfter_fields (config : NginxConfig) (log : Log) :
    (statusAfter config log).requestCounter = Decimal.int32 log.length ∧
      (statusAfter config log).receivedRequestList = ascii "Received request(s):\r\n" ++ log.flatMap line ∧
      (statusAfter config log).handlerList = (StatusHandler.init (ascii "/status") config).handlerList := by
  induction log using List.reverseRecOn with
  | nil => exact ⟨rfl, (List.append_nil _).symm, rfl⟩
  | append_singleton log entry ih =>
    obtain ⟨hcounter, hlist, hhandlers⟩ := ih
    rw [statusAfter_concat]
    refine ⟨?_, ?_, hhandlers⟩
    · rw [StatusHandler.record, hcounter, List.length_append, List.length_singleton]
      unfold Decimal.int32
      push_cast
      omega
    · rw [StatusHandler.record, hlist, List.flatMap_append, List.append_assoc]
      simp [line]

/-- the page is the report, as long as the counter has not wrapped -/
theorem statusAfter_page (config : NginxConfig) {log : Log} (h : log.length < 2147483648) :
    (statusAfter config log).page = report config log := by
  obtain ⟨hcounter, hlist, hhandlers⟩ := statusAfter_fields config log
  rw [StatusHandler.page, report, hcounter, hlist, hhandlers, Decimal.int32_of_range (by omega) (by omega),
    Decimal.toString_natCast]

/-- the report of one request is not that of none -/
theorem report_ne (config : NginxConfig) (entry : Bytes × ℤ) : report config [] ≠ report config [entry] := by
  intro h
  simp only [report, List.append_assoc] at h
  have hdigits := List.append_cancel_left h
  have hfirst : Decimal.decimal 0 = [48] ∧ Decimal.decimal 1 = [49] := by decide +kernel
  rw [List.length_nil, List.length_singleton, hfirst.1, hfirst.2] at hdigits
  exact absurd (List.head_eq_of_cons_eq hdigits) (by decide)

/-! ## One request -/

/-- what stands under "/status" is the status handler of the run -/
structure Tracking (config : NginxConfig) (log : Log) (d : Dispatcher) : Prop where
  registered : Registered config d
  enabled : d.statusHandlerEnabled = true
  entry : d.dispatcher.lookup (ascii "/status") = some (some (.status (statusAfter config log)))

theorem handleRequest_ne_nullPointer (env : Environment σ) (request : Request) (s : σ) (handler : Handler) :
    (handler.handleRequest env request s).1 ≠ .error .nullPointer := by
  cases handler with
  | static h =>
    rw [handleRequest_static]
    split_ifs <;> exact nofun
  | proxy h =>
    simp only [Handler.handleRequest]
    cases Proxy.handleRequest env.network env.html env.junk h env.redirects request <;> simp [Except.mapError]
  | blog h connection =>
    cases hrefused : env.refused h.locationPrefix with
    | false =>
      rw [handleRequest_blog hrefused]
      cases (Posts.handleRequest h (env.database connection) request s).1 <;> simp [Except.mapError]
    | true =>
      rw [handleRequest_refused hrefused]
      rcases (Posts.handleRequest h (env.database connection) request s).1 with (_ | _) | _ <;> simp [unconnected]
  | _ =>
    intro h
    cases h

/-- the call on a dispatcher with a handler for every location -/
theorem Registered.handle {config : NginxConfig} {d : Dispatcher} (h : Registered config d) (env : Environment σ)
    (request : Request) (s : σ) :
    ∃ handler, d.getHandler request.uri = (some handler, d) ∧
      d.handle env request s =
        ((handler.handleRequest env request s).1, d, (handler.handleRequest env request s).2) := by
  obtain ⟨handler, hanswer, -⟩ := h.getHandler request.uri
  refine ⟨handler, hanswer, ?_⟩
  rw [Dispatcher.handle, hanswer]

/-- a response is recorded by the status handler, or through a null pointer -/
theorem complete_of_ok {d d₁ : Dispatcher} {env : Environment σ} {request : Request} {s s₁ : σ} {response : Response}
    (hhandle : d.handle env request s = (.ok response, d₁, s₁)) (henabled : d₁.statusHandlerEnabled = true) :
    (d₁.getStatusHandler.1 = none ∧ (d.complete env request s).1 = .error .nullPointer) ∨
      ∃ handler, d₁.getStatusHandler.1 = some handler ∧
        d.complete env request s = (.ok response, d₁.record handler request.uri response.code, s₁) := by
  unfold Dispatcher.complete
  simp only [hhandle, henabled, if_true]
  cases hstatus : d₁.getStatusHandler.1 with
  | none =>
    left
    refine ⟨rfl, ?_⟩
    split
    · rfl
    · rename_i heq
      rw [heq] at hstatus
      cases hstatus
  | some handler =>
    right
    obtain ⟨-, hsame⟩ := getStatusHandler_lookup hstatus
    have hpair : d₁.getStatusHandler = (some handler, d₁) := Prod.ext hstatus hsame
    exact ⟨handler, rfl, by rw [hpair]⟩

section Step

variable {config : NginxConfig} {log : Log} {d : Dispatcher}

theorem Tracking.getStatusHandler (h : Tracking config log d) :
    d.getStatusHandler = (some (statusAfter config log), d) := by
  unfold Dispatcher.getStatusHandler Dispatcher.entry
  rw [h.entry]

/-- **Step lemma.** A request that completes is recorded, and one that does not fails in its handler. -/
theorem Tracking.complete (h : Tracking config log d) (env : Environment σ) (request : Request) (s : σ) :
    (d.complete env request s).1 ≠ .error .nullPointer ∧
      ∀ response d' s', d.complete env request s = (.ok response, d', s') →
        Tracking config (log ++ [(request.uri, response.code)]) d' := by
  obtain ⟨handler, -, hhandle⟩ := h.registered.handle env request s
  have hnull := handleRequest_ne_nullPointer env request s handler
  unfold Dispatcher.complete
  rw [hhandle]
  cases hresult : (handler.handleRequest env request s).1 with
  | error e =>
    rw [hresult] at hnull
    exact ⟨hnull, fun response d' s' heq => by cases heq⟩
  | ok response =>
    simp only [h.enabled, if_true, h.getStatusHandler]
    refine ⟨nofun, fun response' d' s' heq => ?_⟩
    cases heq
    have hmade := (h.registered.made h.entry).record request.uri response.code
    refine ⟨h.registered.insert hmade, h.enabled, ?_⟩
    rw [statusAfter_concat]
    exact AList.lookup_insert _

/-- a GET that is answered from "/status" -/
theorem Tracking.reports (h : Tracking config log d) {location : Bytes}
    (hrouted : chosen config (unescapeSpaces location) = some (ascii "/status")) (hlength : log.length < 2147483648)
    (env : Environment σ) (s : σ) {request : Request} (huri : request.uri = location) :
    ∃ response, (d.handle env request s).1 = .ok response ∧ response.body = report config log := by
  have hanswer : d.getHandler request.uri = (some (.status (statusAfter config log)), d) := by
    rw [getHandler_eq, h.registered.of_config, huri, hrouted]
    simp only [Dispatcher.entry, h.entry]
  refine ⟨plainResponse StatusCode.ok (statusAfter config log).page, ?_, statusAfter_page config hlength⟩
  rw [Dispatcher.handle, hanswer]
  rfl

end Step

/-- the status handler of a new dispatcher, if the status locations come last under "/status" -/
theorem tracking_init {config : NginxConfig} {d : Dispatcher}
    (hrecorded : ∀ k : HandlerType, k.locations config ≠ [] → k.name ∈ config.handlerTypes)
    (howner : owner config (ascii "/status") config.handlerTypes = some (ascii "StatusHandler"))
    (h : Dispatcher.init config = some d) : Tracking config [] d where
  registered := registered_init hrecorded h
  enabled := by
    obtain ⟨htype, hmem⟩ := owner_some howner
    have hlocations : config.statusLocations ≠ [] := List.ne_nil_of_mem hmem
    rw [createHandlerMapping_statusHandlerEnabled h]
    simpa using ⟨htype, hlocations⟩
  entry := by
    rw [createHandlerMapping_lookup h, howner]
    rfl

/-- **Run lemma.** -/
theorem tracking_of_completed {config : NginxConfig} {env : Environment σ} {s₀ s : σ} {log : Log} {d : Dispatcher}
    (hrecorded : ∀ k : HandlerType, k.locations config ≠ [] → k.name ∈ config.handlerTypes)
    (howner : owner config (ascii "/status") config.handlerTypes = some (ascii "StatusHandler"))
    (h : Completed config env s₀ log d s) : Tracking config log d := by
  induction h with
  | start h => exact tracking_init hrecorded howner h
  | next _ hcomplete ih => exact (ih.complete _ _ _).2 _ _ _ hcomplete

/-! ## The same report twice -/

theorem handle_fst (env : Environment σ) (d : Dispatcher) (request : Request) (s : σ) :
    (d.handle env request s).1 =
      match (d.getHandler request.uri).1 with
      | none => .error .nullPointer
      | some handler => (handler.handleRequest env request s).1 := by
  unfold Dispatcher.handle
  split <;> rename_i heq <;> rw [heq]

/-- what is recorded changes the answers from "/status" only -/
theorem getHandler_record {d : Dispatcher} {uri : Bytes}
    (h : chosen d.config (unescapeSpaces uri) ≠ some (ascii "/status")) (handler : StatusHandler) (requestUri : Bytes)
    (responseStatus : ℤ) : ((d.record handler requestUri responseStatus).getHandler uri).1 = (d.getHandler uri).1 := by
  have hconfig : (d.record handler requestUri responseStatus).config = d.config := rfl
  rw [getHandler_eq, getHandler_eq, hconfig]
  cases hchosen : chosen d.config (unescapeSpaces uri) with
  | none => rfl
  | some location =>
    have hne : location ≠ ascii "/status" := fun heq => h (by rw [hchosen, heq])
    unfold Dispatcher.entry Dispatcher.record
    simp only [AList.lookup_insert_ne hne]
    cases d.dispatcher.lookup location <;> rfl

/-- a handler other than a blog's answers without the databases -/
theorem handleRequest_stateless (env : Environment σ) {handler : Handler} (h : handler.type ≠ some .blog)
    (request : Request) (s s' : σ) :
    (handler.handleRequest env request s).1 = (handler.handleRequest env request s').1 := by
  cases handler with
  | blog blog connection => exact absurd rfl h
  | static static => rw [handleRequest_static, handleRequest_static]
  | _ => rfl

/-- a handler whose answers to one GET are both reports gives the same report twice -/
theorem report_unique {config : NginxConfig} {env : Environment σ} {handler : Handler} {request : Request}
    (hget : request.method = .GET) {s s' : σ} {log log' : Log} {response response' : Response}
    (h : (handler.handleRequest env request s).1 = .ok response) (hbody : response.body = report config log)
    (h' : (handler.handleRequest env request s').1 = .ok response') (hbody' : response'.body = report config log') :
    report config log = report config log' := by
  by_cases hblog : handler.type = some .blog
  · -- a page of a blog is no report
    cases handler with
    | blog blog connection =>
      rw [handleRequest_blog (connected_of_ok h)] at h
      simp only [Posts.handleRequest, hget, if_true] at h
      cases hresult : (handleGet blog (env.database connection) request.uri s).1 with
      | error e =>
        rw [hresult] at h
        cases h
      | ok page =>
        rw [hresult] at h
        obtain rfl := Except.ok.inj h
        have hhead := handleGet_head blog (env.database connection) hresult
        rw [hbody, report] at hhead
        cases hhead
    | _ => cases hblog
  · have heq := handleRequest_stateless env hblog request s s'
    rw [h, h'] at heq
    rw [← hbody, ← hbody', Except.ok.inj heq]

/-! ## Accounting -/

/-- requests are accounted for under a location that is answered from the status handler of "/status" -/
theorem accounted_of_completed {config : NginxConfig} {env : Environment σ} {s₀ s : σ} {log : Log} {d : Dispatcher}
    (hrecorded : ∀ k : HandlerType, k.locations config ≠ [] → k.name ∈ config.handlerTypes) {location : Bytes}
    (hrouted : chosen config (unescapeSpaces location) = some (ascii "/status"))
    (howner : owner config (ascii "/status") config.handlerTypes = some (ascii "StatusHandler"))
    (h : Completed config env s₀ log d s) (hlength : log.length < 2147483648) :
    Accounted config env location log d s := by
  have htracking := tracking_of_completed hrecorded howner h
  refine ⟨htracking.enabled, fun request => (htracking.complete env request s).1, fun request _ huri => ?_⟩
  exact htracking.reports hrouted hlength env s huri

/-- **When requests are accounted for.** In every state of every run of fewer than 2^31 requests, the status handler is
reached and a GET of the location reports the requests of the run, exactly when a GET of the location is answered from
the entry under "/status", and that entry was last put there for a status location. -/
theorem accounting_iff {text : Bytes} {accepted : Bool} {config : NginxConfig}
    (hparsed : ParsedAs text accepted config) {d₀ : Dispatcher} (hinit : Dispatcher.init config = some d₀)
    (env : Environment σ) (s₀ : σ) (location : Bytes) :
    (∀ log d s, Completed config env s₀ log d s → log.length < 2147483648 → Accounted config env location log d s) ↔
      chosen config (unescapeSpaces location) = some (ascii "/status") ∧
        owner config (ascii "/status") config.handlerTypes = some (ascii "StatusHandler") := by
  have hrecorded := hparsed.recorded
  constructor
  · intro h
    -- one GET of the location, and another
    let request : Request := ⟨.GET, location, ascii "HTTP/1.0", SortedMap.empty, []⟩
    have hregistered := registered_init hrecorded hinit
    have hfirst := h [] d₀ s₀ (.start hinit) (by decide)
    obtain ⟨response, hresponse, hbody⟩ := hfirst.reports request rfl rfl
    obtain ⟨handler, hanswer, hhandle⟩ := hregistered.handle env request s₀
    rw [hhandle] at hresponse
    rw [hresponse] at hhandle
    rcases complete_of_ok hhandle hfirst.enabled with ⟨-, hnull⟩ | ⟨status, hstatus, hcomplete⟩
    · exact absurd hnull (hfirst.reaches request)
    obtain ⟨hlookup, -⟩ := getStatusHandler_lookup hstatus
    obtain ⟨k, htype, howner⟩ := (hregistered.made hlookup).type
    obtain rfl := Option.some.inj htype
    refine ⟨?_, howner⟩
    by_contra hrouted
    have hsecond := h _ _ _ (.next (.start hinit) hcomplete) (by simp)
    obtain ⟨response', hresponse', hbody'⟩ := hsecond.reports request rfl rfl
    have hsame := getHandler_record (by rwa [hregistered.of_config]) status request.uri response.code
    rw [handle_fst, hsame, hanswer] at hresponse'
    exact report_ne config _ (report_unique rfl hresponse hbody hresponse' hbody')
  · rintro ⟨hrouted, howner⟩ log d s hrun hlength
    exact accounted_of_completed hrecorded hrouted howner hrun hlength

/-! ## Two configurations -/

/-- a status handler where it is looked for -/
theorem accounting_iff_status :
    ∃ config d₀, parse .fresh (ascii "location \"/status\" StatusHandler \x7b \x7d") = .ok (true, config) ∧
      Dispatcher.init config = some d₀ ∧
      ∀ log d s, Completed config testEnvironment [] log d s → log.length < 2147483648 →
        Accounted config testEnvironment (ascii "/status") log d s := by
  have hrun : ∃ config, parse .fresh (ascii "location \"/status\" StatusHandler \x7b \x7d") = .ok (true, config) ∧
      (Dispatcher.init config).isSome = true ∧
      chosen config (unescapeSpaces (ascii "/status")) = some (ascii "/status") ∧
      owner config (ascii "/status") config.handlerTypes = some (ascii "StatusHandler") :=
    exists_of_run (by decide +kernel)
  obtain ⟨config, hparse, hsome, hrouted, howner⟩ := hrun
  obtain ⟨d₀, hinit⟩ := Option.isSome_iff_exists.1 hsome
  refine ⟨config, d₀, hparse, hinit, ?_⟩
  exact (accounting_iff (parsedAs_of_parse hparse) hinit testEnvironment [] _).2 ⟨hrouted, howner⟩

/-- a status handler under another location: the first request, for the status page, calls through a null pointer -/
theorem accounting_stat :
    ∃ config d₀, parse .fresh (ascii "location \"/stat\" StatusHandler \x7b \x7d") = .ok (true, config) ∧
      ascii "/stat" ∈ config.statusLocations ∧ Dispatcher.init config = some d₀ ∧
      (d₀.complete testEnvironment (requestOf (ascii "GET /stat HTTP/1.0\r\n\r\n")).2 []).1 = .error .nullPointer := by
  have hrun : ∃ config, parse .fresh (ascii "location \"/stat\" StatusHandler \x7b \x7d") = .ok (true, config) ∧
      ascii "/stat" ∈ config.statusLocations ∧
      (Dispatcher.init config).elim false (fun d₀ =>
        match (d₀.complete testEnvironment (requestOf (ascii "GET /stat HTTP/1.0\r\n\r\n")).2 []).1 with
        | .error .nullPointer => true
        | _ => false) = true :=
    exists_of_run (by decide +kernel)
  obtain ⟨config, hparse, hmem, hnull⟩ := hrun
  cases hinit : Dispatcher.init config with
  | none =>
    rw [hinit] at hnull
    cases hnull
  | some d₀ =>
    rw [hinit, Option.elim_some] at hnull
    refine ⟨config, d₀, hparse, hmem, hinit, ?_⟩
    split at hnull
    · assumption
    · cases hnull

end BlogServer.Dispatch
