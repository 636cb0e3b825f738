/-
Whether a keep-alive client can find the end of a response.

The responses are written by hand, nine handlers with a `Content-Length` of their own. A response that has the size of
its body there is `SelfDelimiting`. All that is made here is, but for what `redirect_request_handler` returns: it has a
`Location` and nothing else. So the requests answered by a self-delimiting response are those that are not given to a
redirect handler (`selfDelimiting_iff`); whether an empty body follows is left to be guessed.

- `keepAlive_redirect`: a client of a redirect location asks to keep the connection, and gets no length.
-/
import BlogServer.Dispatch.Serving

namespace BlogServer.Dispatch

open BlogServer.Byte BlogServer.Config BlogServer.Http BlogServer.Posts

/-- the header `Content-Length` is the decimal size of the body -/
def SelfDelimiting (response : Response) : Prop :=
  response.headers.find? (ascii "Content-Length") = some (Decimal.decimal response.body.length)

/-! ## Responses -/

/-- a length, and another header after it -/
theorem selfDelimiting_insert {response : Response} (h : SelfDelimiting response) {name : Bytes} (value : Bytes)
    (hname : name ≠ ascii "Content-Length") :
    SelfDelimiting { response with headers := response.headers.insert name value } := by
  unfold SelfDelimiting
  rw [SortedMap.find?_insert_of_ne _ _ hname.symm]
  exact h

/-- the response of a body, with nothing but its length -/
theorem selfDelimiting_length (status : ℤ) (body : Bytes) :
    SelfDelimiting ⟨status, SortedMap.empty.insert (ascii "Content-Length") (Decimal.decimal body.length), body⟩ :=
  SortedMap.find?_insert_self _ _ _

/-- a length and a type, as every handler writes them but the one of redirects -/
theorem selfDelimiting_typed (status : ℤ) (body mimeType : Bytes) :
    SelfDelimiting
      ⟨status, (SortedMap.empty.insert (ascii "Content-Length") (Decimal.decimal body.length)).insert
        (ascii "Content-Type") mimeType, body⟩ :=
  selfDelimiting_insert (selfDelimiting_length status body) mimeType (by decide)

theorem htmlResponse_selfDelimiting (status : ℤ) (body : Bytes) : SelfDelimiting (htmlResponse status body) :=
  selfDelimiting_typed status body _

theorem plainResponse_selfDelimiting (status : ℤ) (body : Bytes) : SelfDelimiting (plainResponse status body) :=
  selfDelimiting_typed status body _

/-- **The stock responses are self-delimiting**, that of a bad request among them. -/
theorem stockResponse_selfDelimiting (status : ℤ) : SelfDelimiting (stockResponse status) :=
  htmlResponse_selfDelimiting status _

theorem StaticHandler.handleRequest_selfDelimiting (files : Bytes → Option Bytes) (h : StaticHandler)
    (request : Request) : SelfDelimiting (h.handleRequest files request) := by
  unfold StaticHandler.handleRequest
  cases files ((h.fileName request.uri).takeWhile fun c => c != NUL) with
  | none => exact htmlResponse_selfDelimiting _ _
  | some body => exact selfDelimiting_typed _ body _

/-- nothing but a location -/
theorem redirectResponse_not_selfDelimiting (serverUrl : Bytes) : ¬ SelfDelimiting (redirectResponse serverUrl) := by
  intro h
  unfold SelfDelimiting redirectResponse at h
  rw [SortedMap.find?_insert_of_ne _ _ (by decide), SortedMap.find?_empty] at h
  cases h

/-! ### Posts -/

section Posts

variable {σ : Type} {handler : BlogUploadHandler} {db : Database σ} {s : σ} {response : Response}

theorem postResponse_selfDelimiting {postid : ℤ} (h : postResponse handler postid = .ok response) :
    SelfDelimiting response := by
  unfold postResponse at h
  cases hlast : handler.locationPrefix.getLast? with
  | none =>
    rw [hlast] at h
    cases h
  | some c =>
    rw [hlast] at h
    rw [← Except.ok.inj h]
    exact selfDelimiting_insert (htmlResponse_selfDelimiting _ _) _ (by decide)

theorem handleGet_selfDelimiting {uri : Bytes} (h : (handleGet handler db uri s).1 = .ok response) :
    SelfDelimiting response := by
  unfold handleGet at h
  simp only at h
  split_ifs at h
  · rw [← Except.ok.inj h]
    exact htmlResponse_selfDelimiting _ _
  · rw [← Except.ok.inj h]
    exact htmlResponse_selfDelimiting _ _
  · cases hid : Decimal.stoi ((uri.drop handler.locationPrefix.length).drop 1) with
    | none =>
      rw [hid] at h
      cases h
    | some postid =>
      rw [hid] at h
      rw [← Except.ok.inj h]
      exact htmlResponse_selfDelimiting _ _

/-- whatever the database holds, and whatever the form says -/
theorem blog_selfDelimiting {request : Request} (h : (Posts.handleRequest handler db request s).1 = .ok response) :
    SelfDelimiting response := by
  unfold Posts.handleRequest at h
  simp only at h
  split_ifs at h
  · exact handleGet_selfDelimiting h
  · exact postResponse_selfDelimiting h

end Posts

/-! ## Handlers -/

theorem mapError_ok {ε ε' α : Type} {f : ε → ε'} {x : Except ε α} {a : α} (h : x.mapError f = .ok a) : x = .ok a := by
  cases x with
  | error e => cases h
  | ok b => exact congrArg Except.ok (Except.ok.inj h)

/-- **What a handler returns is self-delimiting**, but for a proxy and a redirect handler. -/
theorem Handler.handleRequest_selfDelimiting {σ : Type} {env : Environment σ} {request : Request} {s : σ}
    {handler : Handler} (hproxy : handler.type ≠ some .proxy) (hredirect : handler.type ≠ some .redirect)
    {response : Response} (h : (handler.handleRequest env request s).1 = .ok response) : SelfDelimiting response := by
  cases handler with
  | proxy => exact absurd rfl hproxy
  | redirect => exact absurd rfl hredirect
  | static h' =>
    rw [handleRequest_static_ok h]
    exact StaticHandler.handleRequest_selfDelimiting _ h' request
  | blog =>
    rw [handleRequest_blog (connected_of_ok h)] at h
    exact blog_selfDelimiting (mapError_ok h)
  | uploadForm =>
    rw [← Except.ok.inj h]
    exact htmlResponse_selfDelimiting _ _
  | error404 =>
    rw [← Except.ok.inj h]
    exact htmlResponse_selfDelimiting _ _
  | _ =>
    -- the pages of plain text
    rw [← Except.ok.inj h]
    exact plainResponse_selfDelimiting _ _

theorem Handler.delimits_iff {σ : Type} {env : Environment σ} {request : Request} {s : σ} {handler : Handler}
    (hproxy : handler.type ≠ some .proxy) :
    (∀ response, (handler.handleRequest env request s).1 = .ok response → SelfDelimiting response) ↔
      handler.type ≠ some .redirect := by
  constructor
  · intro h htype
    cases handler with
    | redirect serverUrl => exact redirectResponse_not_selfDelimiting serverUrl (h _ rfl)
    | _ => cases htype
  · intro hredirect response
    exact handler.handleRequest_selfDelimiting hproxy hredirect

/-! ## Requests -/

/-- the URI is given to a handler of the type -/
def RoutedTo (config : NginxConfig) (k : HandlerType) (uri : Bytes) : Prop :=
  ∃ location, chosen config (unescapeSpaces uri) = some location ∧
    owner config location config.handlerTypes = some k.name

/-- the type of the handler that is called is the one that has the chosen location -/
theorem Registered.type_iff {config : NginxConfig} {d : Dispatcher} (h : Registered config d) (uri : Bytes) :
    ∃ handler, d.getHandler uri = (some handler, d) ∧
      ∀ k : HandlerType, handler.type = some k ↔ RoutedTo config k uri := by
  obtain ⟨handler, hanswer, hmade⟩ := h.getHandler uri
  refine ⟨handler, hanswer, fun k => ?_⟩
  cases hchosen : chosen config (unescapeSpaces uri) with
  | none =>
    rw [hchosen] at hmade
    subst hmade
    constructor
    · intro htype
      cases htype
    · rintro ⟨location, hlocation, -⟩
      rw [hchosen] at hlocation
      cases hlocation
  | some location =>
    rw [hchosen] at hmade
    obtain ⟨made, htype, howner⟩ := Made.type hmade
    constructor
    · intro hk
      obtain rfl := Option.some.inj (htype.symm.trans hk)
      exact ⟨location, hchosen, howner⟩
    · rintro ⟨found, hfound, hk⟩
      obtain rfl := Option.some.inj (hchosen.symm.trans hfound)
      rw [htype, name_injective (Option.some.inj (howner.symm.trans hk))]

/-- **Which responses are self-delimiting.** The stock response to a bad request is. Whatever text was parsed and
whatever was asked before, a request that is given to no proxy is answered by a self-delimiting response, if by any,
exactly when it is given to no redirect handler. -/
theorem selfDelimiting_iff {text : Bytes} {accepted : Bool} {config : NginxConfig}
    (hparsed : ParsedAs text accepted config) {d : Dispatcher} (hd : Dispatcher.Reachable config d)
    {σ : Type} (env : Environment σ) (s : σ) {request : Request} (hproxy : ¬ RoutedTo config .proxy request.uri) :
    SelfDelimiting (stockResponse StatusCode.bad_request) ∧
      ((∀ response, (d.handle env request s).1 = .ok response → SelfDelimiting response) ↔
        ¬ RoutedTo config .redirect request.uri) := by
  refine ⟨stockResponse_selfDelimiting _, ?_⟩
  obtain ⟨handler, hanswer, htype⟩ := (registered_of_reachable hparsed.recorded hd).type_iff request.uri
  have hhandle : (d.handle env request s).1 = (handler.handleRequest env request s).1 := by
    rw [Dispatcher.handle, hanswer]
  rw [hhandle, ← htype .redirect]
  exact Handler.delimits_iff fun hk => hproxy ((htype .proxy).1 hk)

/-! ## Two locations -/

/-- an echo location and a redirect location -/
abbrev redirectText : Bytes :=
  ascii "location \"/echo\" EchoHandler \x7b \x7d location \"/old\" RedirectHandler \x7b host \"http://h/\"; \x7d"

/-- each URI has its location -/
def EchoAndRedirect (config : NginxConfig) : Prop :=
  (Dispatcher.init config).isSome = true ∧
    chosen config (unescapeSpaces (ascii "/echo")) = some (ascii "/echo") ∧
    owner config (ascii "/echo") config.handlerTypes = some (ascii "EchoHandler") ∧
    chosen config (unescapeSpaces (ascii "/old")) = some (ascii "/old") ∧
    owner config (ascii "/old") config.handlerTypes = some (ascii "RedirectHandler")

instance decidableEchoAndRedirect : DecidablePred EchoAndRedirect :=
  fun _ => inferInstanceAs (Decidable (_ ∧ _ ∧ _ ∧ _ ∧ _))

theorem echoAndRedirect_parsed :
    ∃ config, parse .fresh redirectText = .ok (true, config) ∧ EchoAndRedirect config :=
  exists_of_run (by decide +kernel)

/-- a location has one type -/
theorem not_routedTo {config : NginxConfig} {uri location : Bytes} (k k' : HandlerType)
    (hchosen : chosen config (unescapeSpaces uri) = some location)
    (howner : owner config location config.handlerTypes = some k.name) (hne : k' ≠ k) : ¬ RoutedTo config k' uri := by
  rintro ⟨found, hfound, hk⟩
  obtain rfl := Option.some.inj (hchosen.symm.trans hfound)
  exact hne (name_injective (Option.some.inj (hk.symm.trans howner)))

/-- a GET of the echo location -/
theorem selfDelimiting_iff_echo :
    ∃ config d, parse .fresh redirectText = .ok (true, config) ∧ Dispatcher.init config = some d ∧
      ∀ response, (d.handle testEnvironment (requestOf (ascii "GET /echo HTTP/1.0\r\n\r\n")).2 []).1 = .ok response →
        SelfDelimiting response := by
  obtain ⟨config, hparse, hsome, hchosen, howner, -⟩ := echoAndRedirect_parsed
  obtain ⟨d, hd⟩ := Option.isSome_iff_exists.1 hsome
  have huri : (requestOf (ascii "GET /echo HTTP/1.0\r\n\r\n")).2.uri = ascii "/echo" := by decide +kernel
  rw [← huri] at hchosen
  have hproxy := not_routedTo .echo .proxy hchosen howner (by decide)
  have hredirect := not_routedTo .echo .redirect hchosen howner (by decide)
  exact ⟨config, d, hparse, hd,
    (selfDelimiting_iff (parsedAs_of_parse hparse) (.init hd) testEnvironment [] hproxy).2.2 hredirect⟩

/-- a GET of the redirect location, from a client that waits for the end of the response -/
theorem keepAlive_redirect :
    ∃ config d response, parse .fresh redirectText = .ok (true, config) ∧ Dispatcher.init config = some d ∧
      ¬ RoutedTo config .proxy (ascii "/old") ∧
      (requestOf (ascii "GET /old HTTP/1.0\r\nConnection: keep-alive\r\n\r\n")).1 = .good ∧
      (d.handle testEnvironment
        (requestOf (ascii "GET /old HTTP/1.0\r\nConnection: keep-alive\r\n\r\n")).2 []).1 = .ok response ∧
      ¬ SelfDelimiting response := by
  obtain ⟨config, hparse, hsome, -, -, hchosen, howner⟩ := echoAndRedirect_parsed
  obtain ⟨d, hd⟩ := Option.isSome_iff_exists.1 hsome
  have hproxy := not_routedTo .redirect .proxy hchosen howner (by decide)
  let request := (requestOf (ascii "GET /old HTTP/1.0\r\nConnection: keep-alive\r\n\r\n")).2
  have huri : request.uri = ascii "/old" := by decide +kernel
  obtain ⟨handler, hanswer, htype⟩ :=
    (registered_of_reachable (tables_recorded hparse).2 (.init hd)).type_iff request.uri
  have hredirect : handler.type = some .redirect := (htype .redirect).2 ⟨ascii "/old", by rwa [huri], howner⟩
  cases handler with
  | redirect serverUrl =>
    refine ⟨config, d, redirectResponse serverUrl, hparse, hd, hproxy, by decide +kernel, ?_, ?_⟩
    · rw [Dispatcher.handle, hanswer]
      rfl
    · exact redirectResponse_not_selfDelimiting serverUrl
  | _ => cases hredirect

end BlogServer.Dispatch
