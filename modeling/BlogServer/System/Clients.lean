/-
What the clients of a server get.

A session sends its responses one after another on a connection, and nothing but their lengths says where one ends.
Each of them is the answer of a handler that the configuration declares for the URI of its request
(`declared_answers`). Where that is neither a proxy nor a redirect handler, and no blog location has a byte that would
end a header, a client reads from the bytes, wherever they break off, the responses as they were meant
(`responses_read`).

- `Handler.handleRequest_serializable`: which handlers return what can be read.
-/
import BlogServer.Core.Frames
import BlogServer.Dispatch.Delimiting
import BlogServer.System.ProxiedPosts

namespace BlogServer.Dispatch

open BlogServer.Byte BlogServer.Http BlogServer.Posts BlogServer.Proxy

/-! ## Handlers -/

theorem getMimeType_sendable (fileName : Bytes) : ∀ c ∈ getMimeType fileName, isCtl c = false := by
  have hplain : ∀ c ∈ ascii "text/plain", isCtl c = false := by decide
  have htypes : ∀ mapping ∈ mappings, ∀ c ∈ mapping.2, isCtl c = false := by decide
  unfold getMimeType
  cases Bytes.findLastOf DOT fileName with
  | none => exact hplain
  | some lastDotIndex =>
    simp only
    cases hlookup : mappings.lookup (fileName.drop (lastDotIndex + 1)) with
    | none => exact hplain
    | some mimeType =>
      obtain ⟨before, behind, hmappings, -⟩ := List.lookup_eq_some_iff.1 hlookup
      exact htypes (fileName.drop (lastDotIndex + 1), mimeType) (by simp [hmappings])

/-- a page, as `to_buffers` writes it -/
theorem htmlResponse_serializable {status : ℤ} (hstatus : status = StatusCode.ok ∨ status = StatusCode.bad_request ∨
      status = StatusCode.not_found ∨ status = StatusCode.moved_temporarily)
    {body : Bytes} (hsize : body.length < 2147483648) : ResponseParser.Serializable (htmlResponse status body) :=
  typed_serializable hstatus hsize (by decide)

theorem plainResponse_serializable {body : Bytes} (hsize : body.length < 2147483648) :
    ResponseParser.Serializable (plainResponse StatusCode.ok body) :=
  typed_serializable (Or.inl rfl) hsize (by decide)

/-- what a file is answered with -/
theorem StaticHandler.handleRequest_serializable {files : Bytes → Option Bytes} {h : StaticHandler} {request : Request}
    (hsize : (h.handleRequest files request).body.length < 2147483648) :
    ResponseParser.Serializable (h.handleRequest files request) := by
  unfold StaticHandler.handleRequest at hsize ⊢
  cases hfile : files ((h.fileName request.uri).takeWhile fun c => c != NUL) with
  | none =>
    rw [hfile] at hsize
    exact htmlResponse_serializable (Or.inr (Or.inr (Or.inl rfl))) hsize
  | some body =>
    rw [hfile] at hsize
    exact typed_serializable (Or.inl rfl) hsize (getMimeType_sendable _)

/-- what a blog handler returns is a page or the redirect to a post -/
theorem blog_response {σ : Type} {handler : BlogUploadHandler} {db : Database σ} {request : Request} {s : σ}
    {response : Response} (h : (Posts.handleRequest handler db request s).1 = .ok response) :
    (∃ page, response = htmlResponse StatusCode.ok page) ∨ ∃ postid, postResponse handler postid = .ok response := by
  unfold Posts.handleRequest at h
  simp only at h
  split_ifs at h
  · left
    unfold handleGet at h
    simp only at h
    split_ifs at h
    · exact ⟨_, (Except.ok.inj h).symm⟩
    · exact ⟨_, (Except.ok.inj h).symm⟩
    · cases hid : Decimal.stoi ((request.uri.drop handler.locationPrefix.length).drop 1) with
      | none =>
        rw [hid] at h
        cases h
      | some postid =>
        rw [hid] at h
        exact ⟨_, (Except.ok.inj h).symm⟩
  · exact Or.inr ⟨_, h⟩

/-- **What a handler returns can be read**, but for a proxy and a redirect handler. -/
theorem Handler.handleRequest_serializable {σ : Type} {env : Environment σ} {request : Request} {s : σ}
    {handler : Handler} (hproxy : handler.type ≠ some .proxy) (hredirect : handler.type ≠ some .redirect)
    (hblog : ∀ blog connection, handler = .blog blog connection → ∀ c ∈ blog.locationPrefix, isCtl c = false)
    {response : Response} (h : (handler.handleRequest env request s).1 = .ok response)
    (hsize : response.body.length < 2147483648) : ResponseParser.Serializable response := by
  cases handler with
  | proxy => exact absurd rfl hproxy
  | redirect => exact absurd rfl hredirect
  | static h' =>
    obtain rfl := handleRequest_static_ok h
    exact StaticHandler.handleRequest_serializable hsize
  | blog blog connection =>
    rw [handleRequest_blog (connected_of_ok h)] at h
    rcases blog_response (mapError_ok h) with ⟨page, rfl⟩ | ⟨postid, hpost⟩
    · exact htmlResponse_serializable (Or.inl rfl) hsize
    · have hne : blog.locationPrefix ≠ [] := by
        intro hnil
        rw [postResponse, hnil] at hpost
        cases hpost
      exact System.postResponse_serializable (hblog blog connection rfl) hne hpost
  | uploadForm =>
    obtain rfl := Except.ok.inj h
    exact htmlResponse_serializable (Or.inl rfl) hsize
  | error404 =>
    obtain rfl := Except.ok.inj h
    exact htmlResponse_serializable (Or.inr (Or.inr (Or.inl rfl))) hsize
  | _ =>
    -- the pages of plain text
    obtain rfl := Except.ok.inj h
    exact plainResponse_serializable hsize

end BlogServer.Dispatch

namespace BlogServer.System

open BlogServer.Byte BlogServer.Scan BlogServer.Http BlogServer.Dispatch BlogServer.Posts BlogServer.Proxy
open BlogServer.Server (Session)

variable {σ : Type} {env : Environment σ} {u : ℕ → Uninit} {junk : ℕ → ℕ → MethodEnum} {sv : Server σ}
  {events : List Event} {d₀ : Dispatch.Dispatcher} {s₀ : σ} {log : List Answered} {config : Config.NginxConfig}

/-! ## The answers of a run -/

/-- what a session has sent, is a refusal or the response to one of its requests -/
theorem Explained.sent_mem (h : Explained env d₀ s₀ log sv) {i : ℕ} {s : Session (World σ)}
    (hs : sv.sessions[i]? = some s) {response : Response} (hresponse : response ∈ s.sent) :
    response = refusal ∨ ∃ a ∈ log, a.request ∈ s.calls ∧ a.response = response := by
  have hreply : response ∈ (ofSession i log).map Answered.response →
      ∃ a ∈ log, a.request ∈ s.calls ∧ a.response = response := by
    intro hmem
    obtain ⟨a, ha, heq⟩ := List.mem_map.1 hmem
    refine ⟨a, List.mem_of_mem_filter ha, ?_, heq⟩
    rw [h.calls i s hs]
    exact List.mem_map_of_mem ha
  rcases h.sent i s hs with hsent | ⟨hsent, -⟩
  · rw [hsent] at hresponse
    exact Or.inr (hreply hresponse)
  · rw [hsent, List.mem_append, List.mem_singleton] at hresponse
    exact hresponse.symm.imp id hreply

/-! ### An echo -/

/-- an echo at `/s/e`, written out -/
def echoFile : Config.ConfigFile := ⟨[], some 80, [echoBlock], by decide⟩

def echoFileText : Bytes := echoFile.lexemes.flatMap fun l => l.text ++ [SP]

/-- one session of a server for tests, and what comes first on it -/
def echoRun (d : Dispatch.Dispatcher) : Option (Server (List Posts.Blog)) :=
  (Server.start (fun _ => ⟨0, 0, 0⟩) d []).run testEnvironment (fun _ => ⟨0, 0, 0⟩) (fun _ _ => .GET)
    [.accept 0 false, .session 0 (.read (some (ascii "GET /s/e HTTP/1.0\r\n\r\n")))]

/-- the GET is passed on and answered -/
def Echoed (config : Config.NginxConfig) : Prop :=
  owner config (ascii "/s/e") config.handlerTypes = some (ascii "EchoHandler") ∧
    chosen config (unescapeSpaces (ascii "/s/e")) = some (ascii "/s/e") ∧
    Config.HandlerType.blog.locations config = [] ∧
    (((Dispatcher.init config).bind echoRun).bind fun sv => (sv.sessions[0]?).map fun s =>
      (sv.world.crash.isNone, s.calls.map Request.uri, s.sent.map fun response => response.body.length)) =
        some (true, [ascii "/s/e"], [21])

instance : DecidablePred Echoed := fun _ => inferInstanceAs (Decidable (_ ∧ _ ∧ _ ∧ _))

theorem echo_served :
    ∃ config d sv s, Config.parse .fresh echoFileText = .ok (true, config) ∧ Dispatcher.init config = some d ∧
      echoRun d = some sv ∧ sv.world.crash = none ∧ sv.sessions[0]? = some s ∧
      s.calls.map Request.uri = [ascii "/s/e"] ∧ (s.sent.map fun response => response.body.length) = [21] ∧
      owner config (ascii "/s/e") config.handlerTypes = some (ascii "EchoHandler") ∧
      chosen config (unescapeSpaces (ascii "/s/e")) = some (ascii "/s/e") ∧
      Config.HandlerType.blog.locations config = [] := by
  obtain ⟨config, hparse, howner, hchosen, hblogs, hrun⟩ : ∃ config,
      Config.parse .fresh echoFileText = .ok (true, config) ∧ Echoed config := Config.exists_of_run (by decide +kernel)
  obtain ⟨sv, hserved, hfirst⟩ := Option.bind_eq_some_iff.1 hrun
  obtain ⟨d, hinit, hserved⟩ := Option.bind_eq_some_iff.1 hserved
  obtain ⟨s, hs, heq⟩ := Option.map_eq_some_iff.1 hfirst
  obtain ⟨hup, heq⟩ := Prod.mk.inj heq
  obtain ⟨hcalls, hsent⟩ := Prod.mk.inj heq
  rw [Option.isNone_iff_eq_none] at hup
  exact ⟨config, d, sv, s, hparse, hinit, hserved, hup, hs, hcalls, hsent, howner, hchosen, hblogs⟩

/-- a client that reads at most `n` responses, each to its end with a new parser, and the bytes that are left -/
def readResponses (u : ℕ → ResponseUninit) : ℕ → Bytes → List Response × Bytes :=
  readFrames ResponseParser.consume (fun n => ResponseParser.fresh (u n)) fun t => t.2.buildResponse

/-- a response that can be read, is -/
theorem framed_response {response : Response} (h : ResponseParser.Serializable response) (u : ℕ → ResponseUninit) :
    Framed ResponseParser.consume (fun n => ResponseParser.fresh (u n)) (fun t => t.2.buildResponse) toBuffers
      response := by
  intro n
  obtain ⟨t, haccepts, hcode, hheaders, hbody⟩ := ResponseParser.reads_response h (u n)
  refine ⟨t, haccepts, ?_⟩
  show t.2.buildResponse = response
  rw [ResponseBuilder.buildResponse, hcode, hheaders, headerMap_headers, hbody]

/-- the blog locations have no byte that would end a header -/
def PlainBlogs (config : Config.NginxConfig) : Prop :=
  ∀ location ∈ Config.HandlerType.blog.locations config, ∀ c ∈ location, isCtl c = false

/-- what a dispatcher returns for a URI that is given to no proxy and to no redirect handler -/
theorem registered_handle_serializable {d : Dispatch.Dispatcher} (h : Registered config d) (hblogs : PlainBlogs config)
    {request : Request} (hproxy : ¬ RoutedTo config .proxy request.uri)
    (hredirect : ¬ RoutedTo config .redirect request.uri) {s : σ} {response : Response}
    (hok : (d.handle env request s).1 = .ok response) (hsize : response.body.length < 2147483648) :
    ResponseParser.Serializable response := by
  obtain ⟨handler, hanswer, htype⟩ := h.type_iff request.uri
  rw [Dispatch.Dispatcher.handle, hanswer] at hok
  refine Handler.handleRequest_serializable (fun hk => hproxy ((htype .proxy).1 hk))
    (fun hk => hredirect ((htype .redirect).1 hk)) ?_ hok hsize
  rintro blog connection rfl
  obtain ⟨location, hchosen, howner⟩ := (htype .blog).1 rfl
  obtain ⟨connection', hanswer', hasks⟩ := getHandler_blog h hchosen howner
  rw [hanswer, Prod.mk.injEq] at hanswer'
  obtain ⟨rfl, -⟩ := Handler.blog.inj (Option.some.inj hanswer'.1)
  have hmem := (owner_some howner).2
  rw [handlersOf_name] at hmem
  exact hblogs location hmem

/-- **Clients read what was sent.** No blog location has a control character. In every state of every run in which the
server is up, a session all of whose requests were given to neither a proxy nor a redirect handler, and whose bodies
have sizes that an `int` can hold, has sent its responses so that a client reads the first `n` of them from the bytes;
and from the bytes that have come so far, wherever they break off, it reads first responses and no others. -/
theorem responses_read {text : Bytes} {accepted : Bool} (hparsed : ParsedAs text accepted config)
    (hinit : Dispatcher.init config = some d₀) (hblogs : PlainBlogs config)
    (hrun : (Server.start u d₀ s₀).run env u junk events = some sv) (hup : sv.world.crash = none) {i : ℕ}
    {s : Session (World σ)} (hs : sv.sessions[i]? = some s)
    (hrouted : ∀ request ∈ s.calls, ¬ RoutedTo config .proxy request.uri ∧ ¬ RoutedTo config .redirect request.uri)
    (hsizes : ∀ response ∈ s.sent, response.body.length < 2147483648) (v : ℕ → ResponseUninit) (n : ℕ) :
    readResponses v n (s.sent.flatMap toBuffers) = (s.sent.take n, (s.sent.drop n).flatMap toBuffers) ∧
      ∀ received, received <+: s.sent.flatMap toBuffers → (readResponses v n received).1 <+: s.sent := by
  obtain ⟨log, h⟩ := (run_explained hrun).1 hup
  have hregistered := registered_init hparsed.recorded hinit
  have hserializable : ∀ response ∈ s.sent, ResponseParser.Serializable response := by
    intro response hresponse
    have hsize := hsizes response hresponse
    rcases h.sent_mem hs hresponse with rfl | ⟨a, ha, hcalled, rfl⟩
    · exact htmlResponse_serializable (Or.inr (Or.inl rfl)) hsize
    · obtain ⟨hproxy, hredirect⟩ := hrouted a.request hcalled
      obtain ⟨before, behind, heq⟩ := List.append_of_mem ha
      obtain ⟨d', s', -, hbefore, hok⟩ := (h.serial.handled hregistered).2 before a behind heq
      exact registered_handle_serializable hbefore hblogs hproxy hredirect hok hsize
  have hframed := fun response hresponse => framed_response (hserializable response hresponse) v
  exact ⟨readFrames_flatMap hframed n, fun received hreceived => readFrames_prefix hframed n hreceived⟩

/-- the echo is read -/
theorem responses_read_echo :
    ∃ config d sv s, Config.parse .fresh echoFileText = .ok (true, config) ∧ Dispatcher.init config = some d ∧
      echoRun d = some sv ∧ sv.sessions[0]? = some s ∧ s.sent.length = 1 ∧
      readResponses (fun _ => ⟨0, 0, 0, 0, 0⟩) 1 (s.sent.flatMap toBuffers) = (s.sent, []) := by
  obtain ⟨config, d, sv, s, hparse, hinit, hrun, hup, hs, hcalls, hsent, howner, hchosen, hblogs⟩ := echo_served
  have hone : s.sent.length = 1 := by rw [← List.length_map, hsent]; rfl
  have hrouted : ∀ request ∈ s.calls,
      ¬ RoutedTo config .proxy request.uri ∧ ¬ RoutedTo config .redirect request.uri := by
    intro request hrequest
    have huri := List.mem_map_of_mem (f := Request.uri) hrequest
    rw [hcalls, List.mem_singleton] at huri
    rw [huri]
    exact ⟨not_routedTo .echo .proxy hchosen howner (by decide),
      not_routedTo .echo .redirect hchosen howner (by decide)⟩
  have hsizes : ∀ response ∈ s.sent, response.body.length < 2147483648 := by
    intro response hresponse
    have hsize := List.mem_map_of_mem (f := fun response => response.body.length) hresponse
    rw [hsent, List.mem_singleton] at hsize
    omega
  have hplain : PlainBlogs config := by
    intro location hlocation
    rw [hblogs] at hlocation
    cases hlocation
  refine ⟨config, d, sv, s, hparse, hinit, hrun, hs, hone, ?_⟩
  have hread :=
    (responses_read (parsedAs_of_parse hparse) hinit hplain hrun hup hs hrouted hsizes (fun _ => ⟨0, 0, 0, 0, 0⟩) 1).1
  rw [hread, List.take_of_length_le hone.le, List.drop_of_length_le hone.le]
  rfl

end BlogServer.System
