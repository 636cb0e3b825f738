/-
A proxy in front of another server of this kind.

The hosts that a proxy connects to keep a state (`Hosts`), and `proxy_request` passes it on from call to call; on hosts
that keep none it is `proxyRequest` (`proxyRequestOn_stateless`). A host may be a server itself (`ServedBy`): the
connection is a session there, which gets what is written in some pieces, and what it sends is read in others. Then the
two parsers and the two writers cancel out: the handlers behind the host are called once, with the request as it was
forwarded, and what they return is what `read_response` returns (`served_answers`).

- `forwardable_of_accepted`: which requests of clients are forwarded so.
- `proxied_once`: what the client gets is the relayed response of the handlers behind the host.
-/
import BlogServer.Http.ResponseRoundTrip
import BlogServer.Proxy.Forwarding
import BlogServer.Proxy.Links
import BlogServer.Proxy.ReadLoop
import BlogServer.Server.SessionRuns

namespace BlogServer.Proxy

open BlogServer.Http BlogServer.Byte BlogServer.Scan BlogServer.Decimal
open BlogServer.Server (Session deliverAll deliverAll_message)

/-! ## Hosts with a state -/

/-- what the host at a port answers to the bytes written, and the hosts after that -/
abbrev Hosts (σ : Type*) := Bytes → ℤ → Bytes → σ → Option (List Bytes) × σ

variable {σ : Type*}

section Requests

variable (hosts : Hosts σ) (html : Html) (junk : ℕ → ResponseUninit) (h : ProxyHandler)

/-- `proxy_request` -/
def proxyRequestOn : ℕ → Request → Bytes → Bytes → ℤ → σ → Except Fault Response × σ
  | 0, _, _, _, _, s => (.error .outOfFuel, s)
  | fuel + 1, request, uri, url, port, s =>
    match hosts url h.serverPortNum (buildRequestString (forwardedRequest request uri url port)) s with
    | (none, s) => (.error .escaped, s)
    | (some reads, s) =>
      match readResponse (ResponseParser.fresh (junk fuel)) reads with
      | none => (.ok getErrorResponse, s)
      | some response =>
        if response.code = StatusCode.moved_temporarily ∨ response.code = StatusCode.moved_permanently then
          match redirectTarget (response.headers.getD (ascii "Location") []) url port with
          | none => (.error .escaped, s)
          | some (newUri, newUrl, newPort) => proxyRequestOn fuel request newUri newUrl newPort s
        else (.ok (relayed html h response), s)

/-- `handle_request` -/
def handleRequestOn (fuel : ℕ) (request : Request) (s : σ) : Except Fault Response × σ :=
  match askedUri h request.uri with
  | none => (.error .escaped, s)
  | some uri => proxyRequestOn hosts html junk h fuel request uri h.serverUrl h.serverPortNum s

end Requests

/-- on hosts without a state it is `proxyRequest` -/
theorem proxyRequestOn_stateless (net : Network) (html : Html) (junk : ℕ → ResponseUninit) (h : ProxyHandler) (fuel : ℕ)
    (request : Request) (uri url : Bytes) (port : ℤ) (s : σ) :
    proxyRequestOn (fun url port w s => (net url port w, s)) html junk h fuel request uri url port s =
      (proxyRequest net html junk h fuel request uri url port, s) := by
  induction fuel generalizing uri url port with
  | zero => rfl
  | succ fuel ih =>
    rw [proxyRequestOn, proxyRequest]
    cases net url h.serverPortNum (buildRequestString (forwardedRequest request uri url port)) with
    | none => rfl
    | some reads =>
      simp only
      cases readResponse (ResponseParser.fresh (junk fuel)) reads with
      | none => rfl
      | some response =>
        simp only
        by_cases hcode : response.code = StatusCode.moved_temporarily ∨ response.code = StatusCode.moved_permanently
        · rw [if_pos hcode, if_pos hcode]
          cases redirectTarget (response.headers.getD (ascii "Location") []) url port with
          | none => rfl
          | some target => exact ih target.1 target.2.1 target.2.2
        · rw [if_neg hcode, if_neg hcode]

/-- and the handler is the one on the network -/
theorem handleRequestOn_stateless (net : Network) (html : Html) (junk : ℕ → ResponseUninit) (h : ProxyHandler)
    (fuel : ℕ) (request : Request) (s : σ) :
    handleRequestOn (fun url port w s => (net url port w, s)) html junk h fuel request s =
      (handleRequest net html junk h fuel request, s) := by
  rw [handleRequest_asks, handleRequestOn]
  cases askedUri h request.uri with
  | none => rfl
  | some uri => exact proxyRequestOn_stateless net html junk h fuel request uri _ _ s

/-! ## A host that is a server -/

/-- what the handlers leave of their state for a request -/
def after (d : Server.Dispatcher σ) (s : σ) (request : Request) : σ :=
  if d.statusHandlerEnabled then
    d.recordReceivedRequest (d.handleRequest s request).2 request.uri (d.handleRequest s request).1.code
  else (d.handleRequest s request).2

/-- the host at the port is a server with these handlers: a connection is a session, to which what is written comes in
pieces, and what it sends is read in pieces -/
def ServedBy (hosts : Hosts σ) (url : Bytes) (port : ℤ) (d : Server.Dispatcher σ) : Prop :=
  ∀ w s, ∃ u junk pieces reads, pieces.flatten = w ∧ (∀ piece ∈ pieces, piece ≠ []) ∧
    hosts url port w s = (some reads, (deliverAll d junk (.start u s) pieces).world) ∧
    reads.flatten = (deliverAll d junk (.start u s) pieces).sent.flatMap toBuffers

/-- a host that gets everything in one piece, and is read in one -/
def sessionHost (d : Server.Dispatcher σ) : Hosts σ := fun _ _ w s =>
  let session := deliverAll d (fun _ => .GET) (.start ⟨0, 0, 0⟩ s) (if w = [] then [] else [w])
  (some [session.sent.flatMap toBuffers], session.world)

theorem sessionHost_servedBy (d : Server.Dispatcher σ) (url : Bytes) (port : ℤ) :
    ServedBy (sessionHost d) url port d := by
  intro w s
  refine ⟨⟨0, 0, 0⟩, fun _ => .GET, if w = [] then [] else [w], _, ?_, ?_, rfl, List.append_nil _⟩
  · split_ifs with hw
    · rw [hw, List.flatten_nil]
    · exact List.append_nil w
  · split_ifs with hw
    · exact nofun
    · exact fun piece hpiece => (List.mem_singleton.1 hpiece).symm ▸ hw

/-! ## Through both parsers -/

/-- a request that its own headers, in byte order, announce -/
structure Forwardable (request : Request) : Prop where
  version : ∃ x y : ℕ, x < 2147483648 ∧ y < 2147483648 ∧
    request.version = ascii "HTTP/" ++ decimal x ++ ascii "." ++ decimal y
  headers : ∀ y ∈ request.headers.headers, y.Sendable ∧ RequestParser.Measured y
  size : announcedSize request.headers.headers = request.body.length

/-- a request that was read from a client is, when its version has not wrapped and the last length counts -/
theorem forwardable_of_accepted {w : Bytes} {u : Uninit} {t : RequestParser.St}
    (h : Accepts RequestParser.consume (RequestParser.fresh, .fresh u) w t) (hmajor : 0 ≤ t.2.httpVersionMajor)
    (hminor : 0 ≤ t.2.httpVersionMinor) (hsize : announcedSize (headerMap t.2.headers).headers = t.2.body.length)
    (m₀ : MethodEnum) : Forwardable (t.2.buildRequest m₀) := by
  obtain ⟨hmajorRange, hminorRange⟩ := versionInRange_of_accepts h
  refine ⟨⟨t.2.httpVersionMajor.toNat, t.2.httpVersionMinor.toNat, by omega, by omega, ?_⟩, fun y hy => ?_, hsize⟩
  · rw [← toString_of_nonneg hmajor, ← toString_of_nonneg hminor]
    rfl
  · exact RequestParser.headersRead_of_accepts h y (mem_headers_of_built hy)

section Served

variable {request : Request} {uri url : Bytes}

/-- **What is forwarded is read**, as it was built. -/
theorem forwarded_read (hrequest : Forwardable request) (huri : ∀ c ∈ uri, c ≠ SP ∧ isCtl c = false)
    (hurl : ∀ c ∈ url, isCtl c = false) (port : ℤ) (u : Uninit) :
    ∃ t, Accepts RequestParser.consume (RequestParser.fresh, .fresh u)
        (buildRequestString (forwardedRequest request uri url port)) t ∧
      ∀ m₀, t.2.buildRequest m₀ = forwardedRequest request uri url port := by
  obtain ⟨x, y, hx, hy, hversion⟩ := hrequest.version
  have hser : RequestParser.Serializable (forwardedRequest request uri url port) x y :=
    ⟨huri, hversion, fun z hz => (forwarded_sendable hrequest.headers hurl uri port z hz).1⟩
  have hsize := forwarded_announced hrequest.headers hurl uri port
  rw [hrequest.size] at hsize
  obtain ⟨t, ht⟩ := (RequestParser.serialized_accepts_iff hser u).2 hsize
  exact ⟨t, ht, RequestParser.buildRequest_hasRead (RequestParser.serialized_hasRead hser ht) hser hx hy⟩

/-- nothing follows what one response is accepted from -/
theorem nothingFollows_of_accepts {s t : ResponseParser.St} {w : Bytes}
    (h : Accepts ResponseParser.consume s w t) : NothingFollows s w := by
  rintro x t' rest rfl hx -
  left
  have hall := feed_stop hx (by decide) rest
  rw [Accepts] at h
  rw [h] at hall
  exact (Prod.mk.inj (Prod.mk.inj hall).2).2.symm

/-- **What is sent is read**, in whatever pieces. -/
theorem readResponse_sent {response : Response} (hresponse : ResponseParser.Serializable response) {reads : List Bytes}
    (hreads : reads.flatten = toBuffers response) (u : ResponseUninit) :
    readResponse (ResponseParser.fresh u) reads = some response := by
  obtain ⟨t, hacc, hcode, hheaders, hbody⟩ := ResponseParser.reads_response hresponse u
  have hbuilt : t.2.buildResponse = response := by
    rw [ResponseBuilder.buildResponse, hcode, hheaders, headerMap_headers, hbody]
  have hall := readLoop_answer (ResponseParser.framing_fresh u) reads (by
    rw [hreads]
    exact nothingFollows_of_accepts hacc)
  rw [readResponse_outcome, hall, hreads, answer, show feed _ _ _ = _ from hacc]
  exact congrArg some hbuilt

/-- **One connection to a server.** Its handlers are called once, with the request as it was forwarded, and what they
return is what `read_response` returns. -/
theorem served_answers {hosts : Hosts σ} {hostPort : ℤ} {d : Server.Dispatcher σ} (hhost : ServedBy hosts url hostPort d)
    (hrequest : Forwardable request) (huri : ∀ c ∈ uri, c ≠ SP ∧ isCtl c = false) (hurl : ∀ c ∈ url, isCtl c = false)
    (port : ℤ) (s : σ)
    (hresponse : ResponseParser.Serializable (d.handleRequest s (forwardedRequest request uri url port)).1) :
    ∃ reads, hosts url hostPort (buildRequestString (forwardedRequest request uri url port)) s =
        (some reads, after d s (forwardedRequest request uri url port)) ∧
      ∀ u, readResponse (ResponseParser.fresh u) reads =
        some (d.handleRequest s (forwardedRequest request uri url port)).1 := by
  obtain ⟨u, junk, pieces, reads, hpieces, hne, hanswer, hsent⟩ :=
    hhost (buildRequestString (forwardedRequest request uri url port)) s
  obtain ⟨t, hacc, hbuilt⟩ := forwarded_read hrequest huri hurl port u
  rw [← hpieces] at hacc
  have hsession := deliverAll_message d junk (s := Session.start u s) rfl hacc hne
  -- the session passes the request on, and sends the response
  have hcall : t.2.buildRequest (junk 0) = forwardedRequest request uri url port := hbuilt _
  have hworld : (deliverAll d junk (.start u s) pieces).world = after d s (forwardedRequest request uri url port) := by
    rw [hsession, after, ← hcall, Session.served]
    split_ifs <;> rfl
  have hresponses : (deliverAll d junk (.start u s) pieces).sent =
      [(d.handleRequest s (forwardedRequest request uri url port)).1] := by
    rw [hsession, ← hcall, Session.served]
    split_ifs <;> rfl
  rw [hworld] at hanswer
  rw [hresponses, List.flatMap_singleton] at hsent
  exact ⟨reads, hanswer, readResponse_sent hresponse hsent⟩

end Served

/-! ## Responses that are sent as they are -/

/-- a header more, which says nothing of the body -/
theorem serializable_insert {response : Response} (hresponse : ResponseParser.Serializable response)
    {name value : Bytes} (hsendable : (⟨name, value⟩ : Header).Sendable) (hlength : isContentLength name = false)
    (hplain : ResponseParser.isChunked ⟨name, value⟩ = false) :
    ResponseParser.Serializable { response with headers := response.headers.insert name value } := by
  obtain ⟨lengthName, hname, hmem, honly⟩ := hresponse.length
  refine ⟨hresponse.code, fun y hy => ?_, fun y hy => ?_, hresponse.size, lengthName, hname, ?_, fun y hy hl => ?_⟩
  · rcases mem_headers_insert hy with rfl | hy
    · exact hsendable
    · exact hresponse.headers y hy
  · rcases mem_headers_insert hy with rfl | hy
    · exact hplain
    · exact hresponse.plain y hy
  · have hne : lengthName ≠ name := by
      rintro rfl
      exact absurd (hname.symm.trans hlength) (by decide)
    exact mem_headers_iff.2 (SortedMap.mem_insert_iff.2 (Or.inr ⟨mem_headers_iff.1 hmem, hne⟩))
  · rcases mem_headers_insert hy with rfl | hy
    · exact absurd (hl.symm.trans hlength) (by decide)
    · exact honly y hy hl

/-- a length and a type, as most handlers write them -/
theorem typed_serializable {status : ℤ} (hstatus : status = StatusCode.ok ∨ status = StatusCode.bad_request ∨
      status = StatusCode.not_found ∨ status = StatusCode.moved_temporarily)
    {body mimeType : Bytes} (hsize : body.length < 2147483648) (htype : ∀ c ∈ mimeType, isCtl c = false) :
    ResponseParser.Serializable
      ⟨status, (SortedMap.empty.insert (ascii "Content-Length") (decimal body.length)).insert (ascii "Content-Type")
        mimeType, body⟩ := by
  have hlengthName : ascii "Content-Length" ≠ [] ∧ ∀ c ∈ ascii "Content-Length", isToken c = true := by decide
  have htypeName : ascii "Content-Type" ≠ [] ∧ ∀ c ∈ ascii "Content-Type", isToken c = true := by decide
  have honly : ∀ y ∈ HeaderMap.headers (SortedMap.empty.insert (ascii "Content-Length") (decimal body.length)),
      y = ⟨ascii "Content-Length", decimal body.length⟩ := by
    intro y hy
    rcases mem_headers_insert hy with heq | hy
    · exact heq
    · cases hy
  have hlength : ResponseParser.Serializable
      ⟨status, SortedMap.empty.insert (ascii "Content-Length") (decimal body.length), body⟩ := by
    refine ⟨hstatus, fun y hy => ?_, fun y hy => ?_, hsize, ascii "Content-Length", by decide, ?_, fun y hy _ => ?_⟩
    · rw [honly y hy]
      exact ⟨hlengthName.1, hlengthName.2, fun c hc => not_isCtl_of_isDigit (isDigit_decimal _ c hc)⟩
    · rw [honly y hy]
      rfl
    · exact mem_headers_iff.2 (SortedMap.mem_insert_iff.2 (Or.inl rfl))
    · exact honly y hy
  exact serializable_insert hlength ⟨htypeName.1, htypeName.2, htype⟩ (by decide) rfl

/-! ## The response of a proxy -/

/-- **Through the proxy, once.** A request that a proxy handler is called with is handled once by the server that it
stands before, as it was forwarded; and the client gets the relayed response of the handlers there. -/
theorem proxied_once {hosts : Hosts σ} {h : ProxyHandler} {d : Server.Dispatcher σ}
    (hhost : ServedBy hosts h.serverUrl h.serverPortNum d) {request : Request} (hrequest : Forwardable request)
    {uri : Bytes} (hasked : askedUri h request.uri = some uri) (huri : ∀ c ∈ uri, c ≠ SP ∧ isCtl c = false)
    (hurl : ∀ c ∈ h.serverUrl, isCtl c = false) (s : σ) {response : Response}
    (hhandled : (d.handleRequest s (forwardedRequest request uri h.serverUrl h.serverPortNum)).1 = response)
    (hresponse : ResponseParser.Serializable response) (hcode : response.code ≠ StatusCode.moved_temporarily)
    (html : Html) (junk : ℕ → ResponseUninit) (fuel : ℕ) :
    handleRequestOn hosts html junk h (fuel + 1) request s =
      (.ok (relayed html h response), after d s (forwardedRequest request uri h.serverUrl h.serverPortNum)) := by
  subst hhandled
  obtain ⟨reads, hanswer, hread⟩ := served_answers hhost hrequest huri hurl h.serverPortNum s hresponse
  have hmoved : (d.handleRequest s (forwardedRequest request uri h.serverUrl h.serverPortNum)).1.code ≠
      StatusCode.moved_permanently := by
    rcases hresponse.code with hc | hc | hc | hc <;> rw [hc] <;> decide
  rw [handleRequestOn, hasked]
  simp only [proxyRequestOn, hanswer, hread]
  rw [if_neg (not_or.2 ⟨hcode, hmoved⟩)]

/-- a server that counts its requests -/
def counting : Server.Dispatcher ℕ where
  handleRequest n _ := (htmlResponse StatusCode.ok stockNotFound, n + 1)
  statusHandlerEnabled := false
  recordReceivedRequest n _ _ := n

/-- a GET through a proxy counts one -/
theorem proxied_once_counting :
    handleRequestOn (sessionHost counting) ⟨id, fun _ content => content⟩ (fun _ => ⟨0, 0, 0, 0, 0⟩)
        (.init (ascii "/w") (ascii "upstream", 80)) 1 ⟨.GET, ascii "/w/a", ascii "HTTP/1.1", SortedMap.empty, []⟩ 4 =
      (.ok (relayed ⟨id, fun _ content => content⟩ (.init (ascii "/w") (ascii "upstream", 80))
        (htmlResponse StatusCode.ok stockNotFound)), 5) := by
  have hrequest : Forwardable ⟨.GET, ascii "/w/a", ascii "HTTP/1.1", SortedMap.empty, []⟩ :=
    ⟨⟨1, 1, by decide, by decide, by decide⟩, nofun, by decide⟩
  have hasked : askedUri (.init (ascii "/w") (ascii "upstream", 80)) (ascii "/w/a") = some (ascii "/a") := by decide
  exact proxied_once (sessionHost_servedBy counting _ _) hrequest hasked (by decide) (by decide) 4 rfl
    (typed_serializable (Or.inl rfl) (by decide) (by decide)) (by decide) _ _ 0

end BlogServer.Proxy
