/-
`proxy_request_handler`: the request it sends upstream, the loop that reads the response, the redirects it follows, the
rewriting of HTML.

What is not in the repository is a parameter: the network (`Network`: what the upstream answers to the bytes written to
it, as the reads of the socket up to its first error) and the libraries behind `handle_html` (`Html`: gzip, and
libxml2's parse and dump around the rewriting of links). `proxy_request` calls itself for every redirect, without a
bound: `fuel` is the number of calls.

- `forwardedRequest`: the request written upstream.
- `relayed`: the response made of one that is not a redirect.
- `proxyRequest_relayed`: that is what `proxy_request` returns.
-/
import BlogServer.Http.ResponseCodec

namespace BlogServer.Proxy

open BlogServer.Http BlogServer.Byte BlogServer.Scan

/-- `class proxy_request_handler` -/
structure ProxyHandler where
  clientLocationPath : Bytes
  serverUrl : Bytes
  serverLocationPath : Bytes
  serverPortNum : ℤ

/-- `proxy_request_handler::Init`, on the entry of `proxy_locations_` under the location -/
def ProxyHandler.init (locationPath : Bytes) (entry : Bytes × ℤ) : ProxyHandler :=
  let serverUrl := entry.1
  match Bytes.find [SLASH] serverUrl with
  | some pos =>
    let path := serverUrl.drop pos
    { clientLocationPath := locationPath
      serverUrl := serverUrl.take pos
      serverLocationPath := if path.getLast? = some SLASH then path.take (path.length - 1) else path
      serverPortNum := entry.2 }
  | none => ⟨locationPath, serverUrl, [], entry.2⟩

/-! ## What is outside -/

/-- what the host at a port answers to the bytes written: the reads up to the first error; `none` is an exception of
`resolve`, `connect` or `write` -/
abbrev Network := Bytes → ℤ → Bytes → Option (List Bytes)

/-- the libraries behind `handle_html` -/
structure Html where
  decompressGzip : Bytes → Bytes
  /-- `htmlReadMemory` with the given base URL, `modify_html_doc`, `htmlDocDumpMemory` -/
  rewrite : ProxyHandler → Bytes → Bytes

/-- how a call ends without a response -/
inductive Fault where
  /-- an exception leaves the handler -/
  | escaped
  | outOfFuel
deriving DecidableEq, Repr

/-! ## Requests and responses -/

/-- `proxyRequest`, as `proxy_request` fills it -/
def forwardedRequest (request : Request) (uri url : Bytes) (port : ℤ) : Request where
  method := request.method
  uri := uri
  version := request.version
  headers := (request.headers.insert (ascii "Host") (url ++ ascii ":" ++ Decimal.toString port)).insert
    (ascii "Accept-Encoding") (ascii "gzip, identity")
  body := request.body

/-- the loop of `read_response`, from what the parser and the builder hold; `none` is `false` -/
def readResponse (s : ResponseParser.St) : List Bytes → Option Response
  | [] => none
  | data :: reads =>
    match ResponseParser.parse s data with
    | (.good, _, s') => some s'.2.buildResponse
    | (.bad, _, _) => none
    | (.indeterminate, _, s') => readResponse s' reads

/-- `get_error_response` -/
def getErrorResponse : Response := htmlResponse StatusCode.bad_gateway stockBadGateway

/-- the HTML that `handle_html` parses -/
def htmlContent (html : Html) (response : Response) : Bytes :=
  match response.headers.find? (ascii "Content-Encoding") with
  | some contentEncoding =>
    if Bytes.includes (ascii "gzip") contentEncoding then html.decompressGzip response.body else response.body
  | none => response.body

/-- the HTML that `handle_html` dumps -/
def page (html : Html) (h : ProxyHandler) (response : Response) : Bytes := html.rewrite h (htmlContent html response)

/-- `handle_html` -/
def handleHtml (html : Html) (h : ProxyHandler) (response : Response) : Response :=
  let headers :=
    match response.headers.find? (ascii "Content-Encoding") with
    | some _ => response.headers.insert (ascii "Content-Encoding") (ascii "identity")
    | none => response.headers
  { code := response.code
    headers := (headers.insert (ascii "Transfer-Encoding") (ascii "identity")).insert (ascii "Content-Length")
      (Decimal.decimal (page html h response).length)
    body := page html h response }

/-- `contentType.find("text/html") != npos`, where `operator[]` makes an absent type empty -/
def isHtml (response : Response) : Bool :=
  Bytes.includes (ascii "text/html") (response.headers.getD (ascii "Content-Type") [])

/-- the end of `proxy_request`; reading `headers_["Content-Type"]` has inserted the key -/
def relayed (html : Html) (h : ProxyHandler) (response : Response) : Response :=
  let response' := { response with
    headers := match response.headers.find? (ascii "Content-Type") with
      | some _ => response.headers
      | none => response.headers.insert (ascii "Content-Type") [] }
  if isHtml response then handleHtml html h response' else response'

/-- the URI, host and port a redirect leads to; `none` is the exception of `stoi` -/
def redirectTarget (location url : Bytes) (port : ℤ) : Option (Bytes × Bytes × ℤ) :=
  match Bytes.find (ascii "//") location with
  | none => some (location, url, port)
  | some pos =>
    let rest := location.drop (pos + 2)
    let (uri, rest) := match Bytes.find [SLASH] rest with
      | some pos => (rest.drop pos, rest.take pos)
      | none => (ascii "/", rest)
    match Bytes.find [COLON] rest with
    | some pos => (Decimal.stoi (rest.drop (pos + 1))).map fun newPort => (uri, rest.take pos, newPort)
    | none => some (uri, rest, 80)

/-- `proxy_request`; `junk` is what each new response builder leaves uninitialised -/
def proxyRequest (net : Network) (html : Html) (junk : ℕ → ResponseUninit) (h : ProxyHandler) :
    ℕ → Request → Bytes → Bytes → ℤ → Except Fault Response
  | 0, _, _, _, _ => .error .outOfFuel
  | fuel + 1, request, uri, url, port =>
    match net url h.serverPortNum (buildRequestString (forwardedRequest request uri url port)) with
    | none => .error .escaped
    | some reads =>
      match readResponse (ResponseParser.fresh (junk fuel)) reads with
      | none => .ok getErrorResponse
      | some response =>
        if response.code = StatusCode.moved_temporarily ∨ response.code = StatusCode.moved_permanently then
          match redirectTarget (response.headers.getD (ascii "Location") []) url port with
          | none => .error .escaped
          | some (newUri, newUrl, newPort) => proxyRequest net html junk h fuel request newUri newUrl newPort
        else .ok (relayed html h response)

/-- `handle_request` -/
def handleRequest (net : Network) (html : Html) (junk : ℕ → ResponseUninit) (h : ProxyHandler) (fuel : ℕ)
    (request : Request) : Except Fault Response :=
  -- `substr` throws when the location is longer than the URI
  if request.uri.length < h.clientLocationPath.length then .error .escaped
  else
    let uri := h.serverLocationPath ++ request.uri.drop h.clientLocationPath.length
    proxyRequest net html junk h fuel request (if uri = [] then ascii "/" else uri) h.serverUrl h.serverPortNum

/-- what `proxy_request` returns for a response that is no redirect -/
theorem proxyRequest_relayed {net : Network} {html : Html} {junk : ℕ → ResponseUninit} {h : ProxyHandler} {fuel : ℕ}
    {request : Request} {uri url : Bytes} {port : ℤ} {reads : List Bytes} {r : Response}
    (hnet : net url h.serverPortNum (buildRequestString (forwardedRequest request uri url port)) = some reads)
    (hread : readResponse (ResponseParser.fresh (junk fuel)) reads = some r)
    (hcode : r.code ≠ StatusCode.moved_permanently ∧ r.code ≠ StatusCode.moved_temporarily) :
    proxyRequest net html junk h (fuel + 1) request uri url port = .ok (relayed html h r) := by
  simp only [proxyRequest, hnet, hread]
  rw [if_neg (by tauto)]

end BlogServer.Proxy
