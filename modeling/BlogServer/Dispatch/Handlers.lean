/-
`handle_request` of every handler.

A handler is called with what is outside of it (`Environment`): the file system, the database behind each connection,
and what a proxy uses. The databases share a state. Two things of the outside keep a handler from returning whatever the
request is: a file that has no end, and a database that could not be connected to, since the constructor of
`blog_database` catches that and leaves `conn_` without a value. The static handler is written once more here with the
bounds of its `substr` calls, whose exceptions `StaticHandler.handleRequest` leaves out: none of them is thrown
(`handleRequestChecked_eq`).

- `handleRequest_ok_iff`: a handler that is no proxy returns a response, but where it is stuck (`Handler.Stuck`).
-/
import BlogServer.Dispatch.Registration
import BlogServer.Http.RequestCodec

namespace BlogServer.Dispatch

open BlogServer.Byte BlogServer.Config BlogServer.Http BlogServer.Posts BlogServer.Proxy

/-! ## Responses -/

/-- a response of plain text -/
def plainResponse (status : ℤ) (body : Bytes) : Response where
  code := status
  headers := (SortedMap.empty.insert (ascii "Content-Length") (Decimal.decimal body.length)).insert
    (ascii "Content-Type") (ascii "text/plain")
  body := body

/-- `echo_request_handler::build_request_string`; the names of three methods are written -/
def EchoHandler.buildRequestString (request : Request) : Bytes :=
  (match request.method with
    | .GET => ascii "GET "
    | .POST => ascii "POST "
    | .DELETE => ascii "DELETE "
    | _ => []) ++
  request.uri ++ ascii " " ++ request.version ++ CRLF ++ request.headers.headers.flatMap Header.line ++ CRLF ++
  request.body

/-- `form_html_` -/
def formHtml : Bytes :=
  ascii "<!DOCTYPE html>\n<html>\n    <head>\n        <meta charset='utf-8'>\n" ++
  ascii "        <title>Blog Upload Form</title>\n    </head>\n    <body>\n" ++
  ascii "        <form action='/blog' method='POST'>\n        <div>\n" ++
  ascii "            <label for='submissiontitle'>Title</label>\n" ++
  ascii "            <input name='submissiontitle' id='submissiontitle' placeholder='Blog Title'>\n" ++
  ascii "        </div>\n        <div>\n            <label for='submissionbody'>Body</label>\n" ++
  ascii "            <textarea name='submissionbody' id='submissionbody' placeholder='Blog Body Text'></textarea>\n" ++
  ascii "        </div>\n        <div>\n            <button>Submit</button>\n        </div>\n        </form>\n" ++
  ascii "    </body>\n</html>\n"

/-- the body of `status_request_handler::handle_request` -/
def StatusHandler.page (h : StatusHandler) : Bytes :=
  ascii "Number of requests received: " ++ Decimal.toString h.requestCounter ++ CRLF ++ h.receivedRequestList ++
    h.handlerList

/-- `redirect_request_handler::handle_request` -/
def redirectResponse (serverUrl : Bytes) : Response where
  code := StatusCode.moved_temporarily
  headers := SortedMap.empty.insert (ascii "Location") serverUrl
  body := []

/-! ## The bounds of the static handler -/

/-- `s.substr(pos)`; `none` is the exception -/
def substr (s : Bytes) (pos : ℕ) : Option Bytes := if s.length < pos then none else some (s.drop pos)

theorem substr_of_le {s : Bytes} {pos : ℕ} (h : pos ≤ s.length) : substr s pos = some (s.drop pos) :=
  if_neg (not_lt.2 h)

/-- `stripLocation` with the exceptions of `substr` -/
def stripLocationChecked (clientLocationPath uri clientUriPath subUriPath : Bytes) : Option Bytes :=
  if clientUriPath = clientLocationPath then some subUriPath
  else
    match _h : Bytes.findLastOf SLASH clientUriPath with
    | none => some subUriPath
    | some slashPos =>
      match substr uri slashPos with
      | none => none
      | some subUriPath => stripLocationChecked clientLocationPath uri (clientUriPath.take slashPos) subUriPath
termination_by clientUriPath.length
decreasing_by
  have := findLastOf_lt _h
  rw [List.length_take]
  omega

/-- a slash of `client_uri_path` is one of `uri` -/
theorem stripLocationChecked_eq (clientLocationPath : Bytes) {uri clientUriPath : Bytes} (subUriPath : Bytes)
    (hlength : clientUriPath.length ≤ uri.length) :
    stripLocationChecked clientLocationPath uri clientUriPath subUriPath =
      some (stripLocation clientLocationPath uri clientUriPath subUriPath) := by
  induction hn : clientUriPath.length using Nat.strong_induction_on generalizing clientUriPath subUriPath with
  | _ n ih =>
    rw [stripLocationChecked, stripLocation]
    split_ifs
    · rfl
    · cases hi : Bytes.findLastOf SLASH clientUriPath with
      | none => rfl
      | some slashPos =>
        have hlt := findLastOf_lt hi
        have hshort : (clientUriPath.take slashPos).length = slashPos := by
          rw [List.length_take]
          omega
        simp only [substr_of_le (show slashPos ≤ uri.length by omega)]
        exact ih _ (by omega) _ (by omega) rfl

/-- `getMimeType` with the exception of `substr` -/
def getMimeTypeChecked (fileName : Bytes) : Option Bytes :=
  match Bytes.findLastOf DOT fileName with
  | some lastDotIndex =>
    (substr fileName (lastDotIndex + 1)).map fun extension => (mappings.lookup extension).getD (ascii "text/plain")
  | none => some (ascii "text/plain")

theorem getMimeTypeChecked_eq (fileName : Bytes) : getMimeTypeChecked fileName = some (getMimeType fileName) := by
  unfold getMimeTypeChecked getMimeType
  cases hi : Bytes.findLastOf DOT fileName with
  | none => rfl
  | some lastDotIndex =>
    have hlt := findLastOf_lt hi
    simp only [substr_of_le (Nat.succ_le_of_lt hlt), Option.map_some]

/-- `StaticHandler.handleRequest` with the exceptions of `substr` -/
def StaticHandler.handleRequestChecked (files : Bytes → Option Bytes) (h : StaticHandler) (request : Request) :
    Option Response :=
  let uri := decodeSpaces request.uri
  match stripLocationChecked h.clientLocationPath uri uri uri with
  | none => none
  | some subUriPath =>
    match files ((h.serverRootPath ++ subUriPath).takeWhile fun c => c != NUL) with
    | none => some (htmlResponse StatusCode.not_found stockNotFound)
    | some body =>
      (getMimeTypeChecked uri).map fun mimeType =>
        { code := StatusCode.ok
          headers := (SortedMap.empty.insert (ascii "Content-Length") (Decimal.decimal body.length)).insert
            (ascii "Content-Type") mimeType
          body := body }

/-- **No `substr` of the static handler throws.** -/
theorem StaticHandler.handleRequestChecked_eq (files : Bytes → Option Bytes) (h : StaticHandler) (request : Request) :
    h.handleRequestChecked files request = some (h.handleRequest files request) := by
  unfold StaticHandler.handleRequestChecked StaticHandler.handleRequest StaticHandler.fileName StaticHandler.subUriPath
  simp only [stripLocationChecked_eq _ _ (le_refl _), getMimeTypeChecked_eq, Option.map_some]
  cases files ((h.serverRootPath ++ stripLocation h.clientLocationPath (decodeSpaces request.uri)
    (decodeSpaces request.uri) (decodeSpaces request.uri)).takeWhile fun c => c != NUL) <;> rfl

/-- the name of the file that is opened -/
def StaticHandler.opened (h : StaticHandler) (request : Request) : Bytes :=
  (h.fileName request.uri).takeWhile fun c => c != NUL

/-! ## `handle_request` -/

/-- what the handlers use; `σ` is the state behind all databases -/
structure Environment (σ : Type) where
  files : Bytes → Option Bytes
  /-- the files that reading does not come to an end of, as of a device: the loop over `get` has no bound -/
  endless : Bytes → Bool
  database : Connection → Database σ
  /-- the locations whose blog handler was made while no connection could be made: its `conn_` is uninitialised -/
  refused : Bytes → Bool
  network : Network
  html : Html
  junk : ℕ → ResponseUninit
  /-- the calls of `proxy_request` that one request may lead to -/
  redirects : ℕ

/-- what ends a call without a response -/
inductive Crash where
  /-- a call through a null pointer -/
  | nullPointer
  | static
  /-- no memory holds what is read -/
  | endlessFile
  | proxy (fault : Proxy.Fault)
  | blog (fault : Posts.Fault)
  /-- a use of `conn_` that nothing was assigned to -/
  | unconnected
deriving DecidableEq, Repr

/-- how a blog handler without a connection ends: only `substr` and `stoi` come before the use of the database -/
def unconnected : Except Posts.Fault Response → Crash
  | .error fault => if fault = .outOfRange then .blog .outOfRange else .unconnected
  | .ok _ => .unconnected

/-- `handle_request` of the handler that the pointer is of -/
def Handler.handleRequest {σ : Type} (env : Environment σ) (request : Request) (s : σ) :
    Handler → Except Crash Response × σ
  | .echo _ => (.ok (plainResponse StatusCode.ok (EchoHandler.buildRequestString request)), s)
  | .static h =>
    match h.handleRequestChecked env.files request with
    | none => (.error .static, s)
    | some response => (if env.endless (h.opened request) then .error .endlessFile else .ok response, s)
  | .status h => (.ok (plainResponse StatusCode.ok h.page), s)
  | .proxy h => ((Proxy.handleRequest env.network env.html env.junk h env.redirects request).mapError .proxy, s)
  | .redirect serverUrl => (.ok (redirectResponse serverUrl), s)
  | .health => (.ok (plainResponse StatusCode.ok (ascii "OK")), s)
  | .uploadForm => (.ok (htmlResponse StatusCode.ok formHtml), s)
  | .blog h connection =>
    let (response, s') := Posts.handleRequest h (env.database connection) request s
    if env.refused h.locationPrefix then (.error (unconnected response), s) else (response.mapError .blog, s')
  | .error404 => (.ok (htmlResponse StatusCode.not_found stockNotFound), s)

section Static

variable {σ : Type} {env : Environment σ} {request : Request} {s : σ} {h : StaticHandler}

/-- a static handler returns its response, once it has read the file -/
theorem handleRequest_static (env : Environment σ) (h : StaticHandler) (request : Request) (s : σ) :
    (Handler.static h).handleRequest env request s =
      (if env.endless (h.opened request) then .error .endlessFile else .ok (h.handleRequest env.files request), s) := by
  rw [Handler.handleRequest, StaticHandler.handleRequestChecked_eq]

theorem handleRequest_static_ok {response : Response}
    (hok : ((Handler.static h).handleRequest env request s).1 = .ok response) :
    response = h.handleRequest env.files request := by
  rw [handleRequest_static] at hok
  split_ifs at hok
  exact (Except.ok.inj hok).symm

end Static

section Blog

variable {σ : Type} {env : Environment σ} {request : Request} {s : σ} {h : BlogUploadHandler} {connection : Connection}

/-- a blog handler with a connection -/
theorem handleRequest_blog (hconnected : env.refused h.locationPrefix = false) (connection : Connection)
    (request : Request) (s : σ) :
    (Handler.blog h connection).handleRequest env request s =
      ((Posts.handleRequest h (env.database connection) request s).1.mapError .blog,
        (Posts.handleRequest h (env.database connection) request s).2) := by
  simp only [Handler.handleRequest, hconnected, Bool.false_eq_true, if_false]

/-- without one it returns no response, and changes nothing -/
theorem handleRequest_refused (hrefused : env.refused h.locationPrefix = true) (connection : Connection)
    (request : Request) (s : σ) :
    (Handler.blog h connection).handleRequest env request s =
      (.error (unconnected (Posts.handleRequest h (env.database connection) request s).1), s) := by
  simp only [Handler.handleRequest, hrefused, if_true]

/-- what has returned a response has a connection -/
theorem connected_of_ok {response : Response}
    (hok : ((Handler.blog h connection).handleRequest env request s).1 = .ok response) :
    env.refused h.locationPrefix = false := by
  cases hrefused : env.refused h.locationPrefix with
  | false => rfl
  | true =>
    rw [handleRequest_refused hrefused] at hok
    cases hok

end Blog

/-- the type that a handler is of -/
def Handler.type : Handler → Option HandlerType
  | .echo _ => some .echo
  | .static _ => some .static
  | .status _ => some .status
  | .proxy _ => some .proxy
  | .redirect _ => some .redirect
  | .health => some .health
  | .uploadForm => some .uploadForm
  | .blog _ _ => some .blog
  | .error404 => none

theorem exists_mapError_ok {ε ε' α : Type} {f : ε → ε'} {x : Except ε α} :
    (∃ a, x.mapError f = .ok a) ↔ ∃ a, x = .ok a := by
  cases x with
  | error e => simp [Except.mapError]
  | ok a => simp [Except.mapError]

/-- a handler that does not return, whatever is behind it -/
def Handler.Stuck {σ : Type} (env : Environment σ) (request : Request) : Handler → Prop
  | .static h => env.endless (h.opened request) = true
  | .blog h _ => env.refused h.locationPrefix = true ∨ Unanswered h request
  | _ => False

/-- **A handler returns a response**, but for a proxy and where it is stuck. -/
theorem Handler.handleRequest_ok_iff {σ : Type} (env : Environment σ) {request : Request} (s : σ) {handler : Handler}
    (hproxy : handler.type ≠ some .proxy)
    (hlength : ∀ h connection, handler = .blog h connection → h.locationPrefix.length ≤ request.uri.length) :
    (∃ response, (handler.handleRequest env request s).1 = .ok response) ↔ ¬ handler.Stuck env request := by
  cases handler with
  | proxy => exact absurd rfl hproxy
  | blog h connection =>
    have hblog := Posts.handleRequest_ok_iff h (env.database connection) (hlength h connection rfl) s
    rw [Handler.Stuck, not_or, Bool.not_eq_true, ← hblog]
    constructor
    · intro hok
      obtain ⟨response, hok⟩ := hok
      have hconnected := connected_of_ok hok
      rw [handleRequest_blog hconnected] at hok
      exact ⟨hconnected, exists_mapError_ok.1 ⟨response, hok⟩⟩
    · intro hboth
      obtain ⟨hconnected, hok⟩ := hboth
      rw [handleRequest_blog hconnected]
      exact exists_mapError_ok.2 hok
  | static h =>
    rw [handleRequest_static, Handler.Stuck]
    cases env.endless (h.opened request) with
    | false => exact ⟨fun _ => Bool.false_ne_true, fun _ => ⟨_, rfl⟩⟩
    | true =>
      constructor
      · intro hok
        cases hok.choose_spec
      · intro hnot
        exact absurd rfl hnot
  | _ => exact ⟨fun _ hstuck => hstuck, fun _ => ⟨_, rfl⟩⟩

end BlogServer.Dispatch
