/-
`static_request_handler`: files under a root of the server, served under a location.

The file system is a parameter: what reading a path gives, if it can be opened. `open` takes the file name up to its
first NUL, as `c_str` hands it over.
-/
import BlogServer.Dispatch.UriPaths
import BlogServer.Http.ResponseHelper

namespace BlogServer.Dispatch

open BlogServer.Byte BlogServer.Config BlogServer.Http

/-- `class static_request_handler` -/
structure StaticHandler where
  clientLocationPath : Bytes
  serverRootPath : Bytes
deriving DecidableEq

/-- `static_request_handler::Init`; `none` is the exception of `at` -/
def StaticHandler.init (locationPath : Bytes) (config : NginxConfig) : Option StaticHandler :=
  (config.staticLocations.lookup locationPath).map fun root => ⟨locationPath, root⟩

/-- `mappings` -/
def mappings : List (Bytes × Bytes) :=
  [(ascii "gif", ascii "image/gif"), (ascii "htm", ascii "text/html"), (ascii "html", ascii "text/html"),
    (ascii "jpg", ascii "image/jpeg"), (ascii "jpeg", ascii "image/jpeg"), (ascii "png", ascii "image/png"),
    (ascii "zip", ascii "application/zip"), (ascii "txt", ascii "text/plain"), (ascii "pdf", ascii "application/pdf")]

/-- `get_mime_type` -/
def getMimeType (fileName : Bytes) : Bytes :=
  match Bytes.findLastOf DOT fileName with
  | some lastDotIndex => (mappings.lookup (fileName.drop (lastDotIndex + 1))).getD (ascii "text/plain")
  | none => ascii "text/plain"

namespace StaticHandler

/-- `sub_uri_path` -/
def subUriPath (h : StaticHandler) (uri : Bytes) : Bytes :=
  let uri := decodeSpaces uri
  stripLocation h.clientLocationPath uri uri uri

/-- `file_name` -/
def fileName (h : StaticHandler) (uri : Bytes) : Bytes := h.serverRootPath ++ h.subUriPath uri

/-- `handle_request` -/
def handleRequest (files : Bytes → Option Bytes) (h : StaticHandler) (request : Request) : Response :=
  match files ((h.fileName request.uri).takeWhile fun c => c != NUL) with
  | none => htmlResponse StatusCode.not_found stockNotFound
  | some body =>
    { code := StatusCode.ok
      headers := (SortedMap.empty.insert (ascii "Content-Length") (Decimal.decimal body.length)).insert
        (ascii "Content-Type") (getMimeType (decodeSpaces request.uri))
      body := body }

/-- what is asked for is the part of the decoded URI under the location -/
theorem subUriPath_eq (h : StaticHandler) (uri : Bytes) :
    h.subUriPath uri = remainder h.clientLocationPath (decodeSpaces uri) := stripLocation_eq _ _

end StaticHandler

end BlogServer.Dispatch
