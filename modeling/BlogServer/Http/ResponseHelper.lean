/-
`ResponseHelperLibrary`: status lines, stock responses and the bytes of a response on the wire.

`to_buffers` returns a sequence of buffers; what is sent is their concatenation.
-/
import BlogServer.Http.Message

namespace BlogServer.Http

/-! ## `Response::StatusCode` -/

namespace StatusCode

abbrev ok : ℤ := 200
abbrev moved_permanently : ℤ := 301
abbrev moved_temporarily : ℤ := 302
abbrev bad_request : ℤ := 400
abbrev not_found : ℤ := 404
abbrev bad_gateway : ℤ := 502

end StatusCode

/-! ## `ResponseHelperLibrary` -/

/-- `stock_responses::bad_request` -/
def stockBadRequest : Bytes :=
  ascii "<html><head><title>Bad Request</title></head><body><h1>400 Bad Request</h1></body></html>"

/-- `stock_responses::not_found` -/
def stockNotFound : Bytes :=
  ascii "<html><head><title>Not Found</title></head><body><h1>404 Not Found</h1></body></html>"

/-- `stock_responses::bad_gateway` -/
def stockBadGateway : Bytes :=
  ascii "<html><head><title>Bad Gateway</title></head><body><h1>502 Bad Gateway</h1></body></html>"

/-- `ResponseHelperLibrary::to_buffer`: the status line, `bad_request` by default -/
def toBuffer (status : ℤ) : Bytes :=
  if status = StatusCode.ok then ascii "HTTP/1.0 200 OK\r\n"
  else if status = StatusCode.bad_request then ascii "HTTP/1.0 400 Bad Request\r\n"
  else if status = StatusCode.not_found then ascii "HTTP/1.0 404 Not Found\r\n"
  else if status = StatusCode.moved_temporarily then ascii "HTTP/1.0 302 Moved Temporarily\r\n"
  else ascii "HTTP/1.0 400 Bad Request\r\n"

/-- `ResponseHelperLibrary::to_buffers` -/
def toBuffers (response : Response) : Bytes :=
  toBuffer response.code ++ (response.headers.headers.flatMap Header.line ++ CRLF ++ response.body)

/-- `ResponseHelperLibrary::to_string` -/
def stockBody (status : ℤ) : Bytes := if status = StatusCode.not_found then stockNotFound else stockBadRequest

/-- a response whose headers are those every handler of the repository starts from -/
def htmlResponse (status : ℤ) (body : Bytes) : Response where
  code := status
  headers := (SortedMap.empty.insert (ascii "Content-Length") (Decimal.decimal body.length)).insert
    (ascii "Content-Type") (ascii "text/html")
  body := body

/-- `ResponseHelperLibrary::stock_response` -/
def stockResponse (status : ℤ) : Response := htmlResponse status (stockBody status)

end BlogServer.Http
