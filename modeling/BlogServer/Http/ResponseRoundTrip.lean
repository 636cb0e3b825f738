/-
Responses through `to_buffers` and back.

- `reads_response`: what reading a serialized response leaves in the builder.
- `response_roundTrip`: a response with a status line of its own, sendable headers, no chunks announced and one true
  Content-Length is parsed to its last byte and built again unchanged.
-/
import BlogServer.Http.ResponseLoop

namespace BlogServer.Http

open BlogServer.Byte BlogServer.Scan BlogServer.Decimal

namespace ResponseParser

/-- a response that can be read as `to_buffers` writes it -/
structure Serializable (r : Response) : Prop where
  /-- `to_buffer` has a line for the status -/
  code : r.code = StatusCode.ok ∨ r.code = StatusCode.bad_request ∨ r.code = StatusCode.not_found ∨
    r.code = StatusCode.moved_temporarily
  headers : ∀ h ∈ r.headers.headers, h.Sendable
  plain : ∀ h ∈ r.headers.headers, isChunked h = false
  size : r.body.length < 2147483648
  /-- one header is a Content-Length, and it is true -/
  length : ∃ name, isContentLength name = true ∧ ⟨name, decimal r.body.length⟩ ∈ r.headers.headers ∧
    ∀ h ∈ r.headers.headers, isContentLength h.name = true → h = ⟨name, decimal r.body.length⟩

theorem Serializable.sentCode {r : Response} (hr : Serializable r) : sentCode r.code = r.code := by
  rcases hr.code with h | h | h | h <;> rw [h] <;> decide

/-- a blank line and a body of the announced size complete the response -/
theorem accepts_rest {w : Bytes} {b : ResponseBuilder} (hchunked : b.chunked = false) (hsize : b.contentsize = w.length)
    (hlt : w.length < 2147483648) :
    ∃ st f, Accepts consume (.headerLineStart, b) (CRLF ++ w)
      (st, { b with contentsize := 0, body := b.body ++ w, fullmessage := f }) := by
  by_cases hw : w = []
  · subst hw
    have hzero : b.contentsize = 0 := hsize
    refine ⟨.expectingNewline3, b.fullmessage ++ [CR] ++ [LF], ?_⟩
    rw [List.append_nil, List.append_nil, ← hzero]
    exact accepts_blankLine hchunked hzero
  · have hne : b.contentsize ≠ 0 := by
      rw [hsize]
      simpa using hw
    refine ⟨.expectingBody, b.fullmessage ++ [CR] ++ [LF] ++ w, (reads_blankLine hchunked hne).accepts ?_⟩
    exact accepts_body (b := { b with fullmessage := b.fullmessage ++ [CR] ++ [LF] }) hw hsize hlt

/-- **Reading a serialized response** leaves its status, its headers and its body in the builder. -/
theorem reads_response {r : Response} (hr : Serializable r) (u : ResponseUninit) :
    ∃ t, Accepts consume (fresh u) (toBuffers r) t ∧ t.2.code = r.code ∧ t.2.headers = r.headers.headers ∧
      t.2.body = r.body := by
  obtain ⟨name, hname, hmem, honly⟩ := hr.length
  obtain ⟨p, f, hline⟩ := reads_statusLine r.code u
  obtain ⟨k, f', hheaders⟩ := reads_headerLines hr.headers (b := { ResponseBuilder.fresh u with
    httpVersionMajor := 1
    httpVersionMinor := 0
    code := sentCode r.code
    reasonphrase := p
    fullmessage := f }) (RequestParser.announced_single hr.size hname hmem honly _)
  have hany : r.headers.headers.any isChunked = false := by simpa using hr.plain
  obtain ⟨st, f'', hrest⟩ := accepts_rest (w := r.body) (b := { ResponseBuilder.fresh u with
    httpVersionMajor := 1
    httpVersionMinor := 0
    code := sentCode r.code
    reasonphrase := p
    headers := [] ++ r.headers.headers
    contentsize := r.body.length
    chunked := false || r.headers.headers.any isChunked
    keepAlive := k
    fullmessage := f' }) hany rfl hr.size
  rw [toBuffers, List.append_assoc]
  exact ⟨_, hline.accepts (hheaders.accepts hrest), hr.sentCode, rfl, rfl⟩

/-- **Response round trip.** A new parser says good to what `to_buffers` writes, at its last byte, and the response
built is the response written. -/
theorem response_roundTrip (r : Response) (hr : Serializable r) (u : ResponseUninit) :
    ∃ t, parse (fresh u) (toBuffers r) = (.good, [], t) ∧ t.2.buildResponse = r := by
  obtain ⟨t, hacc, hcode, hheaders, hbody⟩ := reads_response hr u
  refine ⟨t, parse_complete (framing_fresh u) hacc, ?_⟩
  rw [ResponseBuilder.buildResponse, hcode, hheaders, headerMap_headers, hbody]

theorem stockNotFound_headers :
    (stockResponse StatusCode.not_found).headers.headers =
      [⟨ascii "Content-Length", ascii "85"⟩, ⟨ascii "Content-Type", ascii "text/html"⟩] := by decide +kernel

/-- the theorem at the 404 page -/
theorem response_roundTrip_notFound :
    ∃ t, parse (fresh ⟨7, 7, 7, 7, 7⟩) (toBuffers (stockResponse StatusCode.not_found)) = (.good, [], t) ∧
      t.2.buildResponse = stockResponse StatusCode.not_found := by
  refine response_roundTrip (stockResponse StatusCode.not_found)
    ⟨by decide, fun h hh => ?_, fun h hh => ?_, by decide +kernel,
      ascii "Content-Length", by decide +kernel, by decide +kernel, fun h hh hl => ?_⟩ ⟨7, 7, 7, 7, 7⟩
  all_goals
    rw [stockNotFound_headers, List.mem_cons, List.mem_singleton] at hh
    rcases hh with rfl | rfl
  · exact ⟨by decide, by decide +kernel, by decide +kernel⟩
  · exact ⟨by decide, by decide, by decide⟩
  · decide
  · decide +kernel
  · decide +kernel
  · exact absurd hl (by decide)

end ResponseParser

end BlogServer.Http
