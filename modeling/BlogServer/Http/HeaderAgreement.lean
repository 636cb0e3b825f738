/-
The two HTTP parsers on the header section.

`request_parser` and `response_parser` have each a copy of the header states. Fed the same bytes from the start of the
section they stay in the same place of it: the step lemma is `ResponseParser.header_step`, which also covers the bytes
that are refused, and `trace_simulation` carries it along the section.

- `headers_agree`: the same verdict after every byte, the same headers, connection flag and size.
-/
import BlogServer.Http.ResponseParser

namespace BlogServer.Http

open BlogServer.Byte BlogServer.Scan

/-- the states of a header section, before the CR of its blank line -/
def RequestParser.State.inHeaders : RequestParser.State → Bool
  | .headerLineStart | .headerLws | .headerName | .spaceBeforeHeaderValue | .headerValue | .expectingNewline2 => true
  | _ => false

namespace ResponseParser

def State.inHeaders (st : State) : Bool := (headerState st).elim false RequestParser.State.inHeaders

/-- the two parsers stand at the start of a header section, with no header and no size read -/
structure SectionStart (s : St) (t : RequestParser.St) : Prop where
  response : s.1 = .headerLineStart
  request : t.1.state = .headerLineStart
  responseHeaders : s.2.headers = []
  requestHeaders : t.2.headers = []
  responseSize : s.2.contentsize = 0
  requestSize : t.1.contentsize = 0
  keepAlive : t.2.keepAlive = s.2.keepAlive

theorem SectionStart.same {s : St} {t : RequestParser.St} (h : SectionStart s t) : SameHeaders s t where
  state := by rw [h.response, h.request]; rfl
  contentsize := by rw [h.requestSize, h.responseSize]
  headers := by rw [h.requestHeaders, h.responseHeaders]
  keepAlive := h.keepAlive

theorem inHeaders_ne {st : State} (h : st.inHeaders = true) : st ≠ .expectingNewline3 := by
  rintro rfl
  cases h

/-- **The two parsers agree on headers.** As long as both are in the header section, up to the CR of the blank line,
they give the same verdict after every byte, and hold the same headers, connection flag and size. -/
theorem headers_agree {s : St} {t : RequestParser.St} (hstart : SectionStart s t) (h : Bytes)
    (hin : ∀ v, v <+: h → v ≠ h → (trace consume s v).2.1.inHeaders = true ∧
      (trace RequestParser.consume t v).2.1.state.inHeaders = true) :
    (trace consume s h).1 = (trace RequestParser.consume t h).1 ∧
      (trace consume s h).2.2.headers = (trace RequestParser.consume t h).2.2.headers ∧
      (trace consume s h).2.2.keepAlive = (trace RequestParser.consume t h).2.2.keepAlive ∧
      (trace consume s h).2.2.contentsize = (trace RequestParser.consume t h).2.1.contentsize := by
  obtain ⟨hverdicts, hsame⟩ := trace_simulation SameHeaders (fun s => s.1.inHeaders = true)
    (fun s t c hst hinside => header_step hst (inHeaders_ne hinside) c) hstart.same fun v hv hne => (hin v hv hne).1
  exact ⟨hverdicts, hsame.headers.symm, hsame.keepAlive.symm, hsame.contentsize.symm⟩

/-- a section with a folded value, up to the CR of its blank line -/
def foldedSection : Bytes := ascii "Connection: keep-alive\r\nContent-length: 1\r\n 2\r\n\r"

theorem headers_agree_folded :
    ((trace consume (.headerLineStart, .fresh ⟨1, 1, 200, 0, 0⟩) foldedSection).2.2.headers =
        (trace RequestParser.consume (⟨.headerLineStart, 0⟩, .zero) foldedSection).2.2.headers) ∧
      (trace consume (.headerLineStart, .fresh ⟨1, 1, 200, 0, 0⟩) foldedSection).2.2.contentsize =
        (trace RequestParser.consume (⟨.headerLineStart, 0⟩, .zero) foldedSection).2.1.contentsize := by
  have hagree := headers_agree (s := (.headerLineStart, .fresh ⟨1, 1, 200, 0, 0⟩)) (t := (⟨.headerLineStart, 0⟩, .zero))
    ⟨rfl, rfl, rfl, rfl, rfl, rfl, rfl⟩ foldedSection fun v hv hne => by
      have hall : ∀ n < foldedSection.length,
          (trace consume (.headerLineStart, .fresh ⟨1, 1, 200, 0, 0⟩) (foldedSection.take n)).2.1.inHeaders = true ∧
            (trace RequestParser.consume (⟨.headerLineStart, 0⟩, .zero) (foldedSection.take n)).2.1.state.inHeaders =
              true := by decide +kernel
      rw [List.prefix_iff_eq_take] at hv
      have hlt : v.length < foldedSection.length := by
        refine lt_of_not_ge fun hge => hne ?_
        rw [hv, List.take_of_length_le hge]
      rw [hv]
      exact hall v.length hlt
  exact ⟨hagree.2.1, hagree.2.2.2⟩

end ResponseParser

end BlogServer.Http
