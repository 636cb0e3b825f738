/-
Where the upstream sees the end of a forwarded request.

The client's framing is decided by the headers in order of arrival, letter case aside; the forwarded bytes are written
from a map whose keys are case-sensitive and in byte order. Both readers end at the last Content-Length they see. So the
two agree exactly when the Content-Length that comes last in byte order announces the body that was read, and the
version numbers have not wrapped below zero (`forwarded_inSync_iff`).

- `forwarded_desync`: two spellings of Content-Length whose order of arrival is not their byte order.
-/
import BlogServer.Proxy.ProxyHandler

namespace BlogServer.Proxy

open BlogServer.Http BlogServer.Byte BlogServer.Scan BlogServer.Decimal RequestParser

/-- the forwarded bytes are one request, with the method, the version and the body of the request received -/
def InSync (request : Request) (uri url : Bytes) (port : ℤ) : Prop :=
  ∀ u m₀, ∃ t, Accepts consume (RequestParser.fresh, .fresh u)
      (buildRequestString (forwardedRequest request uri url port)) t ∧
    (t.2.buildRequest m₀).method = request.method ∧ (t.2.buildRequest m₀).version = request.version ∧
    (t.2.buildRequest m₀).body = request.body

/-- the size that the headers announce, read in their order -/
def announcedSize (hs : List Header) : ℤ := ((lastLength hs).bind fun h => stoi h.value).getD 0

/-! ## The forwarded headers -/

theorem mem_headers_iff {m : HeaderMap} {h : Header} : h ∈ HeaderMap.headers m ↔ (h.name, h.value) ∈ m.entries := by
  simp [HeaderMap.headers, Header.ext_iff]

theorem mem_headers_insert {m : HeaderMap} {name value : Bytes} {h : Header}
    (hh : h ∈ HeaderMap.headers (m.insert name value)) : h = ⟨name, value⟩ ∨ h ∈ HeaderMap.headers m := by
  rw [mem_headers_iff, SortedMap.mem_insert_iff] at hh
  rcases hh with hh | ⟨hh, -⟩
  · left
    rw [Prod.mk.injEq] at hh
    exact Header.ext_iff.2 hh
  · exact Or.inr (mem_headers_iff.2 hh)

theorem mem_headers_of_built {hs : List Header} {h : Header} (hh : h ∈ HeaderMap.headers (headerMap hs)) : h ∈ hs := by
  rw [mem_headers_iff] at hh
  obtain ⟨h', hmem, heq⟩ := List.mem_map.1 (SortedMap.mem_of_mem_ofAssignments hh)
  rw [Prod.mk.injEq] at heq
  rwa [← Header.ext_iff.2 heq]

theorem not_isCtl_toString (z : ℤ) : ∀ c ∈ Decimal.toString z, isCtl c = false := by
  intro c hc
  unfold Decimal.toString at hc
  split_ifs at hc
  · rcases List.mem_cons.1 hc with rfl | hc
    · decide
    · exact not_isCtl_of_isDigit (isDigit_decimal _ c hc)
  · exact not_isCtl_of_isDigit (isDigit_decimal _ c hc)

/-- the headers that `proxy_request` sets can be sent -/
theorem forwarded_sendable {request : Request} (hok : ∀ h ∈ request.headers.headers, h.Sendable ∧ Measured h)
    {url : Bytes} (hurl : ∀ c ∈ url, isCtl c = false) (uri : Bytes) (port : ℤ) :
    ∀ h ∈ (forwardedRequest request uri url port).headers.headers, h.Sendable ∧ Measured h := by
  intro h hh
  rcases mem_headers_insert hh with rfl | hh
  · exact ⟨⟨by decide, by decide +kernel, by decide +kernel⟩, fun hl => absurd hl (by decide)⟩
  rcases mem_headers_insert hh with rfl | hh
  · have hname : ascii "Host" ≠ [] ∧ (∀ c ∈ ascii "Host", isToken c = true) ∧ isContentLength (ascii "Host") = false := by
      decide +kernel
    refine ⟨⟨hname.1, hname.2.1, ?_⟩, fun hl => absurd (hname.2.2.symm.trans hl) (by decide)⟩
    intro c hc
    rcases List.mem_append.1 hc with hc | hc
    · rcases List.mem_append.1 hc with hc | hc
      · exact hurl c hc
      · exact (by decide : ∀ c ∈ ascii ":", isCtl c = false) c hc
    · exact not_isCtl_toString port c hc
  · exact hok h hh

/-- **The forwarded headers announce what the received ones announce in byte order.** -/
theorem forwarded_announced {request : Request} (hok : ∀ h ∈ request.headers.headers, h.Sendable ∧ Measured h)
    {url : Bytes} (hurl : ∀ c ∈ url, isCtl c = false) (uri : Bytes) (port : ℤ) :
    (forwardedRequest request uri url port).headers.headers.foldlM announce 0 =
      some (announcedSize request.headers.headers) := by
  rw [announced_eq fun h hh => (forwarded_sendable hok hurl uri port h hh).2, forwardedRequest,
    lastLength_insert _ (by decide), lastLength_insert _ (by decide)]
  rfl

/-! ## The forwarded version -/

/-- version numbers are 32-bit once they are being read -/
def VersionInRange (s : St) : Prop :=
  s.1.state.versioned = true →
    (-2147483648 ≤ s.2.httpVersionMajor ∧ s.2.httpVersionMajor < 2147483648) ∧
      -2147483648 ≤ s.2.httpVersionMinor ∧ s.2.httpVersionMinor < 2147483648

theorem noteKeepAlive_version (b : RequestBuilder) :
    (noteKeepAlive b).httpVersionMajor = b.httpVersionMajor ∧
      (noteKeepAlive b).httpVersionMinor = b.httpVersionMinor := by
  unfold noteKeepAlive; split_ifs <;> exact ⟨rfl, rfl⟩

theorem step_versionInRange {s s' : St} {c : UInt8} (h : VersionInRange s) (hs : consume s c = (.indeterminate, s')) :
    VersionInRange s' := by
  cases consume_moves hs with
  | methodStart | method | methodEnd | uri | uriEnd | versionH | versionT1 | versionT2 | versionP =>
    exact fun hv => absurd hv (by simp [State.versioned])
  | versionSlash => exact fun _ => ⟨⟨by simp, by simp⟩, by simp, by simp⟩
  | majorStart | major => exact fun _ => ⟨int32_range _, (h rfl).2⟩
  | minorStart | minor => exact fun _ => ⟨(h rfl).1, int32_range _⟩
  | valueEnd | lengthEnd =>
    intro _
    simp only [noteKeepAlive_version]
    exact h rfl
  | _ => exact fun _ => h rfl

theorem versionInRange_of_accepts {u : Uninit} {w : Bytes} {t : St}
    (h : Accepts consume (RequestParser.fresh, .fresh u) w t) :
    (-2147483648 ≤ t.2.httpVersionMajor ∧ t.2.httpVersionMajor < 2147483648) ∧
      -2147483648 ≤ t.2.httpVersionMinor ∧ t.2.httpVersionMinor < 2147483648 := by
  obtain ⟨v, c, r, -, hr, hs⟩ := h.last
  have hrange : VersionInRange r := hr.invariant (fun _ s => VersionInRange s)
    (fun hv => absurd hv (by simp [State.versioned, RequestParser.fresh]))
    fun _ _ _ _ hp hs => step_versionInRange hp hs
  rcases consume_good hs with ⟨hst, -, -, rfl⟩ | ⟨hst, -, rfl⟩
  all_goals exact hrange (by rw [hst]; rfl)

theorem toString_of_nonneg {z : ℤ} (h : 0 ≤ z) : Decimal.toString z = decimal z.toNat := by
  rw [Decimal.toString, if_neg (by omega)]

/-- a version number below zero is written with a sign, and the sign is refused -/
theorem rejects_major {z : ℤ} (h : z < 0) (n : ℤ) (b : RequestBuilder) (w : Bytes) :
    Rejects consume (⟨.httpVersionMajorStart, n⟩, b) (Decimal.toString z ++ w) := by
  simp [Decimal.toString, h, Rejects, feed, consume, (by decide : isDigit MINUS = false)]

theorem rejects_minor {z : ℤ} (h : z < 0) (n : ℤ) (b : RequestBuilder) (w : Bytes) :
    Rejects consume (⟨.httpVersionMinorStart, n⟩, b) (Decimal.toString z ++ w) := by
  simp [Decimal.toString, h, Rejects, feed, consume, (by decide : isDigit MINUS = false)]

/-- a request whose version is below zero is refused -/
theorem rejects_version {r : Request} (huri : ∀ c ∈ r.uri, c ≠ SP ∧ isCtl c = false) {x y : ℤ}
    (hversion : r.version = versionString x y) (hneg : x < 0 ∨ y < 0) (u : Uninit) :
    Rejects consume (RequestParser.fresh, .fresh u) (buildRequestString r) := by
  have htarget := ((reads_method r.method.name_token.1 r.method.name_token.2 0 (.fresh u)).append
    (reads_uri huri 0 _)).append (reads_http 0 _)
  have hbytes : buildRequestString r = r.method.name ++ [SP] ++ (r.uri ++ [SP]) ++ ascii "HTTP/" ++
      (Decimal.toString x ++ (ascii "." ++ (Decimal.toString y ++
        (CRLF ++ (r.headers.headers.flatMap Header.line ++ CRLF ++ r.body))))) := by
    rw [buildRequestString, hversion, versionString]
    simp [ascii]
  rw [hbytes]
  refine htarget.rejects ?_
  by_cases hx : x < 0
  · exact rejects_major hx 0 _ _
  · have hy := hneg.resolve_left hx
    rw [toString_of_nonneg (by omega)]
    have hmajor := reads_major (decimal_ne_nil x.toNat) (isDigit_decimal x.toNat) 0
      (b := { RequestBuilder.fresh u with
        method := [] ++ r.method.name
        uri := [] ++ r.uri
        httpVersionMajor := 0
        httpVersionMinor := 0
        fullmessage := [] ++ (r.method.name ++ [SP]) ++ (r.uri ++ [SP]) ++ ascii "HTTP/" }) rfl
    rw [show ∀ v : Bytes, decimal x.toNat ++ (ascii "." ++ v) = (decimal x.toNat ++ [DOT]) ++ v from fun v => by
      simp [ascii]]
    exact hmajor.rejects (rejects_minor hy 0 _ _)

/-! ## Synchronisation -/

/-- **Framing of forwarded requests.** A request accepted from a client is forwarded in sync exactly when its version
numbers have not wrapped below zero and, of its Content-Length headers in any letter case, the one that comes last in
byte order announces the size of its body. -/
theorem forwarded_inSync_iff {w x : Bytes} {u : Uninit} {t : St}
    (h : parse (RequestParser.fresh, .fresh u) w = (.good, x, t)) (m₀ : MethodEnum) {uri : Bytes}
    (huri : ∀ c ∈ uri, c ≠ SP ∧ isCtl c = false) {url : Bytes} (hurl : ∀ c ∈ url, isCtl c = false) (port : ℤ) :
    InSync (t.2.buildRequest m₀) uri url port ↔
      0 ≤ t.2.httpVersionMajor ∧ 0 ≤ t.2.httpVersionMinor ∧
        announcedSize (headerMap t.2.headers).headers = t.2.body.length := by
  obtain ⟨-, hacc⟩ := parse_good_iff.1 h
  have hok : ∀ y ∈ (t.2.buildRequest m₀).headers.headers, y.Sendable ∧ Measured y := fun y hy =>
    headersRead_of_accepts hacc y (mem_headers_of_built hy)
  obtain ⟨hmajor, hminor⟩ := versionInRange_of_accepts hacc
  have hannounced := forwarded_announced hok hurl uri port
  by_cases hneg : t.2.httpVersionMajor < 0 ∨ t.2.httpVersionMinor < 0
  · refine iff_of_false (fun hsync => ?_) fun hcond => by omega
    obtain ⟨t', ht', -⟩ := hsync u m₀
    exact (rejects_version (r := forwardedRequest (t.2.buildRequest m₀) uri url port) huri rfl hneg u).not_accepts ht'
  · have hser : Serializable (forwardedRequest (t.2.buildRequest m₀) uri url port) t.2.httpVersionMajor.toNat
        t.2.httpVersionMinor.toNat :=
      ⟨huri, by
        rw [← toString_of_nonneg (by omega), ← toString_of_nonneg (by omega)]; rfl,
        fun y hy => (forwarded_sendable hok hurl uri port y hy).1⟩
    have hiff := fun u' => serialized_accepts_iff hser u'
    simp only [hannounced, Option.some.injEq] at hiff
    constructor
    · intro hsync
      obtain ⟨t', ht', -⟩ := hsync u m₀
      exact ⟨by omega, by omega, (hiff u).1 ⟨t', ht'⟩⟩
    · rintro ⟨-, -, hsize⟩ u' m₁
      obtain ⟨t', ht'⟩ := (hiff u').2 hsize
      have hbuilt := buildRequest_hasRead (serialized_hasRead hser ht') hser (by omega) (by omega) m₁
      exact ⟨t', ht', by rw [hbuilt]; exact ⟨rfl, rfl, rfl⟩⟩

/-- two spellings of Content-Length, the smaller size in the spelling that comes last in byte order -/
def twoLengths : Bytes :=
  ascii "POST / HTTP/1.1\r\ncontent-length: 3\r\nContent-Length: 5\r\n\r\nABCDE"

/-- **Desynchronisation.** The request is accepted with five bytes of body and forwarded so that the upstream takes
three. -/
theorem forwarded_desync :
    ∃ t, parse (RequestParser.fresh, .fresh ⟨0, 0, 0⟩) twoLengths = (.good, [], t) ∧ t.2.body = ascii "ABCDE" ∧
      ¬ InSync (t.2.buildRequest .GET) (ascii "/") (ascii "upstream") 80 := by
  refine ⟨(parse (RequestParser.fresh, .fresh ⟨0, 0, 0⟩) twoLengths).2.2, by decide +kernel, by decide +kernel, ?_⟩
  intro hsync
  obtain ⟨t', ht', -⟩ := hsync ⟨0, 0, 0⟩ .GET
  have hrest : (feed consume (RequestParser.fresh, .fresh ⟨0, 0, 0⟩) (buildRequestString (forwardedRequest
      ((parse (RequestParser.fresh, .fresh ⟨0, 0, 0⟩) twoLengths).2.2.2.buildRequest .GET)
      (ascii "/") (ascii "upstream") 80))).2.2 = ascii "DE" := by
    decide +kernel
  rw [ht'] at hrest
  simp [ascii] at hrest

/-- the theorem at a request with one Content-Length -/
theorem forwarded_inSync_iff_post :
    InSync ((parse (RequestParser.fresh, .fresh ⟨0, 0, 0⟩)
        (ascii "POST / HTTP/1.1\r\ncontent-length: 1\r\n\r\nA")).2.2.2.buildRequest .GET)
      (ascii "/") (ascii "upstream") 80 :=
  (forwarded_inSync_iff (u := ⟨0, 0, 0⟩) (x := [])
    (w := ascii "POST / HTTP/1.1\r\ncontent-length: 1\r\n\r\nA")
    (t := (parse (RequestParser.fresh, .fresh ⟨0, 0, 0⟩)
      (ascii "POST / HTTP/1.1\r\ncontent-length: 1\r\n\r\nA")).2.2) (by decide +kernel) .GET (by decide +kernel)
    (by decide +kernel) 80).2 (by decide +kernel)

end BlogServer.Proxy
