/-
What a built request depends on, and what its echo is read as.

`Spelled` says where the method and the URI of an accepted request stand in its bytes. Everything else that
`build_request` writes is written on every path, but the method only for the eight names. The echo handler writes the
method for three of them.

- `byte_determined_iff`: an accepted message has one request, and every handler does one thing with it, exactly when its
  method is one of the eight.
- `echo_faithful_iff`: the echo of a request is read as that request exactly for GET, POST and DELETE, where it can be
  forwarded in sync.
- `byte_determined_fails`, `echo_faithful_fails`: a PATCH, and the echo of a HEAD.
-/
import BlogServer.Dispatch.Handlers
import BlogServer.Proxy.Forwarding

namespace BlogServer.Dispatch

open BlogServer.Byte BlogServer.Scan BlogServer.Http BlogServer.Proxy RequestParser

/-! ## Method and URI -/

/-- a method on the wire -/
def MethodBytes (m : Bytes) : Prop := ∀ c ∈ m, isToken c = true

/-- a URI on the wire -/
def UriBytes (uri : Bytes) : Prop := ∀ c ∈ uri, c ≠ SP ∧ isCtl c = false

/-- where method and URI stand in what has been read -/
def Stands (v : Bytes) (s : St) : Prop :=
  match s.1.state with
  | .methodStart => v = [] ∧ s.2.method = [] ∧ s.2.uri = []
  | .method => v = s.2.method ∧ s.2.uri = []
  | .uri => v = s.2.method ++ SP :: s.2.uri
  | _ => ∃ rest, v = s.2.method ++ SP :: (s.2.uri ++ SP :: rest)

structure Spelled (v : Bytes) (s : St) : Prop where
  stands : Stands v s
  method : MethodBytes s.2.method
  uri : UriBytes s.2.uri

theorem line_append (m uri rest v : Bytes) :
    ∃ rest', m ++ SP :: (uri ++ SP :: rest) ++ v = m ++ SP :: (uri ++ SP :: rest') := ⟨rest ++ v, by simp⟩

/-- **Step lemma.** Method and URI stay where they are once their spaces have been read. -/
theorem step_spelled {v : Bytes} {s s' : St} {c : UInt8} (h : Spelled v s) (hs : consume s c = (.indeterminate, s')) :
    Spelled (v ++ [c]) s' := by
  obtain ⟨hstands, hmethod, huri⟩ := h
  cases consume_moves hs with
  | methodStart hc =>
    obtain ⟨rfl, hm, hu⟩ := hstands
    simp only at hm hu
    exact ⟨⟨by simp [hm], hu⟩, forall_mem_snoc hmethod hc, huri⟩
  | method hc =>
    obtain ⟨rfl, hu⟩ := hstands
    exact ⟨⟨rfl, hu⟩, forall_mem_snoc hmethod hc, huri⟩
  | methodEnd =>
    obtain ⟨rfl, hu⟩ := hstands
    simp only at hu
    exact ⟨by simp [Stands, saw, hu], hmethod, huri⟩
  | uri hsp hc =>
    refine ⟨?_, hmethod, forall_mem_snoc huri ⟨hsp, hc⟩⟩
    rw [show v = _ from hstands]
    simp [Stands, saw]
  | uriEnd =>
    refine ⟨⟨[], ?_⟩, hmethod, huri⟩
    rw [show v = _ from hstands]
    simp [saw]
  | valueEnd =>
    obtain ⟨rest, rfl⟩ := hstands
    obtain ⟨k, hk⟩ := noteKeepAlive_eq (saw _ CR)
    rw [hk]
    exact ⟨line_append _ _ rest [CR], hmethod, huri⟩
  | @lengthEnd n b k' =>
    obtain ⟨rest, rfl⟩ := hstands
    obtain ⟨k, hk⟩ := noteKeepAlive_eq { saw b CR with bodysize := k' }
    rw [hk]
    exact ⟨line_append _ _ rest [CR], hmethod, huri⟩
  | _ =>
    obtain ⟨rest, rfl⟩ := hstands
    exact ⟨line_append _ _ rest _, hmethod, huri⟩

/-- **The request line.** An accepted message starts with its method, a space, its URI and a space. -/
theorem spelled_of_accepts {u : Uninit} {w : Bytes} {t : St} (h : Accepts consume (RequestParser.fresh, .fresh u) w t) :
    MethodBytes t.2.method ∧ UriBytes t.2.uri ∧ ∃ rest, w = t.2.method ++ SP :: (t.2.uri ++ SP :: rest) := by
  obtain ⟨v, c, s, rfl, hr, hs⟩ := h.last
  have hstart : Spelled [] (RequestParser.fresh, .fresh u) :=
    ⟨⟨rfl, rfl, rfl⟩, by simp [MethodBytes, RequestBuilder.fresh], by simp [UriBytes, RequestBuilder.fresh]⟩
  obtain ⟨hstands, hmethod, huri⟩ := hr.invariant Spelled hstart fun _ _ _ _ hp hs => step_spelled hp hs
  rcases consume_good hs with ⟨hst, -, -, rfl⟩ | ⟨hst, -, rfl⟩
  · rw [Stands, hst] at hstands
    obtain ⟨rest, rfl⟩ := hstands
    exact ⟨hmethod, huri, rest ++ [c], by simp [saw]⟩
  · rw [Stands, hst] at hstands
    obtain ⟨rest, rfl⟩ := hstands
    exact ⟨hmethod, huri, rest ++ [c], by simp [saw]⟩

theorem space_not_mem_method {m : Bytes} (h : MethodBytes m) : SP ∉ m := fun hmem => by
  have := h SP hmem
  revert this
  decide

theorem space_not_mem_uri {uri : Bytes} (h : UriBytes uri) : SP ∉ uri := fun hmem => (h SP hmem).1 rfl

theorem takeWhile_space {a : Bytes} (ha : SP ∉ a) (x : Bytes) : (a ++ SP :: x).takeWhile (· != SP) = a := by
  rw [List.takeWhile_append_of_pos]
  · simp
  · intro c hc
    have hne : c ≠ SP := fun h => ha (h ▸ hc)
    simpa using hne

theorem first_space_inj {a b x y : Bytes} (ha : SP ∉ a) (hb : SP ∉ b) (h : a ++ SP :: x = b ++ SP :: y) :
    a = b ∧ x = y := by
  have htake := congrArg (List.takeWhile (· != SP)) h
  rw [takeWhile_space ha, takeWhile_space hb] at htake
  subst htake
  exact ⟨rfl, (List.cons.inj (List.append_cancel_left h)).2⟩

/-! ## What a built request depends on -/

/-- the request that a new parser and a new builder make of a complete message; `u` and `m₀` are what the members hold
that no constructor sets -/
def builtRequest (u : Uninit) (m₀ : MethodEnum) (w : Bytes) : Option Request :=
  match parse (RequestParser.fresh, .fresh u) w with
  | (.good, _, t) => some (t.2.buildRequest m₀)
  | _ => none

/-- the bytes determine the request, and what each handler does with it -/
structure ByteDetermined (w : Bytes) : Prop where
  request : ∀ u u' m₀ m₁, builtRequest u m₀ w = builtRequest u' m₁ w
  decision : ∀ (σ : Type) (env : Environment σ) (s : σ) (handler : Handler), ∀ u u' m₀ m₁,
    ∀ r ∈ builtRequest u m₀ w, ∀ r' ∈ builtRequest u' m₁ w,
      handler.handleRequest env r s = handler.handleRequest env r' s

theorem methodOf_unknown {method : Bytes} (h : ¬ KnownMethod method) (m₀ : MethodEnum) : methodOf m₀ method = m₀ := by
  have hne : ∀ m : MethodEnum, method ≠ m.name := fun m hm => h ⟨m, hm⟩
  exact (if_neg (hne .GET)).trans <| (if_neg (hne .POST)).trans <| (if_neg (hne .DELETE)).trans <|
    (if_neg (hne .HEAD)).trans <| (if_neg (hne .PUT)).trans <| (if_neg (hne .CONNECT)).trans <|
    (if_neg (hne .OPTIONS)).trans <| if_neg (hne .TRACE)

theorem builtRequest_of_accepts {u : Uninit} {w : Bytes} {t : St}
    (h : Accepts consume (RequestParser.fresh, .fresh u) w t) (m₀ : MethodEnum) :
    builtRequest u m₀ w = some (t.2.buildRequest m₀) := by
  rw [builtRequest, parse_good_iff.2 ⟨rfl, h⟩]

/-- **Bytes determine requests.** For an accepted message, the request and the decisions of all handlers on it depend on
the bytes alone exactly when the method, which is what comes before the first space, is one of the eight names. -/
theorem byte_determined_iff {u : Uninit} {w x : Bytes} {t : St}
    (h : parse (RequestParser.fresh, .fresh u) w = (.good, x, t)) :
    ByteDetermined w ↔ KnownMethod (w.takeWhile (· != SP)) := by
  obtain ⟨-, hacc⟩ := parse_good_iff.1 h
  obtain ⟨hmethod, -, rest, hw⟩ := spelled_of_accepts hacc
  rw [hw, takeWhile_space (space_not_mem_method hmethod), ← hw]
  constructor
  · intro hdet
    by_contra hunknown
    have hsame := hdet.request u u .GET .POST
    rw [builtRequest_of_accepts hacc, builtRequest_of_accepts hacc] at hsame
    have hmethods := congrArg Request.method (Option.some.inj hsame)
    simp only [RequestBuilder.buildRequest, methodOf_unknown hunknown] at hmethods
    cases hmethods
  · intro hknown
    obtain ⟨m, hm⟩ := hknown
    have hbuilt : ∀ u' m₀, builtRequest u' m₀ w = some (t.2.buildRequest m) := by
      intro u' m₀
      obtain ⟨t', hacc', -, hsame, hmethod', -⟩ := accepts_uninit hacc u' m₀
      rw [builtRequest_of_accepts hacc', hsame]
      simp only [RequestBuilder.buildRequest, hm, methodOf_name]
    refine ⟨fun u₁ u₂ m₀ m₁ => by rw [hbuilt, hbuilt], fun σ env s handler u₁ u₂ m₀ m₁ r hr r' hr' => ?_⟩
    rw [hbuilt] at hr hr'
    rw [← Option.some.inj hr, ← Option.some.inj hr']

/-- a request with a method of the grammar that has no enumerator -/
def patchRequest : Bytes := ascii "PATCH /blog HTTP/1.1\r\n\r\n"

/-- **The method shows the stack.** The message is accepted, and its request is a GET or a POST by what `method_`
held. -/
theorem byte_determined_fails :
    (parse (RequestParser.fresh, .fresh ⟨0, 0, 0⟩) patchRequest).1 = .good ∧ ¬ ByteDetermined patchRequest := by
  refine ⟨by decide +kernel, fun h => ?_⟩
  have hsame := h.request ⟨0, 0, 0⟩ ⟨0, 0, 0⟩ .GET .POST
  revert hsame
  decide +kernel

/-- the theorem at a HEAD -/
theorem byte_determined_iff_head :
    ByteDetermined (ascii "HEAD /blog HTTP/1.1\r\n\r\n") :=
  (byte_determined_iff (u := ⟨0, 0, 0⟩) (x := []) (w := ascii "HEAD /blog HTTP/1.1\r\n\r\n")
    (t := (parse (RequestParser.fresh, .fresh ⟨0, 0, 0⟩) (ascii "HEAD /blog HTTP/1.1\r\n\r\n")).2.2)
    (by decide +kernel)).2 ⟨.HEAD, by decide +kernel⟩

/-! ## The echo -/

/-- `echo_request_handler::handle_request` -/
def EchoHandler.handleRequest (request : Request) : Response :=
  plainResponse StatusCode.ok (EchoHandler.buildRequestString request)

theorem Handler.handleRequest_echo {σ : Type} (env : Environment σ) (path : Bytes) (request : Request) (s : σ) :
    (Handler.echo path).handleRequest env request s = (.ok (EchoHandler.handleRequest request), s) := rfl

/-- the body of the echo is a message of the same request -/
def EchoFaithful (request : Request) : Prop :=
  ∀ u m₀, ∃ t, parse (RequestParser.fresh, .fresh u) (EchoHandler.handleRequest request).body = (.good, [], t) ∧
    t.2.buildRequest m₀ = request

/-- the methods whose names the echo handler writes -/
def Echoed (m : MethodEnum) : Prop := m = .GET ∨ m = .POST ∨ m = .DELETE

/-- with its method written, the echo is the request as a proxy would send it -/
theorem echo_of_echoed {request : Request} (h : Echoed request.method) :
    EchoHandler.buildRequestString request = buildRequestString request := by
  rcases h with h | h | h <;> simp [EchoHandler.buildRequestString, buildRequestString, h, MethodEnum.name, ascii]

theorem echo_of_not_echoed {request : Request} (h : ¬ Echoed request.method) :
    EchoHandler.buildRequestString request = request.uri ++ SP :: (request.version ++ CR :: LF ::
      (request.headers.headers.flatMap Header.line ++ CRLF ++ request.body)) := by
  cases hm : request.method with
  | GET | POST | DELETE => simp [Echoed, hm] at h
  | _ => simp [EchoHandler.buildRequestString, hm, ascii, SP]

theorem space_not_mem_version (x y : ℤ) : SP ∉ versionString x y := by
  have hnumber : ∀ z : ℤ, SP ∉ Decimal.toString z := by
    intro z hmem
    unfold Decimal.toString at hmem
    split_ifs at hmem
    · rcases List.mem_cons.1 hmem with h | h
      · exact absurd h (by decide)
      · exact absurd (Decimal.isDigit_decimal _ SP h) (by decide)
    · exact absurd (Decimal.isDigit_decimal _ SP hmem) (by decide)
  rw [versionString]
  simp only [List.mem_append, not_or]
  exact ⟨⟨⟨by decide, hnumber x⟩, by decide⟩, hnumber y⟩

/-- **Without its method** an echo is no request: the version would have to be its URI, and a CR follows the version. -/
theorem not_accepts_echo {uri version r : Bytes} (huri : UriBytes uri) (hversion : SP ∉ version) (u : Uninit) (t : St) :
    ¬ Accepts consume (RequestParser.fresh, .fresh u) (uri ++ SP :: (version ++ CR :: r)) t := by
  intro h
  obtain ⟨hmethod, huri', rest, hw⟩ := spelled_of_accepts h
  obtain ⟨-, hrest⟩ := first_space_inj (space_not_mem_uri huri) (space_not_mem_method hmethod) hw
  rcases List.append_eq_append_iff.1 hrest with ⟨v, hv, hcr⟩ | ⟨v, hv, hsp⟩
  · cases v with
    | nil => exact absurd (List.cons.inj hcr).1 (by decide)
    | cons c v =>
      obtain rfl : CR = c := (List.cons.inj hcr).1
      have hctl := (huri' CR (by rw [hv]; simp)).2
      exact absurd hctl (by decide)
  · cases v with
    | nil => exact absurd (List.cons.inj hsp).1 (by decide)
    | cons c v =>
      obtain rfl : SP = c := (List.cons.inj hsp).1
      exact hversion (by rw [hv]; simp)

/-- **Echo fidelity.** The echo of an accepted request, whose method is one of the eight, is read as the same request
exactly when the method is GET, POST or DELETE, the version numbers have not wrapped below zero, and the
Content-Length that comes last in byte order announces the size of the body. -/
theorem echo_faithful_iff {u : Uninit} {w x : Bytes} {t : St}
    (h : parse (RequestParser.fresh, .fresh u) w = (.good, x, t)) {m : MethodEnum} (hm : t.2.method = m.name)
    (m₀ : MethodEnum) :
    EchoFaithful (t.2.buildRequest m₀) ↔ Echoed m ∧ 0 ≤ t.2.httpVersionMajor ∧ 0 ≤ t.2.httpVersionMinor ∧
      announcedSize (headerMap t.2.headers).headers = t.2.body.length := by
  obtain ⟨-, hacc⟩ := parse_good_iff.1 h
  obtain ⟨-, huri, -⟩ := spelled_of_accepts hacc
  have hmethod : (t.2.buildRequest m₀).method = m := by rw [RequestBuilder.buildRequest, hm, methodOf_name]
  have hok : ∀ y ∈ (t.2.buildRequest m₀).headers.headers, y.Sendable ∧ Measured y := fun y hy =>
    headersRead_of_accepts hacc y (mem_headers_of_built hy)
  by_cases hecho : Echoed m
  · have hbody : (EchoHandler.handleRequest (t.2.buildRequest m₀)).body = buildRequestString (t.2.buildRequest m₀) :=
      echo_of_echoed (by rwa [hmethod])
    simp only [EchoFaithful, hbody, parse_good_iff, true_and]
    by_cases hneg : t.2.httpVersionMajor < 0 ∨ t.2.httpVersionMinor < 0
    · refine iff_of_false (fun hfaith => ?_) fun hcond => by omega
      obtain ⟨t', ht', -⟩ := hfaith u m₀
      exact (rejects_version (r := t.2.buildRequest m₀) huri rfl hneg u).not_accepts ht'
    · obtain ⟨hmajor, hminor⟩ := versionInRange_of_accepts hacc
      have hser : Serializable (t.2.buildRequest m₀) t.2.httpVersionMajor.toNat t.2.httpVersionMinor.toNat :=
        ⟨huri, by rw [← toString_of_nonneg (by omega), ← toString_of_nonneg (by omega)]; rfl, fun y hy => (hok y hy).1⟩
      have hiff := fun u' => serialized_accepts_iff hser u'
      have hsize : (t.2.buildRequest m₀).headers.headers.foldlM announce 0 =
          some (announcedSize (headerMap t.2.headers).headers) := announced_eq (fun y hy => (hok y hy).2) 0
      simp only [hsize, Option.some.injEq] at hiff
      constructor
      · intro hfaith
        obtain ⟨t', ht', -⟩ := hfaith u m₀
        exact ⟨hecho, by omega, by omega, (hiff u).1 ⟨t', ht'⟩⟩
      · intro hcond u' m₁
        obtain ⟨-, -, -, hlength⟩ := hcond
        obtain ⟨t', ht'⟩ := (hiff u').2 hlength
        exact ⟨t', ht', buildRequest_hasRead (serialized_hasRead hser ht') hser (by omega) (by omega) m₁⟩
  · refine iff_of_false (fun hfaith => ?_) fun hcond => hecho hcond.1
    obtain ⟨t', ht', -⟩ := hfaith u m₀
    have hnot : ¬ Echoed (t.2.buildRequest m₀).method := by rwa [hmethod]
    have hbody : (EchoHandler.handleRequest (t.2.buildRequest m₀)).body = _ := echo_of_not_echoed hnot
    rw [hbody] at ht'
    exact not_accepts_echo huri (space_not_mem_version _ _) u t' (parse_good_iff.1 ht').2

/-- **The echo of a HEAD** starts with its URI. -/
theorem echo_faithful_fails :
    ∃ t, parse (RequestParser.fresh, .fresh ⟨0, 0, 0⟩) (ascii "HEAD / HTTP/1.1\r\n\r\n") = (.good, [], t) ∧
      t.2.method = MethodEnum.HEAD.name ∧ ¬ EchoFaithful (t.2.buildRequest .GET) := by
  refine ⟨(parse (RequestParser.fresh, .fresh ⟨0, 0, 0⟩) (ascii "HEAD / HTTP/1.1\r\n\r\n")).2.2, by decide +kernel,
    by decide +kernel, fun h => ?_⟩
  obtain ⟨t, ht, -⟩ := h ⟨0, 0, 0⟩ .GET
  have hbad : (parse (RequestParser.fresh, .fresh ⟨0, 0, 0⟩)
      (EchoHandler.handleRequest ((parse (RequestParser.fresh, .fresh ⟨0, 0, 0⟩)
        (ascii "HEAD / HTTP/1.1\r\n\r\n")).2.2.2.buildRequest .GET)).body).1 = .bad := by decide +kernel
  rw [ht] at hbad
  cases hbad

/-- the theorem at a POST with its headers out of order -/
theorem echo_faithful_iff_post :
    EchoFaithful ((parse (RequestParser.fresh, .fresh ⟨0, 0, 0⟩)
      (ascii "POST / HTTP/1.1\r\nX-B: 1\r\nX-A: 2\r\nContent-Length: 1\r\n\r\nA")).2.2.2.buildRequest .GET) :=
  (echo_faithful_iff (u := ⟨0, 0, 0⟩) (x := [])
    (w := ascii "POST / HTTP/1.1\r\nX-B: 1\r\nX-A: 2\r\nContent-Length: 1\r\n\r\nA")
    (t := (parse (RequestParser.fresh, .fresh ⟨0, 0, 0⟩)
      (ascii "POST / HTTP/1.1\r\nX-B: 1\r\nX-A: 2\r\nContent-Length: 1\r\n\r\nA")).2.2)
    (by decide +kernel) (m := .POST) (by decide +kernel) .GET).2
    ⟨Or.inr (Or.inl rfl), by decide +kernel, by decide +kernel, by decide +kernel⟩

end BlogServer.Dispatch
