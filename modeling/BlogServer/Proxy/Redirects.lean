/-
How long a proxy follows redirects.

`proxy_request` calls itself for every redirect, with no counter and no record of where it has been. One call asks one
place and is answered by a redirect to the next or by an end (`reply`). The calls are a `follow` of that, so
`proxy_request` returns exactly when the redirects come to an end that is a response (`redirects_end_iff`): one that is
no redirect, relayed, or one that cannot be read, for which the error response is returned. Redirects that go on forever
are followed forever.

- `redirects_loop`: an upstream that redirects `/a` to `/a`.
-/
import BlogServer.Core.Follow
import BlogServer.Proxy.Links

namespace BlogServer.Proxy

open BlogServer.Http BlogServer.Byte

/-! ## One call -/

/-- what `proxy_request` asks: a URI of a host, which it writes with a port -/
structure Target where
  uri : Bytes
  url : Bytes
  port : ℤ

/-- how a call is answered -/
inductive Reply where
  | redirect (target : Target)
  /-- the response, which is no redirect -/
  | final (response : Response)
  /-- `read_response` returns false -/
  | unreadable
  /-- an exception -/
  | escaped

/-- a response that is a redirect -/
def isRedirect (response : Response) : Prop :=
  response.code = StatusCode.moved_temporarily ∨ response.code = StatusCode.moved_permanently

instance decidableIsRedirect (response : Response) : Decidable (isRedirect response) :=
  inferInstanceAs (Decidable (_ ∨ _))

/-- what the upstream answers a call of `proxy_request`, with what its response builder leaves uninitialised -/
def reply (net : Network) (h : ProxyHandler) (request : Request) (u : ResponseUninit) (target : Target) : Reply :=
  match net target.url h.serverPortNum
    (buildRequestString (forwardedRequest request target.uri target.url target.port)) with
  | none => .escaped
  | some reads =>
    match readResponse (ResponseParser.fresh u) reads with
    | none => .unreadable
    | some response =>
      if isRedirect response then
        match redirectTarget (response.headers.getD (ascii "Location") []) target.url target.port with
        | none => .escaped
        | some (uri, url, port) => .redirect ⟨uri, url, port⟩
      else .final response

/-- a redirect is gone on with; anything else is an end -/
def Reply.next (html : Html) (h : ProxyHandler) : Reply → Target ⊕ Except Fault Response
  | .redirect target => .inl target
  | .final response => .inr (.ok (relayed html h response))
  | .unreadable => .inr (.ok getErrorResponse)
  | .escaped => .inr (.error .escaped)

/-! ## All calls -/

section Calls

variable (net : Network) (html : Html) (h : ProxyHandler) (request : Request)

/-- `proxy_request` with at most `fuel` calls; the response builder of the call number `i` leaves `u i` uninitialised -/
def proxyCalls (u : ℕ → ResponseUninit) (fuel : ℕ) (target : Target) : Except Fault Response :=
  proxyRequest net html (fun k => u (fuel - 1 - k)) h fuel request target.uri target.url target.port

/-- the place after so many redirects -/
abbrev RedirectedTo (u : ℕ → ResponseUninit) : Target → ℕ → Target → Prop :=
  Reached fun i target => (reply net h request (u i) target).next html h

variable {net html h request}

/-- one call, and what follows from its answer -/
theorem proxyRequest_succ (junk : ℕ → ResponseUninit) (fuel : ℕ) (target : Target) :
    proxyRequest net html junk h (fuel + 1) request target.uri target.url target.port =
      match (reply net h request (junk fuel) target).next html h with
      | .inl target => proxyRequest net html junk h fuel request target.uri target.url target.port
      | .inr response => response := by
  rw [proxyRequest, reply]
  cases net target.url h.serverPortNum
    (buildRequestString (forwardedRequest request target.uri target.url target.port)) with
  | none => rfl
  | some reads =>
    simp only
    cases readResponse (ResponseParser.fresh (junk fuel)) reads with
    | none => rfl
    | some response =>
      simp only
      by_cases hredirect : isRedirect response
      · rw [if_pos hredirect, if_pos (show response.code = _ ∨ response.code = _ from hredirect)]
        cases redirectTarget (response.headers.getD (ascii "Location") []) target.url target.port <;> rfl
      · rw [if_neg hredirect, if_neg (show ¬ (response.code = _ ∨ response.code = _) from hredirect)]
        rfl

/-- the calls are counted from the first in `u`, and down to the last in `junk` -/
theorem proxyRequest_eq_follow {u junk : ℕ → ResponseUninit} {fuel : ℕ}
    (hjunk : ∀ k < fuel, junk k = u (fuel - 1 - k)) (target : Target) :
    proxyRequest net html junk h fuel request target.uri target.url target.port =
      (follow (fun i target => (reply net h request (u i) target).next html h) fuel target).getD (.error .outOfFuel) := by
  induction fuel generalizing u target with
  | zero => rfl
  | succ fuel ih =>
    have hfirst : junk fuel = u 0 := by
      rw [hjunk fuel (by omega)]
      congr 1
      omega
    have hrest : ∀ k < fuel, junk k = u (fuel - 1 - k + 1) := by
      intro k hk
      rw [hjunk k (by omega)]
      congr 1
      omega
    rw [proxyRequest_succ, follow, hfirst]
    cases (reply net h request (u 0) target).next html h with
    | inl target => exact ih (u := fun i => u (i + 1)) hrest target
    | inr response => rfl

theorem proxyCalls_eq_follow (u : ℕ → ResponseUninit) (fuel : ℕ) (target : Target) :
    proxyCalls net html h request u fuel target =
      (follow (fun i target => (reply net h request (u i) target).next html h) fuel target).getD (.error .outOfFuel) :=
  proxyRequest_eq_follow (fun _ _ => rfl) target

/-- no call ends for want of calls -/
theorem next_ne_outOfFuel (r : Reply) : r.next html h ≠ .inr (.error .outOfFuel) := by
  cases r with
  | escaped =>
    intro heq
    cases Except.error.inj (Sum.inr.inj heq)
  | _ =>
    intro heq
    cases heq

/-- the calls run out exactly when nothing ends them -/
theorem proxyCalls_outOfFuel_iff {u : ℕ → ResponseUninit} {fuel : ℕ} {target : Target} :
    proxyCalls net html h request u fuel target = .error .outOfFuel ↔
      follow (fun i target => (reply net h request (u i) target).next html h) fuel target = none := by
  rw [proxyCalls_eq_follow]
  cases hfollow : follow (fun i target => (reply net h request (u i) target).next html h) fuel target with
  | none => exact iff_of_true rfl rfl
  | some e =>
    obtain ⟨n, c, -, -, hend⟩ := follow_eq_some_iff.1 hfollow
    constructor
    · intro heq
      rw [Option.getD_some] at heq
      exact absurd (heq ▸ hend) (next_ne_outOfFuel _)
    · intro hnone
      cases hnone

theorem proxyCalls_ok_iff {u : ℕ → ResponseUninit} {fuel : ℕ} {target : Target} {response : Response} :
    proxyCalls net html h request u fuel target = .ok response ↔
      follow (fun i target => (reply net h request (u i) target).next html h) fuel target = some (.ok response) := by
  rw [proxyCalls_eq_follow]
  cases follow (fun i target => (reply net h request (u i) target).next html h) fuel target with
  | none =>
    constructor
    · intro heq
      cases heq
    · intro heq
      cases heq
  | some e => rw [Option.getD_some, Option.some.injEq]

/-- the ends that are responses -/
theorem next_ok_iff {r : Reply} {response : Response} :
    r.next html h = .inr (.ok response) ↔
      (∃ final, r = .final final ∧ response = relayed html h final) ∨ r = .unreadable ∧ response = getErrorResponse := by
  cases r with
  | final final =>
    constructor
    · intro heq
      exact Or.inl ⟨final, rfl, (Except.ok.inj (Sum.inr.inj heq)).symm⟩
    · rintro (⟨_, heq, rfl⟩ | ⟨heq, -⟩)
      · cases heq
        rfl
      · cases heq
  | unreadable =>
    constructor
    · intro heq
      exact Or.inr ⟨rfl, (Except.ok.inj (Sum.inr.inj heq)).symm⟩
    · rintro (⟨_, heq, -⟩ | ⟨-, rfl⟩)
      · cases heq
      · rfl
  | _ =>
    constructor
    · intro heq
      cases heq
    · rintro (⟨_, heq, -⟩ | ⟨heq, -⟩)
      · cases heq
      · cases heq

theorem next_inl_iff {r : Reply} {target : Target} : r.next html h = .inl target ↔ r = .redirect target := by
  cases r with
  | redirect other =>
    constructor
    · intro heq
      rw [Sum.inl.inj heq]
    · intro heq
      cases heq
      rfl
  | _ =>
    constructor
    · intro heq
      cases heq
    · intro heq
      cases heq

end Calls

/-- **How long redirects are followed.** Whatever the upstream servers are, some number of calls returns a response
exactly when, after some number of redirects, there is one that is no redirect, which is relayed, or one that cannot be
read, for which the error response is returned. No number of calls is enough exactly when the redirects go on forever.
-/
theorem redirects_end_iff (net : Network) (html : Html) (h : ProxyHandler) (request : Request)
    (u : ℕ → ResponseUninit) (target : Target) :
    (∀ response, (∃ fuel, proxyCalls net html h request u fuel target = .ok response) ↔
      ∃ n last, RedirectedTo net html h request u target n last ∧
        ((∃ final, reply net h request (u n) last = .final final ∧ response = relayed html h final) ∨
          reply net h request (u n) last = .unreadable ∧ response = getErrorResponse)) ∧
    ((∀ fuel, proxyCalls net html h request u fuel target = .error .outOfFuel) ↔
      ∃ path : ℕ → Target, path 0 = target ∧
        ∀ n, reply net h request (u n) (path n) = .redirect (path (n + 1))) := by
  constructor
  · intro response
    simp only [proxyCalls_ok_iff, follow_ends_iff, next_ok_iff]
  · simp only [proxyCalls_outOfFuel_iff, follow_never_iff, next_inl_iff]

/-! ## A redirect to itself -/

/-- a response builder that leaves zeros -/
abbrev zeros : ResponseUninit := ⟨0, 0, 0, 0, 0⟩

/-- every request is answered by a redirect to `/a` -/
def redirecting : Network := fun _ _ _ => some [ascii "HTTP/1.0 302 Found\r\nLocation: /a\r\nContent-Length: 0\r\n\r\n"]

/-- the request is answered by itself -/
theorem redirecting_reply (h : ProxyHandler) (request : Request) :
    reply redirecting h request zeros ⟨ascii "/a", ascii "h", 80⟩ = .redirect ⟨ascii "/a", ascii "h", 80⟩ := by
  have hread : ∃ response, readResponse (ResponseParser.fresh zeros)
      [ascii "HTTP/1.0 302 Found\r\nLocation: /a\r\nContent-Length: 0\r\n\r\n"] = some response ∧ isRedirect response ∧
        redirectTarget (response.headers.getD (ascii "Location") []) (ascii "h") 80 =
          some (ascii "/a", ascii "h", 80) :=
    ⟨⟨302, headerMap [⟨ascii "Location", ascii "/a"⟩, ⟨ascii "Content-Length", ascii "0"⟩], []⟩, by decide +kernel,
      by decide, by decide +kernel⟩
  obtain ⟨response, hresponse, hredirect, htarget⟩ := hread
  simp only [reply, redirecting, hresponse, if_pos hredirect, htarget]

/-- so no number of calls is enough -/
theorem redirecting_calls (html : Html) (h : ProxyHandler) (request : Request) (fuel : ℕ) :
    proxyRequest redirecting html (fun _ => zeros) h fuel request (ascii "/a") (ascii "h") 80 = .error .outOfFuel := by
  have hpath : ∀ fuel, follow (fun _ target => (reply redirecting h request zeros target).next html h) fuel
      ⟨ascii "/a", ascii "h", 80⟩ = none := by
    apply follow_never_iff.2
    exact ⟨fun _ => ⟨ascii "/a", ascii "h", 80⟩, rfl, fun _ => next_inl_iff.2 (redirecting_reply h request)⟩
  exact (proxyCalls_outOfFuel_iff (u := fun _ => zeros)).2 (hpath fuel)

/-- **A loop.** A GET of `/a` from a proxy for `h` is never answered, however often `proxy_request` calls itself. -/
theorem redirects_loop :
    ¬ ∃ fuel response, handleRequest redirecting ⟨id, fun _ page => page⟩ (fun _ => zeros) ⟨[], ascii "h", [], 80⟩ fuel
      ⟨.GET, ascii "/a", ascii "HTTP/1.0", SortedMap.empty, []⟩ = .ok response := by
  rintro ⟨fuel, response, hresponse⟩
  have hasked : askedUri ⟨[], ascii "h", [], 80⟩ (ascii "/a") = some (ascii "/a") := by decide
  rw [handleRequest_asks, hasked] at hresponse
  simp only [redirecting_calls] at hresponse
  cases hresponse

end BlogServer.Proxy
