/-
Which server the calls of a chain of redirects connect to.

A call of `proxy_request` is given a host and a port. It announces both in `Host`, and takes over both for a relative
redirect; but it resolves the host with the port of the handler. So the calls of a chain connect to what they are called
with, announce, and were redirected to, exactly when the port is the configured one all along (`redirects_connect_iff`).

- `connectsTo_iff`: where a call connects to.
- `redirectTarget_leads`: a redirect leads to the host and the port that its `Location` names.
- `redirects_connect_fails`: a redirect to port 81 of another host, from a handler for port 80.
-/
import BlogServer.Proxy.Redirects

namespace BlogServer.Proxy

open BlogServer.Http BlogServer.Byte

/-! ## The server of a Location -/

/-- what is between the first `//` of a Location and the slash behind it -/
def authority (location : Bytes) : Option Bytes :=
  (Bytes.find (ascii "//") location).map fun pos => (location.drop (pos + 2)).takeWhile fun c => c != SLASH

/-- the host and the port that it gives: the number behind its first colon, 80 without one -/
def hostAndPort (server : Bytes) : Option (Bytes × ℤ) :=
  match server.dropWhile fun c => c != COLON with
  | [] => some (server, 80)
  | _ :: number => (Decimal.stoi number).map fun port => (server.takeWhile fun c => c != COLON, port)

/-- the host and the port that a redirect leads to from a call: those that its Location names, or else those of the
call; `none` if the port cannot be read -/
def ledTo (location url : Bytes) (port : ℤ) : Option (Bytes × ℤ) :=
  match authority location with
  | none => some (url, port)
  | some server => hostAndPort server

/-- a byte is found behind those that are others -/
theorem find_byte (c : UInt8) (s : Bytes) :
    Bytes.find [c] s = if c ∈ s then some (s.takeWhile fun d => d != c).length else none := by
  induction s with
  | nil => rfl
  | cons d s ih =>
    rw [Bytes.find]
    by_cases hd : d = c
    · rw [hd, if_pos (List.cons_prefix_cons.2 ⟨rfl, List.nil_prefix⟩), if_pos List.mem_cons_self]
      simp
    · have hpre : ¬ [c] <+: d :: s := fun h => hd (List.cons_prefix_cons.1 h).1.symm
      rw [if_neg hpre, ih]
      simp only [List.mem_cons, Ne.symm hd, false_or, List.takeWhile_cons, bne_iff_ne.2 hd, if_true, List.length_cons]
      split_ifs <;> rfl

theorem take_takeWhile (p : UInt8 → Bool) (s : Bytes) : s.take (s.takeWhile p).length = s.takeWhile p :=
  (List.prefix_iff_eq_take.1 (List.takeWhile_prefix p)).symm

theorem drop_takeWhile (p : UInt8 → Bool) (s : Bytes) : s.drop (s.takeWhile p).length = s.dropWhile p := by
  calc s.drop (s.takeWhile p).length
      = (s.takeWhile p ++ s.dropWhile p).drop (s.takeWhile p).length := by rw [List.takeWhile_append_dropWhile]
    _ = s.dropWhile p := List.drop_left

theorem takeWhile_bne {c : UInt8} {s : Bytes} (h : c ∉ s) : (s.takeWhile fun d => d != c) = s := by
  rw [List.takeWhile_eq_self_iff]
  intro d hd
  rw [bne_iff_ne]
  rintro rfl
  exact h hd

/-- the end of a redirect's Location: what host and port are made of it -/
theorem hostAndPort_eq (server : Bytes) :
    hostAndPort server =
      match Bytes.find [COLON] server with
      | some pos => (Decimal.stoi (server.drop (pos + 1))).map fun port => (server.take pos, port)
      | none => some (server, 80) := by
  unfold hostAndPort
  rw [find_byte]
  by_cases hcolon : COLON ∈ server
  · rw [if_pos hcolon]
    simp only
    rw [take_takeWhile, ← List.drop_drop, drop_takeWhile]
    cases hrest : server.dropWhile fun c => c != COLON with
    | nil =>
      have hno := List.dropWhile_eq_nil_iff.1 hrest COLON hcolon
      exact absurd hno (by decide)
    | cons c number => rfl
  · have hrest : (server.dropWhile fun c => c != COLON) = [] := by
      rw [← drop_takeWhile, takeWhile_bne hcolon, List.drop_length]
    rw [if_neg hcolon, hrest]

/-- the URI that is asked for of what is behind the `//`: what begins at the first slash -/
def uriBehind (rest : Bytes) : Bytes :=
  match rest.dropWhile fun c => c != SLASH with
  | [] => ascii "/"
  | c :: uri => c :: uri

/-- what is made of a Location with a `//` -/
theorem redirectTarget_of_find {location : Bytes} {pos : ℕ} (h : Bytes.find (ascii "//") location = some pos)
    (url : Bytes) (port : ℤ) :
    redirectTarget location url port =
      (hostAndPort ((location.drop (pos + 2)).takeWhile fun c => c != SLASH)).map fun server =>
        (uriBehind (location.drop (pos + 2)), server) := by
  unfold redirectTarget
  rw [h]
  simp only [hostAndPort_eq, uriBehind, find_byte SLASH]
  generalize location.drop (pos + 2) = rest
  by_cases hslash : SLASH ∈ rest
  · have huri : rest.dropWhile (fun c => c != SLASH) ≠ [] := by
      intro hnil
      exact absurd (List.dropWhile_eq_nil_iff.1 hnil SLASH hslash) (by decide)
    obtain ⟨c, uri, huri⟩ := List.exists_cons_of_ne_nil huri
    rw [if_pos hslash]
    simp only [take_takeWhile, drop_takeWhile, huri]
    cases Bytes.find [COLON] (rest.takeWhile fun c => c != SLASH) with
    | none => rfl
    | some colon => simp only [Option.map_map, Function.comp_def]
  · have huri : rest.dropWhile (fun c => c != SLASH) = [] := by
      rw [← drop_takeWhile, takeWhile_bne hslash, List.drop_length]
    rw [if_neg hslash, takeWhile_bne hslash, huri]
    simp only
    cases Bytes.find [COLON] rest with
    | none => rfl
    | some colon => simp only [Option.map_map, Function.comp_def]

/-- **A redirect leads to the server that its Location names.** -/
theorem redirectTarget_server (location url : Bytes) (port : ℤ) :
    (redirectTarget location url port).map Prod.snd = ledTo location url port := by
  unfold ledTo authority
  cases hfind : Bytes.find (ascii "//") location with
  | none =>
    unfold redirectTarget
    rw [hfind]
    rfl
  | some pos =>
    rw [redirectTarget_of_find hfind, Option.map_map, Option.map_some]
    exact Option.map_id_apply

/-! ## Where a call connects to -/

/-- a call connects to a host at a port: its answer depends on what is answered there, and on nothing else -/
def ConnectsTo (h : ProxyHandler) (request : Request) (call : Target) (host : Bytes) (port : ℤ) : Prop :=
  ∀ net net' : Network, net host port = net' host port → ∀ u, reply net h request u call = reply net' h request u call

/-- no server can be reached -/
def unreachable : Network := fun _ _ _ => none

/-- but one, which ends the connection -/
def onlyAt (host : Bytes) (port : ℤ) : Network := fun url p _ => if url = host ∧ p = port then some [] else none

/-- **Where a call connects to**: the host it is called with, at the port of the handler. -/
theorem connectsTo_iff {h : ProxyHandler} {request : Request} {call : Target} {host : Bytes} {port : ℤ} :
    ConnectsTo h request call host port ↔ host = call.url ∧ port = h.serverPortNum := by
  constructor
  · intro hconnects
    by_contra hne
    -- two networks that are alike at the other server
    have hlike : onlyAt call.url h.serverPortNum host port = unreachable host port := by
      funext written
      exact if_neg hne
    have heq := hconnects (onlyAt call.url h.serverPortNum) unreachable hlike zeros
    unfold reply onlyAt unreachable at heq
    rw [if_pos ⟨rfl, rfl⟩] at heq
    cases heq
  · intro hserver net net' hlike u
    obtain ⟨rfl, rfl⟩ := hserver
    unfold reply
    rw [hlike]

/-- the `Host` that a call writes -/
def hostHeader (request : Request) (call : Target) : Option Bytes :=
  (forwardedRequest request call.uri call.url call.port).headers.find? (ascii "Host")

theorem hostHeader_eq (request : Request) (call : Target) :
    hostHeader request call = some (call.url ++ ascii ":" ++ Decimal.toString call.port) := by
  unfold hostHeader forwardedRequest
  rw [SortedMap.find?_insert_of_ne _ _ (by decide), SortedMap.find?_insert_self]

/-! ## Redirects -/

section Chain

variable (net : Network) (html : Html) (h : ProxyHandler) (request : Request)

/-- the answer to a call is a redirect with the Location -/
def RedirectedBy (u : ResponseUninit) (call : Target) (location : Bytes) : Prop :=
  ∃ reads response,
    net call.url h.serverPortNum (buildRequestString (forwardedRequest request call.uri call.url call.port)) =
        some reads ∧
      readResponse (ResponseParser.fresh u) reads = some response ∧ isRedirect response ∧
      response.headers.getD (ascii "Location") [] = location

variable {net h request}

theorem RedirectedBy.unique {u : ResponseUninit} {call : Target} {location other : Bytes}
    (hby : RedirectedBy net h request u call location) (hother : RedirectedBy net h request u call other) :
    location = other := by
  obtain ⟨reads, response, hreads, hread, -, rfl⟩ := hby
  obtain ⟨reads', response', hreads', hread', -, rfl⟩ := hother
  obtain rfl := Option.some.inj (hreads.symm.trans hreads')
  rw [Option.some.inj (hread.symm.trans hread')]

/-- a call goes on exactly with what the Location of its answer is read as -/
theorem reply_redirect_iff {u : ResponseUninit} {call next : Target} :
    reply net h request u call = .redirect next ↔
      ∃ location, RedirectedBy net h request u call location ∧
        redirectTarget location call.url call.port = some (next.uri, next.url, next.port) := by
  constructor
  · intro heq
    unfold reply at heq
    cases hreads : net call.url h.serverPortNum
      (buildRequestString (forwardedRequest request call.uri call.url call.port)) with
    | none =>
      rw [hreads] at heq
      cases heq
    | some reads =>
      rw [hreads] at heq
      simp only at heq
      cases hread : readResponse (ResponseParser.fresh u) reads with
      | none =>
        rw [hread] at heq
        cases heq
      | some response =>
        rw [hread] at heq
        simp only at heq
        split_ifs at heq with hredirect
        refine ⟨_, ⟨reads, response, hreads, hread, hredirect, rfl⟩, ?_⟩
        cases htarget : redirectTarget (response.headers.getD (ascii "Location") []) call.url call.port with
        | none =>
          rw [htarget] at heq
          cases heq
        | some target =>
          rw [htarget] at heq
          rw [← Reply.redirect.inj heq]
  · intro hby
    obtain ⟨location, ⟨reads, response, hreads, hread, hredirect, rfl⟩, htarget⟩ := hby
    unfold reply
    rw [hreads]
    simp only
    rw [hread]
    simp only
    rw [if_pos hredirect, htarget]

variable {html}

/-- after a redirect the host and port are what its Location leads to -/
theorem RedirectedBy.next {u : ResponseUninit} {call next : Target} {location : Bytes}
    (hby : RedirectedBy net h request u call location)
    (hnext : (reply net h request u call).next html h = .inl next) :
    ledTo location call.url call.port = some (next.url, next.port) := by
  obtain ⟨other, hother, htarget⟩ := reply_redirect_iff.1 (next_inl_iff.1 hnext)
  rw [hby.unique hother, ← redirectTarget_server, htarget]
  rfl

/-- a Location that leads somewhere is followed there -/
theorem RedirectedBy.exists_next {u : ResponseUninit} {call : Target} {location : Bytes}
    (hby : RedirectedBy net h request u call location) {server : Bytes × ℤ}
    (hled : ledTo location call.url call.port = some server) :
    ∃ uri, (reply net h request u call).next html h = .inl ⟨uri, server.1, server.2⟩ := by
  rw [← redirectTarget_server] at hled
  obtain ⟨⟨uri, led⟩, htarget, rfl⟩ := Option.map_eq_some_iff.1 hled
  exact ⟨uri, next_inl_iff.2 (reply_redirect_iff.2 ⟨location, hby, htarget⟩)⟩

end Chain

/-! ## A chain of calls -/

section Chains

variable (net : ℕ → Network) (html : Html) (h : ProxyHandler) (request : Request) (u : ℕ → ResponseUninit)
  (target : Target)

/-- the call after so many redirects, when the call number `i` is answered by `net i`; what `RedirectedTo` says when
they are all one -/
abbrev CalledAfter : ℕ → Target → Prop :=
  Reached (fun i call => (reply (net i) h request (u i) call).next html h) target

/-- every call of the chain connects to what it is called with, announces, and was redirected to -/
structure Connected : Prop where
  asCalled : ∀ {n call}, CalledAfter net html h request u target n call → ConnectsTo h request call call.url call.port
  asAnnounced : ∀ {n call}, CalledAfter net html h request u target n call → ∀ {host port},
    ConnectsTo h request call host port → hostHeader request call = some (host ++ ascii ":" ++ Decimal.toString port)
  asNamed : ∀ {n call next location host port}, CalledAfter net html h request u target n call →
    RedirectedBy (net n) h request (u n) call location → CalledAfter net html h request u target (n + 1) next →
    ledTo location call.url call.port = some (host, port) → ConnectsTo h request next host port

/-- the port is the configured one at first, and in every redirect that names a server -/
structure OnePort : Prop where
  first : target.port = h.serverPortNum
  named : ∀ {n call location server host port}, CalledAfter net html h request u target n call →
    RedirectedBy (net n) h request (u n) call location → authority location = some server →
    hostAndPort server = some (host, port) → port = h.serverPortNum

variable {net html h request u target}

/-- what one redirect does to the port -/
theorem OnePort.next (hone : OnePort net html h request u target) {n : ℕ} {call next : Target}
    (hcall : CalledAfter net html h request u target n call) (hport : call.port = h.serverPortNum)
    (hnext : (reply (net n) h request (u n) call).next html h = .inl next) : next.port = h.serverPortNum := by
  obtain ⟨location, hby, -⟩ := reply_redirect_iff.1 (next_inl_iff.1 hnext)
  have hled := hby.next hnext
  unfold ledTo at hled
  cases hserver : authority location with
  | none =>
    rw [hserver] at hled
    obtain ⟨-, hsame⟩ := Prod.mk.inj (Option.some.inj hled)
    rw [← hsame, hport]
  | some server =>
    rw [hserver] at hled
    exact hone.named hcall hby hserver hled

/-- so all calls have the configured port -/
theorem OnePort.port (hone : OnePort net html h request u target) {n : ℕ} {call : Target}
    (hcall : CalledAfter net html h request u target n call) : call.port = h.serverPortNum := by
  induction hcall with
  | start => exact hone.first
  | hop hbefore hnext ih => exact hone.next hbefore ih hnext

theorem Connected.port (hconnected : Connected net html h request u target) {n : ℕ} {call : Target}
    (hcall : CalledAfter net html h request u target n call) : call.port = h.serverPortNum :=
  (connectsTo_iff.1 (hconnected.asCalled hcall)).2

/-- **Whether redirects are followed to the server they name.** In a chain of calls, whatever is answered: every call
connects to the host and port that it is called with, that it announces, and that the redirect before it leads to,
exactly when the first port is the configured one and so is that of every redirect that names a server. -/
theorem redirects_connect_iff (net : ℕ → Network) (html : Html) (h : ProxyHandler) (request : Request)
    (u : ℕ → ResponseUninit) (target : Target) :
    Connected net html h request u target ↔ OnePort net html h request u target := by
  constructor
  · intro hconnected
    refine ⟨hconnected.port .start, fun {n call location server host port} hcall hby hserver hnamed => ?_⟩
    have hled : ledTo location call.url call.port = some (host, port) := by
      rw [ledTo, hserver]
      exact hnamed
    obtain ⟨uri, hnext⟩ : ∃ uri, (reply (net n) h request (u n) call).next html h = .inl ⟨uri, host, port⟩ :=
      hby.exists_next hled
    exact hconnected.port (.hop hcall hnext)
  · intro hone
    refine ⟨fun {n call} hcall => ?_, fun {n call} hcall {host port} hconnects => ?_,
      fun {n call next location host port} hcall hby hafter hled => ?_⟩
    · exact connectsTo_iff.2 ⟨rfl, hone.port hcall⟩
    · obtain ⟨rfl, rfl⟩ := connectsTo_iff.1 hconnects
      rw [hostHeader_eq, hone.port hcall]
    · cases hafter with
      | hop hbefore hnext =>
        obtain rfl := hcall.unique hbefore
        obtain ⟨rfl, rfl⟩ := Prod.mk.inj (Option.some.inj (hled.symm.trans (hby.next hnext)))
        exact connectsTo_iff.2 ⟨rfl, hone.port (.hop hcall hnext)⟩

end Chains

/-! ## A redirect to another port -/

/-- the configured server redirects to another one; the others cannot be reached -/
def redirectingAway : Network := fun url _ _ =>
  if url = ascii "h" then
    some [ascii "HTTP/1.0 302 Found\r\nLocation: http://o:81/a\r\nContent-Length: 0\r\n\r\n"]
  else none

/-- the request is sent on to port 81 -/
theorem redirectingAway_reply (h : ProxyHandler) (request : Request) :
    reply redirectingAway h request zeros ⟨ascii "/", ascii "h", 80⟩ = .redirect ⟨ascii "/a", ascii "o", 81⟩ := by
  have hread : ∃ response, readResponse (ResponseParser.fresh zeros)
      [ascii "HTTP/1.0 302 Found\r\nLocation: http://o:81/a\r\nContent-Length: 0\r\n\r\n"] = some response ∧
        isRedirect response ∧ redirectTarget (response.headers.getD (ascii "Location") []) (ascii "h") 80 =
          some (ascii "/a", ascii "o", 81) :=
    ⟨⟨302, headerMap [⟨ascii "Location", ascii "http://o:81/a"⟩, ⟨ascii "Content-Length", ascii "0"⟩], []⟩,
      by decide +kernel, by decide, by decide⟩
  obtain ⟨response, hresponse, hredirect, htarget⟩ := hread
  simp only [reply, redirectingAway, if_true, hresponse, if_pos hredirect, htarget]

/-- but port 80 of the other server is connected to -/
theorem redirects_connect_fails :
    ∃ (net : Network) (html : Html) (h : ProxyHandler) (request : Request) (call : Target),
      h.serverUrl = ascii "h" ∧ h.serverPortNum = 80 ∧ request.uri = ascii "/" ∧
      CalledAfter (fun _ => net) html h request (fun _ => zeros) ⟨ascii "/", ascii "h", 80⟩ 1 call ∧
      call.url = ascii "o" ∧ call.port = 81 ∧ ConnectsTo h request call (ascii "o") 80 ∧
      hostHeader request call = some (ascii "o:81") ∧
      ¬ Connected (fun _ => net) html h request (fun _ => zeros) ⟨ascii "/", ascii "h", 80⟩ := by
  let handler : ProxyHandler := ⟨[], ascii "h", [], 80⟩
  let request : Request := ⟨.GET, ascii "/", ascii "HTTP/1.0", SortedMap.empty, []⟩
  have hreached : RedirectedTo redirectingAway ⟨id, fun _ page => page⟩ handler request (fun _ => zeros)
      ⟨ascii "/", ascii "h", 80⟩ 1 ⟨ascii "/a", ascii "o", 81⟩ :=
    .hop .start (next_inl_iff.2 (redirectingAway_reply handler request))
  refine ⟨redirectingAway, ⟨id, fun _ page => page⟩, handler, request, ⟨ascii "/a", ascii "o", 81⟩, rfl, rfl, rfl,
    hreached, rfl, rfl, connectsTo_iff.2 ⟨rfl, rfl⟩, ?_, ?_⟩
  · rw [hostHeader_eq]
    decide
  · intro hconnected
    have hport : (81 : ℤ) = 80 := hconnected.port hreached
    exact absurd hport (by decide)

end BlogServer.Proxy
