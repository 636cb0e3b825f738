/-
What a redirect makes of the parts of its Location.

A `Url` is an absolute URL of an http server, by its parts, and a `Reference` one of a path on the current server. A
redirect to a `Url` goes on with these parts. A redirect to a `Reference` goes on with it on the same server, unless
there is a `//` in it: then what comes after that is taken for the host (`redirectTarget_parts_iff`). Either way it is
the port of the handler that is connected to (`location_followed_iff`).

- `redirectTarget_url`: the parts of a URL.
- `redirectTarget_reference_ne`: a reference with a `//` is not asked for.
- `location_followed_slashes`: a redirect to `/a//b` asks another server for `/`.
-/
import BlogServer.Proxy.RedirectTargets

namespace BlogServer.Proxy

open BlogServer.Http BlogServer.Byte

/-! ## The parts -/

/-- an absolute http URL: a host, the digits of a port if there are any, and a path -/
structure Url where
  host : Bytes
  port : Option Bytes
  path : Bytes
  host_slash : SLASH ∉ host
  host_colon : COLON ∉ host
  port_digits : ∀ digits ∈ port, digits ≠ [] ∧ ∀ c ∈ digits, isDigit c = true
  port_range : ∀ digits ∈ port, Decimal.value digits ≤ 65535
  path_slash : path = [] ∨ path.head? = some SLASH

/-- the host with its port -/
def Url.server (url : Url) : Bytes :=
  match url.port with
  | none => url.host
  | some digits => url.host ++ COLON :: digits

def Url.text (url : Url) : Bytes := ascii "http://" ++ (url.server ++ url.path)

/-- what is to be asked for there -/
def Url.target (url : Url) : Target where
  uri := if url.path = [] then ascii "/" else url.path
  url := url.host
  port := match url.port with
    | none => 80
    | some digits => Decimal.value digits

/-- a reference that begins with a single slash -/
structure Reference where
  rest : Bytes
  single : rest.head? ≠ some SLASH

def Reference.text (reference : Reference) : Bytes := SLASH :: reference.rest

/-- a Location of one of the two kinds -/
inductive Location where
  | absolute (url : Url)
  | relative (reference : Reference)

def Location.text : Location → Bytes
  | .absolute url => url.text
  | .relative reference => reference.text

/-- what a call that it redirects is to go on with -/
def Location.target (call : Target) : Location → Target
  | .absolute url => url.target
  | .relative reference => ⟨reference.text, call.url, call.port⟩

/-- it is absolute, or has no `//` -/
def Location.Plain : Location → Prop
  | .absolute _ => True
  | .relative reference => Bytes.find (ascii "//") reference.text = none

/-! ## What is made of a URL -/

theorem Url.server_slash (url : Url) : SLASH ∉ url.server := by
  unfold Url.server
  cases hport : url.port with
  | none => exact url.host_slash
  | some digits =>
    intro hmem
    rcases List.mem_append.1 hmem with hhost | hrest
    · exact url.host_slash hhost
    · rcases List.mem_cons.1 hrest with heq | hdigit
      · exact absurd heq (by decide)
      · exact absurd ((url.port_digits digits hport).2 SLASH hdigit) (by decide)

theorem takeWhile_bne_append {c : UInt8} {s : Bytes} (h : c ∉ s) (rest : Bytes) :
    ((s ++ c :: rest).takeWhile fun d => d != c) = s := by
  rw [List.takeWhile_append_of_pos fun d hd => ?_]
  · simp
  · rw [bne_iff_ne]
    rintro rfl
    exact h hd

/-- the server is what is before the path -/
theorem Url.takeWhile_server (url : Url) : ((url.server ++ url.path).takeWhile fun c => c != SLASH) = url.server := by
  rcases url.path_slash with hempty | hslash
  · rw [hempty, List.append_nil, takeWhile_bne url.server_slash]
  · obtain ⟨rest, hpath⟩ := List.head?_eq_some_iff.1 hslash
    rw [hpath, takeWhile_bne_append url.server_slash]

theorem Url.uriBehind_server (url : Url) : uriBehind (url.server ++ url.path) = url.target.uri := by
  unfold uriBehind Url.target
  rw [← drop_takeWhile, url.takeWhile_server, List.drop_left]
  cases url.path with
  | nil => rfl
  | cons c uri => rfl

/-- what is read before and behind the first colon -/
theorem Url.hostAndPort_server (url : Url) : hostAndPort url.server = some (url.host, url.target.port) := by
  unfold Url.server Url.target
  rw [hostAndPort_eq, find_byte]
  cases hport : url.port with
  | none => simp only [if_neg url.host_colon]
  | some digits =>
    obtain ⟨hne, hdigits⟩ := url.port_digits digits hport
    have hrange := url.port_range digits hport
    have hstoi : Decimal.stoi digits = some (Decimal.value digits : ℤ) := by
      rw [Decimal.stoi_of_digits hne hdigits]
      exact Decimal.narrow_natCast (by omega)
    simp only [if_pos (show COLON ∈ url.host ++ COLON :: digits by simp), takeWhile_bne_append url.host_colon,
      List.take_left]
    rw [← List.drop_drop, List.drop_left, List.drop_one, List.tail_cons, hstoi]
    rfl

/-- **The parts of a URL.** -/
theorem redirectTarget_url (url : Url) (current : Bytes) (port : ℤ) :
    redirectTarget url.text current port = some (url.target.uri, url.target.url, url.target.port) := by
  have hfind : Bytes.find (ascii "//") url.text = some 5 := rfl
  have hdrop : url.text.drop (5 + 2) = url.server ++ url.path := rfl
  rw [redirectTarget_of_find hfind, hdrop, url.takeWhile_server, url.hostAndPort_server, url.uriBehind_server]
  rfl

/-! ## What is made of a reference -/

/-- what is behind a `//` is shorter than the reference -/
theorem uriBehind_length (rest : Bytes) : (uriBehind rest).length ≤ rest.length ∨ uriBehind rest = ascii "/" := by
  unfold uriBehind
  cases huri : rest.dropWhile fun c => c != SLASH with
  | nil => exact Or.inr rfl
  | cons c uri =>
    left
    show (c :: uri).length ≤ rest.length
    rw [← huri]
    exact (List.dropWhile_sublist _).length_le

/-- a reference with a `//` is not what is asked for -/
theorem redirectTarget_reference_ne {reference : Reference} {pos : ℕ}
    (hfind : Bytes.find (ascii "//") reference.text = some pos) {current : Bytes} {port : ℤ} {server : Bytes × ℤ} :
    redirectTarget reference.text current port ≠ some (reference.text, server) := by
  intro heq
  rw [redirectTarget_of_find hfind] at heq
  obtain ⟨server', -, hpair⟩ := Option.map_eq_some_iff.1 heq
  have huri : uriBehind (reference.text.drop (pos + 2)) = reference.text := (Prod.mk.inj hpair).1
  have hlong : pos + 2 ≤ reference.text.length := Bytes.find_add_length_le hfind
  rcases uriBehind_length (reference.text.drop (pos + 2)) with hle | hslash
  · rw [huri, List.length_drop] at hle
    omega
  · rw [← huri, hslash] at hlong
    exact absurd (show pos + 2 ≤ 1 from hlong) (by omega)

/-- **What is made of a Location**: its parts, exactly when it is absolute or has no `//`. -/
theorem redirectTarget_parts_iff (location : Location) (call : Target) :
    redirectTarget location.text call.url call.port =
        some ((location.target call).uri, (location.target call).url, (location.target call).port) ↔
      location.Plain := by
  cases location with
  | absolute url => exact iff_of_true (redirectTarget_url url _ _) trivial
  | relative reference =>
    show redirectTarget reference.text call.url call.port = some (reference.text, call.url, call.port) ↔
      Bytes.find (ascii "//") reference.text = none
    cases hfind : Bytes.find (ascii "//") reference.text with
    | none =>
      refine iff_of_true ?_ rfl
      unfold redirectTarget
      rw [hfind]
    | some pos =>
      refine iff_of_false (redirectTarget_reference_ne hfind) ?_
      intro hnone
      cases hnone

/-! ## Redirects -/

section Redirect

variable (net : Network) (html : Html) (h : ProxyHandler) (request : Request) (u : ResponseUninit)

/-- after a call the next one is the given one, and goes to the server that it is for -/
structure FollowedTo (call next : Target) : Prop where
  called : (reply net h request u call).next html h = .inl next
  connects : ConnectsTo h request next next.url next.port

variable {net html h request u}

/-- **How a redirect is followed.** A redirect by an absolute URL, or by a reference with a single slash in front, goes
on with its parts at the server that it names, exactly when it is absolute or has no `//`, and its port is the
configured one. -/
theorem location_followed_iff {call : Target} {location : Location}
    (hby : RedirectedBy net h request u call location.text) :
    FollowedTo net html h request u call (location.target call) ↔
      location.Plain ∧ (location.target call).port = h.serverPortNum := by
  constructor
  · intro hfollowed
    obtain ⟨other, hother, htarget⟩ := reply_redirect_iff.1 (next_inl_iff.1 hfollowed.called)
    rw [← hby.unique hother] at htarget
    exact ⟨(redirectTarget_parts_iff location call).1 htarget, (connectsTo_iff.1 hfollowed.connects).2⟩
  · intro hplain
    obtain ⟨hplain, hport⟩ := hplain
    have htarget := (redirectTarget_parts_iff location call).2 hplain
    exact ⟨next_inl_iff.2 (reply_redirect_iff.2 ⟨location.text, hby, htarget⟩), connectsTo_iff.2 ⟨rfl, hport⟩⟩

end Redirect

/-! ## A reference with two slashes -/

/-- every request is answered by a redirect to the Location -/
def redirectingTo (location : Bytes) : Network := fun _ _ _ =>
  some [ascii "HTTP/1.0 302 Found\r\nLocation: " ++ location ++ ascii "\r\nContent-Length: 0\r\n\r\n"]

theorem redirectingTo_redirects {location : Bytes} (h : ProxyHandler) (request : Request) (call : Target)
    (hread : ∃ response, readResponse (ResponseParser.fresh zeros)
      [ascii "HTTP/1.0 302 Found\r\nLocation: " ++ location ++ ascii "\r\nContent-Length: 0\r\n\r\n"] =
        some response ∧ isRedirect response ∧ response.headers.getD (ascii "Location") [] = location) :
    RedirectedBy (redirectingTo location) h request zeros call location := by
  obtain ⟨response, hresponse, hredirect, hlocation⟩ := hread
  exact ⟨_, response, rfl, hresponse, hredirect, hlocation⟩

/-- a path with two slashes in it -/
def doubled : Reference := ⟨ascii "a//b", by decide⟩

theorem doubled_redirects (h : ProxyHandler) (request : Request) (call : Target) :
    RedirectedBy (redirectingTo (ascii "/a//b")) h request zeros call (Location.relative doubled).text :=
  redirectingTo_redirects h request call
    ⟨⟨302, headerMap [⟨ascii "Location", ascii "/a//b"⟩, ⟨ascii "Content-Length", ascii "0"⟩], []⟩, by decide +kernel,
      by decide, by decide +kernel⟩

/-- what is behind them is asked for `/` -/
theorem location_followed_slashes :
    ∃ (net : Network) (html : Html) (h : ProxyHandler) (request : Request) (call : Target) (location : Location),
      h.serverUrl = ascii "h" ∧ h.serverPortNum = 80 ∧ call = ⟨ascii "/", ascii "h", 80⟩ ∧
      location.text = ascii "/a//b" ∧ location.target call = ⟨ascii "/a//b", ascii "h", 80⟩ ∧
      RedirectedBy net h request zeros call location.text ∧
      (reply net h request zeros call).next html h = .inl ⟨ascii "/", ascii "b", 80⟩ ∧
      ¬ FollowedTo net html h request zeros call (location.target call) := by
  let handler : ProxyHandler := ⟨[], ascii "h", [], 80⟩
  let request : Request := ⟨.GET, ascii "/", ascii "HTTP/1.0", SortedMap.empty, []⟩
  have hby := doubled_redirects handler request ⟨ascii "/", ascii "h", 80⟩
  have hnext : (reply (redirectingTo (ascii "/a//b")) handler request zeros ⟨ascii "/", ascii "h", 80⟩).next
      ⟨id, fun _ page => page⟩ handler = .inl ⟨ascii "/", ascii "b", 80⟩ :=
    next_inl_iff.2 (reply_redirect_iff.2 ⟨_, hby, by decide +kernel⟩)
  refine ⟨redirectingTo (ascii "/a//b"), ⟨id, fun _ page => page⟩, handler, request, _, .relative doubled, rfl, rfl,
    rfl, rfl, rfl, hby, hnext, ?_⟩
  intro hfollowed
  have hsame := Sum.inl.inj (hnext.symm.trans hfollowed.called)
  exact absurd (congrArg Target.url hsame) (by decide)

/-- the theorem at a URL of another host -/
theorem location_followed_url :
    FollowedTo (redirectingTo (ascii "http://o/a")) ⟨id, fun _ page => page⟩ ⟨[], ascii "h", [], 80⟩
      ⟨.GET, ascii "/", ascii "HTTP/1.0", SortedMap.empty, []⟩ zeros ⟨ascii "/", ascii "h", 80⟩
      ⟨ascii "/a", ascii "o", 80⟩ := by
  let url : Url := ⟨ascii "o", none, ascii "/a", by decide, by decide, by simp, by simp, Or.inr rfl⟩
  have hby : RedirectedBy (redirectingTo (ascii "http://o/a")) ⟨[], ascii "h", [], 80⟩
      ⟨.GET, ascii "/", ascii "HTTP/1.0", SortedMap.empty, []⟩ zeros ⟨ascii "/", ascii "h", 80⟩
      (Location.absolute url).text :=
    redirectingTo_redirects _ _ _
      ⟨⟨302, headerMap [⟨ascii "Location", ascii "http://o/a"⟩, ⟨ascii "Content-Length", ascii "0"⟩], []⟩,
        by decide +kernel, by decide, by decide⟩
  exact (location_followed_iff hby).2 ⟨trivial, rfl⟩

end BlogServer.Proxy
