/-
What the handlers of prefixes cut from a URI.

`get_handler` finds the location of a proxy or a blog at the beginning of the decoded URI; the handler cuts as many
bytes as the location has from the URI as it was sent. A `%20` that was read as a space of the location is three bytes
there, so bytes of the location are left. What is left decodes to the rest of the decoded URI exactly when the location
begins the URI as it was sent (`prefix_stripped_iff`).

A proxy asks upstream for what is left behind the path of its host. That begins with a slash unless the host has no path
and the search for a prefix has stopped inside a segment (`target_wellFormed_iff`).

- `prefix_stripped_fails`: `/a%20b/x` for the location `/a b` leaves `0b/x`.
- `target_wellFormed_fails`: for `/wfoo` and the location `/w`, `foo` is asked for.
-/
import BlogServer.Dispatch.ProxyLinks

namespace BlogServer.Dispatch

open BlogServer.Byte BlogServer.Config BlogServer.Http BlogServer.Posts BlogServer.Proxy

/-! ## Cutting before decoding -/

/-- after its first byte or two an escape decodes to what is left of it -/
theorem unescapeSpaces_tail (s : Bytes) : unescapeSpaces (50 :: 48 :: s) = 50 :: 48 :: unescapeSpaces s := by
  rw [unescapeSpaces_cons _ (by decide), unescapeSpaces_cons _ (by decide)]

/-- as many bytes cut before decoding take off no more than they are -/
theorem unescapeSpaces_drop_length_le (s : Bytes) (n : ℕ) :
    (unescapeSpaces s).length ≤ (unescapeSpaces (s.drop n)).length + n := by
  induction s using unescape_induction generalizing n with
  | nil => exact Nat.zero_le _
  | hit s ih =>
    rw [unescapeSpaces_hit, List.length_cons]
    match n with
    | 0 =>
      rw [List.drop_zero, unescapeSpaces_hit, List.length_cons]
    | 1 =>
      rw [show (ascii "%20" ++ s).drop 1 = 50 :: 48 :: s from rfl, unescapeSpaces_tail, List.length_cons,
        List.length_cons]
      omega
    | 2 =>
      rw [show (ascii "%20" ++ s).drop 2 = 48 :: s from rfl, unescapeSpaces_cons _ (by decide), List.length_cons]
      omega
    | n + 3 =>
      rw [show (ascii "%20" ++ s).drop (n + 3) = s.drop n from rfl]
      have := ih n
      omega
  | miss c s hmiss ih =>
    match n with
    | 0 => exact le_rfl
    | n + 1 =>
      rw [unescapeSpaces_miss hmiss, List.length_cons, List.drop_succ_cons]
      have := ih n
      omega

/-- **Cut too short.** When the beginning of a decoded text is not that of the text, at least two bytes more than the
rest are left. -/
theorem unescapeSpaces_drop_add_two_le {s location : Bytes} (hpre : location <+: unescapeSpaces s)
    (hraw : ¬ location <+: s) :
    (unescapeSpaces s).length + 2 ≤ (unescapeSpaces (s.drop location.length)).length + location.length := by
  induction s using unescape_induction generalizing location with
  | nil => exact absurd hpre hraw
  | hit s ih =>
    -- the cut is inside this escape, or behind it
    rw [unescapeSpaces_hit, List.length_cons]
    match location with
    | [] => exact absurd List.nil_prefix hraw
    | [_] =>
      rw [List.length_singleton, show (ascii "%20" ++ s).drop 1 = 50 :: 48 :: s from rfl, unescapeSpaces_tail,
        List.length_cons, List.length_cons]
    | [_, _] =>
      rw [show (ascii "%20" ++ s).drop [_, _].length = 48 :: s from rfl, unescapeSpaces_cons _ (by decide),
        List.length_cons, List.length_cons, List.length_singleton]
    | _ :: _ :: _ :: rest =>
      rw [List.length_cons, List.length_cons, List.length_cons,
        show (ascii "%20" ++ s).drop (rest.length + 1 + 1 + 1) = s.drop rest.length from rfl]
      have := unescapeSpaces_drop_length_le s rest.length
      omega
  | miss c s hmiss ih =>
    cases location with
    | nil => exact absurd List.nil_prefix hraw
    | cons a location =>
      rw [unescapeSpaces_miss hmiss] at hpre ⊢
      obtain ⟨rfl, hbegins⟩ := List.cons_prefix_cons.1 hpre
      have hrest : ¬ location <+: s := fun h => hraw (List.cons_prefix_cons.2 ⟨rfl, h⟩)
      rw [List.length_cons, List.length_cons, List.drop_succ_cons]
      have := ih hbegins hrest
      omega

/-- a beginning that decoding leaves as it was is decoded apart from the rest -/
theorem unescapeSpaces_of_isPrefix {s location : Bytes} (hpre : location <+: unescapeSpaces s) (hraw : location <+: s) :
    unescapeSpaces location = location ∧
      unescapeSpaces s = location ++ unescapeSpaces (s.drop location.length) := by
  induction s using unescape_induction generalizing location with
  | nil =>
    rw [List.prefix_nil.1 hraw]
    exact ⟨rfl, rfl⟩
  | hit s ih =>
    cases location with
    | nil => exact ⟨rfl, rfl⟩
    | cons a location =>
      rw [unescapeSpaces_hit] at hpre
      have hspace : a = SP := (List.cons_prefix_cons.1 hpre).1
      have hpercent : a = PERCENT := (List.cons_prefix_cons.1 hraw).1
      exact absurd (hspace.symm.trans hpercent) (by decide)
  | miss c s hmiss ih =>
    cases location with
    | nil => exact ⟨rfl, rfl⟩
    | cons a location =>
      rw [unescapeSpaces_miss hmiss] at hpre ⊢
      obtain ⟨rfl, hbegins⟩ := List.cons_prefix_cons.1 hpre
      obtain ⟨hself, hrest⟩ := ih hbegins (List.cons_prefix_cons.1 hraw).2
      constructor
      · rw [unescapeSpaces_miss fun h => hmiss (h.trans hraw), hself]
      · rw [List.length_cons, List.drop_succ_cons, List.cons_append, ← hrest]

/-- **When cutting and decoding can be exchanged**: the beginning of the decoded text is that of the text. -/
theorem unescapeSpaces_drop_iff {s location : Bytes} (hpre : location <+: unescapeSpaces s) :
    unescapeSpaces s = location ++ unescapeSpaces (s.drop location.length) ↔ location <+: s := by
  constructor
  · intro heq
    by_contra hraw
    have hlong := unescapeSpaces_drop_add_two_le hpre hraw
    have hlength := congrArg List.length heq
    rw [List.length_append] at hlength
    omega
  · intro hraw
    exact (unescapeSpaces_of_isPrefix hpre hraw).2

/-- a beginning that decodes to the beginning of the decoded text is decoded apart from the rest -/
theorem unescapeSpaces_append {sent rest : Bytes} (h : unescapeSpaces sent <+: unescapeSpaces (sent ++ rest)) :
    unescapeSpaces (sent ++ rest) = unescapeSpaces sent ++ unescapeSpaces rest := by
  induction sent using unescape_induction with
  | nil => rfl
  | hit s ih =>
    rw [List.append_assoc, unescapeSpaces_hit, unescapeSpaces_hit] at h ⊢
    rw [ih (List.cons_prefix_cons.1 h).2, List.cons_append]
  | miss c s hmiss ih =>
    rw [List.cons_append, unescapeSpaces_miss hmiss] at h ⊢
    -- no escape begins before the cut and ends behind it
    have hmiss' : ¬ ascii "%20" <+: c :: (s ++ rest) := by
      intro hhit
      have hpercent : PERCENT = c := (List.cons_prefix_cons.1 hhit).1
      obtain ⟨tail, htail⟩ := hhit
      rw [← htail, unescapeSpaces_hit] at h
      exact absurd (hpercent.trans (List.cons_prefix_cons.1 h).1) (by decide)
    rw [unescapeSpaces_miss hmiss'] at h ⊢
    rw [ih (List.cons_prefix_cons.1 h).2, List.cons_append]

/-! ## The handlers of prefixes -/

/-- a location that begins the decoded URI is not longer than the URI -/
theorem substr_of_decoded {uri location : Bytes} (hpre : location <+: unescapeSpaces uri) :
    substr uri location.length = some (uri.drop location.length) :=
  substr_of_le (hpre.length_le.trans (unescapeSpaces_length_le uri))

/-- the location of a handler that cuts as many bytes from the URI of a request, as it was sent: `handle_request` of a
proxy, and of a blog for a GET -/
def Handler.cutLocation : Handler → Option Bytes
  | .proxy handler => some handler.clientLocationPath
  | .blog handler _ => some handler.locationPrefix
  | _ => none

/-- a handler that is returned cuts a location that begins the decoded URI -/
theorem getHandler_cutLocation {config : NginxConfig} {d : Dispatcher} (hd : Dispatcher.Reachable config d)
    {uri location : Bytes} {handler : Handler} (hrouted : (d.getHandler uri).1 = some handler)
    (hcut : handler.cutLocation = some location) : location <+: unescapeSpaces uri := by
  cases handler with
  | proxy handler =>
    obtain rfl := Option.some.inj hcut
    exact getHandler_proxy hd hrouted
  | blog handler connection =>
    obtain rfl := Option.some.inj hcut
    rcases getHandler_made hd hrouted with heq | ⟨found, hpre, hmade⟩
    · cases heq
    · rwa [hmade.locationPrefix]
  | _ => cases hcut

/-- **When a handler strips what the dispatcher matched.** Whatever was asked before: if a URI is given to a proxy or a
blog handler, what the handler cuts from it decodes to the decoded URI without the location exactly when the location
begins the URI as it was sent. -/
theorem prefix_stripped_iff {config : NginxConfig} {d : Dispatcher} (hd : Dispatcher.Reachable config d)
    {uri location : Bytes} {handler : Handler} (hrouted : (d.getHandler uri).1 = some handler)
    (hcut : handler.cutLocation = some location) :
    (∃ rest, substr uri location.length = some rest ∧ decodeSpaces uri = location ++ decodeSpaces rest) ↔
      location <+: uri := by
  have hpre := getHandler_cutLocation hd hrouted hcut
  simp only [substr_of_decoded hpre, Option.some.injEq, exists_eq_left', decodeSpaces_eq]
  exact unescapeSpaces_drop_iff hpre

/-- a page below a proxy, with a space in its name -/
theorem prefix_stripped_iff_page :
    ∃ rest, substr (ascii "/w/a%20b") (ascii "/w").length = some rest ∧
      decodeSpaces (ascii "/w/a%20b") = ascii "/w" ++ decodeSpaces rest := by
  have hrun : ∃ config,
      parse .fresh (ascii "location \"/w\" ProxyHandler \x7b host \"h\"; port 80; \x7d") = .ok (true, config) ∧
        ProxiedAt (ascii "/w") (ascii "h") (ascii "/w/a%20b") config := exists_of_run (by decide +kernel)
  obtain ⟨config, hparse, hproxied⟩ := hrun
  obtain ⟨d, hd, hrouted⟩ := hproxied.getHandler hparse
  have hcut : (Handler.proxy (.init (ascii "/w") (ascii "h", 80))).cutLocation = some (ascii "/w") := rfl
  exact (prefix_stripped_iff (.init hd) hrouted hcut).2 (by decide)

/-- a location with a space, which a URI has as `%20`: two bytes of the location are left -/
theorem prefix_stripped_fails :
    ∃ config d,
      parse .fresh (ascii "location \"/a b\" ProxyHandler \x7b host \"h\"; port 80; \x7d") = .ok (true, config) ∧
        Dispatcher.init config = some d ∧
        (d.getHandler (ascii "/a%20b/x")).1 = some (.proxy (.init (ascii "/a b") (ascii "h", 80))) ∧
        substr (ascii "/a%20b/x") (ascii "/a b").length = some (ascii "0b/x") ∧
        ¬ ∃ rest, substr (ascii "/a%20b/x") (ascii "/a b").length = some rest ∧
          decodeSpaces (ascii "/a%20b/x") = ascii "/a b" ++ decodeSpaces rest := by
  have hrun : ∃ config,
      parse .fresh (ascii "location \"/a b\" ProxyHandler \x7b host \"h\"; port 80; \x7d") = .ok (true, config) ∧
        ProxiedAt (ascii "/a b") (ascii "h") (ascii "/a%20b/x") config := exists_of_run (by decide +kernel)
  obtain ⟨config, hparse, hproxied⟩ := hrun
  obtain ⟨d, hd, hrouted⟩ := hproxied.getHandler hparse
  have hleft : substr (ascii "/a%20b/x") (ascii "/a b").length = some (ascii "0b/x") := by decide
  refine ⟨config, d, hparse, hd, hrouted, hleft, ?_⟩
  intro h
  obtain ⟨rest, hrest, hdecoded⟩ := h
  rw [← Option.some.inj (hleft.symm.trans hrest), decodeSpaces_eq, decodeSpaces_eq] at hdecoded
  exact absurd hdecoded (by decide)

/-! ## What a proxy asks for -/

/-- the URI goes on with the rest after what was sent for the location -/
def GoesOn (location uri rest : Bytes) : Prop := ∃ sent, uri = sent ++ rest ∧ decodeSpaces sent = location

theorem GoesOn.decoded {location uri rest : Bytes} (h : GoesOn location uri rest)
    (hpre : location <+: unescapeSpaces uri) : unescapeSpaces uri = location ++ unescapeSpaces rest := by
  obtain ⟨sent, rfl, hsent⟩ := h
  rw [decodeSpaces_eq] at hsent
  rw [← hsent] at hpre ⊢
  exact unescapeSpaces_append hpre

/-- the path of a host, if there is one, begins with a slash -/
theorem init_serverLocationPath_head {locationPath : Bytes} {entry : Bytes × ℤ}
    (h : (ProxyHandler.init locationPath entry).serverLocationPath ≠ []) :
    (ProxyHandler.init locationPath entry).serverLocationPath.head? = some SLASH := by
  unfold ProxyHandler.init at h ⊢
  simp only at h ⊢
  cases hpos : Bytes.find [SLASH] entry.1 with
  | none =>
    rw [hpos] at h
    exact absurd rfl h
  | some pos =>
    rw [hpos] at h
    simp only at h ⊢
    obtain ⟨rest, hrest⟩ := Bytes.find_begins hpos
    rw [← hrest] at h ⊢
    split_ifs at h ⊢ with hlast
    · cases rest with
      | nil => exact absurd rfl h
      | cons c rest => rfl
    · rfl

/-- a path and what follows it, or a slash when there is neither -/
def joined (path rest : Bytes) : Bytes := if path ++ rest = [] then ascii "/" else path ++ rest

/-- what a proxy asks for is what it has cut from the URI, behind the path of its host -/
theorem askedUri_eq (h : ProxyHandler) (uri : Bytes) :
    askedUri h uri = (substr uri h.clientLocationPath.length).map (joined h.serverLocationPath) := by
  unfold askedUri substr
  split_ifs <;> rfl

/-- what is asked for begins with a slash unless it is a rest that does not -/
theorem joined_head_iff {path rest : Bytes} (hpath : path ≠ [] → path.head? = some SLASH) :
    (joined path rest).head? = some SLASH ↔ path ≠ [] ∨ rest = [] ∨ rest.head? = some SLASH := by
  unfold joined
  cases path with
  | nil =>
    rw [List.nil_append]
    by_cases hrest : rest = []
    · rw [if_pos hrest]
      exact iff_of_true rfl (Or.inr (Or.inl hrest))
    · rw [if_neg hrest]
      simp [hrest]
  | cons c path =>
    rw [if_neg (by simp)]
    exact iff_of_true (hpath (List.cons_ne_nil c path)) (Or.inl (List.cons_ne_nil c path))

theorem under_append_iff {location rest : Bytes} :
    Under location (location ++ rest) ↔ rest = [] ∨ rest.head? = some SLASH := by
  unfold Under
  rw [List.append_right_eq_self, List.prefix_append_right_inj]
  cases rest with
  | nil => simp
  | cons c rest => simp [eq_comm]

/-- joined alike only when nothing was cut in the wrong place -/
theorem isPrefix_of_joined {path location uri rest : Bytes} (hpre : location <+: unescapeSpaces uri)
    (hrest : GoesOn location uri rest) (hjoined : joined path (uri.drop location.length) = joined path rest) :
    location <+: uri := by
  by_contra hraw
  have hlong := unescapeSpaces_drop_add_two_le hpre hraw
  rw [hrest.decoded hpre, List.length_append] at hlong
  -- at least two bytes more are left than there should be
  have hdecoded : (unescapeSpaces rest).length + 2 ≤ (unescapeSpaces (uri.drop location.length)).length := by omega
  have hne : path ++ uri.drop location.length ≠ [] := by
    intro hnil
    rw [(List.append_eq_nil_iff.1 hnil).2] at hdecoded
    simp only [unescapeSpaces, List.length_nil] at hdecoded
    omega
  unfold joined at hjoined
  rw [if_neg hne] at hjoined
  split_ifs at hjoined with hnil
  · obtain ⟨rfl, rfl⟩ := List.append_eq_nil_iff.1 hnil
    rw [List.nil_append] at hjoined
    rw [hjoined] at hdecoded
    exact absurd hdecoded (by decide)
  · rw [List.append_cancel_left hjoined] at hdecoded
    omega

/-- a proxy handler that is returned is that of its location -/
theorem getHandler_proxy_init {config : NginxConfig} {d : Dispatcher} (hd : Dispatcher.Reachable config d)
    {uri : Bytes} {handler : ProxyHandler} (hrouted : (d.getHandler uri).1 = some (.proxy handler)) :
    ∃ entry, config.proxyLocations.lookup handler.clientLocationPath = some entry ∧
      handler = .init handler.clientLocationPath entry := by
  rcases getHandler_made hd hrouted with heq | ⟨location, -, hmade⟩
  · cases heq
  · obtain ⟨entry, hentry, rfl⟩ := hmade.proxy
    rw [init_clientLocationPath]
    exact ⟨entry, hentry, rfl⟩

/-- **When the request target is well formed.** Whatever was asked before: if a URI is given to the proxy handler of a
location, what is asked for begins with a slash and is the path of the host followed by what the URI goes on with after
the location, exactly when the location begins the URI as it was sent, and the host has a path or the URI is the
location or goes on after it with a slash. -/
theorem target_wellFormed_iff {config : NginxConfig} {d : Dispatcher} (hd : Dispatcher.Reachable config d)
    {uri location host : Bytes} {port : ℤ} (hentry : config.proxyLocations.lookup location = some (host, port))
    {handler : ProxyHandler} (hrouted : (d.getHandler uri).1 = some (.proxy handler))
    (hlocation : handler.clientLocationPath = location) :
    (∃ asked rest, askedUri handler uri = some asked ∧ asked.head? = some SLASH ∧ GoesOn location uri rest ∧
        asked = joined handler.serverLocationPath rest) ↔
      location <+: uri ∧ (HasPath host ∨ Under location uri) := by
  obtain ⟨entry, hfound, hinit⟩ := getHandler_proxy_init hd hrouted
  have hpre := getHandler_proxy hd hrouted
  rw [hlocation] at hfound hinit hpre
  obtain rfl := Option.some.inj (hfound.symm.trans hentry)
  have hpath : handler.serverLocationPath ≠ [] ↔ HasPath host := by
    rw [hinit, Ne, init_serverLocationPath_iff, not_not]
  have hhead : handler.serverLocationPath ≠ [] → handler.serverLocationPath.head? = some SLASH := by
    rw [hinit]
    exact init_serverLocationPath_head
  have hasked : askedUri handler uri = some (joined handler.serverLocationPath (uri.drop location.length)) := by
    rw [askedUri_eq, hlocation, substr_of_decoded hpre]
    rfl
  rw [hasked]
  constructor
  · intro h
    obtain ⟨asked, rest, heq, hslash, hrest, hjoined⟩ := h
    obtain rfl := Option.some.inj heq
    have hraw := isPrefix_of_joined hpre hrest hjoined
    refine ⟨hraw, ?_⟩
    obtain ⟨left, rfl⟩ := hraw
    rw [List.drop_left, joined_head_iff hhead, hpath] at hslash
    rwa [under_append_iff]
  · intro h
    obtain ⟨hraw, hor⟩ := h
    have hself := (unescapeSpaces_of_isPrefix hpre hraw).1
    obtain ⟨left, rfl⟩ := hraw
    rw [List.drop_left]
    refine ⟨_, left, rfl, ?_, ⟨location, rfl, ?_⟩, rfl⟩
    · rw [joined_head_iff hhead, hpath]
      rwa [under_append_iff] at hor
    · rw [decodeSpaces_eq, hself]

/-- a page of a host with a path, by a query right behind the location -/
theorem target_wellFormed_iff_query :
    ∃ asked rest, askedUri (wiki (ascii "h/path/")) (ascii "/w?a") = some asked ∧ asked.head? = some SLASH ∧
      GoesOn (ascii "/w") (ascii "/w?a") rest ∧ asked = joined (wiki (ascii "h/path/")).serverLocationPath rest := by
  have hrun : ∃ config,
      parse .fresh (ascii "location \"/w\" ProxyHandler \x7b host \"h/path/\"; port 80; \x7d") = .ok (true, config) ∧
        ProxiedAt (ascii "/w") (ascii "h/path/") (ascii "/w?a") config := exists_of_run (by decide +kernel)
  obtain ⟨config, hparse, hproxied⟩ := hrun
  obtain ⟨d, hd, hrouted⟩ := hproxied.getHandler hparse
  obtain ⟨-, -, -, hentry⟩ := hproxied
  refine (target_wellFormed_iff (.init hd) hentry hrouted (init_clientLocationPath _ _)).2 ⟨by decide, Or.inl ?_⟩
  exact ⟨1, by decide, by decide⟩

/-- a URI that goes on inside the segment of the location: what is asked for begins with no slash -/
theorem target_wellFormed_fails :
    ∃ config d,
      parse .fresh (ascii "location \"/w\" ProxyHandler \x7b host \"h\"; port 80; \x7d") = .ok (true, config) ∧
        Dispatcher.init config = some d ∧
        (d.getHandler (ascii "/wfoo")).1 = some (.proxy (wiki (ascii "h"))) ∧
        askedUri (wiki (ascii "h")) (ascii "/wfoo") = some (ascii "foo") ∧
        ¬ ∃ asked rest, askedUri (wiki (ascii "h")) (ascii "/wfoo") = some asked ∧ asked.head? = some SLASH ∧
          GoesOn (ascii "/w") (ascii "/wfoo") rest ∧ asked = joined (wiki (ascii "h")).serverLocationPath rest := by
  have hrun : ∃ config,
      parse .fresh (ascii "location \"/w\" ProxyHandler \x7b host \"h\"; port 80; \x7d") = .ok (true, config) ∧
        ProxiedAt (ascii "/w") (ascii "h") (ascii "/wfoo") config := exists_of_run (by decide +kernel)
  obtain ⟨config, hparse, hproxied⟩ := hrun
  obtain ⟨d, hd, hrouted⟩ := hproxied.getHandler hparse
  have hasked : askedUri (wiki (ascii "h")) (ascii "/wfoo") = some (ascii "foo") := by decide
  refine ⟨config, d, hparse, hd, hrouted, hasked, ?_⟩
  intro h
  obtain ⟨asked, rest, heq, hslash, -⟩ := h
  rw [← Option.some.inj (hasked.symm.trans heq)] at hslash
  exact absurd hslash (by decide)

end BlogServer.Dispatch
