/-
Posting through a proxy.

A proxy answers a redirect by sending the request again, with its method and its body, to the place it names. A blog
handler answers whatever is no GET by storing a post and redirecting to it. Where the redirect leads to the same blog
handler again, as it does if the proxy's upstream is a server with a blog, the two never come to an end: after any
number of calls `proxy_request` has not returned, and each has stored the post once more (`proxied_post_repeats`).

- `Up.posted`: a server that is up stores a post, redirects, and is up.
- `redirectTarget_post`: the redirect leads to the same host.
-/
import BlogServer.Dispatch.Declared
import BlogServer.Proxy.Hosts
import BlogServer.System.Posts

namespace BlogServer.System

open BlogServer.Byte BlogServer.Decimal BlogServer.Http BlogServer.Dispatch BlogServer.Posts BlogServer.Proxy

variable {σ : Type} {config : Config.NginxConfig} {location : Bytes} {connection : Connection} {request : Request}

/-! ## A post -/

/-- the server is up, its handlers are those of the configuration, and it has a status handler if it is to record -/
structure Up (config : Config.NginxConfig) (w : World σ) : Prop where
  registered : Registered config w.dispatcher
  running : w.crash = none
  status : w.dispatcher.statusHandlerEnabled = true →
    owner config (ascii "/status") config.handlerTypes = some (ascii "StatusHandler")

/-- the status handler, where that is what stands under "/status" -/
theorem getStatusHandler_owned {d : Dispatch.Dispatcher} (h : Registered config d)
    (howner : owner config (ascii "/status") config.handlerTypes = some (ascii "StatusHandler")) :
    d.getStatusHandler.1 ≠ none := by
  have hmem := (owner_some howner).2
  rw [show ascii "StatusHandler" = Config.HandlerType.status.name from rfl, handlersOf_name] at hmem
  obtain ⟨handler, hentry, hmade⟩ := h.entry_location .status hmem
  obtain ⟨k, htype, howner'⟩ := hmade.type
  obtain rfl : k = .status := name_injective (Option.some.inj (howner'.symm.trans howner))
  rw [Dispatch.Dispatcher.getStatusHandler, hentry]
  cases handler with
  | status status => exact Option.some_ne_none status
  | _ => cases htype

/-- what a blog handler does with a request that is no GET -/
theorem handleRequest_posted (handler : BlogUploadHandler) (db : Database σ) (hpost : request.method ≠ .GET) (s : σ) :
    Posts.handleRequest handler db request s =
      (postResponse handler (db.insertBlog (postedTitle request) (postedBody request) s).1,
        (db.insertBlog (postedTitle request) (postedBody request) s).2) := by
  unfold Posts.handleRequest
  rw [if_neg hpost]
  rfl

/-- **Step lemma.** A server that is up stores the post, redirects to it, and is up. -/
theorem Up.posted {w : World σ} (h : Up config w) (hasks : AsksBlog config request location connection)
    (hne : location ≠ []) (hpost : request.method ≠ .GET) {env : Environment σ}
    (hconnected : env.refused location = false) :
    ∃ id response, postResponse ⟨location⟩ id = .ok response ∧ ((sharedCalls env).handleRequest w request).1 = response ∧
      Up config (after (sharedCalls env) w request) ∧ (after (sharedCalls env) w request).state =
        ((env.database connection).insertBlog (postedTitle request) (postedBody request) w.state).2 := by
  obtain ⟨response, hresponse, -⟩ := postResponse_location ⟨location⟩ hne
    ((env.database connection).insertBlog (postedTitle request) (postedBody request) w.state).1
  refine ⟨_, response, hresponse, ?_⟩
  have hhandle : w.dispatcher.handle env request w.state = (.ok response, w.dispatcher,
      ((env.database connection).insertBlog (postedTitle request) (postedBody request) w.state).2) := by
    rw [registered_handle_blog h.registered hasks hconnected, handleRequest_posted _ _ hpost, hresponse]
    rfl
  -- the request completes
  obtain ⟨d', hcomplete, hflag⟩ : ∃ d', w.dispatcher.complete env request w.state = (.ok response, d',
      ((env.database connection).insertBlog (postedTitle request) (postedBody request) w.state).2) ∧
        d'.statusHandlerEnabled = w.dispatcher.statusHandlerEnabled := by
    cases henabled : w.dispatcher.statusHandlerEnabled with
    | false =>
      refine ⟨w.dispatcher, ?_, henabled⟩
      unfold Dispatch.Dispatcher.complete
      simp only [hhandle, henabled, Bool.false_eq_true, if_false]
    | true =>
      rcases complete_of_ok hhandle henabled with ⟨hnone, -⟩ | ⟨status, -, hcomplete⟩
      · exact absurd hnone (getStatusHandler_owned h.registered (h.status henabled))
      · exact ⟨_, hcomplete, henabled⟩
  obtain ⟨hdispatcher, hstate, hresult⟩ := @sharedCalls_complete σ env w h.running request
  rw [hcomplete] at hdispatcher hstate hresult
  have hafter : after (sharedCalls env) w request = w.after env request := rfl
  rw [hafter]
  refine ⟨hresult.1, ⟨?_, hresult.2, fun henabled => h.status ?_⟩, hstate⟩
  · rw [hdispatcher]
    exact (registered_complete h.registered hcomplete).1
  · rw [← hflag, ← henabled, hdispatcher]

/-! ## Where the redirect leads -/

/-- the Location of the redirect to a post -/
def postLocation (location : Bytes) (id : ℤ) : Bytes :=
  if location.getLast? = some SLASH then location ++ Decimal.toString id
  else location ++ ascii "/" ++ Decimal.toString id

theorem mem_toString {z : ℤ} {c : UInt8} (hc : c ∈ Decimal.toString z) : c = MINUS ∨ isDigit c = true := by
  unfold Decimal.toString at hc
  split_ifs at hc
  · exact (List.mem_cons.1 hc).imp id (isDigit_decimal _ c)
  · exact Or.inr (isDigit_decimal _ c hc)

theorem slash_notMem_toString (z : ℤ) : SLASH ∉ Decimal.toString z := by
  intro hc
  rcases mem_toString hc with h | h
  · exact absurd h (by decide)
  · exact absurd h (by decide)

/-- two bytes in a row are in one part, or the parts meet between them -/
theorem pair_infix_append {c d : UInt8} {a b : Bytes} (h : [c, d] <:+: a ++ b) :
    [c, d] <:+: a ∨ [c, d] <:+: b ∨ a.getLast? = some c ∧ b.head? = some d := by
  rcases List.infix_append_iff_ne_nil.1 h with ha | hb | ⟨l, r, hl, hr, hpair, hsuffix, hprefix⟩
  · exact Or.inl ha
  · exact Or.inr (Or.inl hb)
  · obtain ⟨x, l, rfl⟩ := List.exists_cons_of_ne_nil hl
    obtain ⟨y, r, rfl⟩ := List.exists_cons_of_ne_nil hr
    have hlength := congrArg List.length hpair
    simp only [List.length_append, List.length_cons, List.length_nil] at hlength
    obtain rfl : l = [] := List.length_eq_zero_iff.1 (by omega)
    obtain rfl : r = [] := List.length_eq_zero_iff.1 (by omega)
    obtain ⟨rfl, rfl⟩ : c = x ∧ d = y := by simpa using hpair
    obtain ⟨before, rfl⟩ := hsuffix
    obtain ⟨behind, rfl⟩ := hprefix
    exact Or.inr (Or.inr ⟨by simp, rfl⟩)

/-- the Location has no host in it if the location has none -/
theorem postLocation_relative (hslashes : Bytes.find (ascii "//") location = none) (id : ℤ) :
    Bytes.find (ascii "//") (postLocation location id) = none := by
  rw [Bytes.find_eq_none_iff] at hslashes ⊢
  have hid : ¬ ascii "//" <:+: Decimal.toString id := fun h =>
    slash_notMem_toString id (h.subset (List.mem_cons_self))
  have hhead : (Decimal.toString id).head? ≠ some SLASH := fun h =>
    slash_notMem_toString id (List.mem_of_head? h)
  unfold postLocation
  split_ifs with hlast
  · intro h
    rcases pair_infix_append h with h | h | ⟨-, h⟩
    · exact hslashes h
    · exact hid h
    · exact hhead h
  · rw [List.append_assoc]
    intro h
    rcases pair_infix_append h with h | h | ⟨h, -⟩
    · exact hslashes h
    · rcases pair_infix_append h with h | h | ⟨-, h⟩
      · exact absurd h.length_le (by decide)
      · exact hid h
      · exact hhead h
    · exact hlast h

/-- **The redirect to a post** leads to its Location, on the same host. -/
theorem redirectTarget_post (hslashes : Bytes.find (ascii "//") location = none) (id : ℤ) (url : Bytes) (port : ℤ) :
    redirectTarget (postLocation location id) url port = some (postLocation location id, url, port) := by
  rw [redirectTarget, postLocation_relative hslashes id]

/-- the bytes of the Location -/
theorem mem_postLocation {postid : ℤ} {c : UInt8} (hc : c ∈ postLocation location postid) :
    c ∈ location ∨ c = SLASH ∨ c = MINUS ∨ isDigit c = true := by
  unfold postLocation at hc
  split_ifs at hc
  · exact (List.mem_append.1 hc).imp id fun hid => Or.inr (mem_toString hid)
  · rcases List.mem_append.1 hc with hc | hc
    · exact (List.mem_append.1 hc).imp id fun hslash => Or.inl (List.mem_singleton.1 hslash)
    · exact Or.inr (Or.inr (mem_toString hc))

/-- they can stand in a header if those of the location can -/
theorem postLocation_sendable (hlocation : ∀ c ∈ location, isCtl c = false) (id : ℤ) :
    ∀ c ∈ postLocation location id, isCtl c = false := by
  intro c hc
  rcases mem_postLocation hc with h | rfl | rfl | h
  · exact hlocation c h
  · decide
  · decide
  · exact not_isCtl_of_isDigit h

/-- and in a request line -/
theorem postLocation_spaceFree (hlocation : SP ∉ location) (id : ℤ) : SP ∉ postLocation location id := by
  intro hc
  rcases mem_postLocation hc with h | h | h | h
  · exact hlocation h
  · exact absurd h (by decide)
  · exact absurd h (by decide)
  · exact absurd h (by decide)

/-- the response of a post -/
theorem postResponse_eq (hne : location ≠ []) (id : ℤ) :
    postResponse ⟨location⟩ id = .ok ⟨StatusCode.moved_temporarily,
      (htmlResponse StatusCode.moved_temporarily []).headers.insert (ascii "Location") (postLocation location id), []⟩ := by
  have hlast := List.getLast?_eq_some_getLast hne
  unfold postResponse postLocation
  simp only [hlast, Option.some.injEq]
  rfl

/-- it can be read as it is sent -/
theorem postResponse_serializable (hlocation : ∀ c ∈ location, isCtl c = false) (hne : location ≠ []) {id : ℤ}
    {response : Response} (h : postResponse ⟨location⟩ id = .ok response) : ResponseParser.Serializable response := by
  obtain rfl := Except.ok.inj ((postResponse_eq hne id).symm.trans h)
  have hname : ascii "Location" ≠ [] ∧ ∀ c ∈ ascii "Location", isToken c = true := by decide
  have htyped : ResponseParser.Serializable (htmlResponse StatusCode.moved_temporarily []) :=
    typed_serializable (Or.inr (Or.inr (Or.inr rfl))) (by decide) (by decide)
  exact serializable_insert htyped
    ⟨hname.1, hname.2, postLocation_sendable hlocation id⟩ (by decide) rfl

/-! ## Calls without end -/

section Calls

variable {hosts : Hosts (World σ)} {h : ProxyHandler} {env : Environment σ} {url : Bytes}

/-- **Run lemma.** After any number of calls the proxy has not returned, and each call has stored the post. -/
theorem proxyRequestOn_posts (hhost : ServedBy hosts url h.serverPortNum (sharedCalls env))
    (hrequest : Forwardable request) (hpost : request.method ≠ .GET) (hurl : ∀ c ∈ url, isCtl c = false) {port : ℤ}
    (hne : location ≠ []) (hlocation : ∀ c ∈ location, c ≠ SP ∧ isCtl c = false)
    (hslashes : Bytes.find (ascii "//") location = none)
    (hback : ∀ id, chosen config (unescapeSpaces (postLocation location id)) = some location)
    (html : Html) (junk : ℕ → ResponseUninit) (fuel : ℕ) {uri : Bytes} {w : World σ} (hw : Up config w)
    (huri : ∀ c ∈ uri, c ≠ SP ∧ isCtl c = false)
    (hasks : AsksBlog config (forwardedRequest request uri url port) location connection)
    (hconnected : env.refused location = false) :
    ∃ w', proxyRequestOn hosts html junk h fuel request uri url port w = (.error .outOfFuel, w') ∧
      w'.state = (fun s => ((env.database connection).insertBlog (postedTitle request) (postedBody request) s).2)^[fuel]
        w.state := by
  induction fuel generalizing uri w with
  | zero => exact ⟨w, rfl, rfl⟩
  | succ fuel ih =>
    obtain ⟨id, response, hredirect, hhandled, hup, hstate⟩ := hw.posted hasks hne hpost hconnected
    have hresponse := postResponse_serializable (fun c hc => (hlocation c hc).2) hne hredirect
    rw [← hhandled] at hresponse
    obtain ⟨reads, hanswer, hread⟩ := served_answers hhost hrequest huri hurl port w hresponse
    -- the response is the redirect, and leads to the blog handler again
    obtain rfl := Except.ok.inj ((postResponse_eq hne id).symm.trans hredirect)
    rw [hhandled] at hread
    have hagain : AsksBlog config (forwardedRequest request (postLocation location id) url port) location connection :=
      ⟨hback id, hasks.owner, hasks.made⟩
    have hsendable : ∀ c ∈ postLocation location id, c ≠ SP ∧ isCtl c = false := fun c hc =>
      ⟨ne_of_mem_of_not_mem hc (postLocation_spaceFree (fun hsp => (hlocation _ hsp).1 rfl) id),
        postLocation_sendable (fun c hc => (hlocation c hc).2) id c hc⟩
    obtain ⟨w', hcalls, hstored⟩ := ih hup hsendable hagain
    refine ⟨w', ?_, ?_⟩
    · simp only [proxyRequestOn, hanswer, hread, SortedMap.getD, SortedMap.find?_insert_self, Option.getD_some,
        redirectTarget_post hslashes]
      exact hcalls
    · rw [hstored, hstate, Function.iterate_succ_apply]
      rfl

/-- **A post through a proxy is stored over and over.** The proxy stands before a server of this repository, and asks
there for the location of a blog that has its connection; every redirect to a post, too, is to a URI that is given to
that blog handler. Whatever number of calls is allowed, `proxy_request` does not return, and each call has inserted the
post once more. -/
theorem proxied_post_repeats {text : Bytes} {accepted : Bool} (hparsed : ParsedAs text accepted config) {w : World σ}
    (hreachable : Dispatch.Dispatcher.Reachable config w.dispatcher) (hrunning : w.crash = none)
    (hstatus : w.dispatcher.statusHandlerEnabled = true →
      owner config (ascii "/status") config.handlerTypes = some (ascii "StatusHandler"))
    (hhost : ServedBy hosts h.serverUrl h.serverPortNum (sharedCalls env))
    (hurl : ∀ c ∈ h.serverUrl, isCtl c = false) (hrequest : Forwardable request) (hpost : request.method ≠ .GET)
    {uri : Bytes} (hasked : askedUri h request.uri = some uri) (huri : ∀ c ∈ uri, c ≠ SP ∧ isCtl c = false)
    (hasks : AsksBlog config (forwardedRequest request uri h.serverUrl h.serverPortNum) location connection)
    (hconnected : env.refused location = false) (hne : location ≠ [])
    (hlocation : ∀ c ∈ location, c ≠ SP ∧ isCtl c = false)
    (hslashes : Bytes.find (ascii "//") location = none)
    (hback : ∀ id, chosen config (unescapeSpaces (postLocation location id)) = some location)
    (html : Html) (junk : ℕ → ResponseUninit) (fuel : ℕ) :
    ∃ w', handleRequestOn hosts html junk h fuel request w = (.error .outOfFuel, w') ∧
      w'.state = (fun s => ((env.database connection).insertBlog (postedTitle request) (postedBody request) s).2)^[fuel]
        w.state := by
  have hup : Up config w := ⟨registered_of_reachable hparsed.recorded hreachable, hrunning, hstatus⟩
  rw [handleRequestOn, hasked]
  exact proxyRequestOn_posts hhost hrequest hpost hurl hne hlocation hslashes hback html junk fuel hup huri hasks
    hconnected

end Calls

/-! ## A blog behind a proxy -/

/-- a blog at `/blog` -/
def blogBlock : Config.Block :=
  ⟨⟨ascii "/blog", by decide⟩, .blog ⟨[.host, .port, .username, .password], List.Perm.refl _, fun _ => ⟨[], by decide⟩⟩⟩

/-- every URI that begins with `/blog` is given to it -/
theorem chosen_blogBlock (hdeclares : Config.Declares config [blogBlock]) {uri : Bytes} (huri : ascii "/blog" <+: uri) :
    chosen config uri = some (ascii "/blog") := by
  cases hchosen : chosen config uri with
  | none =>
    have hmem : ascii "/blog" ∈ Config.HandlerType.blog.locations config :=
      (hdeclares.locations .blog _).2 ⟨blogBlock, List.mem_singleton.2 rfl, rfl, rfl⟩
    exact absurd ⟨.blog, hmem, huri⟩ (chosen_none hchosen (ascii "/blog"))
  | some location =>
    obtain ⟨b, hserves, rfl⟩ := serves_of_chosen hdeclares hchosen
    rw [List.mem_singleton.1 hserves.mem]
    rfl

/-- a proxy at `/w` for it -/
def blogProxy : ProxyHandler := .init (ascii "/w") (ascii "upstream/blog", 80)

/-- a POST of nothing -/
def emptyPost : Request := ⟨.POST, ascii "/w", ascii "HTTP/1.1", SortedMap.empty, []⟩

/-- a Postgres server whose statements do not throw -/
def willing : Environment (Unit → PostsTable) := withPostgres testEnvironment (fun _ => testPostgres) fun _ => ()

/-- without a `%` nothing is decoded -/
theorem unescapeSpaces_percentFree {p : Bytes} (hp : PERCENT ∉ p) (s : Bytes) :
    unescapeSpaces (p ++ s) = p ++ unescapeSpaces s := by
  induction p with
  | nil => rfl
  | cons c p ih =>
    rw [List.mem_cons, not_or] at hp
    rw [List.cons_append, unescapeSpaces_cons _ (Ne.symm hp.1), ih hp.2, List.cons_append]

/-- two calls, two posts -/
theorem proxied_post_repeats_two :
    ∃ (config : Config.NginxConfig) (text : Bytes) (d : Dispatch.Dispatcher) (w' : World (Unit → PostsTable)),
      Config.parse .fresh text = .ok (true, config) ∧ Dispatcher.init config = some d ∧
      handleRequestOn (sessionHost (sharedCalls willing)) ⟨id, fun _ content => content⟩ (fun _ => ⟨0, 0, 0, 0, 0⟩)
          blogProxy 2 emptyPost ⟨d, fun _ => { testTable with fates := fun _ => some .succeeds }, none⟩ =
        (.error .outOfFuel, w') ∧
      (w'.state ()).rows.length = 2 := by
  obtain ⟨config, hparse, hdeclares⟩ :=
    parse_declares ⟨[], some 80, [blogBlock], by decide⟩ (Config.Spaced.single _)
  have hrecorded := (Config.tables_recorded hparse).2
  obtain ⟨d, hinit⟩ := Option.ne_none_iff_exists'.1
    ((init_ne_none_iff_blogComplete hrecorded).2 (declares_blogComplete hdeclares))
  have hstatus : d.statusHandlerEnabled = true →
      owner config (ascii "/status") config.handlerTypes = some (ascii "StatusHandler") := by
    have hnone : config.statusLocations = [] := List.eq_nil_iff_forall_not_mem.2 fun location hmem => by
      obtain ⟨b, hb, -, hkind⟩ := (hdeclares.status location).1 hmem
      rw [List.mem_singleton.1 hb] at hkind
      cases hkind
    intro henabled
    rw [createHandlerMapping_statusHandlerEnabled hinit, hnone] at henabled
    simp at henabled
  have howner : owner config (ascii "/blog") config.handlerTypes = some (ascii "BlogHandler") :=
    owner_declared hdeclares (by decide) hrecorded (List.mem_singleton.2 rfl)
  obtain ⟨connection, -, hasks⟩ := @getHandler_blog config d
    (forwardedRequest emptyPost (ascii "/blog") blogProxy.serverUrl blogProxy.serverPortNum) _
    (registered_init hrecorded hinit) (chosen_blogBlock hdeclares (by decide)) howner
  have hback : ∀ id, chosen config (unescapeSpaces (postLocation (ascii "/blog") id)) = some (ascii "/blog") := by
    intro id
    rw [postLocation, if_neg (by decide), List.append_assoc, unescapeSpaces_percentFree (by decide)]
    exact chosen_blogBlock hdeclares (List.prefix_append _ _)
  have hasked : askedUri blogProxy emptyPost.uri = some (ascii "/blog") := by decide
  have hrequest : Forwardable emptyPost := ⟨⟨1, 1, by decide, by decide, by decide⟩, nofun, by decide⟩
  let w : World (Unit → PostsTable) := ⟨d, fun _ => { testTable with fates := fun _ => some .succeeds }, none⟩
  have hreachable : Dispatch.Dispatcher.Reachable config w.dispatcher := .init hinit
  obtain ⟨w', hcalls, hstored⟩ := proxied_post_repeats (parsedAs_of_parse hparse) hreachable rfl hstatus
    (sessionHost_servedBy (sharedCalls willing) blogProxy.serverUrl blogProxy.serverPortNum) (by decide) hrequest
    (by decide) hasked (by decide) hasks rfl (by decide) (by decide) (by decide) hback ⟨id, fun _ content => content⟩
    (fun _ => ⟨0, 0, 0, 0, 0⟩) 2
  refine ⟨_, _, d, w', hparse, hinit, hcalls, ?_⟩
  rw [hstored]
  rfl

end BlogServer.System
