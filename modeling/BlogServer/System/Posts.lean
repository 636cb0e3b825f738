/-
The posts of a server whose blog handlers write to Postgres servers.

Every connection leads to one of these, perhaps several to one. In every run of callbacks one at a time, however the
sessions are mixed and whatever statements throw, the table of each has the rows that it had and at most one for every
request: for one that is no GET and is given to a blog handler over a connection to it, in the order of the requests
(`posts_once`). A client that was redirected to an id finds its post there, from then on and in whatever session
(`redirected_shown`).

- `registered_handle_blog`: the requests that are given to a blog handler.
- `Serial.posts`: what requests one after another leave in a table.
-/
import BlogServer.Posts.BlogDatabase
import BlogServer.System.Serial
import Mathlib.Data.List.ReduceOption

namespace BlogServer.System

open BlogServer.Byte BlogServer.Decimal BlogServer.Http BlogServer.Dispatch BlogServer.Posts
open BlogServer.Server (Session)

variable {ι τ σ : Type}

/-! ## Requests to a blog handler -/

/-- the request is given to the blog handler of the location, which has made the connection -/
structure AsksBlog (config : Config.NginxConfig) (request : Request) (location : Bytes) (connection : Connection) :
    Prop where
  chosen : chosen config (unescapeSpaces request.uri) = some location
  owner : owner config location config.handlerTypes = some (ascii "BlogHandler")
  made : BlogUploadHandler.init location config = some (⟨location⟩, connection)

variable {config : Config.NginxConfig} {d : Dispatch.Dispatcher} {request : Request} {location : Bytes}
  {connection : Connection}

/-- a blog handler is as `Init` made it -/
theorem made_blog {handler : BlogUploadHandler} (h : Made config location (.blog handler connection)) :
    BlogUploadHandler.init location config = some (handler, connection) := by
  cases h with
  | init k howner hinit =>
    obtain rfl : .blog = k := Option.some.inj (init_type hinit)
    obtain ⟨made, hmade, heq⟩ := Option.map_eq_some_iff.1 hinit
    cases heq
    exact hmade

/-- a location of that type has such a handler -/
theorem getHandler_blog (h : Registered config d) (hchosen : chosen config (unescapeSpaces request.uri) = some location)
    (howner : owner config location config.handlerTypes = some (ascii "BlogHandler")) :
    ∃ connection, d.getHandler request.uri = (some (.blog ⟨location⟩ connection), d) ∧
      AsksBlog config request location connection := by
  obtain ⟨handler, hanswer, hmade⟩ := h.getHandler request.uri
  rw [hchosen] at hmade
  have hmade : Made config location handler := hmade
  obtain ⟨k, htype, howner'⟩ := hmade.type
  obtain rfl : k = .blog := name_injective (Option.some.inj (howner'.symm.trans howner))
  cases handler with
  | blog blog connection =>
    obtain rfl : blog = ⟨location⟩ := by rw [← hmade.locationPrefix]
    exact ⟨connection, hanswer, hchosen, howner, made_blog hmade⟩
  | _ => cases htype

theorem AsksBlog.unique {location' : Bytes} {connection' : Connection}
    (h : AsksBlog config request location connection) (h' : AsksBlog config request location' connection') :
    location' = location ∧ connection' = connection := by
  obtain rfl := Option.some.inj (h'.chosen.symm.trans h.chosen)
  exact ⟨rfl, (Prod.mk.inj (Option.some.inj (h'.made.symm.trans h.made))).2⟩

/-- **Which handler answers.** -/
theorem registered_handle_asked (h : Registered config d) (hasks : AsksBlog config request location connection)
    (env : Environment σ) (s : σ) :
    d.handle env request s =
      (((Handler.blog ⟨location⟩ connection).handleRequest env request s).1, d,
        ((Handler.blog ⟨location⟩ connection).handleRequest env request s).2) := by
  obtain ⟨connection', hanswer, hasks'⟩ := getHandler_blog h hasks.chosen hasks.owner
  obtain ⟨-, rfl⟩ := hasks.unique hasks'
  rw [Dispatch.Dispatcher.handle, hanswer]

theorem registered_handle_blog (h : Registered config d) (hasks : AsksBlog config request location connection)
    {env : Environment σ} (hconnected : env.refused location = false) (s : σ) :
    d.handle env request s =
      ((Posts.handleRequest ⟨location⟩ (env.database connection) request s).1.mapError .blog, d,
        (Posts.handleRequest ⟨location⟩ (env.database connection) request s).2) := by
  rw [registered_handle_asked h hasks, handleRequest_blog hconnected]

/-- what is answered at a blog, has a connection -/
theorem registered_connected (h : Registered config d) (hasks : AsksBlog config request location connection)
    {env : Environment σ} {s : σ} {response : Response} (hok : (d.handle env request s).1 = .ok response) :
    env.refused location = false := by
  rw [registered_handle_asked h hasks] at hok
  exact connected_of_ok hok

/-- the other requests leave the databases alone -/
theorem registered_handle_other (h : Registered config d) (hnone : ∀ location connection,
    ¬ AsksBlog config request location connection) (env : Environment σ) (s : σ) :
    (d.handle env request s).2.2 = s := by
  obtain ⟨handler, hanswer, hmade⟩ := h.getHandler request.uri
  rw [Dispatch.Dispatcher.handle, hanswer]
  cases handler with
  | blog blog connection =>
    cases hchosen : chosen config (unescapeSpaces request.uri) with
    | none =>
      rw [hchosen] at hmade
      cases hmade
    | some location =>
      rw [hchosen] at hmade
      have hmade : Made config location (.blog blog connection) := hmade
      obtain ⟨k, htype, howner⟩ := hmade.type
      obtain rfl := Option.some.inj htype
      have hinit := made_blog hmade
      rw [show blog = ⟨location⟩ by rw [← hmade.locationPrefix]] at hinit
      exact absurd ⟨hchosen, howner, hinit⟩ (hnone location connection)
  | static static =>
    simp only [Handler.handleRequest]
    cases static.handleRequestChecked env.files request <;> rfl
  | _ => rfl

/-! ## What requests leave in a table -/

/-- the handlers write to Postgres servers -/
def withPostgres [DecidableEq ι] (env : Environment τ) (pg : ι → Postgres) (locate : Connection → ι) :
    Environment (ι → PostsTable) where
  files := env.files
  endless := env.endless
  database connection := (blogDatabase (pg (locate connection))).among (locate connection)
  refused := env.refused
  network := env.network
  html := env.html
  junk := env.junk
  redirects := env.redirects

variable (config) in
/-- the row that an answered request has left in the table of a server, if it has -/
structure Wrote (pg : ι → Postgres) (locate : Connection → ι) (i : ι) (a : Answered) (written : Option Blog) :
    Prop where
  /-- it is of a request that is no GET and is given to a blog handler of the server -/
  row : ∀ row ∈ written, IsRow (pg i) (postedTitle a.request) (postedBody a.request) row ∧ a.request.method ≠ .GET ∧
    ∃ location connection, AsksBlog config a.request location connection ∧ locate connection = i
  /-- which is redirected to its id, or to -1 -/
  redirect : ∀ location connection, AsksBlog config a.request location connection → locate connection = i →
    a.request.method ≠ .GET →
      ∃ id, postResponse ⟨location⟩ id = .ok a.response ∧ (id = -1 ∨ written.map Blog.postid = some id)

variable {pg : ι → Postgres} {locate : Connection → ι}

/-- an answer that leaves the rows -/
theorem Wrote.nothing {i : ι} {a : Answered} (h : ∀ location connection, AsksBlog config a.request location connection →
    locate connection = i → a.request.method = .GET) : Wrote config pg locate i a none :=
  ⟨nofun, fun location connection hasks hlocate hmethod => absurd (h location connection hasks hlocate) hmethod⟩

variable [DecidableEq ι] {env : Environment τ} {s : ι → PostsTable}

/-- **Step lemma.** What one request leaves in the table of a server. -/
theorem registered_handle_wrote (h : Registered config d) {a : Answered}
    (hok : (d.handle (withPostgres env pg locate) a.request s).1 = .ok a.response) (i : ι) :
    ∃ written, Wrote config pg locate i a written ∧
      ((d.handle (withPostgres env pg locate) a.request s).2.2 i).rows =
        (s i).rows ++ written.toList.map Blog.row := by
  by_cases hblog : ∃ location connection, AsksBlog config a.request location connection
  · obtain ⟨location, connection, hasks⟩ := hblog
    have hconnected := registered_connected h hasks hok
    rw [registered_handle_blog h hasks hconnected] at hok ⊢
    have hunique : ∀ location' connection', AsksBlog config a.request location' connection' →
        location' = location ∧ connection' = connection := fun _ _ hasks' => hasks.unique hasks'
    by_cases hget : a.request.method = .GET
    · refine ⟨none, .nothing fun _ _ _ _ => hget, ?_⟩
      rw [Option.toList_none, List.map_nil, List.append_nil]
      exact handleRequest_among_get ⟨location⟩ (pg (locate connection)) (locate connection) hget s i
    · simp only [withPostgres, handleRequest_among_post _ _ _ hget] at hok ⊢
      obtain ⟨written, hinsert⟩ := insertBlog_insertion (pg (locate connection)) (postedTitle a.request)
        (postedBody a.request) (s (locate connection))
      by_cases hlocate : locate connection = i
      · subst hlocate
        refine ⟨written, ⟨fun row hrow => ?_, fun location' connection' hasks' _ _ => ?_⟩, ?_⟩
        · exact ⟨(hinsert.row row hrow).1, hget, location, connection, hasks, rfl⟩
        · obtain ⟨rfl, rfl⟩ := hunique _ _ hasks'
          obtain ⟨response, hresponse⟩ := exists_mapError_ok.1 ⟨_, hok⟩
          rw [hresponse] at hok
          obtain rfl : response = a.response := Except.ok.inj hok
          exact ⟨_, hresponse, hinsert.returned⟩
        · rw [Function.update_self]
          exact hinsert.rows
      · refine ⟨none, .nothing fun _ _ hasks' hlocate' => ?_, ?_⟩
        · obtain ⟨rfl, rfl⟩ := hunique _ _ hasks'
          exact absurd hlocate' hlocate
        · rw [Function.update_of_ne (Ne.symm hlocate), Option.toList_none, List.map_nil,
            List.append_nil]
  · have hnone : ∀ location connection, ¬ AsksBlog config a.request location connection :=
      fun location connection hasks => hblog ⟨location, connection, hasks⟩
    refine ⟨none, .nothing fun _ _ hasks _ => absurd hasks (hnone _ _), ?_⟩
    rw [registered_handle_other h hnone, Option.toList_none, List.map_nil, List.append_nil]

/-- a request that completes is answered by its handler, and leaves a handler for every location -/
theorem registered_complete (h : Registered config d) {env : Environment σ} {s s' : σ} {d' : Dispatch.Dispatcher}
    {response : Response} (hcomplete : d.complete env request s = (.ok response, d', s')) :
    Registered config d' ∧ (d.handle env request s).1 = .ok response ∧ (d.handle env request s).2.2 = s' := by
  obtain ⟨handler, -, hhandle⟩ := h.handle env request s
  unfold Dispatch.Dispatcher.complete at hcomplete
  rw [hhandle] at hcomplete ⊢
  cases hresult : (handler.handleRequest env request s).1 with
  | error e =>
    rw [hresult] at hcomplete
    cases hcomplete
  | ok answer =>
    rw [hresult] at hcomplete
    simp only at hcomplete
    split_ifs at hcomplete
    · rcases hstatus : d.getStatusHandler with ⟨_ | status, d₁⟩
      · rw [hstatus] at hcomplete
        cases hcomplete
      · rw [hstatus] at hcomplete
        cases hcomplete
        obtain ⟨hlookup, hsame⟩ := getStatusHandler_lookup (congrArg Prod.fst hstatus)
        obtain rfl : d₁ = d := (congrArg Prod.snd hstatus).symm.trans hsame
        exact ⟨h.insert ((h.made hlookup).record request.uri response.code), rfl, rfl⟩
    · cases hcomplete
      exact ⟨h, rfl, rfl⟩

/-- requests one after another were each answered by a handler of the configuration, after those before it -/
theorem Serial.handled {env : Environment σ} {d₀ : Dispatch.Dispatcher} {s₀ s : σ} {log : List Answered}
    (hregistered : Registered config d₀) (h : Serial env d₀ s₀ log d s) :
    Registered config d ∧ ∀ before a behind, log = before ++ a :: behind → ∃ d' s',
      Serial env d₀ s₀ before d' s' ∧ Registered config d' ∧ (d'.handle env a.request s').1 = .ok a.response := by
  induction h with
  | start => exact ⟨hregistered, fun before a behind heq => absurd heq (by simp)⟩
  | @next log d s d' s' a hserial hcomplete ih =>
    obtain ⟨hbefore, hanswers⟩ := ih
    obtain ⟨hafter, hok, -⟩ := registered_complete hbefore hcomplete
    refine ⟨hafter, fun before a' behind heq => ?_⟩
    rcases List.eq_nil_or_concat behind with rfl | ⟨behind, last, rfl⟩
    · obtain ⟨rfl, hlast⟩ := List.append_inj' heq rfl
      obtain rfl := List.singleton_inj.1 hlast
      exact ⟨d, s, hserial, hbefore, hok⟩
    · rw [List.concat_eq_append, ← List.cons_append, ← List.append_assoc] at heq
      obtain ⟨rfl, -⟩ := List.append_inj' heq rfl
      exact hanswers before a' behind rfl

/-- **Run lemma.** The rows of a table after requests one after another are the old ones, and at most one for each. -/
theorem Serial.posts {d₀ : Dispatch.Dispatcher} {s₀ : ι → PostsTable} {log : List Answered}
    (hregistered : Registered config d₀) (h : Serial (withPostgres env pg locate) d₀ s₀ log d s) :
    Registered config d ∧ ∀ i, ∃ written, List.Forall₂ (Wrote config pg locate i) log written ∧
      (s i).rows = (s₀ i).rows ++ written.reduceOption.map Blog.row := by
  induction h with
  | start => exact ⟨hregistered, fun i => ⟨[], .nil, (List.append_nil _).symm⟩⟩
  | @next log d s d' s' a _ hcomplete ih =>
    obtain ⟨hbefore, htables⟩ := ih
    obtain ⟨hafter, hok, rfl⟩ := registered_complete hbefore hcomplete
    refine ⟨hafter, fun i => ?_⟩
    obtain ⟨written, hwritten, hrows⟩ := htables i
    obtain ⟨last, hlast, hadded⟩ := registered_handle_wrote hbefore hok i
    refine ⟨written ++ [last], List.rel_append hwritten (.cons hlast .nil), ?_⟩
    rw [hadded, hrows, List.append_assoc, List.reduceOption_append, List.reduceOption_singleton, List.map_append]

/-! ## The first post -/

/-- one session of a server for tests, whose statements do not throw, and what comes on it -/
def testServed (d : Dispatch.Dispatcher) (data : Bytes) : Option (Server (Unit → PostsTable)) :=
  (Server.start (fun _ => ⟨0, 0, 0⟩) d fun _ => { testTable with fates := fun _ => some .succeeds }).run
    (withPostgres testEnvironment (fun _ => testPostgres) fun _ => ()) (fun _ => ⟨0, 0, 0⟩) (fun _ _ => .GET)
    [.accept 0 false, .session 0 (.read (some data))]

def postMessage : Bytes :=
  ascii "POST /blog HTTP/1.0\r\nContent-Length: 42\r\n\r\nsubmissiontitle=hello&submissionbody=world"

def firstRedirect : Response where
  code := StatusCode.moved_temporarily
  headers := (htmlResponse StatusCode.moved_temporarily []).headers.insert (ascii "Location") (ascii "/blog/1")
  body := []

/-- the message of a client is passed on, and redirected -/
def Redirected (config : Config.NginxConfig) : Prop :=
  owner config (ascii "/blog") config.handlerTypes = some (ascii "BlogHandler") ∧
    chosen config (unescapeSpaces (ascii "/blog")) = some (ascii "/blog") ∧
    ((Dispatcher.init config).elim false fun d => (testServed d postMessage).elim false fun sv =>
      sv.world.crash.isNone && (sv.sessions[0]?).elim false fun session =>
        decide (session.sent = [firstRedirect] ∧
          session.calls.map (fun post => (post.uri, post.method)) = [(ascii "/blog", .POST)])) = true

instance : DecidablePred Redirected := fun _ => inferInstanceAs (Decidable (_ ∧ _ ∧ _))

theorem served_post :
    ∃ config d sv session post connection, Config.parse .fresh completeText = .ok (true, config) ∧
      Dispatcher.init config = some d ∧ testServed d postMessage = some sv ∧ sv.world.crash = none ∧
      sv.sessions[0]? = some session ∧ session.calls[0]? = some post ∧ session.sent[0]? = some firstRedirect ∧
      AsksBlog config post (ascii "/blog") connection ∧ post.method ≠ .GET := by
  obtain ⟨config, hparse, howner, hchosen, hrun⟩ : ∃ config, Config.parse .fresh completeText = .ok (true, config) ∧
      Redirected config := Config.exists_of_run (by decide +kernel)
  cases hinit : Dispatcher.init config with
  | none =>
    rw [hinit] at hrun
    cases hrun
  | some d =>
    rw [hinit, Option.elim_some] at hrun
    cases hserved : testServed d postMessage with
    | none =>
      rw [hserved] at hrun
      cases hrun
    | some sv =>
      rw [hserved, Option.elim_some, Bool.and_eq_true, Option.isNone_iff_eq_none] at hrun
      obtain ⟨hup, hsession⟩ := hrun
      cases hfirst : sv.sessions[0]? with
      | none =>
        rw [hfirst] at hsession
        cases hsession
      | some session =>
        rw [hfirst, Option.elim_some, decide_eq_true_eq] at hsession
        obtain ⟨hsent, hcalls⟩ := hsession
        obtain ⟨post, hpost, hfields⟩ := List.map_eq_singleton_iff.1 hcalls
        obtain ⟨huri, hmethod⟩ := Prod.mk.inj hfields
        have hregistered := registered_init (Config.tables_recorded hparse).2 hinit
        have hrouted : chosen config (unescapeSpaces post.uri) = some (ascii "/blog") := by rw [huri, hchosen]
        obtain ⟨connection, -, hasks⟩ := getHandler_blog hregistered hrouted howner
        exact ⟨config, d, sv, session, post, connection, hparse, hinit, hserved, hup, hfirst, by rw [hpost]; rfl,
          by rw [hsent]; rfl, hasks, by rw [hmethod]; decide⟩

/-! ## The posts of a server -/

variable {u : ℕ → Uninit} {junk : ℕ → ℕ → MethodEnum} {events : List Event} {d₀ : Dispatch.Dispatcher}
  {s₀ : ι → PostsTable} {sv : Server (ι → PostsTable)} {text : Bytes} {accepted : Bool}

/-- the URI that a client is redirected to -/
theorem redirect_uri {location : Bytes} (hslash : location.getLast? ≠ some SLASH) {id : ℤ} {response : Response}
    (hredirect : postResponse ⟨location⟩ id = .ok response) {uri : Bytes}
    (hlocation : response.headers.find? (ascii "Location") = some uri) :
    uri = location ++ ascii "/" ++ Decimal.toString id := by
  have hne : location ≠ [] := by
    intro hnil
    rw [postResponse, hnil] at hredirect
    cases hredirect
  obtain ⟨answer, hanswer, hfound⟩ := postResponse_location ⟨location⟩ hne id
  obtain rfl := Except.ok.inj (hanswer.symm.trans hredirect)
  rw [if_neg hslash, hlocation] at hfound
  exact Option.some.inj hfound

/-- **Redirected to a post, shown the post.** No two callbacks overlap. In every state of every such run in which the
server is up: when a session has passed on a request that is no GET to a blog handler whose location does not end in
'/', and was sent the redirect to an id, a GET of the Location of that redirect, from whatever session, is answered with
the title and the body as they were stored, unless its statement throws. -/
theorem redirected_shown (hparsed : ParsedAs text accepted config)
    (hinit : Dispatcher.init config = some d₀)
    (hrun : (Server.start u d₀ s₀).run (withPostgres env pg locate) u junk events = some sv)
    (hup : sv.world.crash = none) {j k : ℕ} {session : Session (World (ι → PostsTable))}
    (hsession : sv.sessions[j]? = some session) {post : Request} {response : Response} {id : ℤ}
    (hcall : session.calls[k]? = some post) (hsent : session.sent[k]? = some response)
    (hasks : AsksBlog config post location connection) (hpost : post.method ≠ .GET)
    (hslash : location.getLast? ≠ some SLASH) (hredirect : postResponse ⟨location⟩ id = .ok response) (hid : id ≠ -1) :
    ∃ stored, IsRow (pg (locate connection)) (postedTitle post) (postedBody post) stored ∧ stored.postid = id ∧
      ∀ get : Request, get.method = .GET → response.headers.find? (ascii "Location") = some get.uri →
        AsksBlog config get location connection →
          (sv.world.dispatcher.handle (withPostgres env pg locate) get sv.world.state).1 =
            .ok (htmlResponse StatusCode.ok
              (if (sv.world.state (locate connection)).fate.isSome then onePage stored else errorPage)) := by
  obtain ⟨log, h⟩ := (run_explained hrun).1 hup
  have hinitial := registered_init hparsed.recorded hinit
  obtain ⟨hregistered, htables⟩ := h.serial.posts hinitial
  obtain ⟨written, hwritten, hrows⟩ := htables (locate connection)
  obtain ⟨a, ha, rfl, rfl⟩ := h.answered hsession hcall hsent
  obtain ⟨w, hw, hwrote⟩ : ∃ w ∈ written, Wrote config pg locate (locate connection) a w := by
    obtain ⟨n, hn, rfl⟩ := List.getElem_of_mem ha
    have hlength := hwritten.length_eq
    exact ⟨_, List.getElem_mem (hlength ▸ hn), hwritten.get hn (hlength ▸ hn)⟩
  -- the handler has a connection, since it has answered
  have hconnected : (withPostgres env pg locate).refused location = false := by
    obtain ⟨before, behind, heq⟩ := List.append_of_mem ha
    obtain ⟨d, s, -, hbefore, hok⟩ := (h.serial.handled hinitial).2 before a behind heq
    exact registered_connected hbefore hasks hok
  -- it has left its row
  obtain ⟨id', hresponse, hid'⟩ := hwrote.redirect location connection hasks rfl hpost
  obtain rfl := postResponse_injective hredirect hresponse
  obtain ⟨stored, rfl, hrowid⟩ := Option.map_eq_some_iff.1 (hid'.resolve_left hid)
  obtain ⟨hrow, -⟩ := hwrote.row stored rfl
  have hmem : stored.row ∈ (sv.world.state (locate connection)).rows := by
    rw [hrows]
    exact List.mem_append_right _ (List.mem_map_of_mem (List.reduceOption_mem_iff.2 hw))
  refine ⟨stored, hrow, hrowid, fun get hget hlocation hasksGet => ?_⟩
  have huri := redirect_uri hslash hredirect hlocation
  have hnat : id = (id.toNat : ℕ) := by
    have := hrow.positive
    omega
  have hsmall : id.toNat < 2147483648 := by
    have := hrow.int
    omega
  rw [registered_handle_blog hregistered hasksGet hconnected, handleRequest_of_get _ _ hget, huri, hnat,
    toString_natCast, handleGet_location ⟨location⟩ _ hsmall, ← hnat, ← hrowid]
  have hgiven := @getBlog_of_row (pg (locate connection)) _ stored hmem
  simp only [handleGetOneBlog, withPostgres, Database.among, hgiven, Except.mapError]
  cases (sv.world.state (locate connection)).fate.isSome <;> rfl

/-- the client of the first post -/
theorem redirected_shown_first :
    ∃ config d sv post row, Config.parse .fresh completeText = .ok (true, config) ∧
      Dispatcher.init config = some d ∧ testServed d postMessage = some sv ∧
      IsRow testPostgres (postedTitle post) (postedBody post) row ∧ row.postid = 1 := by
  obtain ⟨config, d, sv, session, post, connection, hparse, hinit, hrun, hup, hsession, hcall, hsent, hasks, hpost⟩ :=
    served_post
  have hredirect : postResponse ⟨ascii "/blog"⟩ 1 = .ok firstRedirect := rfl
  obtain ⟨row, hrow, hid, -⟩ := redirected_shown (parsedAs_of_parse hparse) hinit hrun hup hsession hcall hsent hasks
    hpost (by decide) hredirect (by decide)
  exact ⟨config, d, sv, post, row, hparse, hinit, hrun, hrow, hid⟩

end BlogServer.System
