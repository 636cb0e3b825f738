/-
`mock_database`, call by call: what every call of a run returns.

The index of `db_.at` is an `int` made a `size_t`, so a negative one is nearly 2^64, which no vector reaches. The
abstract store is the list of what was inserted (`Log`); the posts in `db_` are that list with ids from 1 on, and as
long as an `int` holds the ids every call answers as the abstract store does (`mock_contract`). For the least `int` the
source computes `postid - 1` outside of `int`: no answer there (`none`).

- `mockGetBlog_eq`: with the index as in the source, `get_blog` is that of `mockDatabase`.
- `onMock_numbered`: a call of the abstract store.
-/
import BlogServer.Posts.DatabaseContract

namespace BlogServer.Posts

open BlogServer.Decimal

/-! ## `get_blog` -/

/-- an `int` made a `size_t` -/
def sizeOfInt (z : ℤ) : ℕ := (z % 18446744073709551616).toNat

/-- `mock_database::get_blog`: past the end `at` throws, and the sentinel stays -/
def mockGetBlog (postid : ℤ) (posts : List Blog) : Option Blog :=
  if IsInt (postid - 1) then some (posts.getD (sizeOfInt (postid - 1)) sentinel) else none

theorem sizeOfInt_of_nonneg {z : ℤ} (hz : 0 ≤ z) (hlt : z < 18446744073709551616) : sizeOfInt z = z.toNat := by
  rw [sizeOfInt, Int.emod_eq_of_lt hz hlt]

/-- **A negative index is past the end.** -/
theorem le_sizeOfInt_of_neg {z : ℤ} (hz : IsInt z) (hneg : z < 0) : 2147483648 ≤ sizeOfInt z := by
  obtain ⟨hlow, -⟩ := hz
  unfold sizeOfInt
  omega

/-- **The index.** What `at` is given leads to the post of `mockDatabase`, or past the end. -/
theorem mockGetBlog_eq {postid : ℤ} (hid : IsInt postid) (hleast : -2147483648 < postid) {posts : List Blog}
    (hlt : posts.length < 2147483648) : mockGetBlog postid posts = some (mockDatabase.getBlog postid posts).1 := by
  obtain ⟨hlow, hhigh⟩ := hid
  have hindex : IsInt (postid - 1) := ⟨by omega, by omega⟩
  rw [mockGetBlog, if_pos hindex]
  by_cases hpos : postid ≤ 0
  · have hpast : posts.length ≤ sizeOfInt (postid - 1) := by
      have := le_sizeOfInt_of_neg hindex (by omega)
      omega
    simp only [mockDatabase, if_pos hpos]
    rw [List.getD_eq_default _ _ hpast, sentinel]
  · rw [sizeOfInt_of_nonneg (by omega) (by omega)]
    simp only [mockDatabase, if_neg hpos]
    rfl

/-! ## Runs -/

/-- what a call returns -/
inductive Answer where
  | postid (id : ℤ)
  | blog (blog : Blog)
  | blogs (blogs : List Blog)
deriving DecidableEq, Repr

/-- a call of a `mock_database`, and what it leaves in `db_` -/
def Call.onMock (posts : List Blog) : Call → Option (Answer × List Blog)
  | .insertBlog title body =>
    some (.postid (mockDatabase.insertBlog title body posts).1, (mockDatabase.insertBlog title body posts).2)
  | .getBlog postid => (mockGetBlog postid posts).map fun blog => (.blog blog, posts)
  | .getAllBlogs => some (.blogs posts, posts)

/-- calls, one after the other -/
def runMock (posts : List Blog) : List Call → Option (List Answer × List Blog)
  | [] => some ([], posts)
  | call :: calls => do
    let (answer, posts) ← call.onMock posts
    let (answers, posts) ← runMock posts calls
    pure (answer :: answers, posts)

/-- an id above the least `int` -/
def Call.Legal : Call → Prop
  | .insertBlog _ _ => True
  | .getBlog postid => IsInt postid ∧ -2147483648 < postid
  | .getAllBlogs => True

instance decidableLegal : DecidablePred Call.Legal
  | .insertBlog _ _ => isTrue trivial
  | .getBlog _ => inferInstanceAs (Decidable (_ ∧ _))
  | .getAllBlogs => isTrue trivial

/-! ## The abstract store -/

/-- the title and the body of every insert, in order -/
abbrev Log := List (Bytes × Bytes)

/-- the posts with their ids, from 1 on -/
def numbered (log : Log) : List Blog := log.mapIdx fun i post => ⟨i + 1, post.1, post.2⟩

/-- the post under an id, the sentinel where there is none -/
def blogOf (log : Log) (id : ℤ) : Blog :=
  if h : 1 ≤ id ∧ id ≤ log.length then
    let post := log.get ⟨(id - 1).toNat, by omega⟩
    ⟨id, post.1, post.2⟩
  else sentinel

/-- what a call inserts -/
def Call.posted : Call → Log
  | .insertBlog title body => [(title, body)]
  | .getBlog _ => []
  | .getAllBlogs => []

def inserted (calls : List Call) : Log := calls.flatMap Call.posted

/-- what a call is to return -/
def Call.expected (log : Log) : Call → Answer
  | .insertBlog _ _ => .postid (log.length + 1)
  | .getBlog postid => .blog (blogOf log postid)
  | .getAllBlogs => .blogs (numbered log)

/-- what the calls of a run are to return -/
def expected (log : Log) : List Call → List Answer
  | [] => []
  | call :: calls => call.expected log :: expected (log ++ call.posted) calls

@[simp] theorem length_numbered (log : Log) : (numbered log).length = log.length := by
  simp [numbered]

theorem numbered_snoc (log : Log) (post : Bytes × Bytes) :
    numbered (log ++ [post]) = numbered log ++ [⟨log.length + 1, post.1, post.2⟩] := by
  simp [numbered, List.mapIdx_append]

/-- **What was inserted stays.** -/
theorem blogOf_append {log : Log} {id : ℤ} (h : 1 ≤ id) (hle : id ≤ log.length) (later : Log) :
    blogOf (log ++ later) id = blogOf log id := by
  have hlonger : 1 ≤ id ∧ id ≤ (log ++ later).length := by
    rw [List.length_append]
    omega
  have hlt : (id - 1).toNat < log.length := by omega
  rw [blogOf, blogOf, dif_pos hlonger, dif_pos ⟨h, hle⟩]
  simp only [List.get_eq_getElem, List.getElem_append_left hlt]

/-- an index that is the place of an id finds its post -/
theorem getD_numbered (log : Log) (id : ℤ) (h : 1 ≤ id) : (numbered log).getD (id - 1).toNat sentinel = blogOf log id := by
  by_cases hle : id ≤ log.length
  · have hlt : (id - 1).toNat < (numbered log).length := by
      rw [length_numbered]
      omega
    have hid : ((id - 1).toNat : ℤ) + 1 = id := by omega
    rw [List.getD_eq_getElem _ _ hlt, blogOf, dif_pos ⟨h, hle⟩]
    simp only [numbered, List.getElem_mapIdx, hid, List.get_eq_getElem]
  · have hpast : (numbered log).length ≤ (id - 1).toNat := by
      rw [length_numbered]
      omega
    rw [List.getD_eq_default _ _ hpast, blogOf, dif_neg fun hle' => hle hle'.2]

/-! ## Every run -/

/-- **Step lemma.** On the posts of a log a call returns what it is to, and leaves those of the log with what it
inserts. -/
theorem onMock_numbered {log : Log} {call : Call} (hlegal : call.Legal)
    (hcount : (log ++ call.posted).length < 2147483648) :
    call.onMock (numbered log) = some (call.expected log, numbered (log ++ call.posted)) := by
  cases call with
  | insertBlog title body =>
    rw [Call.posted, List.length_append, List.length_singleton] at hcount
    have hid : int32 (log.length + 1) = log.length + 1 := int32_of_range (by omega) (by omega)
    simp only [Call.onMock, mockDatabase, length_numbered, hid, Call.expected, Call.posted, numbered_snoc]
  | getBlog postid =>
    obtain ⟨hint, hleast⟩ := hlegal
    rw [Call.posted, List.append_nil] at hcount
    have hlength : (numbered log).length < 2147483648 := by rwa [length_numbered]
    have hget := mockGetBlog_eq hint hleast hlength
    have hblog : (mockDatabase.getBlog postid (numbered log)).1 = blogOf log postid := by
      by_cases hpos : postid ≤ 0
      · simp only [mockDatabase, if_pos hpos]
        rw [blogOf, dif_neg fun h => by omega, sentinel]
      · simp only [mockDatabase, if_neg hpos]
        exact getD_numbered log postid (by omega)
    rw [Call.onMock, hget, hblog, Call.posted, List.append_nil]
    rfl
  | getAllBlogs =>
    rw [Call.posted, List.append_nil]
    rfl

/-- **Run lemma.** -/
theorem runMock_numbered {log : Log} {calls : List Call} (hlegal : ∀ call ∈ calls, call.Legal)
    (hcount : (log ++ inserted calls).length < 2147483648) :
    runMock (numbered log) calls = some (expected log calls, numbered (log ++ inserted calls)) := by
  induction calls generalizing log with
  | nil =>
    rw [inserted, List.flatMap_nil, List.append_nil]
    rfl
  | cons call calls ih =>
    rw [inserted, List.flatMap_cons, ← List.append_assoc, ← inserted] at hcount ⊢
    have hstep : (log ++ call.posted).length < 2147483648 := by
      rw [List.length_append] at hcount
      omega
    rw [runMock, onMock_numbered (hlegal call List.mem_cons_self) hstep]
    have hrest := ih (fun later hlater => hlegal later (List.mem_cons_of_mem call hlater)) hcount
    simp only [Option.bind_eq_bind, Option.bind_some, hrest]
    rfl

/-- **The contract of a `mock_database`.** In every run of calls on a new one, with fewer than 2^31 inserts and no
`get_blog` of the least `int`, every call returns what it is to: an insert its place, `get_all_blogs` the posts inserted
so far with ids from 1 on, `get_blog` the post under the id or the sentinel. What is under an id stays. -/
theorem mock_contract {calls : List Call} (hlegal : ∀ call ∈ calls, call.Legal)
    (hcount : (inserted calls).length < 2147483648) :
    runMock [] calls = some (expected [] calls, numbered (inserted calls)) ∧
      ∀ before after, calls = before ++ after → ∀ id : ℤ, 1 ≤ id → id ≤ (inserted before).length →
        blogOf (inserted calls) id = blogOf (inserted before) id := by
  constructor
  · have hrun := @runMock_numbered [] calls hlegal hcount
    exact hrun
  · intro before after hcalls id hpos hle
    rw [hcalls, inserted, List.flatMap_append]
    exact blogOf_append hpos hle (inserted after)

/-- two inserts, and ids on both sides of theirs -/
theorem mock_contract_two :
    runMock [] [.insertBlog (ascii "a") (ascii "b"), .getBlog 1, .insertBlog (ascii "c") (ascii "d"), .getBlog 0,
      .getBlog (-2147483647), .getBlog 3, .getAllBlogs] =
        some ([.postid 1, .blog ⟨1, ascii "a", ascii "b"⟩, .postid 2, .blog sentinel, .blog sentinel, .blog sentinel,
          .blogs [⟨1, ascii "a", ascii "b"⟩, ⟨2, ascii "c", ascii "d"⟩]],
          [⟨1, ascii "a", ascii "b"⟩, ⟨2, ascii "c", ascii "d"⟩]) :=
  (mock_contract (by decide) (by decide)).1

end BlogServer.Posts
