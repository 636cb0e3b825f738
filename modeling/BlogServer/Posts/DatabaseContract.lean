/-
What `class database` is relied on for: `get_blog` gives the post that `get_all_blogs` lists under the id, and the
sentinel where none is listed.

A `mock_database` does that as long as its ids have not wrapped around. A `blog_bigtable` gives an empty post with the
id that it was asked for in place of the sentinel, so after every run it answers for an id as the contract asks exactly
when there is a row under it, or the id is that of the sentinel (`bigtable_follows_iff`).

- `hasPost_iff`: what `handle_get_one_blog` makes of the contract.
- `mockDatabase_follows`: the contract in a `mock_database`.
- `readBlogs_listed`: what `get_all_blogs` lists of a table whose keys are numerals.
-/
import BlogServer.Posts.Bigtable
import BlogServer.Posts.RequestRouting

namespace BlogServer.Posts

open BlogServer.Decimal

/-! ## The contract -/

/-- the post of `get_blog` for an id that is not there -/
def sentinel : Blog := ⟨-1, [], []⟩

/-- for the id, `get_blog` agrees with `get_all_blogs` -/
structure Follows {σ : Type} (db : Database σ) (s : σ) (id : ℤ) : Prop where
  present : ∀ blog ∈ (db.getAllBlogs s).1, blog.postid = id → (db.getBlog id s).1 = blog
  absent : (∀ blog ∈ (db.getAllBlogs s).1, blog.postid ≠ id) → (db.getBlog id s).1 = sentinel

/-- with the contract, the sign of the answer tells whether a post is listed -/
theorem hasPost_iff {σ : Type} {db : Database σ} {s : σ} {n : ℕ} (h : Follows db s n) :
    HasPost db n s ↔ ∃ blog ∈ (db.getAllBlogs s).1, blog.postid = n := by
  constructor
  · intro (hpost : 0 ≤ (db.getBlog n s).1.postid)
    by_contra hnone
    rw [h.absent fun blog hblog hid => hnone ⟨blog, hblog, hid⟩] at hpost
    exact absurd hpost (by decide)
  · intro hlisted
    obtain ⟨blog, hblog, hid⟩ := hlisted
    rw [HasPost, h.present blog hblog hid, hid]
    exact Int.natCast_nonneg n

/-- a call of a database -/
inductive Call where
  | insertBlog (title body : Bytes)
  | getBlog (postid : ℤ)
  | getAllBlogs

/-- the state that a call leaves -/
def Call.next {σ : Type} (db : Database σ) (s : σ) : Call → σ
  | .insertBlog title body => (db.insertBlog title body s).2
  | .getBlog postid => (db.getBlog postid s).2
  | .getAllBlogs => (db.getAllBlogs s).2

/-- the state after calls -/
def afterCalls {σ : Type} (db : Database σ) (s : σ) (calls : List Call) : σ := calls.foldl (Call.next db) s

/-! ## `mock_database` -/

/-- **A `mock_database` keeps the contract**, with ids that an `int` holds. -/
theorem mockDatabase_follows {posts : List Blog} (h : InOrder posts) (hlt : posts.length < 2147483648) (id : ℤ) :
    Follows mockDatabase posts id := by
  have hids : ∀ i (hi : i < posts.length), (posts[i]).postid = i + 1 := by
    intro i hi
    rw [h i hi, int32_of_range (by omega) (by omega)]
  constructor
  · intro blog (hblog : blog ∈ posts) hid
    obtain ⟨i, hi, rfl⟩ := List.getElem_of_mem hblog
    have hindex : (id - 1).toNat = i := by
      rw [← hid, hids i hi]
      omega
    have hpositive : ¬ id ≤ 0 := by
      rw [← hid, hids i hi]
      omega
    simp only [mockDatabase, if_neg hpositive, hindex]
    exact List.getD_eq_getElem _ _ hi
  · intro hnone
    by_cases hpositive : id ≤ 0
    · simp only [mockDatabase, if_pos hpositive, sentinel]
    · have hlarge : posts.length ≤ (id - 1).toNat := by
        by_contra hsmall
        refine hnone _ (List.getElem_mem (not_le.1 hsmall)) ?_
        rw [hids _ (not_le.1 hsmall)]
        omega
      simp only [mockDatabase, if_neg hpositive]
      exact List.getD_eq_default _ _ hlarge

/-! ## `blog_bigtable` -/

/-- `class blog_bigtable` as a database; the service answers -/
def bigtable : Database Table where
  insertBlog title body t := ((Posts.insertBlog t title body).postid, (Posts.insertBlog t title body).table)
  getBlog postid t := (Posts.getBlog t postid, t)
  getAllBlogs t := (Posts.getAllBlogs t, t)

/-- the row keys are numerals of an `int`, as `insert_blog` writes them -/
def IntKeys (t : Table) : Prop := ∀ key ∈ t.keys, ∃ z, IsInt z ∧ key = Decimal.toString z

/-- the id of an insert is an `int` -/
theorem latest_isInt {postid : ℤ} (h : IsInt postid) (keys : List Bytes) : IsInt (latest postid keys).1 := by
  induction keys generalizing postid with
  | nil => exact h
  | cons key keys ih =>
    rw [latest]
    cases stoi key with
    | none => exact h
    | some n => exact ih (int32_range (n + 1))

theorem IntKeys.insert {t : Table} (h : IntKeys t) (title body : Bytes) :
    IntKeys (Posts.insertBlog t title body).table := by
  have hpostid : IsInt (latest (-1) t.keys).1 := latest_isInt (by decide) t.keys
  unfold Posts.insertBlog
  generalize latest (-1) t.keys = found at hpostid ⊢
  obtain ⟨postid, _ | _⟩ := found
  · exact h
  · intro key hkey
    rcases mem_keys_setCells.1 hkey with rfl | hkey
    · exact ⟨postid, hpostid, rfl⟩
    · exact h key hkey

/-- **Step lemma.** -/
theorem IntKeys.next {t : Table} (h : IntKeys t) (call : Call) : IntKeys (call.next bigtable t) := by
  cases call with
  | insertBlog title body => exact h.insert title body
  | getBlog postid => exact h
  | getAllBlogs => exact h

/-- **Run lemma.** -/
theorem IntKeys.afterCalls {t : Table} (h : IntKeys t) (calls : List Call) : IntKeys (afterCalls bigtable t calls) := by
  induction calls generalizing t with
  | nil => exact h
  | cons call calls ih => exact ih (h.next call)

/-- the post that a row is listed as -/
theorem mem_readBlogs {rows : List (Bytes × Row)}
    (h : ∀ e ∈ rows, ∃ z, IsInt z ∧ e.1 = Decimal.toString z) {blog : Blog} :
    blog ∈ readBlogs rows ↔
      ∃ z row, IsInt z ∧ (Decimal.toString z, row) ∈ rows ∧ blog = ⟨z, row.post.1, row.post.2⟩ := by
  induction rows with
  | nil => simp [readBlogs]
  | cons e rows ih =>
    obtain ⟨key, row⟩ := e
    obtain ⟨z, hz, rfl⟩ : ∃ z, IsInt z ∧ key = Decimal.toString z := h _ List.mem_cons_self
    have hrest := ih fun e he => h e (List.mem_cons_of_mem _ he)
    rw [readBlogs, stoi_toString hz]
    simp only [List.mem_cons, hrest]
    constructor
    · rintro (rfl | ⟨z', row', hz', hmem, rfl⟩)
      · exact ⟨z, row, hz, Or.inl rfl, rfl⟩
      · exact ⟨z', row', hz', Or.inr hmem, rfl⟩
    · rintro ⟨z', row', hz', heq | hmem, rfl⟩
      · obtain ⟨hkey, rfl⟩ := Prod.mk.inj heq
        have hsame : some z' = some z := by rw [← stoi_toString hz', hkey, stoi_toString hz]
        rw [Option.some.inj hsame]
        exact Or.inl rfl
      · exact Or.inr ⟨z', row', hz', hmem, rfl⟩

/-- **What is listed**: the rows, each under the number that its key is the numeral of. -/
theorem readBlogs_listed {t : Table} (h : IntKeys t) {blog : Blog} :
    blog ∈ Posts.getAllBlogs t ↔
      ∃ z row, IsInt z ∧ t.find? (Decimal.toString z) = some row ∧ blog = ⟨z, row.post.1, row.post.2⟩ := by
  have hkeys : ∀ e ∈ t.entries, ∃ z, IsInt z ∧ e.1 = Decimal.toString z :=
    fun e he => h e.1 (List.mem_map_of_mem he)
  rw [Posts.getAllBlogs, mem_readBlogs hkeys]
  simp only [SortedMap.mem_entries_iff]

/-- **Where `blog_bigtable` keeps the contract.** After any calls on a table whose keys are numerals, it answers for an
id as the contract asks exactly when there is a row under the id, or the id is that of the sentinel. -/
theorem bigtable_follows_iff {t : Table} (ht : IntKeys t) (calls : List Call) {id : ℤ} (hid : IsInt id) :
    Follows bigtable (afterCalls bigtable t calls) id ↔
      id = -1 ∨ Decimal.toString id ∈ (afterCalls bigtable t calls).keys := by
  have h := ht.afterCalls calls
  generalize afterCalls bigtable t calls = t at h ⊢
  rw [SortedMap.mem_keys_iff]
  constructor
  · intro hfollows
    by_contra hother
    obtain ⟨hne, hnone⟩ := not_or.1 hother
    have habsent := hfollows.absent fun blog hblog heq => by
      obtain ⟨z, row, -, hrow, rfl⟩ := (readBlogs_listed h).1 hblog
      subst heq
      exact hnone ⟨row, hrow⟩
    exact hne (congrArg Blog.postid habsent)
  · intro hid'
    constructor
    · intro blog hblog heq
      obtain ⟨z, row, -, hrow, rfl⟩ := (readBlogs_listed h).1 hblog
      subst heq
      simp only [bigtable, Posts.getBlog, SortedMap.getD, hrow, Option.getD_some]
    · intro hnone
      have hrow : t.find? (Decimal.toString id) = none := by
        by_contra hsome
        obtain ⟨row, hrow⟩ := Option.ne_none_iff_exists'.1 hsome
        exact hnone _ ((readBlogs_listed h).2 ⟨id, row, hid, hrow, rfl⟩) rfl
      rcases hid' with rfl | ⟨row, hsome⟩
      · simp only [bigtable, Posts.getBlog, SortedMap.getD, hrow, Option.getD_none]
        rfl
      · rw [hrow] at hsome
        cases hsome

/-- a new table does not give the sentinel for the first id -/
theorem bigtable_follows_fails : ¬ Follows bigtable (afterCalls bigtable SortedMap.empty []) 1 := by
  intro h
  have habsent := h.absent fun blog hblog => by cases hblog
  revert habsent
  decide +kernel

/-- the theorem at the second post of a new table -/
theorem bigtable_follows_second :
    Follows bigtable (afterCalls bigtable SortedMap.empty
      [.insertBlog (ascii "a") (ascii "b"), .insertBlog (ascii "c") (ascii "d"), .getAllBlogs]) 0 := by
  have hempty : IntKeys SortedMap.empty := by
    intro key hkey
    cases hkey
  exact (bigtable_follows_iff hempty _ (by decide)).2 (Or.inr (by decide +kernel))

end BlogServer.Posts
