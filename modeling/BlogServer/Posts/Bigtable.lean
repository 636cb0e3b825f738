/-
`blog_bigtable` (`bigtable/src/blog_bigtable.cc`): posts as rows of a Bigtable table.

A table is an ordered map from row keys to rows, a row an ordered map from column qualifiers to values (of the one
column family). `ReadRows` yields the rows in the byte order of their keys, `Apply` of `SetCell` replaces cells.
`insert_blog` takes the id after that of the last row it reads; when the key of a row is no `int`, `stoi` throws and
nothing is applied.

- `insertBlog_fresh_iff`: on rows with the keys `0, …, r - 1`, the id is new exactly when `r` is at most nine short of a
  power of ten.
- `inserts_keep_iff`: over every run of inserts that succeed.
- `inserts_lose`: with the rows `0, …, 10` the next insert overwrites row `10`.
-/
import BlogServer.Core.DecimalOrder
import BlogServer.Posts.UploadHandler

namespace BlogServer.Posts

open BlogServer.Byte BlogServer.Decimal

/-! ## Tables -/

/-- the cells of a row, by column qualifier -/
abbrev Row := SortedMap Bytes Bytes

/-- the rows of a table, by row key -/
abbrev Table := SortedMap Bytes Row

/-- title and body of a row -/
def Row.post (row : Row) : Bytes × Bytes := (row.getD (ascii "title") [], row.getD (ascii "body") [])

/-- `Apply` of a mutation that sets the cells of title and body -/
def Table.setCells (t : Table) (key title body : Bytes) : Table :=
  t.insert key (((t.getD key SortedMap.empty).insert (ascii "title") title).insert (ascii "body") body)

/-! ## `class blog_bigtable` -/

/-- the loop of `insert_blog`: the last `postid`, and whether every `stoi` returned -/
def latest (postid : ℤ) : List Bytes → ℤ × Bool
  | [] => (postid, true)
  | key :: keys =>
    match stoi key with
    | none => (postid, false)
    | some n => latest (int32 (n + 1)) keys

/-- what `insert_blog` returns and leaves, and whether it came to its end without an exception -/
structure Inserted where
  postid : ℤ
  table : Table
  succeeded : Bool

/-- `insert_blog`; the service answers -/
def insertBlog (t : Table) (title body : Bytes) : Inserted :=
  match latest (-1) t.keys with
  | (postid, false) => ⟨postid, t, false⟩
  | (postid, true) => ⟨postid, t.setCells (Decimal.toString postid) title body, true⟩

/-- `get_blog`; the service answers, and gives no cells for a row that is not there -/
def getBlog (t : Table) (postid : ℤ) : Blog :=
  let post := Row.post (t.getD (Decimal.toString postid) SortedMap.empty)
  ⟨postid, post.1, post.2⟩

/-- the loop of `get_all_blogs`, up to the first key that is no `int` -/
def readBlogs : List (Bytes × Row) → List Blog
  | [] => []
  | (key, row) :: rows =>
    match stoi key with
    | none => []
    | some postid => ⟨postid, row.post.1, row.post.2⟩ :: readBlogs rows

/-- `get_all_blogs` -/
def getAllBlogs (t : Table) : List Blog := readBlogs t.entries

/-! ## What the inserts of a run find -/

/-- a property of every call of a run of inserts, on the table that the call finds -/
def EachInsert (P : Table → Bytes × Bytes → Prop) : Table → List (Bytes × Bytes) → Prop
  | _, [] => True
  | t, p :: ps => P t p ∧ EachInsert P (insertBlog t p.1 p.2).table ps

/-- the call succeeds -/
def Succeeds (t : Table) (p : Bytes × Bytes) : Prop := (insertBlog t p.1 p.2).succeeded = true

/-- the call returns an id that was no row key, and leaves every post there was as it was -/
def KeepsPosts (t : Table) (p : Bytes × Bytes) : Prop :=
  Decimal.toString (insertBlog t p.1 p.2).postid ∉ t.keys ∧
    ∀ key row, t.find? key = some row →
      ((insertBlog t p.1 p.2).table.find? key).map Row.post = some row.post

/-- the row keys are the numerals `0, …, k - 1` -/
def Numbered (t : Table) (k : ℕ) : Prop := ∀ key, key ∈ t.keys ↔ ∃ i < k, key = decimal i

/-- the key under which a table without rows stores its first post -/
abbrev firstKey : Bytes := ascii "-1"

/-- the rows with a number of their own -/
def numberedRows (t : Table) : ℕ := (t.keys.filter fun key => key ≠ firstKey).length

/-- `r` is at most nine short of a power of ten -/
def NearPower (r : ℕ) : Prop := ∃ d, 10 ^ d ≤ r + 9 ∧ r ≤ 10 ^ d

theorem nearPower_succ (n : ℕ) : NearPower (n + 1) ↔ EndsDecade n := by
  unfold NearPower EndsDecade
  refine exists_congr fun d => ?_
  omega

/-! ## One insert -/

/-- the keys of a table to which only inserts have been made: a first row under `-1` or not, and numbered rows -/
structure Rows (t : Table) (r : ℕ) : Prop where
  numbered : ∀ i, decimal i ∈ t.keys ↔ i < r
  keys : ∀ key ∈ t.keys, key = firstKey ∨ ∃ i, key = decimal i

theorem firstKey_lt (n : ℕ) : firstKey < decimal n := minus_lt_decimal (ascii "1") n

theorem firstKey_ne (n : ℕ) : decimal n ≠ firstKey := (firstKey_lt n).ne'

theorem rows_of_numbered {t : Table} {k : ℕ} (h : Numbered t k) : Rows t k := by
  constructor
  · intro i
    rw [h]
    constructor
    · rintro ⟨j, hj, heq⟩
      rwa [decimal_injective heq]
    · intro hi
      exact ⟨i, hi, rfl⟩
  · intro key hkey
    obtain ⟨i, -, heq⟩ := (h key).1 hkey
    exact Or.inr ⟨i, heq⟩

theorem Rows.count {t : Table} {r : ℕ} (h : Rows t r) : numberedRows t = r := by
  have hperm : (t.keys.filter fun key => key ≠ firstKey).Perm ((List.range r).map decimal) := by
    refine (List.perm_ext_iff_of_nodup (t.keys_nodup.filter _) (List.nodup_range.map decimal_injective)).2 fun key => ?_
    simp only [List.mem_filter, decide_eq_true_eq, List.mem_map, List.mem_range]
    constructor
    · rintro ⟨hkey, hne⟩
      rcases h.keys key hkey with heq | ⟨i, rfl⟩
      · exact absurd heq hne
      · exact ⟨i, (h.numbered i).1 hkey, rfl⟩
    · rintro ⟨i, hi, rfl⟩
      exact ⟨(h.numbered i).2 hi, firstKey_ne i⟩
  rw [numberedRows, hperm.length_eq, List.length_map, List.length_range]

/-- the loop ends with the id after the last key -/
theorem latest_snoc {postid q : ℤ} {keys : List Bytes} {key : Bytes} (h : latest postid (keys ++ [key]) = (q, true)) :
    ∃ n, stoi key = some n ∧ q = int32 (n + 1) := by
  induction keys generalizing postid with
  | nil =>
    rw [List.nil_append, latest] at h
    cases hn : stoi key with
    | none => rw [hn] at h; cases h
    | some n =>
      rw [hn] at h
      exact ⟨n, rfl, (congrArg Prod.fst h).symm⟩
  | cons k keys ih =>
    rw [List.cons_append, latest] at h
    cases hn : stoi k with
    | none => rw [hn] at h; cases h
    | some n => rw [hn] at h; exact ih h

/-- the last key is the greatest -/
theorem le_last {t : Table} {keys : List Bytes} {key : Bytes} (h : t.keys = keys ++ [key]) : ∀ k ∈ t.keys, k ≤ key := by
  have hsorted : (keys ++ [key]).Pairwise (· < ·) := by
    rw [← h, SortedMap.keys, List.pairwise_map]
    exact t.sorted
  intro k hk
  rw [h] at hk
  rcases List.mem_append.1 hk with hk | hk
  · exact le_of_lt ((List.pairwise_append.1 hsorted).2.2 k hk key List.mem_cons_self)
  · exact le_of_eq (List.mem_singleton.1 hk)

theorem insertBlog_succeeds {t : Table} {p : Bytes × Bytes} (hok : Succeeds t p) :
    ∃ postid, latest (-1) t.keys = (postid, true) ∧
      insertBlog t p.1 p.2 = ⟨postid, t.setCells (Decimal.toString postid) p.1 p.2, true⟩ := by
  unfold Succeeds insertBlog at hok
  unfold insertBlog
  rcases hlatest : latest (-1) t.keys with ⟨postid, _ | _⟩
  · rw [hlatest] at hok
    cases hok
  · exact ⟨postid, rfl, rfl⟩

/-- the greatest `int` is not the last of its numerals, so the id after the last key is one -/
theorem int32_last {j : ℕ} {n : ℤ} (hj : stoi (decimal j) = some n) (hlast : ∀ i ≤ j, decimal i ≤ decimal j) :
    int32 (n + 1) = ((j + 1 : ℕ) : ℤ) := by
  rw [stoi_decimal, narrow_eq_some] at hj
  obtain ⟨rfl, -, hlt⟩ := hj
  have hne : j ≠ 2147483647 := by
    rintro rfl
    exact absurd (hlast 999999999 (by omega)) (by decide)
  rw [int32_of_range (by omega) (by omega)]
  push_cast
  rfl

/-- **The id of an insert**: -1 on a table without rows, else one up to the number of rows, and that number itself
exactly when it is near a power of ten. -/
theorem insertBlog_postid {t : Table} {r : ℕ} (h : Rows t r) {postid : ℤ} (hlatest : latest (-1) t.keys = (postid, true)) :
    t.keys = [] ∧ postid = -1 ∨ ∃ n : ℕ, postid = n ∧ n ≤ r ∧ (n = r ↔ NearPower r) := by
  rcases List.eq_nil_or_concat t.keys with hnil | ⟨keys, key, hkeys⟩
  · rw [hnil] at hlatest
    exact Or.inl ⟨hnil, (congrArg Prod.fst hlatest).symm⟩
  right
  rw [List.concat_eq_append] at hkeys
  have hle := le_last hkeys
  have hmem : key ∈ t.keys := by rw [hkeys]; simp
  rw [hkeys] at hlatest
  obtain ⟨n, hn, rfl⟩ := latest_snoc hlatest
  rcases h.keys key hmem with rfl | ⟨j, rfl⟩
  · -- only the row under `-1`
    have hzero : r = 0 := by
      by_contra hpos
      exact absurd (hle _ ((h.numbered 0).2 (by omega))) (not_le.2 (firstKey_lt 0))
    have hminus : n = -1 := by
      rw [(by decide : stoi firstKey = some (-1))] at hn
      exact (Option.some.inj hn).symm
    refine ⟨0, by rw [hminus]; rfl, by omega, ?_⟩
    exact iff_of_true hzero.symm ⟨0, by omega, by omega⟩
  · have hj := (h.numbered j).1 hmem
    have hbelow : ∀ i < r, decimal i ≤ decimal j := fun i hi => hle _ ((h.numbered i).2 hi)
    obtain ⟨m, rfl⟩ : ∃ m, r = m + 1 := ⟨r - 1, by omega⟩
    refine ⟨j + 1, int32_last hn fun i hi => hbelow i (by omega), by omega, ?_⟩
    rw [nearPower_succ, ← decimal_greatest_iff, Nat.add_right_cancel_iff]
    constructor
    · rintro rfl i hi
      exact hbelow i (by omega)
    · intro hgreatest
      exact decimal_injective (le_antisymm (hgreatest j (by omega)) (hbelow m (by omega)))

theorem find?_setCells_of_ne (t : Table) {key k : Bytes} (title body : Bytes) (h : k ≠ key) :
    (t.setCells key title body).find? k = t.find? k := SortedMap.find?_insert_of_ne t _ h

theorem mem_keys_setCells {t : Table} {key k : Bytes} {title body : Bytes} :
    k ∈ (t.setCells key title body).keys ↔ k = key ∨ k ∈ t.keys := SortedMap.mem_keys_insert

/-- under a new key nothing is lost -/
theorem keepsPosts_iff {t : Table} {p : Bytes × Bytes} (hok : Succeeds t p) :
    KeepsPosts t p ↔ Decimal.toString (insertBlog t p.1 p.2).postid ∉ t.keys := by
  refine ⟨fun h => h.1, fun hnew => ⟨hnew, fun key row hrow => ?_⟩⟩
  obtain ⟨postid, -, hinsert⟩ := insertBlog_succeeds hok
  rw [hinsert] at hnew ⊢
  have hne : key ≠ Decimal.toString postid := by
    rintro rfl
    exact hnew (SortedMap.mem_keys_iff.2 ⟨row, hrow⟩)
  rw [find?_setCells_of_ne t _ _ hne, hrow]
  rfl

/-- **When an insert keeps the posts there are.** -/
theorem insertBlog_fresh_iff {t : Table} {r : ℕ} (h : Rows t r) {p : Bytes × Bytes} (hok : Succeeds t p) :
    KeepsPosts t p ↔ NearPower r := by
  rw [keepsPosts_iff hok]
  obtain ⟨postid, hlatest, hinsert⟩ := insertBlog_succeeds hok
  rw [hinsert]
  rcases insertBlog_postid h hlatest with ⟨hnil, -⟩ | ⟨n, rfl, hle, hiff⟩
  · have hzero : r = 0 := by
      by_contra hpos
      have hmem := (h.numbered 0).2 (by omega)
      rw [hnil] at hmem
      cases hmem
    rw [hnil, hzero]
    exact iff_of_true List.not_mem_nil ⟨0, by omega, by omega⟩
  · rw [toString_natCast, h.numbered, ← hiff]
    omega

/-- an insert leaves rows of the same kind of keys -/
theorem Rows.insert {t : Table} {r : ℕ} (h : Rows t r) {p : Bytes × Bytes} (hok : Succeeds t p) :
    ∃ r', Rows (insertBlog t p.1 p.2).table r' := by
  obtain ⟨postid, hlatest, hinsert⟩ := insertBlog_succeeds hok
  rw [hinsert]
  rcases insertBlog_postid h hlatest with ⟨-, rfl⟩ | ⟨n, rfl, hle, -⟩
  · refine ⟨r, fun i => ?_, fun key hkey => ?_⟩
    · rw [mem_keys_setCells, h.numbered]
      exact ⟨fun hi => hi.resolve_left (firstKey_ne i), Or.inr⟩
    · rcases mem_keys_setCells.1 hkey with rfl | hkey
      · exact Or.inl (by decide)
      · exact h.keys key hkey
  · refine ⟨max r (n + 1), fun i => ?_, fun key hkey => ?_⟩
    · rw [mem_keys_setCells, toString_natCast, h.numbered, decimal_injective.eq_iff]
      omega
    · rw [mem_keys_setCells, toString_natCast] at hkey
      rcases hkey with rfl | hkey
      · exact Or.inr ⟨n, rfl⟩
      · exact h.keys key hkey

/-! ## Runs of inserts -/

theorem eachInsert_iff {t : Table} {r : ℕ} (h : Rows t r) (posts : List (Bytes × Bytes))
    (hok : EachInsert Succeeds t posts) :
    EachInsert KeepsPosts t posts ↔ EachInsert (fun t _ => NearPower (numberedRows t)) t posts := by
  induction posts generalizing t r with
  | nil => exact Iff.rfl
  | cons p ps ih =>
    obtain ⟨r', h'⟩ := h.insert hok.1
    have hone := insertBlog_fresh_iff h hok.1
    rw [← h.count] at hone
    exact and_congr hone (ih h' hok.2)

/-- **Runs of inserts.** From a table with the row keys `0, …, k - 1`, in a run of inserts that all succeed, every
insert returns a new id and keeps the posts there are exactly when every insert finds a number of rows, the one under
`-1` apart, that is at most nine short of a power of ten. -/
theorem inserts_keep_iff {t : Table} {k : ℕ} (ht : Numbered t k) (posts : List (Bytes × Bytes))
    (hok : EachInsert Succeeds t posts) :
    EachInsert KeepsPosts t posts ↔ EachInsert (fun t _ => NearPower (numberedRows t)) t posts :=
  eachInsert_iff (rows_of_numbered ht) posts hok

/-- rows under `0` to `r - 1` -/
def oldRows (r : ℕ) : Table :=
  .ofAssignments ((List.range r).map fun i => (decimal i, SortedMap.empty.insert (ascii "title") (ascii "old")))

theorem numbered_of_keys {t : Table} {k : ℕ} (h : t.keys.Perm ((List.range k).map decimal)) : Numbered t k := by
  intro key
  rw [h.mem_iff, List.mem_map]
  simp only [List.mem_range, eq_comm]

/-- after nine rows the next two posts get `9` and `10`, which is the last new id -/
theorem inserts_keep_iff_nine :
    EachInsert KeepsPosts (oldRows 9) [(ascii "a", ascii "b"), (ascii "c", ascii "d")] := by
  have hnumbered : Numbered (oldRows 9) 9 := numbered_of_keys (by decide)
  have hok : EachInsert Succeeds (oldRows 9) [(ascii "a", ascii "b"), (ascii "c", ascii "d")] :=
    ⟨by unfold Succeeds; decide +kernel, by unfold Succeeds; decide +kernel, trivial⟩
  refine (inserts_keep_iff hnumbered _ hok).2 ⟨⟨1, ?_⟩, ⟨1, ?_⟩, trivial⟩
  · decide
  · decide

/-- after eleven rows the post of row `10` is overwritten by the next insert -/
theorem inserts_lose :
    Numbered (oldRows 11) 11 ∧ EachInsert Succeeds (oldRows 11) [(ascii "new", ascii "text")] ∧
      ¬ EachInsert KeepsPosts (oldRows 11) [(ascii "new", ascii "text")] := by
  refine ⟨numbered_of_keys (by decide), ⟨by unfold Succeeds; decide, trivial⟩, fun h => h.1.1 ?_⟩
  decide

end BlogServer.Posts
