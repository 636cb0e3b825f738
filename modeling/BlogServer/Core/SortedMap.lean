/-
Ordered maps (`std::map`): association lists kept in strictly ascending key order.

The entries are in iteration order, and equal maps have equal entries: `ext_entries`, `ext_find?`. `insert` is
assignment through `operator[]`, `find?` is `find`, `getD` is reading through `operator[]` with the default value.
-/
import Mathlib.Tactic

namespace BlogServer

/-- an association list with strictly ascending keys -/
structure SortedMap (K V : Type*) [LinearOrder K] where
  entries : List (K × V)
  sorted : entries.Pairwise (fun a b => a.1 < b.1)
deriving DecidableEq

namespace SortedMap

variable {K V : Type*} [LinearOrder K]

@[ext] theorem ext_entries {m n : SortedMap K V} (h : m.entries = n.entries) : m = n := by
  cases m; cases n; cases h; rfl

def empty : SortedMap K V := ⟨[], .nil⟩

/-- put `v` under `k` in an ascending list, replacing what is there -/
def insertList (k : K) (v : V) : List (K × V) → List (K × V)
  | [] => [(k, v)]
  | e :: l => if k < e.1 then (k, v) :: e :: l else if k = e.1 then (k, v) :: l else e :: insertList k v l

theorem mem_insertList {k : K} {v : V} {l : List (K × V)} {e : K × V} (h : e ∈ insertList k v l) :
    e = (k, v) ∨ e ∈ l ∧ (l.Pairwise (fun a b => a.1 < b.1) → e.1 ≠ k) := by
  induction l with
  | nil => simp [insertList] at h; exact Or.inl h
  | cons a l ih =>
    simp only [insertList] at h
    split_ifs at h with h1 h2
    · rcases List.mem_cons.1 h with h | h
      · exact Or.inl h
      · refine Or.inr ⟨h, fun hs => ?_⟩
        rcases List.mem_cons.1 h with rfl | h
        · exact ne_of_gt h1
        · exact ne_of_gt (h1.trans (List.rel_of_pairwise_cons hs h))
    · rcases List.mem_cons.1 h with h | h
      · exact Or.inl h
      · exact Or.inr ⟨List.mem_cons_of_mem _ h, fun hs => h2 ▸ ne_of_gt (List.rel_of_pairwise_cons hs h)⟩
    · rcases List.mem_cons.1 h with rfl | h
      · exact Or.inr ⟨List.mem_cons_self, fun _ => Ne.symm h2⟩
      · rcases ih h with h | ⟨h, h'⟩
        · exact Or.inl h
        · exact Or.inr ⟨List.mem_cons_of_mem _ h, fun hs => h' hs.of_cons⟩

theorem sorted_insertList (k : K) (v : V) {l : List (K × V)} (h : l.Pairwise (fun a b => a.1 < b.1)) :
    (insertList k v l).Pairwise (fun a b => a.1 < b.1) := by
  induction l with
  | nil => simp [insertList]
  | cons a l ih =>
    simp only [insertList]
    split_ifs with h1 h2
    · refine List.pairwise_cons.2 ⟨fun b hb => ?_, h⟩
      rcases List.mem_cons.1 hb with rfl | hb
      · exact h1
      · exact h1.trans (List.rel_of_pairwise_cons h hb)
    · subst h2
      exact List.pairwise_cons.2 ⟨fun b hb => List.rel_of_pairwise_cons h hb, h.of_cons⟩
    · refine List.pairwise_cons.2 ⟨fun b hb => ?_, ih h.of_cons⟩
      rcases mem_insertList hb with rfl | ⟨hb, -⟩
      · exact lt_of_le_of_ne (not_lt.1 h1) (Ne.symm h2)
      · exact List.rel_of_pairwise_cons h hb

/-- `m[k] = v` -/
def insert (m : SortedMap K V) (k : K) (v : V) : SortedMap K V :=
  ⟨insertList k v m.entries, sorted_insertList k v m.sorted⟩

/-- `m.find(k)` -/
def find? (m : SortedMap K V) (k : K) : Option V := (m.entries.find? fun e => e.1 = k).map Prod.snd

/-- `m[k]` read through the default value -/
def getD (m : SortedMap K V) (k : K) (d : V) : V := (m.find? k).getD d

/-- the keys in iteration order -/
def keys (m : SortedMap K V) : List K := m.entries.map Prod.fst

theorem keys_nodup (m : SortedMap K V) : m.keys.Nodup := by
  rw [keys, List.nodup_iff_pairwise_ne, List.pairwise_map]
  exact m.sorted.imp fun h => ne_of_lt h

theorem mem_entries_iff {m : SortedMap K V} {k : K} {v : V} : (k, v) ∈ m.entries ↔ m.find? k = some v := by
  constructor
  · intro h
    cases hf : m.entries.find? (fun e => e.1 = k) with
    | none => rw [List.find?_eq_none] at hf; exact absurd (by simp) (hf _ h)
    | some e =>
      have hk : e.1 = k := by simpa using List.find?_some hf
      have hm := List.mem_of_find?_eq_some hf
      have : e = (k, v) := by
        by_contra hne
        have := List.inj_on_of_nodup_map m.keys_nodup hm h hk
        exact hne this
      simp [find?, hf, this]
  · intro h
    simp only [find?, Option.map_eq_some_iff] at h
    obtain ⟨e, he, rfl⟩ := h
    have hk : e.1 = k := by simpa using List.find?_some he
    have hm := List.mem_of_find?_eq_some he
    rw [← hk]; exact hm

theorem mem_keys_iff {m : SortedMap K V} {k : K} : k ∈ m.keys ↔ ∃ v, m.find? k = some v := by
  simp only [keys, List.mem_map, Prod.exists, exists_and_right, exists_eq_right]
  exact exists_congr fun v => mem_entries_iff

theorem find?_eq_none_iff {m : SortedMap K V} {k : K} : m.find? k = none ↔ k ∉ m.keys := by
  rw [mem_keys_iff, not_exists, Option.eq_none_iff_forall_ne_some]

theorem mem_insertList_self (k : K) (v : V) (l : List (K × V)) : (k, v) ∈ insertList k v l := by
  induction l with
  | nil => simp [insertList]
  | cons a l ih => simp only [insertList]; split_ifs <;> simp [ih]

theorem mem_insertList_of_ne {k : K} {v : V} {l : List (K × V)} {e : K × V} (h : e ∈ l) (hne : e.1 ≠ k) :
    e ∈ insertList k v l := by
  induction l with
  | nil => cases h
  | cons a l ih =>
    simp only [insertList]
    split_ifs with h1 h2
    · exact List.mem_cons_of_mem _ h
    · rcases List.mem_cons.1 h with rfl | h
      · exact absurd h2.symm hne
      · exact List.mem_cons_of_mem _ h
    · rcases List.mem_cons.1 h with rfl | h
      · exact List.mem_cons_self
      · exact List.mem_cons_of_mem _ (ih h)

/-- the entries after an assignment: the new one, and the old ones under other keys -/
theorem mem_insert_iff {m : SortedMap K V} {k : K} {v : V} {e : K × V} :
    e ∈ (m.insert k v).entries ↔ e = (k, v) ∨ e ∈ m.entries ∧ e.1 ≠ k := by
  constructor
  · intro h
    rcases mem_insertList h with h | ⟨h, h'⟩
    · exact Or.inl h
    · exact Or.inr ⟨h, h' m.sorted⟩
  · rintro (rfl | ⟨h, hne⟩)
    · exact mem_insertList_self k v _
    · exact mem_insertList_of_ne h hne

@[simp] theorem find?_insert_self (m : SortedMap K V) (k : K) (v : V) : (m.insert k v).find? k = some v :=
  mem_entries_iff.1 (mem_insertList_self k v _)

theorem find?_insert_of_ne (m : SortedMap K V) {k k' : K} (v : V) (h : k' ≠ k) :
    (m.insert k v).find? k' = m.find? k' := by
  apply Option.ext
  intro w
  rw [← mem_entries_iff, ← mem_entries_iff, mem_insert_iff]
  simp [h]

theorem find?_insert (m : SortedMap K V) (k k' : K) (v : V) :
    (m.insert k v).find? k' = if k' = k then some v else m.find? k' := by
  split_ifs with h
  · rw [h, find?_insert_self]
  · exact find?_insert_of_ne m v h

theorem mem_keys_insert {m : SortedMap K V} {k k' : K} {v : V} : k' ∈ (m.insert k v).keys ↔ k' = k ∨ k' ∈ m.keys := by
  rw [mem_keys_iff, find?_insert, mem_keys_iff]
  split_ifs with h <;> simp [h]

@[simp] theorem find?_empty (k : K) : (empty : SortedMap K V).find? k = none := rfl

/-- **Extensionality.** Maps that answer alike under every key are equal, entries included. -/
theorem ext_find? {m n : SortedMap K V} (h : ∀ k, m.find? k = n.find? k) : m = n := by
  apply ext_entries
  refine List.Perm.eq_of_pairwise (fun a b _ _ h1 h2 => absurd h2 (not_lt.2 (le_of_lt h1))) m.sorted n.sorted ?_
  have hm : ∀ e, e ∈ m.entries ↔ e ∈ n.entries := fun e => by
    rw [show e = (e.1, e.2) from rfl, mem_entries_iff, mem_entries_iff, h]
  exact (List.perm_ext_iff_of_nodup (m.keys_nodup.of_map _) (n.keys_nodup.of_map _)).2 hm

/-- a list of assignments, in order -/
def ofAssignments (l : List (K × V)) : SortedMap K V := l.foldl (fun m e => m.insert e.1 e.2) empty

theorem ofAssignments_snoc (l : List (K × V)) (e : K × V) :
    ofAssignments (l ++ [e]) = (ofAssignments l).insert e.1 e.2 := by
  simp [ofAssignments]

/-- under each key, the value assigned last -/
theorem find?_ofAssignments (l : List (K × V)) (k : K) :
    (ofAssignments l).find? k = (l.reverse.find? fun e => e.1 = k).map Prod.snd := by
  induction l using List.reverseRecOn with
  | nil => rfl
  | append_singleton l e ih =>
    rw [ofAssignments_snoc, find?_insert, List.reverse_append, List.reverse_singleton, List.singleton_append,
      List.find?_cons]
    by_cases h : e.1 = k
    · simp [h]
    · simp [h, Ne.symm h, ih]

/-- an assignment stands if none after it is under its key -/
theorem find?_ofAssignments_last {pre post : List (K × V)} {k : K} (v : V) (h : ∀ e ∈ post, e.1 ≠ k) :
    (ofAssignments (pre ++ (k, v) :: post)).find? k = some v := by
  have hpost : post.reverse.find? (fun e => e.1 = k) = none := by
    rw [List.find?_eq_none]
    intro e he
    simpa using h e (List.mem_reverse.1 he)
  rw [find?_ofAssignments, List.reverse_append, List.reverse_cons, List.append_assoc, List.find?_append, hpost]
  simp

theorem mem_of_mem_ofAssignments {l : List (K × V)} {e : K × V} (h : e ∈ (ofAssignments l).entries) : e ∈ l := by
  rw [show e = (e.1, e.2) from rfl, mem_entries_iff, find?_ofAssignments, Option.map_eq_some_iff] at h
  obtain ⟨e', he, h2⟩ := h
  have hk : e'.1 = e.1 := by simpa using List.find?_some he
  rw [← show e' = e from Prod.ext hk h2]
  exact List.mem_reverse.1 (List.mem_of_find?_eq_some he)

/-- **Assigning the entries of a map rebuilds the map.** -/
theorem ofAssignments_entries (m : SortedMap K V) : ofAssignments m.entries = m := by
  apply ext_find?
  intro k
  apply Option.ext
  intro v
  rw [find?_ofAssignments]
  constructor
  · intro h
    obtain ⟨e, he, rfl⟩ := Option.map_eq_some_iff.1 h
    have hk : e.1 = k := by simpa using List.find?_some he
    rw [← mem_entries_iff, ← hk]
    exact List.mem_reverse.1 (List.mem_of_find?_eq_some he)
  · intro h
    have hm := mem_entries_iff.2 h
    cases hf : m.entries.reverse.find? (fun e => e.1 = k) with
    | none => rw [List.find?_eq_none] at hf; exact absurd (by simp) (hf _ (List.mem_reverse.2 hm))
    | some e =>
      have hk : e.1 = k := by simpa using List.find?_some hf
      have hme := List.mem_reverse.1 (List.mem_of_find?_eq_some hf)
      have := List.inj_on_of_nodup_map m.keys_nodup hme hm hk
      simp [this]

/-- entries that a property of the key selects are not touched by an insertion under another key -/
theorem filter_insert (m : SortedMap K V) (k : K) (v : V) {p : K → Bool} (hk : p k = false) :
    (m.insert k v).entries.filter (fun e => p e.1) = m.entries.filter fun e => p e.1 := by
  have key : ∀ l : List (K × V), (insertList k v l).filter (fun e => p e.1) = l.filter fun e => p e.1 := by
    intro l
    induction l with
    | nil => simp [insertList, hk]
    | cons e l ih =>
      unfold insertList
      split_ifs with h1 h2
      · simp [List.filter_cons, hk]
      · subst h2
        simp [hk]
      · simp only [List.filter_cons, ih]
  exact key m.entries

end SortedMap

end BlogServer
