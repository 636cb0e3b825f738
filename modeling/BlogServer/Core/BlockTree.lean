/-
Statements in nested blocks, with their words: how a tree is written, and the builder that reads it back.

`BlockGrammar` says which sequences are configurations; here they have words in them, and stand for statements. What a
statement is, is left open: `mk` makes one of its words and the statements of its block, if it has one. `Writes` says
how statements are written. A `Builder` reads pieces one at a time: it has the statements of the innermost open block,
the words of the one begun, and for each open block what goes before it. It ends with the statements that were written,
and with no others (`build_iff`).

- `Writes.unique`: what is written is written by one list of statements only.
- `Writes.derives`: a writing derives from the grammar.
-/
import BlogServer.Core.BlockGrammar

namespace BlogServer.BlockTree

open BlockGrammar (Symbol Derives)

/-! ## Writing -/

/-- a symbol, with the word that it is -/
inductive Piece (α : Type*) where
  | word (w : α)
  | terminator
  | opening
  | closing
deriving DecidableEq, Repr

def Piece.symbol {α : Type*} : Piece α → Symbol
  | .word _ => .word
  | .terminator => .terminator
  | .opening => .opening
  | .closing => .closing

variable {α S : Type*} {mk : List α → Option (List S) → S}

/-- the words of a statement -/
abbrev wordsOf (ws : List α) : List (Piece α) := ws.map .word

/-- statements, and how they are written -/
inductive Writes (mk : List α → Option (List S) → S) : List S → List (Piece α) → Prop where
  | nil : Writes mk [] []
  | simple {ws : List α} {ss : List S} {v : List (Piece α)} (hne : ws ≠ []) (hss : Writes mk ss v) :
      Writes mk (mk ws none :: ss) (wordsOf ws ++ .terminator :: v)
  | block {ws : List α} {bs ss : List S} {u v : List (Piece α)} (hne : ws ≠ []) (hbs : Writes mk bs u)
      (hss : Writes mk ss v) : Writes mk (mk ws (some bs) :: ss) (wordsOf ws ++ .opening :: (u ++ .closing :: v))

theorem Writes.append {ss ss' : List S} {u v : List (Piece α)} (h : Writes mk ss u) (h' : Writes mk ss' v) :
    Writes mk (ss ++ ss') (u ++ v) := by
  induction h with
  | nil => exact h'
  | simple hne _ ih =>
    rw [List.cons_append, List.append_assoc, List.cons_append]
    exact .simple hne ih
  | block hne hbs _ _ ih =>
    rw [List.cons_append, List.append_assoc, List.cons_append, List.append_assoc, List.cons_append]
    exact .block hne hbs ih

/-- a statement without a block -/
theorem Writes.one {ws : List α} (hne : ws ≠ []) : Writes mk [mk ws none] (wordsOf ws ++ [.terminator]) :=
  .simple hne .nil

/-- a statement with one -/
theorem Writes.oneBlock {ws : List α} (hne : ws ≠ []) {bs : List S} {u : List (Piece α)} (hbs : Writes mk bs u) :
    Writes mk [mk ws (some bs)] (wordsOf ws ++ .opening :: (u ++ [.closing])) := .block hne hbs .nil

theorem symbol_wordsOf {ws : List α} (hne : ws ≠ []) :
    (wordsOf ws).map Piece.symbol = BlockGrammar.words (ws.length - 1) := by
  have hlength : ws.length = ws.length - 1 + 1 := (Nat.succ_pred_eq_of_pos (List.length_pos_iff.2 hne)).symm
  rw [List.map_map, BlockGrammar.words, ← hlength]
  exact List.eq_replicate_iff.2 ⟨by simp, fun s hs => by
    obtain ⟨w, -, rfl⟩ := List.mem_map.1 hs
    rfl⟩

/-- **What is written derives from the grammar.** -/
theorem Writes.derives {ss : List S} {u : List (Piece α)} (h : Writes mk ss u) :
    Derives .config (u.map Piece.symbol) := by
  induction h with
  | nil => exact .empty
  | @simple ws _ _ hne _ ih =>
    have hstmt := Derives.cons (.simple (ws.length - 1)) ih
    rw [List.map_append, symbol_wordsOf hne]
    simpa only [List.append_assoc, List.cons_append, List.nil_append, List.map_cons, Piece.symbol] using hstmt
  | @block ws _ _ _ _ hne _ _ ihb ih =>
    have hstmt := Derives.cons (.block (ws.length - 1) ihb) ih
    rw [List.map_append, symbol_wordsOf hne]
    simpa only [List.append_assoc, List.cons_append, List.nil_append, List.map_cons, List.map_append,
      Piece.symbol] using hstmt

/-! ## Building -/

/-- what has been read: the statements of the innermost open block, the words of the one that is begun, and for each
open block the statements before it and the words it belongs to -/
structure Builder (α S : Type*) where
  done : List S
  words : List α
  outer : List (List S × List α)

namespace Builder

/-- nothing read, after statements that were there before -/
abbrev start (base : List S) : Builder α S := ⟨base, [], []⟩

def step (mk : List α → Option (List S) → S) (b : Builder α S) : Piece α → Option (Builder α S)
  | .word w => some { b with words := b.words ++ [w] }
  | .terminator => if b.words = [] then none else some { b with done := b.done ++ [mk b.words none], words := [] }
  | .opening => if b.words = [] then none else some ⟨[], [], (b.done, b.words) :: b.outer⟩
  | .closing =>
    match b.words, b.outer with
    | [], (before, ws) :: outer => some ⟨before ++ [mk ws (some b.done)], [], outer⟩
    | _, _ => none

def run (mk : List α → Option (List S) → S) (b : Builder α S) : List (Piece α) → Option (Builder α S)
  | [] => some b
  | p :: u => (b.step mk p).bind fun b => run mk b u

theorem run_append (b : Builder α S) (u v : List (Piece α)) :
    run mk b (u ++ v) = (run mk b u).bind fun b => run mk b v := by
  induction u generalizing b with
  | nil => rfl
  | cons p u ih => simp only [List.cons_append, run, ih, Option.bind_assoc]

theorem run_words (b : Builder α S) (ws : List α) :
    run mk b (wordsOf ws) = some { b with words := b.words ++ ws } := by
  induction ws generalizing b with
  | nil => simp [run]
  | cons w ws ih =>
    rw [wordsOf, List.map_cons, run, step, Option.bind_some, ih, List.append_assoc, List.singleton_append]

end Builder

/-! ## What is written is built -/

/-- statements that are written are read into the block that is open -/
theorem Writes.run_eq {ss : List S} {u : List (Piece α)} (h : Writes mk ss u) (done : List S)
    (outer : List (List S × List α)) : Builder.run mk ⟨done, [], outer⟩ u = some ⟨done ++ ss, [], outer⟩ := by
  induction h generalizing done outer with
  | nil => rw [List.append_nil]; rfl
  | @simple ws ss v hne _ ih =>
    rw [Builder.run_append, Builder.run_words, Option.bind_some, Builder.run, Builder.step, List.nil_append, if_neg hne,
      Option.bind_some, ih, List.append_assoc, List.singleton_append]
  | @block ws bs ss u v hne _ _ ihb ih =>
    rw [Builder.run_append, Builder.run_words, Option.bind_some, Builder.run, Builder.step, List.nil_append, if_neg hne,
      Option.bind_some, Builder.run_append, ihb, Option.bind_some, Builder.run, Builder.step, Option.bind_some, ih,
      List.nil_append, List.append_assoc, List.singleton_append]

/-! ## What is built was written -/

/-- the pieces that have been read up to the words of the statement that is begun, block by block from the innermost -/
def Before (mk : List α → Option (List S) → S) (base : List S) :
    List (List S × List α) → List S → List (Piece α) → Prop
  | [], done, u => ∃ ss, done = base ++ ss ∧ Writes mk ss u
  | (before, ws) :: outer, done, u =>
    ∃ u₁ u₂, Before mk base outer before u₁ ∧ ws ≠ [] ∧ Writes mk done u₂ ∧ u = u₁ ++ (wordsOf ws ++ .opening :: u₂)

/-- one more statement of the innermost block -/
theorem Before.snoc {base : List S} {outer : List (List S × List α)} {done ss : List S} {u v : List (Piece α)}
    (h : Before mk base outer done u) (hss : Writes mk ss v) : Before mk base outer (done ++ ss) (u ++ v) := by
  cases outer with
  | nil =>
    obtain ⟨ss', rfl, hss'⟩ := h
    exact ⟨ss' ++ ss, List.append_assoc _ _ _, hss'.append hss⟩
  | cons frame outer =>
    obtain ⟨u₁, u₂, hbefore, hne, hdone, rfl⟩ := h
    refine ⟨u₁, u₂ ++ v, hbefore, hne, hdone.append hss, ?_⟩
    simp only [List.append_assoc, List.cons_append]

/-- what a builder has read -/
def Builder.Read (mk : List α → Option (List S) → S) (base : List S) (b : Builder α S) (u : List (Piece α)) : Prop :=
  ∃ v, Before mk base b.outer b.done v ∧ u = v ++ wordsOf b.words

theorem Builder.read_start (base : List S) : (Builder.start base).Read mk base ([] : List (Piece α)) :=
  ⟨[], ⟨[], (List.append_nil base).symm, .nil⟩, rfl⟩

/-- **Step lemma.** A piece that is read comes after what has been read. -/
theorem Builder.read_step {base : List S} {b b' : Builder α S} {u : List (Piece α)} (h : b.Read mk base u)
    {p : Piece α} (hstep : b.step mk p = some b') : b'.Read mk base (u ++ [p]) := by
  obtain ⟨done, words, outer⟩ := b
  obtain ⟨v, hbefore, rfl⟩ := h
  cases p with
  | word w =>
    obtain rfl := Option.some.inj hstep
    exact ⟨v, hbefore, by simp [wordsOf]⟩
  | terminator =>
    simp only [step] at hstep
    split_ifs at hstep with hne
    obtain rfl := Option.some.inj hstep
    refine ⟨_, hbefore.snoc (.one hne), ?_⟩
    simp only [List.append_assoc, List.map_nil, List.append_nil]
  | opening =>
    simp only [step] at hstep
    split_ifs at hstep with hne
    obtain rfl := Option.some.inj hstep
    refine ⟨_, ⟨v, [], hbefore, hne, .nil, rfl⟩, ?_⟩
    simp only [List.append_assoc, List.map_nil, List.append_nil]
  | closing =>
    cases words with
    | cons w ws => cases hstep
    | nil =>
      cases outer with
      | nil => cases hstep
      | cons frame outer =>
        obtain rfl := Option.some.inj hstep
        obtain ⟨u₁, u₂, houter, hne, hdone, rfl⟩ := hbefore
        refine ⟨_, houter.snoc (.oneBlock hne hdone), ?_⟩
        simp only [List.append_assoc, List.map_nil, List.append_nil, List.cons_append]

/-- **Run lemma.** -/
theorem Builder.read_run {base : List S} {b b' : Builder α S} {u v : List (Piece α)} (h : b.Read mk base u)
    (hrun : b.run mk v = some b') : b'.Read mk base (u ++ v) := by
  induction v generalizing b u with
  | nil =>
    obtain rfl := Option.some.inj hrun
    rwa [List.append_nil]
  | cons p v ih =>
    rw [run] at hrun
    obtain ⟨b₁, hstep, hrest⟩ := Option.bind_eq_some_iff.1 hrun
    rw [List.append_cons]
    exact ih (read_step h hstep) hrest

/-- a builder that ends with nothing begun and nothing open -/
theorem exists_of_build {base done : List S} {u : List (Piece α)}
    (h : Builder.run mk (.start base) u = some (.start done)) : ∃ ss, done = base ++ ss ∧ Writes mk ss u := by
  obtain ⟨v, ⟨ss, hss, hwrites⟩, hu⟩ := Builder.read_run (Builder.read_start base) h
  obtain rfl : u = v := hu.trans (List.append_nil v)
  exact ⟨ss, hss, hwrites⟩

/-- **The builder ends with the statements that were written**, after those it started with, and with no others. -/
theorem build_iff {base ss : List S} {u : List (Piece α)} :
    Builder.run mk (.start base) u = some (.start (base ++ ss)) ↔ Writes mk ss u := by
  constructor
  · intro hrun
    obtain ⟨ss', hss', hwrites⟩ := exists_of_build hrun
    rw [List.append_cancel_left hss']
    exact hwrites
  · intro hwrites
    exact hwrites.run_eq base []

/-- **No two lists of statements are written alike.** -/
theorem Writes.unique {ss ss' : List S} {u : List (Piece α)} (h : Writes mk ss u) (h' : Writes mk ss' u) :
    ss = ss' := by
  have hsame : @Builder.start α S ([] ++ ss) = .start ([] ++ ss') :=
    Option.some.inj ((build_iff.2 h).symm.trans (build_iff.2 h'))
  exact (Builder.mk.inj hsame).1

end BlogServer.BlockTree
