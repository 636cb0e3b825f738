/-
Statements in nested blocks: the grammar, and the counter that recognises it.

A configuration is a sequence of statements; a statement is one word or more, and then a terminator or a block, which is
a configuration between brackets. `Derives` is that grammar. `run` reads symbols one at a time and knows two things:
whether the last symbol was a word, and how many blocks are open. It comes back to where it started exactly on what the
grammar derives (`derives_config_iff`).

- `run_eq_start_iff`: from any depth, what closes the open blocks is a configuration for each of them.
-/
import Mathlib.Tactic

namespace BlogServer.BlockGrammar

/-! ## Grammar -/

inductive Symbol where
  | word
  | terminator
  | opening
  | closing
deriving DecidableEq, Repr

inductive Nonterminal where
  | config
  | stmt

/-- `n + 1` words -/
def words (n : ℕ) : List Symbol := List.replicate (n + 1) .word

/-- `config ::= empty | stmt config`, `stmt ::= word+ terminator | word+ opening config closing` -/
inductive Derives : Nonterminal → List Symbol → Prop where
  | empty : Derives .config []
  | cons {s u} (hs : Derives .stmt s) (hu : Derives .config u) : Derives .config (s ++ u)
  | simple (n : ℕ) : Derives .stmt (words n ++ [.terminator])
  | block (n : ℕ) {u} (hu : Derives .config u) : Derives .stmt (words n ++ .opening :: (u ++ [.closing]))

/-! ## Counter -/

/-- whether the last symbol was a word, and the number of open blocks -/
structure State where
  afterWord : Bool
  depth : ℕ
deriving DecidableEq, Repr

/-- nothing read, or everything closed -/
abbrev start : State := ⟨false, 0⟩

def step (s : State) : Symbol → Option State
  | .word => some ⟨true, s.depth⟩
  | .terminator => if s.afterWord then some ⟨false, s.depth⟩ else none
  | .opening => if s.afterWord then some ⟨false, s.depth + 1⟩ else none
  | .closing => if s.afterWord = false ∧ s.depth ≠ 0 then some ⟨false, s.depth - 1⟩ else none

def run (s : State) : List Symbol → Option State
  | [] => some s
  | c :: w => (step s c).bind fun s => run s w

theorem run_append (s : State) (v w : List Symbol) : run s (v ++ w) = (run s v).bind fun s => run s w := by
  induction v generalizing s with
  | nil => rfl
  | cons c v ih =>
    simp only [List.cons_append, run, ih, Option.bind_assoc]

/-! ## What is derived is recognised -/

theorem run_words (s : State) (n : ℕ) : run s (words n) = some ⟨true, s.depth⟩ := by
  induction n generalizing s with
  | zero => rfl
  | succ n ih =>
    rw [words, List.replicate_succ, run]
    exact ih ⟨true, s.depth⟩

/-- a derivation is read at any depth, and leaves it as it was -/
theorem Derives.run_eq {k : Nonterminal} {w : List Symbol} (h : Derives k w) (depth : ℕ) :
    run ⟨false, depth⟩ w = some ⟨false, depth⟩ := by
  induction h generalizing depth with
  | empty => rfl
  | cons _ _ ihs ihu => rw [run_append, ihs, Option.bind_some, ihu]
  | simple n => rw [run_append, run_words]; rfl
  | block n _ ih =>
    rw [run_append, run_words, Option.bind_some, run, step, if_pos rfl, Option.bind_some, run_append, ih]
    rfl

/-! ## What is recognised is derived -/

/-- a configuration for each open block and the rest, closings between them -/
def Completes : ℕ → List Symbol → Prop
  | 0, w => Derives .config w
  | depth + 1, w => ∃ u v, Derives .config u ∧ Completes depth v ∧ w = u ++ .closing :: v

/-- a statement goes before what completes -/
theorem Completes.cons {s : List Symbol} (hs : Derives .stmt s) {depth : ℕ} {w : List Symbol} (h : Completes depth w) :
    Completes depth (s ++ w) := by
  cases depth with
  | zero => exact Derives.cons hs h
  | succ depth =>
    obtain ⟨u, v, hu, hv, rfl⟩ := h
    exact ⟨s ++ u, v, Derives.cons hs hu, hv, by rw [List.append_assoc]⟩

/-- the block that is opened, and what follows it -/
theorem Completes.block (n : ℕ) {depth : ℕ} {w : List Symbol} (h : Completes (depth + 1) w) :
    Completes depth (words n ++ .opening :: w) := by
  obtain ⟨u, v, hu, hv, rfl⟩ := h
  have hstmt := hv.cons (.block n hu)
  simpa only [List.append_assoc, List.cons_append, List.nil_append] using hstmt

theorem Completes.simple (n : ℕ) {depth : ℕ} {w : List Symbol} (h : Completes depth w) :
    Completes depth (words n ++ .terminator :: w) := by
  have hstmt := h.cons (.simple n)
  simpa only [List.append_assoc, List.cons_append, List.nil_append] using hstmt

/-- after a word: the other words of its statement, how it ends, and what completes after that -/
def CompletesWord (depth : ℕ) (w : List Symbol) : Prop :=
  ∃ n v, (w = List.replicate n .word ++ .terminator :: v ∧ Completes depth v) ∨
    w = List.replicate n .word ++ .opening :: v ∧ Completes (depth + 1) v

theorem CompletesWord.word {depth : ℕ} {w : List Symbol} (h : CompletesWord depth w) :
    CompletesWord depth (.word :: w) := by
  obtain ⟨n, v, ⟨rfl, hv⟩ | ⟨rfl, hv⟩⟩ := h
  · exact ⟨n + 1, v, Or.inl ⟨rfl, hv⟩⟩
  · exact ⟨n + 1, v, Or.inr ⟨rfl, hv⟩⟩

/-- the word was the first of a statement -/
theorem CompletesWord.completes {depth : ℕ} {w : List Symbol} (h : CompletesWord depth w) :
    Completes depth (.word :: w) := by
  obtain ⟨n, v, ⟨rfl, hv⟩ | ⟨rfl, hv⟩⟩ := h
  · exact hv.simple n
  · exact hv.block n

/-- what a run that closes everything has read -/
theorem completes_of_run (w : List Symbol) :
    (∀ depth, run ⟨false, depth⟩ w = some start → Completes depth w) ∧
      ∀ depth, run ⟨true, depth⟩ w = some start → CompletesWord depth w := by
  induction w with
  | nil =>
    constructor
    · intro depth h
      obtain rfl : depth = 0 := (State.mk.inj (Option.some.inj h)).2
      exact Derives.empty
    · intro depth h
      exact absurd (State.mk.inj (Option.some.inj h)).1 (by decide)
  | cons c w ih =>
    obtain ⟨ihfalse, ihtrue⟩ := ih
    cases c with
    | word =>
      constructor
      · intro depth h
        exact (ihtrue depth h).completes
      · intro depth h
        exact (ihtrue depth h).word
    | terminator =>
      constructor
      · intro depth h
        cases h
      · intro depth h
        exact ⟨0, w, Or.inl ⟨rfl, ihfalse depth h⟩⟩
    | opening =>
      constructor
      · intro depth h
        cases h
      · intro depth h
        exact ⟨0, w, Or.inr ⟨rfl, ihfalse (depth + 1) h⟩⟩
    | closing =>
      constructor
      · intro depth h
        cases depth with
        | zero => cases h
        | succ depth => exact ⟨[], w, Derives.empty, ihfalse depth h, rfl⟩
      · intro depth h
        cases h

/-- and the other way round -/
theorem run_of_completes {depth : ℕ} {w : List Symbol} (h : Completes depth w) :
    run ⟨false, depth⟩ w = some start := by
  induction depth generalizing w with
  | zero => exact Derives.run_eq h 0
  | succ depth ih =>
    obtain ⟨u, v, hu, hv, rfl⟩ := h
    rw [run_append, hu.run_eq, Option.bind_some, run, step, if_pos ⟨rfl, Nat.succ_ne_zero depth⟩, Option.bind_some,
      Nat.add_sub_cancel]
    exact ih hv

/-- **What closes the open blocks** is a configuration for each of them, and one after them. -/
theorem run_eq_start_iff (depth : ℕ) (w : List Symbol) : run ⟨false, depth⟩ w = some start ↔ Completes depth w :=
  ⟨(completes_of_run w).1 depth, run_of_completes⟩

/-- **The counter recognises the grammar.** -/
theorem derives_config_iff (w : List Symbol) : Derives .config w ↔ run start w = some start :=
  (run_eq_start_iff 0 w).symm

end BlogServer.BlockGrammar
