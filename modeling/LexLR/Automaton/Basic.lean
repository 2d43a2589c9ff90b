import LexLR.Spec.Basic
/-!
# Lexical automata

A compiled automaton classifies each word of a source as a token kind: a reserved word, an
identifier or an error. This module defines the kinds, the automaton, its lookups by halving and
its runs.
-/

/-! ## Token kinds

A word of the source is a reserved word (carrying its text), an identifier, or an error when the
automaton accepts no prefix of it that ends in an accepting row.
-/

namespace LexLR

/-- What a word of the source is. -/
inductive TokenKind where
  | keyword (word : String)
  | identifier
  | error
  deriving DecidableEq, Repr, Inhabited

/-- The printed form: the reserved word itself, `identifier` or `error`. -/
def TokenKind.render : TokenKind → String
  | .keyword w => w
  | .identifier => "identifier"
  | .error => "error"

/-! ## The automaton

A compiled lexical automaton is a transition table with one row per live state of a specification
and one last row for errors, and one column per alphabet symbol. Each row records the token kind
it accepts, if any, and each live row the specification state it stands for. A symbol outside the
alphabet, or any symbol read in the error row, leads to the error row.

Columns and rows are found by halving: the alphabet and the state ids are ascending.
-/

/-- The index of `x` in the range `[lo, hi)` of an ascending array, found by halving. -/
def searchIn {α : Type} [Ord α] (a : Array α) (x : α) (lo hi : Nat) : Option Nat :=
  if _h : lo < hi then
    let mid := (lo + hi) / 2
    match a[mid]? with
    | none => none
    | some y =>
      match compare y x with
      | .lt => searchIn a x (mid + 1) hi
      | .gt => searchIn a x lo mid
      | .eq => some mid
  else none
termination_by hi - lo

/-- The index of `x` in an ascending array. -/
def search? {α : Type} [Ord α] (a : Array α) (x : α) : Option Nat :=
  searchIn a x 0 a.size

/-- An index found by halving is an index of the array. -/
theorem searchIn_lt_size {α : Type} [Ord α] {a : Array α} {x : α} {lo hi i : Nat}
    (h : searchIn a x lo hi = some i) : i < a.size := by
  induction lo, hi using searchIn.induct a x with
  | case1 lo hi hlt mid hmid =>
    have e : a[(lo + hi) / 2]? = none := hmid
    rw [searchIn, dif_pos hlt] at h
    simp only [e] at h
    exact absurd h (by simp)
  | case2 lo hi hlt mid y hmid hcmp ih =>
    have e : a[(lo + hi) / 2]? = some y := hmid
    rw [searchIn, dif_pos hlt] at h
    simp only [e, hcmp] at h
    exact ih h
  | case3 lo hi hlt mid y hmid hcmp ih =>
    have e : a[(lo + hi) / 2]? = some y := hmid
    rw [searchIn, dif_pos hlt] at h
    simp only [e, hcmp] at h
    exact ih h
  | case4 lo hi hlt mid y hmid hcmp =>
    have e : a[(lo + hi) / 2]? = some y := hmid
    rw [searchIn, dif_pos hlt] at h
    simp only [e, hcmp, Option.some.injEq] at h
    rw [← h]
    exact (Array.getElem?_eq_some_iff.1 e).1
  | case5 lo hi hlt =>
    rw [searchIn, dif_neg hlt] at h
    exact absurd h (by simp)

/-- An index found in the whole array is an index of the array. -/
theorem search?_lt_size {α : Type} [Ord α] {a : Array α} {x : α} {i : Nat}
    (h : search? a x = some i) : i < a.size :=
  searchIn_lt_size h

/-- A transition table over rows: the live states, then the error row. -/
structure Automaton where
  /-- The next row for each row and column, row by row. -/
  table : Array Nat
  /-- The token kind accepted in each row; the error row's is `error`. -/
  kinds : Array (Option TokenKind)
  /-- The specification state of each live row, ascending. -/
  stateIds : Array Nat
  /-- The columns' symbols, ascending. -/
  alphabet : Array Char
  /-- The number of rows, the error row included. -/
  rows : Nat
  /-- The row reading starts in. -/
  initial : Nat
  deriving DecidableEq, Repr

namespace Automaton

/-- The last row. -/
def errorRow (a : Automaton) : Nat :=
  a.rows - 1

/-- The error row, or anything past it. -/
def isError (a : Automaton) (r : Nat) : Bool :=
  a.errorRow ≤ r

/-- The table entry of a row and column, as stored. -/
def cell (a : Automaton) (r col : Nat) : Nat :=
  a.table.getD (r * a.alphabet.size + col) a.errorRow

/-- The table index consulted for a symbol in a row: none in the error row or for a symbol
outside the alphabet. -/
def slot? (a : Automaton) (r : Nat) (c : Char) : Option Nat :=
  if a.isError r then none else (search? a.alphabet c).map (r * a.alphabet.size + ·)

/-- The row after reading a symbol; the error row absorbs, and a symbol outside the alphabet
leads to it. -/
def next (a : Automaton) (r : Nat) (c : Char) : Nat :=
  match a.slot? r c with
  | some i => a.table.getD i a.errorRow
  | none => a.errorRow

/-- The token kind a row accepts, if any. -/
def kind? (a : Automaton) (r : Nat) : Option TokenKind :=
  (a.kinds[r]?).getD none

/-- The number of live rows. -/
def liveCount (a : Automaton) : Nat :=
  a.stateIds.size

/-- The specification state of a live row: a stored id is read as a 32-bit state id. -/
def stateId? (a : Automaton) (r : Nat) : Option Nat :=
  (a.stateIds[r]?).map StateId.ofIndex

/-- The row of a specification state, if it is live. -/
def rowOf? (a : Automaton) (q : Nat) : Option Nat :=
  search? a.stateIds q

/-- The row reached by reading a word symbol by symbol. -/
def run (a : Automaton) (w : List Char) : Nat :=
  w.foldl a.next a.initial

/-- Reads a word but skips every symbol that would lead to the error row, so that the word is
judged by the symbols the automaton can follow. -/
def walk (a : Automaton) (w : List Char) : Nat :=
  w.foldl (fun r c => let n := a.next r c; if a.isError n then r else n) a.initial

/-- The kind of a word: the kind of the row its walk ends in, or an error when that row accepts
nothing. -/
def classify (a : Automaton) (w : List Char) : TokenKind :=
  (a.kind? (a.walk w)).getD .error

/-- Nothing is read in the error row. -/
theorem slot?_of_isError {a : Automaton} {r : Nat} (h : a.isError r = true) (c : Char) :
    a.slot? r c = none := by
  simp [slot?, h]

/-- The error row reads nothing and stays where it is. -/
theorem next_of_isError {a : Automaton} {r : Nat} (h : a.isError r = true) (c : Char) :
    a.next r c = a.errorRow := by
  simp [next, slot?_of_isError h]

/-- The error row is an error. -/
theorem isError_errorRow (a : Automaton) : a.isError a.errorRow = true := by
  simp [isError]

/-- Reading on from the error row never leaves it. -/
theorem foldl_next_errorRow (a : Automaton) (w : List Char) :
    w.foldl a.next a.errorRow = a.errorRow := by
  induction w with
  | nil => rfl
  | cons c w ih => rw [List.foldl_cons, next_of_isError (isError_errorRow a), ih]

/-- Reading a word in two parts. -/
theorem run_append (a : Automaton) (w w' : List Char) :
    a.run (w ++ w') = w'.foldl a.next (a.run w) := by
  simp [run, List.foldl_append]

/-- One step of a walk. -/
def walkStep (a : Automaton) (r : Nat) (c : Char) : Nat :=
  let n := a.next r c
  if a.isError n then r else n

/-- A walk is a fold of its step. -/
theorem walk_eq_foldl (a : Automaton) (w : List Char) : a.walk w = w.foldl a.walkStep a.initial :=
  rfl

/-- A walk that starts outside the error row stays outside it. -/
theorem foldl_walkStep_not_isError (a : Automaton) (w : List Char) {r : Nat}
    (h : a.isError r = false) : a.isError (w.foldl a.walkStep r) = false := by
  induction w generalizing r with
  | nil => exact h
  | cons c w ih =>
    rw [List.foldl_cons]
    apply ih
    by_cases hn : a.isError (a.next r c) = true
    · simp only [walkStep, hn, if_true]
      exact h
    · simp only [walkStep, hn]
      simpa using hn

end Automaton

end LexLR
