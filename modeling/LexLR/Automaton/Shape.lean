import LexLR.Automaton.Basic
import LexLR.Spec.Basic
/-!
# Well-shaped automata

A stored automaton is used only after its shape is checked, in this order: the row count is one
more than the number of state ids and equals the number of kinds; the table has one entry per row
and symbol; every entry is a row; the initial row is live; the alphabet and the state ids are
strictly ascending; the last row is labelled as the error row. The first failing check is
reported.
-/

namespace LexLR.Automaton

/-- Strictly ascending. -/
def strictlyAscending {α : Type} [Ord α] : List α → Bool
  | a :: b :: rest => compare a b == .lt && strictlyAscending (b :: rest)
  | _ => true

/-- The first shape check that fails, if any. -/
def shapeFault? (a : Automaton) : Option String :=
  if a.rows ≠ a.stateIds.size + 1 || a.kinds.size ≠ a.rows then some "state count mismatch"
  else if a.table.size ≠ a.rows * a.alphabet.size then some "transition table has the wrong size"
  else if a.table.any (a.rows ≤ ·) then some "transition to a state that does not exist"
  else if a.errorRow ≤ a.initial then some "initial state out of range"
  else if !strictlyAscending a.alphabet.toList then some "alphabet is not sorted"
  else if !strictlyAscending a.stateIds.toList then some "state ids are not ascending"
  else if a.kinds[a.errorRow]? != some (some .error) then some "error state is not labelled"
  else none

/-- The shape every usable automaton has: what the checks test, as propositions. -/
structure WellShaped (a : Automaton) : Prop where
  rows_eq : a.rows = a.stateIds.size + 1
  kinds_size : a.kinds.size = a.rows
  table_size : a.table.size = a.rows * a.alphabet.size
  entries_lt : ∀ x ∈ a.table, x < a.rows
  initial_lt : a.initial < a.errorRow
  alphabet_ascending : strictlyAscending a.alphabet.toList = true
  ids_ascending : strictlyAscending a.stateIds.toList = true
  error_kind : a.kinds[a.errorRow]? = some (some .error)

/-- An automaton that passes every check has the shape the checks test. -/
theorem wellShaped_of_shapeFault? {a : Automaton} (h : a.shapeFault? = none) : a.WellShaped := by
  unfold shapeFault? at h
  by_cases h1 : (a.rows ≠ a.stateIds.size + 1 || a.kinds.size ≠ a.rows) = true
  · rw [if_pos h1] at h; exact absurd h (by simp)
  rw [if_neg h1] at h
  by_cases h2 : a.table.size ≠ a.rows * a.alphabet.size
  · rw [if_pos h2] at h; exact absurd h (by simp)
  rw [if_neg h2] at h
  by_cases h3 : a.table.any (a.rows ≤ ·) = true
  · rw [if_pos h3] at h; exact absurd h (by simp)
  rw [if_neg h3] at h
  by_cases h4 : a.errorRow ≤ a.initial
  · rw [if_pos h4] at h; exact absurd h (by simp)
  rw [if_neg h4] at h
  by_cases h5 : (!strictlyAscending a.alphabet.toList) = true
  · rw [if_pos h5] at h; exact absurd h (by simp)
  rw [if_neg h5] at h
  by_cases h6 : (!strictlyAscending a.stateIds.toList) = true
  · rw [if_pos h6] at h; exact absurd h (by simp)
  rw [if_neg h6] at h
  by_cases h7 : (a.kinds[a.errorRow]? != some (some .error)) = true
  · rw [if_pos h7] at h; exact absurd h (by simp)
  simp only [Bool.or_eq_true, ne_eq, not_or, Decidable.not_not,
    decide_eq_true_eq] at h1
  simp only [Array.any_eq_true, decide_eq_true_eq, not_exists, Nat.not_le] at h3
  simp only [Bool.not_eq_true'] at h5 h6
  simp only [bne_iff_ne, ne_eq, Decidable.not_not] at h7
  refine ⟨h1.1, h1.2, Decidable.not_not.1 h2, ?_, Nat.lt_of_not_le h4, ?_, ?_, h7⟩
  · intro x hx
    obtain ⟨i, hi, rfl⟩ := Array.getElem_of_mem hx
    exact h3 i hi
  · simpa using h5
  · simpa using h6

/-- The automaton if its shape is right. -/
def checkShape (a : Automaton) : Except SpecError Automaton :=
  match a.shapeFault? with
  | some reason => .error (.invariant ("corrupt automaton: " ++ reason))
  | none => .ok a

/-- A shape check that passes returns the automaton unchanged, and it is well shaped. -/
theorem wellShaped_of_checkShape {a b : Automaton} (h : a.checkShape = .ok b) :
    b = a ∧ a.WellShaped := by
  unfold checkShape at h
  split at h
  · exact absurd h (by simp)
  · rename_i hf
    simp only [Except.ok.injEq] at h
    exact ⟨h.symm, wellShaped_of_shapeFault? hf⟩

end LexLR.Automaton
