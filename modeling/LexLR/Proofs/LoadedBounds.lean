import LexLR.Automaton.Json
/-!
# Loaded automata stay in bounds

Main statement: an automaton loaded from any bytes has a live row, starts below the error row,
reads its table only at existing indices (for any row and any character), moves only to existing
rows, walks never end in the error row, and a run that reaches the error row stays there. This
rests on the order of the shape checks: the row count is checked against the state ids and kinds
before the error row is computed from it, and the table size before its entries.
-/

namespace LexLR.Automaton

/-- In a well-shaped automaton a row up to the error row and a column of the alphabet address
an entry of the table. -/
theorem WellShaped.index_lt {a : Automaton} (h : a.WellShaped) {r col : Nat} (hr : r ≤ a.errorRow)
    (hc : col < a.alphabet.size) : r * a.alphabet.size + col < a.table.size := by
  have hrows : r + 1 ≤ a.rows := by
    have := h.rows_eq
    simp only [errorRow] at hr
    omega
  rw [h.table_size]
  calc r * a.alphabet.size + col < r * a.alphabet.size + a.alphabet.size := by omega
    _ = (r + 1) * a.alphabet.size := (Nat.succ_mul r a.alphabet.size).symm
    _ ≤ a.rows * a.alphabet.size := Nat.mul_le_mul_right _ hrows

/-- In a well-shaped automaton the slot a symbol is read from exists. -/
theorem WellShaped.slot_lt {a : Automaton} (h : a.WellShaped) {r : Nat} {c : Char} {i : Nat}
    (hs : a.slot? r c = some i) : i < a.table.size := by
  unfold slot? at hs
  split at hs
  · exact absurd hs (by simp)
  · rename_i hr
    obtain ⟨col, hcol, rfl⟩ := Option.map_eq_some_iff.1 hs
    have hr' : r ≤ a.errorRow := by
      simp only [isError, decide_eq_true_eq, Nat.not_le] at hr
      omega
    exact h.index_lt hr' (search?_lt_size hcol)

/-- In a well-shaped automaton every step lands on a row. -/
theorem WellShaped.next_le {a : Automaton} (h : a.WellShaped) (r : Nat) (c : Char) :
    a.next r c ≤ a.errorRow := by
  unfold next
  split
  · rename_i i hs
    have hi := h.slot_lt hs
    rw [Array.getD_eq_getD_getElem?, Array.getElem?_eq_getElem hi, Option.getD_some]
    have := h.entries_lt _ (Array.getElem_mem hi)
    simp only [errorRow]
    omega
  · exact Nat.le_refl _

/-- A well-shaped automaton's walks never end in the error row. -/
theorem WellShaped.walk_not_isError {a : Automaton} (h : a.WellShaped) (w : List Char) :
    a.isError (a.walk w) = false := by
  rw [walk_eq_foldl]
  apply foldl_walkStep_not_isError
  have := h.initial_lt
  simp only [isError, decide_eq_false_iff_not, Nat.not_le]
  exact this

/-- Bytes accepted by loading give an automaton that never reads or moves out of bounds. -/
theorem load_inBounds (bytes : List UInt8) (a : Automaton) (h : load bytes = .ok a) :
    0 < a.liveCount ∧ a.initial < a.errorRow ∧
    (∀ r col, r ≤ a.errorRow → col < a.alphabet.size →
      r * a.alphabet.size + col < a.table.size) ∧
    (∀ r c i, a.slot? r c = some i → i < a.table.size) ∧
    (∀ r c, a.next r c ≤ a.errorRow) ∧
    (∀ w, a.isError (a.walk w) = false ∧ a.walk w < a.kinds.size) ∧
    (∀ w w', a.run w = a.errorRow → a.run (w ++ w') = a.errorRow) := by
  have hs := wellShaped_of_load h
  have hinit := hs.initial_lt
  have hrows := hs.rows_eq
  refine ⟨?_, hinit, fun r col hr hc => hs.index_lt hr hc, fun r c i hi => hs.slot_lt hi,
    hs.next_le, fun w => ⟨hs.walk_not_isError w, ?_⟩, fun w w' hw => ?_⟩
  · simp only [errorRow, liveCount] at hinit ⊢
    omega
  · have hw := hs.walk_not_isError w
    simp only [isError, decide_eq_false_iff_not, Nat.not_le] at hw
    rw [hs.kinds_size]
    simp only [errorRow] at hw
    omega
  · rw [run_append, hw, foldl_next_errorRow]

/-- A loading that succeeds, read back as an equation. -/
theorem load_eq_ok_of_toOption {bytes : List UInt8} {a : Automaton}
    (h : (load bytes).toOption = some a) : load bytes = .ok a := by
  cases e : load bytes with
  | error _ => rw [e] at h; exact absurd h (by simp [Except.toOption])
  | ok b => rw [e] at h; simp only [Except.toOption, Option.some.injEq] at h; rw [h]

/-- A stored automaton with two live rows over the alphabet `a`, in the array form. -/
def sampleText : String :=
  "[[1,1,2],[null,\"Identifier\",\"Error\"],[0,1],[\"a\"],3,0]"

/-- The automaton `sampleText` stores. -/
def sample : Automaton :=
  { table := #[1, 1, 2], kinds := #[none, some .identifier, some .error], stateIds := #[0, 1],
    alphabet := #['a'], rows := 3, initial := 0 }

/-- The stored sample loads, and stays in bounds. -/
theorem sample_inBounds :
    load (Utf8.encode sampleText) = .ok sample ∧
    (0 < sample.liveCount ∧ sample.initial < sample.errorRow ∧
    (∀ r col, r ≤ sample.errorRow → col < sample.alphabet.size →
      r * sample.alphabet.size + col < sample.table.size) ∧
    (∀ r c i, sample.slot? r c = some i → i < sample.table.size) ∧
    (∀ r c, sample.next r c ≤ sample.errorRow) ∧
    (∀ w, sample.isError (sample.walk w) = false ∧ sample.walk w < sample.kinds.size) ∧
    (∀ w w', sample.run w = sample.errorRow → sample.run (w ++ w') = sample.errorRow)) :=
  have h : load (Utf8.encode sampleText) = .ok sample :=
    load_eq_ok_of_toOption (by decide +kernel)
  ⟨h, load_inBounds _ _ h⟩

end LexLR.Automaton
