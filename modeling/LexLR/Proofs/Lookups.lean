import LexLR.Proofs.LoadedBounds
import LexLR.Proofs.StoredAutomaton
/-!
# Lookups by halving in well-shaped automata

A row reads a symbol in the column the symbol has in the alphabet, and a specification state is
found among the live rows by its id. Both are found by halving, which answers right only on a
strictly ascending array. The shape checks make the alphabet and the state ids strictly
ascending, so on every automaton that passes them, compiled or loaded, halving finds what a scan
from the left finds: the one index that holds the symbol or the id, and nothing when no index
does.

A live row is found again from its own state when its stored id is a state id, below `2 ^ 32`.
A loaded automaton may store a larger id: the row reads it back wrapped, and halving for the
wrapped id misses the row. Main statement: `WellShaped.lookups_find_indices`.
-/

namespace LexLR

section Halving

variable {α : Type} [LinearOrder α] {xs : Array α}

/-- A strictly ascending array holds each value at one index only. -/
theorem index_unique_of_pairwise (hs : xs.toList.Pairwise (· < ·)) {i j : Nat} {x : α}
    (hi : xs[i]? = some x) (hj : xs[j]? = some x) : i = j := by
  by_contra hne
  rcases Nat.lt_or_gt_of_ne hne with h | h
  · exact lt_irrefl x (lt_of_getElem?_of_lt hs hi hj h)
  · exact lt_irrefl x (lt_of_getElem?_of_lt hs hj hi h)

/-- Halving over a strictly ascending array finds nothing exactly when the value is absent. -/
theorem search?_eq_none_iff (hs : xs.toList.Pairwise (· < ·)) {x : α} :
    search? xs x = none ↔ x ∉ xs := by
  cases hx : search? xs x with
  | none =>
    simp only [true_iff]
    intro hmem
    obtain ⟨i, hi, rfl⟩ := Array.mem_iff_getElem.1 hmem
    have := (search?_eq_some_iff hs).2 (Array.getElem?_eq_getElem hi)
    rw [hx] at this
    exact absurd this (by simp)
  | some i =>
    simp only [reduceCtorEq, false_iff, not_not]
    exact Array.mem_of_getElem? ((search?_eq_some_iff hs).1 hx)

/-- Over a strictly ascending array, halving answers as the scan from the left does. -/
theorem search?_eq_idxOf? (hs : xs.toList.Pairwise (· < ·)) (x : α) :
    search? xs x = xs.toList.idxOf? x := by
  apply Option.ext
  intro i
  rw [search?_eq_some_iff hs, List.idxOf?_eq_some_iff]
  constructor
  · intro h
    obtain ⟨hi, hx⟩ := Array.getElem?_eq_some_iff.1 h
    refine ⟨by simpa using hi, by simpa using hx, fun j hj hjx => ?_⟩
    -- an earlier index holding the value would hold a smaller one
    have hj' : j < xs.size := by omega
    have hjx' : xs[j]? = some x := Array.getElem?_eq_some_iff.2 ⟨hj', by simpa using hjx⟩
    exact lt_irrefl x (lt_of_getElem?_of_lt hs hjx' h hj)
  · rintro ⟨hi, hx, -⟩
    exact Array.getElem?_eq_some_iff.2 ⟨by simpa using hi, by simpa using hx⟩

end Halving

namespace Automaton

variable {a : Automaton}

theorem WellShaped.alphabet_pairwise (h : a.WellShaped) :
    a.alphabet.toList.Pairwise (· < ·) :=
  strictlyAscending_iff.1 h.alphabet_ascending

theorem WellShaped.ids_pairwise (h : a.WellShaped) : a.stateIds.toList.Pairwise (· < ·) :=
  strictlyAscending_iff.1 h.ids_ascending

/-- In a live row a symbol of the alphabet is read from the table entry of its column. -/
theorem WellShaped.getElem?_table (h : a.WellShaped) {r i : Nat} {c : Char}
    (hr : r < a.errorRow) (hc : a.alphabet[i]? = some c) :
    a.table[r * a.alphabet.size + i]? = some (a.next r c) := by
  have hlive : a.isError r = false := by simpa [isError] using hr
  have hslot : a.slot? r c = some (r * a.alphabet.size + i) := by
    rw [slot?, hlive, (search?_eq_some_iff h.alphabet_pairwise).2 hc]
    rfl
  have hlt := h.slot_lt hslot
  simp only [next, hslot, Array.getD_eq_getD_getElem?, Array.getElem?_eq_getElem hlt,
    Option.getD_some]

/-- A symbol outside the alphabet leads to the error row, from any row. -/
theorem WellShaped.next_of_not_mem (h : a.WellShaped) {c : Char} (hc : c ∉ a.alphabet)
    (r : Nat) : a.next r c = a.errorRow := by
  have hnone : search? a.alphabet c = none := (search?_eq_none_iff h.alphabet_pairwise).2 hc
  unfold next slot?
  cases a.isError r <;> simp [hnone]

theorem WellShaped.rowOf?_eq_some_iff (h : a.WellShaped) {q r : Nat} :
    a.rowOf? q = some r ↔ a.stateIds[r]? = some q :=
  search?_eq_some_iff h.ids_pairwise

theorem WellShaped.rowOf?_eq_none_iff (h : a.WellShaped) {q : Nat} :
    a.rowOf? q = none ↔ q ∉ a.stateIds :=
  search?_eq_none_iff h.ids_pairwise

/-- A live row whose stored id is a state id is found again from its state. -/
theorem WellShaped.rowOf?_stateId? (h : a.WellShaped) {r q : Nat} (hr : a.stateIds[r]? = some q)
    (hq : q < 2 ^ 32) : (a.stateId? r).bind a.rowOf? = some r := by
  rw [stateId?, hr, Option.map_some, Option.bind_some, StateId.ofIndex,
    Nat.mod_eq_of_lt (by simpa using hq)]
  exact h.rowOf?_eq_some_iff.2 hr

/-- On an automaton that passes the shape checks, halving finds the column of a symbol and the
row of a state as a scan from the left does; a live row reads a symbol of the alphabet from the
table entry of its one column, and any row leads to the error row on any other symbol; a state
has the row that holds its id, and none when no row does; and a live row is found again from the
state it reads back, when its stored id is below `2 ^ 32`. -/
theorem WellShaped.lookups_find_indices (h : a.WellShaped) :
    (∀ c, search? a.alphabet c = a.alphabet.toList.idxOf? c) ∧
    (∀ q, a.rowOf? q = a.stateIds.toList.idxOf? q) ∧
    (∀ r < a.errorRow, ∀ i c, a.alphabet[i]? = some c →
      a.table[r * a.alphabet.size + i]? = some (a.next r c)) ∧
    (∀ (i j : Nat) (c : Char), a.alphabet[i]? = some c → a.alphabet[j]? = some c → i = j) ∧
    (∀ r c, c ∉ a.alphabet → a.next r c = a.errorRow) ∧
    (∀ q r, a.rowOf? q = some r ↔ a.stateIds[r]? = some q) ∧
    (∀ q, a.rowOf? q = none ↔ q ∉ a.stateIds) ∧
    (∀ r q, a.stateIds[r]? = some q → q < 2 ^ 32 → (a.stateId? r).bind a.rowOf? = some r) :=
  ⟨search?_eq_idxOf? h.alphabet_pairwise, search?_eq_idxOf? h.ids_pairwise,
    fun _ hr _ _ hc => h.getElem?_table hr hc,
    fun _ _ _ hi hj => index_unique_of_pairwise h.alphabet_pairwise hi hj,
    fun r _ hc => h.next_of_not_mem hc r, fun _ _ => h.rowOf?_eq_some_iff,
    fun _ => h.rowOf?_eq_none_iff, fun _ _ hr hq => h.rowOf?_stateId? hr hq⟩

theorem sample_lookups_find_indices :
    sample.WellShaped ∧
    (∀ c, search? sample.alphabet c = sample.alphabet.toList.idxOf? c) ∧
    (∀ q, sample.rowOf? q = sample.stateIds.toList.idxOf? q) ∧
    (∀ r < sample.errorRow, ∀ i c, sample.alphabet[i]? = some c →
      sample.table[r * sample.alphabet.size + i]? = some (sample.next r c)) ∧
    (∀ (i j : Nat) (c : Char), sample.alphabet[i]? = some c → sample.alphabet[j]? = some c →
      i = j) ∧
    (∀ r c, c ∉ sample.alphabet → sample.next r c = sample.errorRow) ∧
    (∀ q r, sample.rowOf? q = some r ↔ sample.stateIds[r]? = some q) ∧
    (∀ q, sample.rowOf? q = none ↔ q ∉ sample.stateIds) ∧
    (∀ r q, sample.stateIds[r]? = some q → q < 2 ^ 32 →
      (sample.stateId? r).bind sample.rowOf? = some r) :=
  have h : sample.WellShaped := wellShaped_of_shapeFault? (by decide +kernel)
  ⟨h, h.lookups_find_indices⟩

/-- A stored automaton with one live row, over no symbols, whose state id is `2 ^ 32`. -/
def wrappedIdText : String :=
  "\x7b\"data\":[],\"kinds\":[null,\"Error\"],\"state_ids\":[4294967296]," ++
    "\"alphabet\":[],\"states\":2,\"initial_state\":0\x7d"

/-- The automaton `wrappedIdText` stores. -/
def wrappedId : Automaton :=
  { table := #[], kinds := #[none, some .error], stateIds := #[4294967296], alphabet := #[],
    rows := 2, initial := 0 }

/-- The stored id of the live row loads as it is, the row reads it back as state 0, and state 0
has no row: the live row is not found from its own state. -/
theorem wrappedId_row_not_found :
    load (Utf8.encode wrappedIdText) = .ok wrappedId ∧ 0 < wrappedId.liveCount ∧
      wrappedId.stateId? 0 = some 0 ∧ wrappedId.rowOf? 0 = none :=
  have h : wrappedId.WellShaped := wellShaped_of_shapeFault? (by decide +kernel)
  ⟨load_eq_ok_of_toOption (by decide +kernel), by decide, by decide,
    h.rowOf?_eq_none_iff.2 (by simp [wrappedId])⟩

end Automaton

end LexLR
