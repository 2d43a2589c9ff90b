import LexLR.Automaton.Compile
import LexLR.Proofs.Marks
/-!
# The table of a compiled automaton

Compiling writes one row per live state: every production of the state puts its entry in the
column of its symbol, found by halving the ascending alphabet. Without forks no two productions
of a state share a symbol, so each cell holds the row of the table reading's next state, or the
error row when that state is missing or not live. The rows are then laid end to end, so the cell
of row `r` and column `col` sits at `r * n + col` for an alphabet of `n` symbols.
-/

namespace LexLR

section Search

variable {α : Type} [LinearOrder α] {a : Array α}

theorem lt_of_getElem?_of_lt (hs : a.toList.Pairwise (· < ·)) {i j : Nat} {u v : α}
    (hu : a[i]? = some u) (hv : a[j]? = some v) (hij : i < j) : u < v := by
  obtain ⟨hi, rfl⟩ := Array.getElem?_eq_some_iff.1 hu
  obtain ⟨hj, rfl⟩ := Array.getElem?_eq_some_iff.1 hv
  have := List.pairwise_iff_getElem.1 hs i j (by simpa using hi) (by simpa using hj) hij
  simpa using this

/-- Halving over a strictly ascending array finds exactly the index holding the value. -/
theorem searchIn_eq_some_iff (hs : a.toList.Pairwise (· < ·)) {x : α} {lo hi i : Nat}
    (hhi : hi ≤ a.size) :
    searchIn a x lo hi = some i ↔ lo ≤ i ∧ i < hi ∧ a[i]? = some x := by
  induction lo, hi using searchIn.induct a x with
  | case1 lo hi hlt mid hmid =>
    -- the middle of the range is an index of the array
    have e : a[(lo + hi) / 2]? = none := hmid
    rw [Array.getElem?_eq_none_iff] at e
    omega
  | case2 lo hi hlt mid y hmid hcmp ih =>
    have e : a[(lo + hi) / 2]? = some y := hmid
    have hyx : y < x := compare_lt_iff_lt.1 hcmp
    rw [searchIn, dif_pos hlt]
    simp only [e, hcmp]
    rw [ih hhi]
    constructor
    · rintro ⟨h₁, h₂, h₃⟩
      exact ⟨by omega, h₂, h₃⟩
    · rintro ⟨h₁, h₂, h₃⟩
      refine ⟨?_, h₂, h₃⟩
      -- up to the middle the array holds at most `y`, which is below `x`
      by_contra hle
      rcases Nat.lt_or_eq_of_le (Nat.le_of_not_lt hle : i ≤ (lo + hi) / 2) with hi' | rfl
      · exact absurd (lt_of_getElem?_of_lt hs h₃ e hi') (not_lt.2 hyx.le)
      · rw [e, Option.some.injEq] at h₃
        exact absurd h₃ (ne_of_lt hyx)
  | case3 lo hi hlt mid y hmid hcmp ih =>
    have e : a[(lo + hi) / 2]? = some y := hmid
    have hxy : x < y := compare_gt_iff_gt.1 hcmp
    rw [searchIn, dif_pos hlt]
    simp only [e, hcmp]
    rw [ih (by omega)]
    constructor
    · rintro ⟨h₁, h₂, h₃⟩
      exact ⟨h₁, by omega, h₃⟩
    · rintro ⟨h₁, h₂, h₃⟩
      refine ⟨h₁, ?_, h₃⟩
      -- from the middle on the array holds at least `y`, which is above `x`
      by_contra hle
      rcases Nat.lt_or_eq_of_le (Nat.le_of_not_lt hle : (lo + hi) / 2 ≤ i) with hi' | rfl
      · exact absurd (lt_of_getElem?_of_lt hs e h₃ hi') (not_lt.2 hxy.le)
      · rw [e, Option.some.injEq] at h₃
        exact absurd h₃ (ne_of_gt hxy)
  | case4 lo hi hlt mid y hmid hcmp =>
    have e : a[(lo + hi) / 2]? = some y := hmid
    have hyx : y = x := compare_eq_iff_eq.1 hcmp
    rw [searchIn, dif_pos hlt]
    simp only [e, hcmp, Option.some.injEq]
    constructor
    · rintro rfl
      exact ⟨by omega, by omega, hyx ▸ e⟩
    · rintro ⟨-, -, h₃⟩
      -- a strictly ascending array holds each value once
      by_contra hne
      rcases Nat.lt_or_gt_of_ne hne with h | h
      · exact absurd (lt_of_getElem?_of_lt hs e h₃ h) (by rw [hyx]; exact lt_irrefl x)
      · exact absurd (lt_of_getElem?_of_lt hs h₃ e h) (by rw [hyx]; exact lt_irrefl x)
  | case5 lo hi hlt =>
    rw [searchIn, dif_neg hlt]
    simp only [reduceCtorEq, false_iff, not_and]
    intro h₁ h₂
    omega

theorem search?_eq_some_iff (hs : a.toList.Pairwise (· < ·)) {x : α} {i : Nat} :
    search? a x = some i ↔ a[i]? = some x := by
  rw [search?, searchIn_eq_some_iff hs (Nat.le_refl _)]
  constructor
  · exact fun h => h.2.2
  · intro h
    exact ⟨Nat.zero_le _, (Array.getElem?_eq_some_iff.1 h).1, h⟩

end Search

theorem idxOf?_eq_some_iff_of_nodup {l : List Nat} (hnd : l.Nodup) {x i : Nat} :
    l.idxOf? x = some i ↔ l[i]? = some x := by
  rw [List.idxOf?_eq_some_iff]
  constructor
  · rintro ⟨hi, hx, -⟩
    exact List.getElem?_eq_some_iff.2 ⟨hi, hx⟩
  · intro h
    obtain ⟨hi, hx⟩ := List.getElem?_eq_some_iff.1 h
    refine ⟨hi, hx, fun j hj hjx => ?_⟩
    have := (List.Nodup.getElem_inj_iff hnd).1 (hjx.trans hx.symm)
    omega

theorem foldlM_except_eq_ok {ε α β : Type} {f : β → α → Except ε β}
    {g : β → α → β} :
    ∀ (l : List α) (b : β), (∀ b, ∀ x ∈ l, f b x = .ok (g b x)) →
      l.foldlM f b = .ok (l.foldl g b)
  | [], _, _ => rfl
  | x :: l, b, h => by
    rw [List.foldlM_cons, h b x List.mem_cons_self]
    exact foldlM_except_eq_ok l (g b x) fun b y hy => h b y (List.mem_cons_of_mem x hy)

theorem mapM_except_eq_ok {ε α β : Type} {f : α → Except ε β} {g : α → β} :
    ∀ (l : List α), (∀ x ∈ l, f x = .ok (g x)) → l.mapM f = .ok (l.map g)
  | [], _ => rfl
  | x :: l, h => by
    rw [List.mapM_cons, h x List.mem_cons_self,
      mapM_except_eq_ok l fun y hy => h y (List.mem_cons_of_mem x hy)]
    rfl

theorem foldl_append_eq {rows : List (Array Nat)} (acc : Array Nat) :
    rows.foldl (· ++ ·) acc = acc ++ rows.foldl (· ++ ·) #[] := by
  induction rows generalizing acc with
  | nil => simp
  | cons row rows ih =>
    simp only [List.foldl_cons, Array.empty_append]
    rw [ih, ih row, Array.append_assoc]

/-- Rows of one size laid end to end: row `r`, column `col` is at `r * n + col`. -/
theorem getElem?_foldl_append {rows : List (Array Nat)} {n : Nat}
    (hn : ∀ row ∈ rows, row.size = n) {r col : Nat} (hcol : col < n) :
    (rows.foldl (· ++ ·) #[])[r * n + col]? = rows[r]?.bind (·[col]?) := by
  induction rows generalizing r with
  | nil => simp
  | cons row rows ih =>
    have hrow := hn row List.mem_cons_self
    rw [List.foldl_cons, Array.empty_append, foldl_append_eq]
    cases r with
    | zero =>
      rw [Nat.zero_mul, Nat.zero_add, Array.getElem?_append_left (by omega)]
      simp
    | succ r =>
      rw [Array.getElem?_append_right (by rw [hrow, Nat.succ_mul]; omega)]
      have : (r + 1) * n + col - row.size = r * n + col := by rw [hrow, Nat.succ_mul]; omega
      rw [this, ih fun row' h => hn row' (List.mem_cons_of_mem row h)]
      simp

namespace Trimmed

open RuleSpec

/-- One production written into a row: its entry, in the column of its symbol. -/
def writeEntry (alphabet : Array Char) (rowOf : Nat → Option Nat) (err r : Nat)
    (cells : Array Nat) (p : Production) : Array Nat :=
  match entry rowOf err r p with
  | none => cells
  | some (c, n) =>
    match search? alphabet c with
    | some col => cells.setIfInBounds col n
    | none => cells

theorem entry_symbol {rowOf : Nat → Option Nat} {err r : Nat} {p : Production} {c : Char}
    {n : Nat} (h : entry rowOf err r p = some (c, n)) : p.symbol? = some c := by
  cases p <;> simp only [entry, Option.some.injEq, Prod.mk.injEq, reduceCtorEq] at h <;>
    simp [Production.symbol?, h.1]

theorem entry_of_symbol (rowOf : Nat → Option Nat) (err r : Nat) {p : Production} {c : Char}
    (h : p.symbol? = some c) : ∃ n, entry rowOf err r p = some (c, n) := by
  cases p <;> simp only [Production.symbol?, Option.some.injEq, reduceCtorEq] at h <;>
    simp [entry, h]

variable {s : RuleSpec}

/-- The cells of a row: its productions written into a row of error cells. -/
theorem rowCells_eq_ok (hs : s.WellFormed) (rowOf : Nat → Option Nat) (err r q : Nat) :
    rowCells s s.alphabet.toArray rowOf err r q =
      .ok ((s.rule q).productions.foldl (writeEntry s.alphabet.toArray rowOf err r)
        (Array.replicate s.alphabet.toArray.size err)) := by
  refine foldlM_except_eq_ok _ _ fun cells p hp => ?_
  cases he : entry rowOf err r p with
  | none => simp [writeEntry, he]
  | some e =>
    obtain ⟨c, n⟩ := e
    -- the symbol of every production has a column
    have hc : c ∈ s.alphabet := hs.symbol_mem hp (entry_symbol he)
    obtain ⟨col, hcol⟩ := List.mem_iff_getElem?.1 hc
    have hsearch : search? s.alphabet.toArray c = some col :=
      (search?_eq_some_iff (by simpa using hs.alphabet_sorted)).2 (by simpa using hcol)
    simp [writeEntry, he, hsearch]

section Write

variable {alphabet : Array Char} {rowOf : Nat → Option Nat} {err r : Nat}

@[simp]
theorem size_writeEntry (cells : Array Nat) (p : Production) :
    (writeEntry alphabet rowOf err r cells p).size = cells.size := by
  unfold writeEntry
  split
  · rfl
  · split <;> simp

theorem size_foldl_writeEntry (ps : List Production) (init : Array Nat) :
    (ps.foldl (writeEntry alphabet rowOf err r) init).size = init.size := by
  induction ps generalizing init with
  | nil => rfl
  | cons p ps ih => rw [List.foldl_cons, ih, size_writeEntry]

variable (hsort : alphabet.toList.Pairwise (· < ·)) {col v : Nat} {c : Char}
  (hcol : alphabet[col]? = some c)
include hsort hcol

/-- One write fills the column of its production's symbol and leaves the other columns. -/
theorem getElem?_writeEntry {p : Production}
    (hv : p.symbol? = some c → entry rowOf err r p = some (c, v)) (cells : Array Nat) :
    (writeEntry alphabet rowOf err r cells p)[col]? =
      if p.symbol? = some c ∧ col < cells.size then some v else cells[col]? := by
  unfold writeEntry
  cases he : entry rowOf err r p with
  | none =>
    have hp : p.symbol? ≠ some c := fun hp => by
      obtain ⟨n, hn⟩ := entry_of_symbol rowOf err r hp
      rw [hn] at he
      cases he
    simp [hp]
  | some e =>
    obtain ⟨d, n⟩ := e
    dsimp only
    have hd := entry_symbol he
    cases hs' : search? alphabet d with
    | none =>
      -- the production's symbol has no column, so it is not `c`
      have : p.symbol? ≠ some c := fun hp => by
        rw [hd, Option.some.injEq] at hp
        subst hp
        have := (search?_eq_some_iff hsort).2 hcol
        rw [hs'] at this
        cases this
      simp [this]
    | some col' =>
      have hcol' := (search?_eq_some_iff hsort).1 hs'
      rw [Array.getElem?_setIfInBounds]
      by_cases hcc : col' = col
      · subst hcc
        rw [hcol, Option.some.injEq] at hcol'
        subst hcol'
        have := hv hd
        rw [he, Option.some.injEq, Prod.mk.injEq] at this
        by_cases hlt : col' < cells.size
        · simp [hd, this.2, hlt]
        · simp [hd, hlt]
      · -- another column belongs to another symbol
        have : p.symbol? ≠ some c := fun hp => by
          rw [hd, Option.some.injEq] at hp
          subst hp
          have := (search?_eq_some_iff hsort).2 hcol
          rw [hs', Option.some.injEq] at this
          exact hcc this
        simp [hcc, this]

/-- Writing productions into a row fills the column of `c` with the entry the productions on
`c` share, if there is one. -/
theorem getElem?_foldl_writeEntry :
    ∀ (ps : List Production) (init : Array Nat),
      (∀ p ∈ ps, p.symbol? = some c → entry rowOf err r p = some (c, v)) →
      col < init.size →
      (ps.foldl (writeEntry alphabet rowOf err r) init)[col]? =
        if ∃ p ∈ ps, p.symbol? = some c then some v else init[col]?
  | [], init, _, _ => by simp
  | p :: ps, init, hv, hlt => by
    rw [List.foldl_cons, getElem?_foldl_writeEntry ps _
      (fun p' hp' => hv p' (List.mem_cons_of_mem p hp')) (by rwa [size_writeEntry]),
      getElem?_writeEntry hsort hcol (hv p List.mem_cons_self) init]
    by_cases hp : p.symbol? = some c
    · simp [hp, hlt]
    · simp [hp]

end Write

end Trimmed

end LexLR
