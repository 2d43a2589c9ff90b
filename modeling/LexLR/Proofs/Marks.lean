import LexLR.Trimmed
import LexLR.Proofs.Determinize
import Mathlib.Data.Finset.Card
/-!
# Marking reachable and productive states

Both classifications of a trimmed specification mark states round by round until a round
changes nothing. A round only adds marks, and an array of `n` marks can gain a mark at most `n`
times, so `n` rounds reach a fixed point. Every mark is put there by a path, and at the fixed
point the marks are closed under transitions (forward) or under their converse (backward), so
they are exactly the states that a path reaches from the start, or from which a path reaches a
terminal state.
-/

namespace LexLR

/-- The indices a marks array has marked. -/
def markedSet (m : Array Bool) : Finset Nat :=
  (Finset.range m.size).filter fun q => m.getD q false = true

theorem getD_of_size_le {m : Array Bool} {q : Nat} (h : m.size ≤ q) : m.getD q false = false := by
  simp [Array.getD_eq_getD_getElem?, Array.getElem?_eq_none h]

theorem lt_size_of_getD {m : Array Bool} {q : Nat} (h : m.getD q false = true) : q < m.size := by
  by_contra hq
  rw [getD_of_size_le (Nat.le_of_not_lt hq)] at h
  cases h

theorem mem_markedSet {m : Array Bool} {q : Nat} : q ∈ markedSet m ↔ m.getD q false = true := by
  simp only [markedSet, Finset.mem_filter, Finset.mem_range]
  exact ⟨fun h => h.2, fun h => ⟨lt_size_of_getD h, h⟩⟩

/-- Two marks arrays of one size that mark the same indices are equal. -/
theorem marks_ext {m m' : Array Bool} (hsize : m.size = m'.size)
    (h : ∀ q, m.getD q false = m'.getD q false) : m = m' := by
  refine Array.ext hsize fun i hi hi' => ?_
  have := h i
  simpa [Array.getD_eq_getD_getElem?, Array.getElem?_eq_getElem hi,
    Array.getElem?_eq_getElem hi'] using this

namespace RuleSpec

section Close

/-- What holds of the marks before the rounds and is kept by every round holds after them. -/
theorem closeMarks_induct (step : Array Bool → Array Bool) (P : Array Bool → Prop)
    (hP : ∀ m, P m → P (step m)) :
    ∀ (fuel : Nat) (m : Array Bool), P m → P (closeMarks step fuel m)
  | 0, _, h => h
  | fuel + 1, m, h => by
    simp only [closeMarks]
    split
    · exact h
    · exact closeMarks_induct step P hP fuel _ (hP m h)

variable {step : Array Bool → Array Bool} {n : Nat}

variable (hsize : ∀ m : Array Bool, m.size = n → (step m).size = n)
  (hgrow : ∀ m : Array Bool, m.size = n → ∀ q, m.getD q false = true →
    (step m).getD q false = true)
include hsize hgrow

/-- A round that changes an array of `n` marks adds a mark to it. -/
theorem card_markedSet_step_lt {m : Array Bool} (hm : m.size = n) (hne : step m ≠ m) :
    (markedSet m).card < (markedSet (step m)).card := by
  have hsub : markedSet m ⊆ markedSet (step m) := fun q hq =>
    mem_markedSet.2 (hgrow m hm q (mem_markedSet.1 hq))
  refine Finset.card_lt_card ((Finset.ssubset_iff_of_subset hsub).2 ?_)
  by_contra hno
  simp only [not_exists, not_and, not_not] at hno
  -- no new mark: the round left every entry as it was
  refine hne (marks_ext (by rw [hsize m hm, hm]) fun q => ?_)
  cases h : m.getD q false with
  | true => exact hgrow m hm q h
  | false =>
    cases h' : (step m).getD q false with
    | false => rfl
    | true =>
      rw [mem_markedSet.1 (hno q (mem_markedSet.2 h'))] at h
      cases h

/-- Rounds on an array of `n` marks reach a fixed point once the rounds left and the marks
already set add up to `n`. -/
theorem step_closeMarks (fuel : Nat) (m : Array Bool) (hm : m.size = n)
    (hfuel : n ≤ fuel + (markedSet m).card) :
    step (closeMarks step fuel m) = closeMarks step fuel m := by
  induction fuel generalizing m with
  | zero =>
    show step m = m
    -- every index is marked, and a round keeps every mark
    have hcard : (markedSet m).card = (Finset.range m.size).card := by
      have := Finset.card_filter_le (Finset.range m.size) fun q => m.getD q false = true
      simp only [Finset.card_range] at this ⊢
      simp only [markedSet] at hfuel ⊢
      omega
    have hall : ∀ q < n, m.getD q false = true := fun q hq =>
      Finset.card_filter_eq_iff.1 hcard q (Finset.mem_range.2 (hm ▸ hq))
    refine marks_ext (by rw [hsize m hm, hm]) fun q => ?_
    by_cases hq : q < n
    · rw [hall q hq, hgrow m hm q (hall q hq)]
    · rw [getD_of_size_le (by rw [hsize m hm]; omega), getD_of_size_le (by omega)]
  | succ fuel ih =>
    simp only [closeMarks]
    split
    · rename_i heq
      exact beq_iff_eq.1 heq
    · rename_i hne
      have hlt := card_markedSet_step_lt hsize hgrow hm fun h => hne (beq_iff_eq.2 h)
      exact ih (step m) (hsize m hm) (by omega)

end Close

theorem mem_successors {s : RuleSpec} {q t : Nat} :
    t ∈ s.successors q ↔ ∃ c, s.Moves q c t := by
  simp only [successors, List.mem_filterMap]
  constructor
  · rintro ⟨p, hp, ht⟩
    cases p <;> simp only [Production.target?, reduceCtorEq, Option.some.injEq] at ht
    subst ht
    exact ⟨_, hp⟩
  · rintro ⟨c, hm⟩
    exact ⟨_, hm, rfl⟩

section Forward

theorem getD_setIfInBounds_true {m : Array Bool} {t x : Nat} :
    (m.setIfInBounds t true).getD x false = true ↔
      m.getD x false = true ∨ (x = t ∧ x < m.size) := by
  simp only [Array.getD_eq_getD_getElem?, Array.getElem?_setIfInBounds]
  by_cases hx : t = x
  · subst hx
    by_cases ht : t < m.size <;> simp [ht]
  · simp [hx, Ne.symm hx]

theorem foldl_setIfInBounds (ts : List Nat) (acc : Array Bool) (x : Nat) :
    (ts.foldl (fun a t => a.setIfInBounds t true) acc).size = acc.size ∧
      ((ts.foldl (fun a t => a.setIfInBounds t true) acc).getD x false = true ↔
        acc.getD x false = true ∨ (x ∈ ts ∧ x < acc.size)) := by
  induction ts generalizing acc with
  | nil => simp
  | cons t ts ih =>
    obtain ⟨hsize, hmem⟩ := ih (acc.setIfInBounds t true)
    simp only [List.foldl_cons, Array.size_setIfInBounds] at hsize hmem ⊢
    refine ⟨hsize, ?_⟩
    rw [hmem, getD_setIfInBounds_true, List.mem_cons]
    constructor
    · rintro ((h | ⟨rfl, hx⟩) | ⟨hx, hlt⟩)
      · exact .inl h
      · exact .inr ⟨.inl rfl, hx⟩
      · exact .inr ⟨.inr hx, hlt⟩
    · rintro (h | ⟨rfl | hx, hlt⟩)
      · exact .inl (.inl h)
      · exact .inl (.inr ⟨rfl, hlt⟩)
      · exact .inr ⟨hx, hlt⟩

variable {s : RuleSpec}

/-- A forward round marks the successors of the states marked before it. -/
theorem stepForward_spec (m : Array Bool) (x : Nat) :
    (s.stepForward m).size = m.size ∧
      ((s.stepForward m).getD x false = true ↔ m.getD x false = true ∨
        (x < m.size ∧ ∃ q < s.size, m.getD q false = true ∧ ∃ c, s.Moves q c x)) := by
  unfold stepForward
  -- the round reads the marks it started from, and writes into a copy
  suffices ∀ (qs : List Nat) (acc : Array Bool),
      (qs.foldl (fun acc q => if m.getD q false then
          (s.successors q).foldl (fun a t => a.setIfInBounds t true) acc else acc) acc).size =
        acc.size ∧
      ((qs.foldl (fun acc q => if m.getD q false then
          (s.successors q).foldl (fun a t => a.setIfInBounds t true) acc else acc) acc).getD x
          false = true ↔
        acc.getD x false = true ∨
          (x < acc.size ∧ ∃ q ∈ qs, m.getD q false = true ∧ x ∈ s.successors q)) by
    obtain ⟨hsize, hmem⟩ := this (List.range s.size) m
    refine ⟨hsize, hmem.trans ?_⟩
    simp only [List.mem_range, mem_successors]
  intro qs
  induction qs with
  | nil => simp
  | cons q qs ih =>
    intro acc
    simp only [List.foldl_cons]
    split
    · rename_i hq
      obtain ⟨hsize₁, hmem₁⟩ := foldl_setIfInBounds (s.successors q) acc x
      obtain ⟨hsize, hmem⟩ :=
        ih ((s.successors q).foldl (fun a t => a.setIfInBounds t true) acc)
      refine ⟨hsize.trans hsize₁, ?_⟩
      rw [hmem, hmem₁, hsize₁]
      constructor
      · rintro ((h | ⟨hx, hlt⟩) | ⟨hlt, p, hp, hpm, hx⟩)
        · exact .inl h
        · exact .inr ⟨hlt, q, List.mem_cons_self, hq, hx⟩
        · exact .inr ⟨hlt, p, List.mem_cons_of_mem q hp, hpm, hx⟩
      · rintro (h | ⟨hlt, p, hp, hpm, hx⟩)
        · exact .inl (.inl h)
        · rcases List.mem_cons.1 hp with rfl | hp
          · exact .inl (.inr ⟨hx, hlt⟩)
          · exact .inr ⟨hlt, p, hp, hpm, hx⟩
    · rename_i hq
      obtain ⟨hsize, hmem⟩ := ih acc
      refine ⟨hsize, hmem.trans ?_⟩
      constructor
      · rintro (h | ⟨hlt, p, hp, hpm, hx⟩)
        · exact .inl h
        · exact .inr ⟨hlt, p, List.mem_cons_of_mem q hp, hpm, hx⟩
      · rintro (h | ⟨hlt, p, hp, hpm, hx⟩)
        · exact .inl h
        · rcases List.mem_cons.1 hp with rfl | hp
          · simp [hpm] at hq
          · exact .inr ⟨hlt, p, hp, hpm, hx⟩

theorem getD_reachableStart {x : Nat} (h0 : 0 < s.size) :
    ((Array.replicate s.size false).setIfInBounds 0 true).getD x false = true ↔ x = 0 := by
  have hfalse : (Array.replicate s.size false).getD x false = false := by
    by_cases hx : x < s.size <;> simp [Array.getD_eq_getD_getElem?, hx]
  rw [getD_setIfInBounds_true, Array.size_replicate, hfalse]
  constructor
  · rintro (h | ⟨rfl, -⟩)
    · cases h
    · rfl
  · rintro rfl
    exact .inr ⟨rfl, h0⟩

/-- The reachable marks are the states some path reaches from the start state. -/
theorem reachable_iff (hs : s.WellFormed) {q : Nat} :
    s.reachable.getD q false = true ↔ ∃ w, s.Path 0 w q := by
  have hinit : ∀ x, _ := fun x => getD_reachableStart (s := s) (x := x) hs.start_lt
  unfold reachable
  have hsize : ∀ m : Array Bool, m.size = s.size → (s.stepForward m).size = s.size :=
    fun m hm => (stepForward_spec m 0).1.trans hm
  have hgrow : ∀ m : Array Bool, m.size = s.size → ∀ q, m.getD q false = true →
      (s.stepForward m).getD q false = true := fun m _ q hq =>
    ((stepForward_spec m q).2).2 (.inl hq)
  -- every mark is the end of a path from the start, and the array keeps its size
  have hsound := closeMarks_induct s.stepForward
    (fun m => m.size = s.size ∧ ∀ x, m.getD x false = true → ∃ w, s.Path 0 w x)
    (fun m ⟨hm, hpath⟩ => ⟨hsize m hm, fun x hx => by
      rcases ((stepForward_spec m x).2).1 hx with hx | ⟨-, p, -, hp, c, hpc⟩
      · exact hpath x hx
      · obtain ⟨w, hw⟩ := hpath p hp
        exact ⟨w ++ [c], path_snoc_iff.2 ⟨p, hw, hpc⟩⟩⟩)
    s.size ((Array.replicate s.size false).setIfInBounds 0 true)
    ⟨by simp, fun x hx => ⟨[], by rw [(hinit x).1 hx]; exact .nil 0⟩⟩
  have hstart := closeMarks_induct s.stepForward (fun m => m.getD 0 false = true)
    (fun m h0 => ((stepForward_spec m 0).2).2 (.inl h0)) s.size _ ((hinit 0).2 rfl)
  have hfix := step_closeMarks hsize hgrow s.size
    ((Array.replicate s.size false).setIfInBounds 0 true) (by simp) (Nat.le_add_right _ _)
  constructor
  · exact hsound.2 q
  · rintro ⟨w, hw⟩
    -- at the fixed point the marks are closed under transitions
    suffices ∀ p, (closeMarks s.stepForward s.size
        ((Array.replicate s.size false).setIfInBounds 0 true)).getD p false = true →
        s.Path p w q → (closeMarks s.stepForward s.size
          ((Array.replicate s.size false).setIfInBounds 0 true)).getD q false = true from
      this 0 hstart hw
    clear hw
    intro p hp hw
    induction hw with
    | nil => exact hp
    | cons hm _ ih =>
      apply ih
      rw [← hfix]
      refine ((stepForward_spec _ _).2).2 (.inr ⟨?_, _, ?_, hp, _, hm⟩)
      · rw [hsound.1]
        exact hs.target_lt hm
      · rw [← hsound.1]
        exact lt_size_of_getD hp

end Forward

section Backward

variable {s : RuleSpec}

/-- A backward round marks the states with a marked successor. -/
theorem stepBackward_spec (m : Array Bool) (x : Nat) :
    (s.stepBackward m).size = s.size ∧
      ((s.stepBackward m).getD x false = true ↔ x < s.size ∧
        (m.getD x false = true ∨ ∃ c t, s.Moves x c t ∧ m.getD t false = true)) := by
  refine ⟨by simp [stepBackward], ?_⟩
  simp only [stepBackward, Array.getD_eq_getD_getElem?, Array.getElem?_map,
    Array.getElem?_range]
  by_cases hx : x < s.size
  · simp [hx, mem_successors]
    constructor
    · rintro (h | ⟨t, ⟨c, hm⟩, ht⟩)
      · exact .inl h
      · exact .inr ⟨c, t, hm, ht⟩
    · rintro (h | ⟨c, t, hm, ht⟩)
      · exact .inl h
      · exact .inr ⟨t, ⟨c, hm⟩, ht⟩
  · simp [hx]

theorem getD_productiveStart {x : Nat} :
    ((Array.range s.size).map s.isTerminal).getD x false = true ↔
      x < s.size ∧ s.isTerminal x = true := by
  by_cases hx : x < s.size <;>
    simp [hx, Array.getD_eq_getD_getElem?]

/-- The productive marks are the states from which some path reaches a terminal state. -/
theorem productive_iff (hs : s.WellFormed) {q : Nat} (hq : q < s.size) :
    s.productive.getD q false = true ↔ ∃ w t, s.Path q w t ∧ s.isTerminal t = true := by
  have hsize : ∀ m : Array Bool, m.size = s.size → (s.stepBackward m).size = s.size :=
    fun m _ => (stepBackward_spec m 0).1
  have hgrow : ∀ m : Array Bool, m.size = s.size → ∀ q, m.getD q false = true →
      (s.stepBackward m).getD q false = true := fun m hm q hq =>
    ((stepBackward_spec m q).2).2 ⟨hm ▸ lt_size_of_getD hq, .inl hq⟩
  have hsound := closeMarks_induct s.stepBackward
    (fun m => ∀ x, m.getD x false = true → ∃ w t, s.Path x w t ∧ s.isTerminal t = true)
    (fun m hpath x hx => by
      rcases (((stepBackward_spec m x).2).1 hx).2 with hx | ⟨c, t, hm, ht⟩
      · exact hpath x hx
      · obtain ⟨w, u, hw, hu⟩ := hpath t ht
        exact ⟨c :: w, u, .cons hm hw, hu⟩)
    s.size _ (fun x hx => ⟨[], x, .nil x, (getD_productiveStart.1 hx).2⟩)
  have hfix := step_closeMarks hsize hgrow s.size ((Array.range s.size).map s.isTerminal)
    (by simp) (Nat.le_add_right _ _)
  unfold productive
  constructor
  · exact hsound q
  · rintro ⟨w, t, hw, ht⟩
    -- along the path backwards: the terminal end is marked from the start, and at the fixed
    -- point a state with a marked successor is marked
    induction hw with
    | nil u =>
      have hkeep := closeMarks_induct s.stepBackward
        (fun m => m.size = s.size ∧ m.getD u false = true)
        (fun m ⟨hm, hu⟩ => ⟨hsize m hm, hgrow m hm u hu⟩) s.size _
        ⟨by simp, getD_productiveStart.2 ⟨hq, ht⟩⟩
      exact hkeep.2
    | cons hm hw ih =>
      rw [← hfix]
      exact ((stepBackward_spec _ _).2).2 ⟨hq, .inr ⟨_, _, hm, ih (hs.target_lt hm) ht⟩⟩

end Backward

end RuleSpec

namespace Trimmed

variable {s : RuleSpec} {passes merged : Nat}

theorem contains_filter_range {g : Nat → Bool} {n q : Nat} (hq : q < n) :
    ((List.range n).filter g).contains q = g q := by
  cases h : g q with
  | false =>
    rw [Bool.eq_false_iff]
    intro hc
    rw [List.contains_iff_mem, List.mem_filter, h] at hc
    cases hc.2
  | true => rw [List.contains_iff_mem, List.mem_filter, List.mem_range]; exact ⟨hq, h⟩

/-- A classified state below the size is live when a path reaches it from the start state and
a path leads from it to a terminal state. -/
theorem isLive_classify (hs : s.WellFormed) {q : Nat} (hq : q < s.size) :
    (classify s passes merged).isLive q = true ↔
      (∃ w, s.Path 0 w q) ∧ ∃ w t, s.Path q w t ∧ s.isTerminal t = true := by
  rw [← RuleSpec.reachable_iff hs, ← RuleSpec.productive_iff hs hq]
  simp only [isLive, classify, contains_filter_range hq]
  cases s.reachable.getD q false <;> cases s.productive.getD q false <;> decide

theorem mem_live_classify (hs : s.WellFormed) {q : Nat} :
    q ∈ (classify s passes merged).live ↔ q < s.size ∧
      (∃ w, s.Path 0 w q) ∧ ∃ w t, s.Path q w t ∧ s.isTerminal t = true := by
  simp only [live, List.mem_filter, List.mem_range]
  constructor
  · rintro ⟨hq, hl⟩
    exact ⟨hq, (isLive_classify hs hq).1 hl⟩
  · rintro ⟨hq, hl⟩
    exact ⟨hq, (isLive_classify hs hq).2 hl⟩

end Trimmed

end LexLR
