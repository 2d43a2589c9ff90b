import LexLR.Spec.Rule
import LexLR.Spec.Basic
import Mathlib.Data.Char
/-!
# Rules and id sets read as sets

A rule keeps its productions strictly ascending in production order, and an id set keeps its
ids strictly ascending. Here insertion, union and removal are read through membership, and each
is shown to keep the order; an ordered rule therefore never lists a production twice.
-/

namespace LexLR

namespace Production

/-- Production order identifies only equal productions. -/
theorem compare_eq_iff {p q : Production} : compare p q = .eq ↔ p = q := by
  cases p <;> cases q <;> simp [compare, Ordering.then_eq_eq]

/-- Production order is transitive. -/
theorem compare_lt_trans {p q r : Production} (h₁ : compare p q = .lt)
    (h₂ : compare q r = .lt) : compare p r = .lt := by
  cases p <;> cases q <;> cases r <;>
    simp_all [compare, compare_lt_iff_lt, Ordering.then_eq_lt] <;> grind

/-- Production order is antisymmetric. -/
theorem compare_gt_iff {p q : Production} : compare p q = .gt ↔ compare q p = .lt := by
  cases p <;> cases q <;>
    simp [compare, compare_lt_iff_lt, compare_gt_iff_gt, Ordering.then_eq_lt,
      Ordering.then_eq_gt]
  -- only the case of two transitions is left: its order compares symbols, then targets
  grind

end Production

namespace Rule

/-- The productions of a rule are strictly ascending in production order. -/
def Sorted (r : Rule) : Prop :=
  r.productions.Pairwise fun p q => compare p q = .lt

theorem mem_insertInto {a p : Production} {l : List Production} :
    a ∈ insertInto p l ↔ a = p ∨ a ∈ l := by
  fun_induction insertInto p l with
  | case1 => simp
  | case2 q qs _ => simp
  | case3 q qs h =>
    -- equal under the order means equal, so nothing is added
    rw [Production.compare_eq_iff] at h
    subst h
    simp
  | case4 q qs _ ih =>
    simp only [List.mem_cons, ih, or_left_comm]

theorem insertInto_pairwise (p : Production) {l : List Production}
    (h : l.Pairwise fun p q => compare p q = .lt) :
    (insertInto p l).Pairwise fun p q => compare p q = .lt := by
  fun_induction insertInto p l with
  | case1 => simp
  | case2 q qs hlt =>
    refine List.pairwise_cons.2 ⟨fun x hx => ?_, h⟩
    rcases List.mem_cons.1 hx with rfl | hx
    · exact hlt
    · exact Production.compare_lt_trans hlt (List.rel_of_pairwise_cons h hx)
  | case3 => exact h
  | case4 q qs hgt ih =>
    obtain ⟨hq, hqs⟩ := List.pairwise_cons.1 h
    refine List.pairwise_cons.2 ⟨fun x hx => ?_, ih hqs⟩
    rcases mem_insertInto.1 hx with rfl | hx
    · exact Production.compare_gt_iff.1 hgt
    · exact hq x hx

/-- Inserting a production that a filter drops leaves the filtered list as it was. -/
theorem filter_insertInto {g : Production → Bool} {p : Production} (hp : g p = false)
    {l : List Production} : (insertInto p l).filter g = l.filter g := by
  fun_induction insertInto p l with
  | case1 => simp [hp]
  | case2 q qs _ => simp [hp]
  | case3 => rfl
  | case4 q qs _ ih => simp only [List.filter_cons, ih]

/-- Inserting the only production a filter keeps leaves just that production. -/
theorem filter_insertInto_single {g : Production → Bool} {p : Production} (hp : g p = true)
    {l : List Production} (hl : ∀ x ∈ l, g x = false) : (insertInto p l).filter g = [p] := by
  fun_induction insertInto p l with
  | case1 => simp [hp]
  | case2 q qs _ =>
    rw [List.filter_cons_of_pos hp, List.filter_eq_nil_iff.2 fun x hx => by simp [hl x hx]]
  | case3 q qs h =>
    rw [Production.compare_eq_iff] at h
    subst h
    simp [hl p List.mem_cons_self] at hp
  | case4 q qs _ ih =>
    rw [List.filter_cons_of_neg (by simp [hl q List.mem_cons_self]),
      ih fun x hx => hl x (List.mem_cons_of_mem q hx)]

@[simp]
theorem mem_insert {a p : Production} {r : Rule} :
    a ∈ (r.insert p).productions ↔ a = p ∨ a ∈ r.productions :=
  mem_insertInto

theorem Sorted.insert {r : Rule} (h : r.Sorted) (p : Production) : (r.insert p).Sorted :=
  insertInto_pairwise p h

@[simp]
theorem mem_union {a : Production} {r s : Rule} :
    a ∈ (r.union s).productions ↔ a ∈ r.productions ∨ a ∈ s.productions := by
  unfold union
  induction s.productions generalizing r with
  | nil => simp
  | cons p ps ih =>
    rw [List.foldl_cons, ih, mem_insert, List.mem_cons]
    grind

theorem Sorted.union {r : Rule} (h : r.Sorted) (s : Rule) : (r.union s).Sorted := by
  unfold Rule.union
  induction s.productions generalizing r with
  | nil => exact h
  | cons p ps ih => exact ih (h.insert p)

@[simp]
theorem mem_removeSymbol {a : Production} {r : Rule} {c : Char} :
    a ∈ (r.removeSymbol c).productions ↔ a ∈ r.productions ∧ a.symbol? ≠ some c := by
  simp [removeSymbol]

theorem Sorted.removeSymbol {r : Rule} (h : r.Sorted) (c : Char) : (r.removeSymbol c).Sorted :=
  List.Pairwise.filter _ h

@[simp]
theorem mem_withSymbol {a : Production} {r : Rule} {c : Char} :
    a ∈ r.withSymbol c ↔ a ∈ r.productions ∧ a.symbol? = some c := by
  simp [withSymbol]

/-- An ordered rule lists each production once. -/
theorem Sorted.nodup {r : Rule} (h : r.Sorted) : r.productions.Nodup := by
  refine List.Pairwise.imp (fun {p q} hpq => ?_) h
  rintro rfl
  have heq : compare p p = .eq := Production.compare_eq_iff.2 rfl
  rw [heq] at hpq
  exact absurd hpq (by decide)

/-- The empty rule is ordered. -/
theorem sorted_empty : ({} : Rule).Sorted :=
  List.Pairwise.nil

end Rule

namespace IdSet

theorem insert_pairwise (x : Nat) {s : List Nat} (h : s.Pairwise (· < ·)) :
    (insert x s).Pairwise (· < ·) := by
  fun_induction insert x s with
  | case1 => simp
  | case2 y ys hlt =>
    refine List.pairwise_cons.2 ⟨fun z hz => ?_, h⟩
    rcases List.mem_cons.1 hz with rfl | hz
    · exact hlt
    · exact Nat.lt_trans hlt (List.rel_of_pairwise_cons h hz)
  | case3 => exact h
  | case4 y ys hnlt hne ih =>
    obtain ⟨hy, hys⟩ := List.pairwise_cons.1 h
    refine List.pairwise_cons.2 ⟨fun z hz => ?_, ih hys⟩
    rcases mem_insert.1 hz with rfl | hz
    · omega
    · exact hy z hz

theorem union_pairwise {s : List Nat} (h : s.Pairwise (· < ·)) (t : List Nat) :
    (union s t).Pairwise (· < ·) := by
  unfold union
  induction t generalizing s with
  | nil => exact h
  | cons x xs ih => exact ih (insert_pairwise x h)

end IdSet

end LexLR
