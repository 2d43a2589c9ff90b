import LexLR.Proofs.Determinize
import Mathlib.Logic.Function.Iterate
/-!
# Subset construction ends within its bounds

The loop of subset construction makes passes until a scan finds no fork. It stops because every
pass but the last appends a state, and every state stands for its own cover: a non-empty set of
original states with a flag, where an original state `q` stands for `({q}, false)`. Over `n`
original states there are `2 * (2 ^ n - 1)` such covers, so the loop appends at most
`2 * (2 ^ n - 1) - n` states and makes at most one pass more than it appends states. The bounded
loop of `RuleSpec.removeForks` therefore stops where the unbounded loop stops.

The loop never reads a terminal flag to decide what to merge or how to rewire, so a
specification whose terminal set names ids that are no states runs its passes exactly as the same
specification without those ids (`Merger.shape`); the invariant of `Merger.Inv`, which does need
terminal states to exist, is applied to the latter.
-/

namespace LexLR

namespace Merger

variable {S : RuleSpec} {m m' : Merger}

/-- One pass: the forks of one scan, resolved in scan order. -/
def pass (m : Merger) : Merger :=
  m.spec.forks.foldl resolve m

theorem run_succ (fuel : Nat) (m : Merger) (passes : Nat) :
    run (fuel + 1) m passes =
      if m.spec.forks.isEmpty then (m, passes) else run fuel m.pass (passes + 1) :=
  rfl

/-- The bounded loop stands where the unbounded loop stands after some number `k` of passes:
the first `k` scans found forks, and unless the passes ran out the next one finds none. -/
theorem run_eq_iterate (fuel : Nat) (m : Merger) (passes : Nat) :
    ∃ k ≤ fuel, run fuel m passes = (pass^[k] m, passes + k) ∧
      (∀ j < k, (pass^[j] m).spec.forks ≠ []) ∧ (k < fuel → (pass^[k] m).spec.forks = []) := by
  induction fuel generalizing m passes with
  | zero => exact ⟨0, le_rfl, rfl, fun j hj => absurd hj (Nat.not_lt_zero j), by simp⟩
  | succ fuel ih =>
    rw [run_succ]
    split
    · rename_i hfs
      exact ⟨0, Nat.zero_le _, rfl, fun j hj => absurd hj (Nat.not_lt_zero j),
        fun _ => List.isEmpty_iff.1 hfs⟩
    · rename_i hfs
      obtain ⟨k, hk, hrun, hbefore, hafter⟩ := ih m.pass (passes + 1)
      refine ⟨k + 1, by omega, ?_, fun j hj => ?_, fun hlt => ?_⟩
      · rw [hrun, Function.iterate_succ_apply, Nat.add_assoc, Nat.add_comm 1 k]
      · cases j with
        | zero => exact fun h => hfs (List.isEmpty_iff.2 h)
        | succ j =>
          rw [Function.iterate_succ_apply]
          exact hbefore j (by omega)
      · rw [Function.iterate_succ_apply]
        exact hafter (by omega)

/-! ## The loop reads no terminal flag -/

/-- A merger with the terminal set of its specification forgotten. -/
def shape (m : Merger) : Merger :=
  { m with spec := { m.spec with terminals := [] } }

@[simp]
theorem covers_shape (m : Merger) : m.shape.covers = m.covers :=
  rfl

@[simp]
theorem size_shape (m : Merger) : m.shape.spec.size = m.spec.size :=
  rfl

/-- Forks are read off rules and the alphabet only. -/
theorem forks_eq_of_shape (h : m.shape = m'.shape) : m.spec.forks = m'.spec.forks :=
  congrArg (fun m => m.spec.forks) h

theorem cover_eq_of_shape (h : m.shape = m'.shape) (q : Nat) : m.cover q = m'.cover q :=
  congrArg (fun m => m.cover q) h

/-- Resolving a fork reads no terminal flag: a new state's flag goes into the terminal set,
which the shape forgets. -/
theorem shape_resolve (m : Merger) (f : Fork) : (m.resolve f).shape = (m.shape.resolve f).shape := by
  have hc : m.shape.coverOf f = m.coverOf f := rfl
  simp only [resolve, hc, covers_shape]
  cases m.covers.findIdx? (· == m.coverOf f) <;> rfl

theorem shape_resolve_congr (h : m.shape = m'.shape) (f : Fork) :
    (m.resolve f).shape = (m'.resolve f).shape := by
  rw [shape_resolve, h, ← shape_resolve]

theorem shape_pass (h : m.shape = m'.shape) : m.pass.shape = m'.pass.shape := by
  unfold pass
  rw [forks_eq_of_shape h]
  -- the same forks, resolved one by one from mergers of one shape
  induction m'.spec.forks generalizing m m' with
  | nil => exact h
  | cons f fs ih => exact ih (shape_resolve_congr h f)

theorem shape_iterate_pass (h : m.shape = m'.shape) (k : Nat) :
    (pass^[k] m).shape = (pass^[k] m').shape := by
  induction k with
  | zero => exact h
  | succ k ih =>
    rw [Function.iterate_succ_apply', Function.iterate_succ_apply']
    exact shape_pass ih

theorem shape_run (h : m.shape = m'.shape) (fuel passes : Nat) :
    (run fuel m passes).1.shape = (run fuel m' passes).1.shape ∧
      (run fuel m passes).2 = (run fuel m' passes).2 := by
  induction fuel generalizing m m' passes with
  | zero => exact ⟨h, rfl⟩
  | succ fuel ih =>
    rw [run_succ, run_succ, forks_eq_of_shape h]
    split
    · exact ⟨h, rfl⟩
    · exact ih (shape_pass h) _

/-! ## Passes with the invariant -/

/-- `Inv.pass`, for `pass`. -/
theorem Inv.pass_spec (h : Inv S m) :
    Inv S m.pass ∧ m.spec.size ≤ m.pass.spec.size ∧
      (m.pass.spec.size = m.spec.size → m.pass.spec.forks = []) :=
  Inv.pass h

theorem Inv.iterate_pass (h : Inv S m) (k : Nat) : Inv S (Merger.pass^[k] m) := by
  induction k with
  | zero => exact h
  | succ k ih =>
    rw [Function.iterate_succ_apply']
    exact ih.pass_spec.1

/-- Each of `k` passes after which a fork is left appends a state. -/
theorem Inv.size_add_le_iterate (h : Inv S m) (k : Nat)
    (hk : ∀ i, 0 < i → i ≤ k → (Merger.pass^[i] m).spec.forks ≠ []) :
    m.spec.size + k ≤ (Merger.pass^[k] m).spec.size := by
  induction k with
  | zero => exact Nat.le_refl _
  | succ k ih =>
    have hle := ih fun i hi hik => hk i hi (by omega)
    obtain ⟨-, hmono, hfree⟩ := (h.iterate_pass k).pass_spec
    have hne := hk (k + 1) (Nat.succ_pos k) (Nat.le_refl _)
    rw [Function.iterate_succ_apply'] at hne ⊢
    -- a pass that appends no state leaves no fork
    have hgrew : (Merger.pass^[k] m).pass.spec.size ≠ (Merger.pass^[k] m).spec.size :=
      fun heq => hne (hfree heq)
    omega

/-- With one cover per state and no cover repeated, the covers of distinct states differ. -/
theorem cover_injective_of_nodup (hnd : m.covers.toList.Nodup)
    (hc : m.covers.size = m.spec.size) {i j : Nat} (hi : i < m.spec.size)
    (hj : j < m.spec.size) (hij : m.cover i = m.cover j) : i = j := by
  rw [← hc] at hi hj
  simp only [cover_eq_getD, Array.getElem?_eq_getElem hi, Array.getElem?_eq_getElem hj,
    Option.getD_some] at hij
  rw [List.Nodup, List.pairwise_iff_getElem] at hnd
  by_contra hne
  rcases Nat.lt_or_gt_of_ne hne with hlt | hlt
  · exact hnd i j (by simpa using hi) (by simpa using hj) hlt (by simpa using hij)
  · exact hnd j i (by simpa using hj) (by simpa using hi) hlt (by simpa using hij.symm)

/-- The covers of distinct states differ. -/
theorem Inv.cover_injective (h : Inv S m) {i j : Nat} (hi : i < m.spec.size)
    (hj : j < m.spec.size) (hij : m.cover i = m.cover j) : i = j :=
  cover_injective_of_nodup h.covers_nodup h.covers_size hi hj hij

end Merger

namespace RuleSpec

/-- The same specification with its terminal set cut down to the states that exist. -/
def existingTerminals (S : RuleSpec) : RuleSpec :=
  { S with terminals := S.terminals.filter (· < S.size) }

@[simp]
theorem size_existingTerminals (S : RuleSpec) : S.existingTerminals.size = S.size :=
  rfl

/-- Cut down to its existing terminal states, a well-formed specification starts subset
construction with the invariant. -/
theorem inv_init_existingTerminals {S : RuleSpec} (hS : S.WellFormed) :
    Merger.Inv S.existingTerminals (Merger.init S.existingTerminals) := by
  refine Merger.inv_init ⟨hS.start_lt, hS.target_lt, hS.symbol_mem, hS.alphabet_sorted,
    hS.rule_sorted, hS.keyword_lt, hS.keywords_sorted⟩ fun q hq => ?_
  simpa using (List.mem_filter.1 hq).2

end RuleSpec

namespace Merger

/-- Where subset construction on `S` stops: `m`, after `k` passes. The scan after the last pass
finds no fork, the scan before each earlier pass found one, and the bounded loop stops there. -/
structure EndsAt (S : RuleSpec) (k : Nat) (m : Merger) : Prop where
  eq_iterate : m = pass^[k] (init S)
  forks_nil : m.spec.forks = []
  forks_ne_nil : ∀ j < k, (pass^[j] (init S)).spec.forks ≠ []
  run_eq : run (passBound S.size) (init S) 0 = (m, k)

/-- The covers of the states of `m` over the original specification `S`: the original states
stand for themselves, every appended state for a non-empty set of original states, and no two
states for the same cover. -/
structure Covers (S : RuleSpec) (m : Merger) : Prop where
  injective : ∀ i < m.spec.size, ∀ j < m.spec.size, m.cover i = m.cover j → i = j
  original : ∀ q < S.size, m.cover q = ⟨[q], false⟩
  appended : ∀ i, S.size ≤ i → i < m.spec.size →
    (m.cover i).states ≠ [] ∧ ∀ p ∈ (m.cover i).states, p < S.size

variable {S : RuleSpec}

/-- Passes from a specification and from the same one cut down to its existing terminal states
have one shape. -/
theorem shape_init (S : RuleSpec) : (init S).shape = (init S.existingTerminals).shape :=
  rfl

theorem shape_iterate_init (S : RuleSpec) (k : Nat) :
    (pass^[k] (init S)).shape = (pass^[k] (init S.existingTerminals)).shape :=
  shape_iterate_pass (shape_init S) k

theorem size_iterate_init (S : RuleSpec) (k : Nat) :
    (pass^[k] (init S)).spec.size = (pass^[k] (init S.existingTerminals)).spec.size := by
  rw [← size_shape, shape_iterate_init, size_shape]

/-- After any number of passes, the states stand for distinct covers, the original ones for
themselves and the appended ones for non-empty sets of original states. -/
theorem covers_iterate (hS : S.WellFormed) (k : Nat) : Covers S (pass^[k] (init S)) := by
  have h := (RuleSpec.inv_init_existingTerminals hS).iterate_pass k
  have hcov := cover_eq_of_shape (shape_iterate_init S k)
  refine ⟨fun i hi j hj hij => ?_, fun q hq => ?_, fun i hi hi' => ?_⟩
  · rw [size_iterate_init] at hi hj
    rw [hcov, hcov] at hij
    exact h.cover_injective hi hj hij
  · rw [hcov]
    exact h.cover_original q hq
  · rw [size_iterate_init] at hi'
    rw [hcov]
    exact ⟨h.cover_ne_nil i hi', h.cover_lt i⟩

/-- After any number of passes there are at most as many states as non-empty covers. -/
theorem size_iterate_le (hS : S.WellFormed) (k : Nat) :
    (pass^[k] (init S)).spec.size ≤ 2 * (2 ^ S.size - 1) := by
  rw [size_iterate_init]
  simpa using ((RuleSpec.inv_init_existingTerminals hS).iterate_pass k).size_le_bound

/-- A pass never removes a state. -/
theorem size_iterate_le_succ (hS : S.WellFormed) (k : Nat) :
    (pass^[k] (init S)).spec.size ≤ (pass^[k + 1] (init S)).spec.size := by
  rw [size_iterate_init S k, size_iterate_init S (k + 1), Function.iterate_succ_apply']
  exact ((RuleSpec.inv_init_existingTerminals hS).iterate_pass k).pass_spec.2.1

/-- Each of the first `k` passes after which a fork is left appends a state. -/
theorem size_add_le_iterate_init (hS : S.WellFormed) (k : Nat)
    (hk : ∀ i, 0 < i → i ≤ k → (pass^[i] (init S)).spec.forks ≠ []) :
    S.size + k ≤ (pass^[k] (init S)).spec.size := by
  rw [size_iterate_init]
  refine (RuleSpec.inv_init_existingTerminals hS).size_add_le_iterate k fun i hi hik => ?_
  rw [← forks_eq_of_shape (shape_iterate_init S i)]
  exact hk i hi hik

/-- The bounded loop of subset construction stops where the unbounded loop stops: after the
first pass that leaves no fork. -/
theorem endsAt_run (hS : S.WellFormed) : ∃ k, EndsAt S k (pass^[k] (init S)) := by
  obtain ⟨k, -, hrun, hbefore, -⟩ := run_eq_iterate (passBound S.size) (init S) 0
  rw [Nat.zero_add] at hrun
  refine ⟨k, rfl, ?_, hbefore, hrun⟩
  -- the loop cut down to the existing terminal states ends without forks, and it has the
  -- same shape
  have hfuel : 2 * 2 ^ S.existingTerminals.size <
      (init S.existingTerminals).spec.size + passBound S.size := by
    simp only [passBound, spec_init, RuleSpec.size_existingTerminals, Nat.pow_eq]
    omega
  have hend := ((RuleSpec.inv_init_existingTerminals hS).run (passBound S.size) 0 hfuel).2
  rw [← forks_eq_of_shape (shape_run (shape_init S) _ 0).1, hrun] at hend
  exact hend

end Merger

/-- Subset construction on a specification a builder returned ends: after `k` passes it stops
with the merger `m`, whose appended states stand for distinct non-empty covers that are no
original state's, so it appends at most `2 * (2 ^ n - 1) - n` states; it makes at most one pass
more than it appends states. -/
theorem subsetConstruction_ends (steps : List Builder.Step) {S : RuleSpec}
    (hb : (Builder.performAll {} steps).1.build = .ok S) :
    ∃ k m, Merger.EndsAt S k m ∧ Merger.Covers S m ∧
      S.determinize.passes = k ∧ S.determinize.merged = m.spec.size - S.size ∧
      S.determinize.merged ≤ 2 * (2 ^ S.size - 1) - S.size ∧
      S.determinize.passes ≤ S.determinize.merged + 1 := by
  have hS : S.WellFormed := (Builder.sound_performAll Builder.sound_empty steps).build hb
  obtain ⟨k, hend⟩ := Merger.endsAt_run hS
  have hdet : S.determinize.passes = k ∧
      S.determinize.merged = (Merger.pass^[k] (Merger.init S)).spec.size - S.size := by
    simp only [RuleSpec.determinize, RuleSpec.removeForks, hend.run_eq]
    exact ⟨rfl, rfl⟩
  refine ⟨k, _, hend, Merger.covers_iterate hS k, hdet.1, hdet.2, ?_, ?_⟩
  · have := Merger.size_iterate_le hS k
    omega
  · -- every pass but the last appended a state
    rw [hdet.1, hdet.2]
    cases k with
    | zero => exact Nat.zero_le _
    | succ k =>
      have hgrow := Merger.size_add_le_iterate_init hS k fun i hi hik =>
        hend.forks_ne_nil i (by omega)
      have hlast := Merger.size_iterate_le_succ hS k
      omega

theorem forkingSpec_subsetConstruction_ends :
    (Builder.performAll {} RuleSpec.forkingSteps).1.build = .ok RuleSpec.forkingSpec ∧
      ∃ k m, Merger.EndsAt RuleSpec.forkingSpec k m ∧ Merger.Covers RuleSpec.forkingSpec m ∧
        RuleSpec.forkingSpec.determinize.passes = k ∧
        RuleSpec.forkingSpec.determinize.merged = m.spec.size - RuleSpec.forkingSpec.size ∧
        RuleSpec.forkingSpec.determinize.merged ≤
          2 * (2 ^ RuleSpec.forkingSpec.size - 1) - RuleSpec.forkingSpec.size ∧
        RuleSpec.forkingSpec.determinize.passes ≤ RuleSpec.forkingSpec.determinize.merged + 1 :=
  ⟨rfl, subsetConstruction_ends RuleSpec.forkingSteps rfl⟩

end LexLR
