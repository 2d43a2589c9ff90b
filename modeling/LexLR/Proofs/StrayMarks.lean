import Mathlib
import LexLR.Proofs.SubsetBounds
import LexLR.Proofs.BuilderCalls
import LexLR.Proofs.Compiled
/-!
# Terminal marks on ids that are no state

A builder marks any id terminal, handed out or not, and building keeps the mark. Subset
construction then appends states with fresh ids, and a state it appends is terminal when a
literal was folded into it or one of the states it merges is terminal; but the terminal set is
only ever added to, so a mark already standing on the fresh id makes the new state terminal too.

Main statement: `compile_determinize_markTerminal`. A mark on an id at or past the number of
states after subset construction changes nothing that compiling reads: the same automaton, or the
same error. A mark on an id that subset construction hands out does change it
(`appended_state_mark_surfaces`).
-/

namespace LexLR

namespace RuleSpec

/-- The same specification with another terminal set. -/
def withTerminals (s : RuleSpec) (T : List Nat) : RuleSpec :=
  { s with terminals := T }

/-- The same specification with one more id in its terminal set. -/
def markTerminal (s : RuleSpec) (k : Nat) : RuleSpec :=
  s.withTerminals (IdSet.insert k s.terminals)

@[simp]
theorem size_withTerminals (s : RuleSpec) (T : List Nat) : (s.withTerminals T).size = s.size :=
  rfl

@[simp]
theorem forks_withTerminals (s : RuleSpec) (T : List Nat) : (s.withTerminals T).forks = s.forks :=
  rfl

@[simp]
theorem alphabet_withTerminals (s : RuleSpec) (T : List Nat) :
    (s.withTerminals T).alphabet = s.alphabet :=
  rfl

theorem isTerminal_markTerminal (s : RuleSpec) (k q : Nat) :
    (s.markTerminal k).isTerminal q = true ↔ s.isTerminal q = true ∨ q = k := by
  simp [markTerminal, withTerminals, isTerminal, IdSet.mem_insert, or_comm]

/-- Two specifications that agree on all but their terminal sets. -/
theorem eq_withTerminals {s s' : RuleSpec} (h : s'.withTerminals [] = s.withTerminals []) :
    s' = s.withTerminals s'.terminals := by
  obtain ⟨rules, names, terminals, keywords, alphabet⟩ := s
  obtain ⟨rules', names', terminals', keywords', alphabet'⟩ := s'
  simp only [withTerminals, mk.injEq] at h ⊢
  exact h

end RuleSpec

namespace Builder

theorem performAll_append_markTerminal (b : Builder) (steps : List Step) (q : Nat) :
    (b.performAll (steps ++ [.markTerminal q])).1 = (b.performAll steps).1.markTerminal q := by
  induction steps generalizing b with
  | nil => rfl
  | cons st steps ih =>
    rw [List.cons_append, performAll_cons, performAll_cons]
    exact ih _

theorem start_markTerminal (b : Builder) (q : Nat) :
    (b.markTerminal q).start.1 = b.start.1.markTerminal q := by
  have hr : (b.markTerminal q).rules = b.rules := rfl
  unfold start
  rw [hr]
  split <;> rfl

/-- Building after one more terminal mark gives the same specification with the mark added to
its terminal set. -/
theorem build_markTerminal {b : Builder} {s : RuleSpec} (h : b.build = .ok s) (q : Nat) :
    (b.markTerminal q).build = .ok (s.markTerminal q) := by
  unfold build at h ⊢
  dsimp only at h ⊢
  rw [start_markTerminal]
  -- the mark changes no rule, so building finds the same targets
  have hd : (b.start.1.markTerminal q).danglingTarget? = b.start.1.danglingTarget? := rfl
  rw [hd]
  split at h
  · cases h
  · simp only [Except.ok.injEq] at h ⊢
    rw [← h]
    rfl

end Builder

namespace Merger

variable {k : Nat} {m m' : Merger}

/-- `m'` is `m` with one more terminal mark, on `k`: the two differ only in their terminal sets,
and the terminal states of `m'` are those of `m` and `k`. -/
structure MarkedAt (k : Nat) (m m' : Merger) : Prop where
  shape_eq : m.shape = m'.shape
  isTerminal_iff : ∀ q, m'.spec.isTerminal q = true ↔ m.spec.isTerminal q = true ∨ q = k

theorem MarkedAt.spec_eq (h : MarkedAt k m m') : m'.spec = m.spec.withTerminals m'.spec.terminals :=
  RuleSpec.eq_withTerminals (congrArg (fun m => m.spec) h.shape_eq).symm

theorem MarkedAt.covers_eq (h : MarkedAt k m m') : m'.covers = m.covers := by
  rw [← covers_shape m', ← h.shape_eq, covers_shape]

theorem MarkedAt.coverOf_eq (h : MarkedAt k m m') (f : Fork) : m'.coverOf f = m.coverOf f := by
  have hc : m'.shape.coverOf f = m'.coverOf f := rfl
  rw [← hc, ← h.shape_eq]
  rfl

theorem MarkedAt.size_eq (h : MarkedAt k m m') : m'.spec.size = m.spec.size := by
  rw [← size_shape m', ← h.shape_eq, size_shape]

/-- Resolving a fork none of whose targets is `k` keeps the one extra mark: a new state reads the
terminal flags of the targets only. -/
theorem MarkedAt.resolve (h : MarkedAt k m m') (f : Fork) (hf : k ∉ f.targets) :
    MarkedAt k (m.resolve f) (m'.resolve f) := by
  refine ⟨shape_resolve_congr h.shape_eq f, fun q => ?_⟩
  rw [resolve_eq, resolve_eq]
  simp only [RuleSpec.isTerminal_setRule]
  unfold stateFor
  rw [h.covers_eq, h.coverOf_eq]
  split
  · exact h.isTerminal_iff q
  · have htargets : (∃ t ∈ f.targets, m'.spec.isTerminal t = true) ↔
        ∃ t ∈ f.targets, m.spec.isTerminal t = true := by
      refine exists_congr fun t => and_congr_right fun ht => ?_
      rw [h.isTerminal_iff t]
      exact or_iff_left fun htk => hf (htk ▸ ht)
    rw [isTerminal_merge, isTerminal_merge, h.isTerminal_iff q, htargets, h.size_eq]
    exact or_right_comm

theorem MarkedAt.foldl_resolve (h : MarkedAt k m m') (fs : List Fork)
    (hfs : ∀ f ∈ fs, k ∉ f.targets) :
    MarkedAt k (fs.foldl Merger.resolve m) (fs.foldl Merger.resolve m') := by
  induction fs generalizing m m' with
  | nil => exact h
  | cons f fs ih =>
    exact ih (h.resolve f (hfs f List.mem_cons_self)) fun g hg => hfs g (List.mem_cons_of_mem f hg)

theorem size_le_foldl_resolve (m : Merger) (fs : List Fork) :
    m.spec.size ≤ (fs.foldl resolve m).spec.size := by
  induction fs generalizing m with
  | nil => exact Nat.le_refl _
  | cons f fs ih => exact Nat.le_trans (size_resolve_le m f) (ih _)

theorem size_le_run (m : Merger) (fuel passes : Nat) :
    m.spec.size ≤ (run fuel m passes).1.spec.size := by
  induction fuel generalizing m passes with
  | zero => exact Nat.le_refl _
  | succ fuel ih =>
    rw [run_succ]
    split
    · exact Nat.le_refl _
    · exact Nat.le_trans (size_le_foldl_resolve m _) (ih _ _)

/-- Subset construction keeps one extra mark on an id it never hands out: every fork's targets
are states, and every state's id is below the number of states at the end. -/
theorem MarkedAt.run (h : MarkedAt k m m') (hs : m.spec.WellFormed)
    (hc : m.covers.size = m.spec.size) (fuel passes : Nat)
    (hk : (run fuel m passes).1.spec.size ≤ k) :
    MarkedAt k (run fuel m passes).1 (run fuel m' passes).1 := by
  induction fuel generalizing m m' passes with
  | zero => exact h
  | succ fuel ih =>
    rw [run_succ] at hk ⊢
    rw [run_succ, ← forks_eq_of_shape h.shape_eq]
    split
    · exact h
    · rename_i hne
      rw [if_neg hne] at hk
      have hfs : ∀ f ∈ m.spec.forks, f.parent < m.spec.size ∧ f.symbol ∈ m.spec.alphabet := by
        intro f hf
        obtain ⟨q, hq, c, hc, rfl, -⟩ := RuleSpec.mem_forks.1 hf
        exact ⟨hq, hc⟩
      -- the targets of this pass's forks are states, below every later number of states
      have htargets : ∀ f ∈ m.spec.forks, k ∉ f.targets := by
        intro f hf ht
        obtain ⟨q, -, c, -, rfl, -⟩ := RuleSpec.mem_forks.1 hf
        have hlt := hs.target_lt (RuleSpec.mem_forkAt_targets.1 ht)
        have hle : m.spec.size ≤ (run fuel m.pass (passes + 1)).1.spec.size :=
          Nat.le_trans (size_le_foldl_resolve m m.spec.forks) (size_le_run m.pass fuel _)
        omega
      have hpass : MarkedAt k m.pass m'.pass := by
        unfold pass
        rw [← forks_eq_of_shape h.shape_eq]
        exact h.foldl_resolve _ htargets
      obtain ⟨hs', hc'⟩ := wellFormed_foldl_resolve _ hs hc hfs
      exact ih hpass hs' hc' _ hk

theorem markedAt_init (S : RuleSpec) (k : Nat) : MarkedAt k (init S) (init (S.markTerminal k)) :=
  ⟨rfl, fun q => RuleSpec.isTerminal_markTerminal S k q⟩

end Merger

namespace RuleSpec

theorem removeForks_eq (S : RuleSpec) :
    S.removeForks = ((Merger.run (passBound S.size) (Merger.init S) 0).1.spec,
      (Merger.run (passBound S.size) (Merger.init S) 0).2) :=
  rfl

/-- Subset construction on a well-formed specification with one more mark, on an id it never
hands out, makes the same passes and ends with the same specification, the mark added. -/
theorem removeForks_markTerminal {S : RuleSpec} (hS : S.WellFormed) {k : Nat}
    (hk : S.removeForks.1.size ≤ k) :
    (S.markTerminal k).removeForks.2 = S.removeForks.2 ∧
      (S.markTerminal k).removeForks.1 =
        S.removeForks.1.withTerminals (S.markTerminal k).removeForks.1.terminals ∧
      ∀ q, (S.markTerminal k).removeForks.1.isTerminal q = true ↔
        S.removeForks.1.isTerminal q = true ∨ q = k := by
  have h := Merger.markedAt_init S k
  have hsize : (S.markTerminal k).size = S.size := rfl
  rw [removeForks_eq] at hk
  rw [removeForks_eq, removeForks_eq, hsize]
  have hrun := h.run hS (by simp [Merger.init, RuleSpec.size]) (passBound S.size) 0 hk
  exact ⟨(Merger.shape_run h.shape_eq _ 0).2.symm, hrun.spec_eq, hrun.isTerminal_iff⟩

/-- What the start state reaches is read off transitions only. -/
theorem reachable_withTerminals (s : RuleSpec) (T : List Nat) :
    (s.withTerminals T).reachable = s.reachable :=
  rfl

/-- What reaches a terminal state is read off transitions and the terminal flags of states only,
so ids that are no state do not count. -/
theorem productive_withTerminals (s : RuleSpec) {T : List Nat}
    (hT : ∀ q < s.size, T.contains q = s.isTerminal q) :
    (s.withTerminals T).productive = s.productive := by
  have hstart : (Array.range s.size).map (s.withTerminals T).isTerminal =
      (Array.range s.size).map s.isTerminal := by
    apply Array.ext (by simp)
    intro i hi _
    simp only [Array.getElem_map, Array.getElem_range]
    exact hT i (by simpa using hi)
  exact congrArg (closeMarks s.stepBackward s.size) hstart

end RuleSpec

namespace Trimmed

theorem classify_withTerminals (s : RuleSpec) {T : List Nat}
    (hT : ∀ q < s.size, T.contains q = s.isTerminal q) (passes merged : Nat) :
    classify (s.withTerminals T) passes merged =
      { classify s passes merged with spec := s.withTerminals T } := by
  unfold classify
  rw [RuleSpec.reachable_withTerminals, RuleSpec.productive_withTerminals s hT]
  rfl

/-- Compiling reads the terminal flags of live states only. -/
theorem compile_withTerminals {t : Trimmed} {T : List Nat}
    (hT : ∀ q < t.spec.size, T.contains q = t.spec.isTerminal q) :
    ({ t with spec := t.spec.withTerminals T }).compile = t.compile := by
  have hlive : ({ t with spec := t.spec.withTerminals T }).live = t.live := rfl
  have hcells : rowCells (t.spec.withTerminals T) = rowCells t.spec := rfl
  have hkinds : t.live.map (kindOf (t.spec.withTerminals T)) = t.live.map (kindOf t.spec) := by
    refine List.map_congr_left fun q hq => ?_
    have hlt : q < t.spec.size := List.mem_range.1 (List.mem_filter.1 hq).1
    have hkw : (t.spec.withTerminals T).keyword? q = t.spec.keyword? q := rfl
    simp only [kindOf, hkw]
    rw [show (t.spec.withTerminals T).isTerminal q = T.contains q from rfl, hT q hlt]
  unfold compile
  simp only [RuleSpec.forks_withTerminals, RuleSpec.alphabet_withTerminals, hlive, hcells, hkinds]

end Trimmed

/-- A terminal mark placed before building, on an id at or past the number of states after
subset construction, changes nothing that determinizing and compiling give: building succeeds
with the mark added, and the compiled automaton, or the error, is the same, so every word gets
the same token kind. Marks are placed on 32-bit ids. -/
theorem compile_determinize_markTerminal (steps : List Builder.Step) {S : RuleSpec}
    (hS : (Builder.performAll {} steps).1.build = .ok S) (k : Nat)
    (hk : S.determinize.spec.size ≤ StateId.ofIndex k) :
    (Builder.performAll {} (steps ++ [.markTerminal (StateId.ofIndex k)])).1.build =
        .ok (S.markTerminal (StateId.ofIndex k)) ∧
      (S.markTerminal (StateId.ofIndex k)).determinize.compile = S.determinize.compile := by
  have hwf : S.WellFormed := (Builder.sound_performAll Builder.sound_empty steps).build hS
  refine ⟨?_, ?_⟩
  · rw [Builder.performAll_append_markTerminal]
    exact Builder.build_markTerminal hS _
  · have hdet : S.determinize.spec = S.removeForks.1 := rfl
    obtain ⟨hpasses, hspec, hterm⟩ :=
      RuleSpec.removeForks_markTerminal hwf (k := StateId.ofIndex k) (hdet ▸ hk)
    -- below the number of states, the terminal flags after subset construction are the same
    have hT : ∀ q < S.removeForks.1.size,
        (S.markTerminal (StateId.ofIndex k)).removeForks.1.terminals.contains q =
          S.removeForks.1.isTerminal q := by
      intro q hq
      have hne : q ≠ StateId.ofIndex k := by
        rw [← hdet] at hq
        omega
      exact Bool.eq_iff_iff.2 ((hterm q).trans (or_iff_left hne))
    have hsize : (S.markTerminal (StateId.ofIndex k)).size = S.size := rfl
    rw [RuleSpec.determinize_eq_classify, RuleSpec.determinize_eq_classify, hpasses, hspec,
      hsize, RuleSpec.size_withTerminals, Trimmed.classify_withTerminals _ hT]
    exact Trimmed.compile_withTerminals (t := Trimmed.classify _ _ _) hT

/-- Builder calls for a start state that forks on `a` into two states that are not terminal,
each of which reads one more symbol into a terminal state. -/
def forkIntoUnmarked : List Builder.Step :=
  [.state "S", .state "A", .state "B", .state "C",
    .addProduction 0 (.transition 'a' 1), .addProduction 0 (.transition 'a' 2),
    .addProduction 1 (.transition 'b' 3), .addProduction 2 (.transition 'c' 3),
    .addProduction 3 .epsilon]

/-- What `forkIntoUnmarked` builds. -/
def forkIntoUnmarkedSpec : RuleSpec where
  rules := #[⟨[.transition 'a' 1, .transition 'a' 2]⟩, ⟨[.transition 'b' 3]⟩,
    ⟨[.transition 'c' 3]⟩, ⟨[.epsilon]⟩]
  names := #[some "S", some "A", some "B", some "C"]
  terminals := [3]
  keywords := []
  alphabet := ['a', 'b', 'c']

/-- Subset construction appends one state to `forkIntoUnmarked`'s four, so a mark on id 5
changes nothing. -/
theorem forkIntoUnmarked_markTerminal_beyond :
    (Builder.performAll {} forkIntoUnmarked).1.build = .ok forkIntoUnmarkedSpec ∧
      forkIntoUnmarkedSpec.determinize.spec.size ≤ StateId.ofIndex 5 ∧
      (Builder.performAll {} (forkIntoUnmarked ++ [.markTerminal (StateId.ofIndex 5)])).1.build =
        .ok (forkIntoUnmarkedSpec.markTerminal (StateId.ofIndex 5)) ∧
      (forkIntoUnmarkedSpec.markTerminal (StateId.ofIndex 5)).determinize.compile =
        forkIntoUnmarkedSpec.determinize.compile := by
  have hS : (Builder.performAll {} forkIntoUnmarked).1.build = .ok forkIntoUnmarkedSpec := rfl
  have hk : forkIntoUnmarkedSpec.determinize.spec.size ≤ StateId.ofIndex 5 := by
    cbv
  exact ⟨hS, hk, compile_determinize_markTerminal forkIntoUnmarked hS 5 hk⟩

/-- A mark on id 4, which `forkIntoUnmarked` does not hand out, lands on the state that subset
construction appends for the fork: the word `a`, which reaches that state, turns from an error
into an identifier. -/
theorem appended_state_mark_surfaces :
    (Builder.performAll {} forkIntoUnmarked).1.build = .ok forkIntoUnmarkedSpec ∧
      forkIntoUnmarkedSpec.size = 4 ∧
      forkIntoUnmarkedSpec.determinize.compile.map (fun A => A.classify ['a']) = .ok .error ∧
      ((Builder.performAll {} (forkIntoUnmarked ++ [.markTerminal (StateId.ofIndex 4)])).1.build >>=
        fun S => S.determinize.compile).map (fun A => A.classify ['a']) = .ok .identifier :=
  ⟨rfl, rfl, by cbv, by cbv⟩

end LexLR
