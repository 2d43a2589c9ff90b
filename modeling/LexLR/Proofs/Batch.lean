import LexLR.Proofs.ForkScan
import LexLR.Proofs.SubsetBounds
/-!
# A pass resolves its forks as they were scanned

A pass of subset construction scans the specification for forks once and then resolves them in
scan order, while each resolution rewrites its parent's rule and may append a state. The scan
stays accurate for the whole pass. Its forks sit on distinct states and symbols, and resolving
one of them changes only its own parent's productions on its own symbol and appends at most one
state, so each fork is still what the scan saw when its turn comes. Resolving it then leaves the
parent a single transition on the symbol, to the one state that stands for what the fork's
targets stand for together.

None of this reads a terminal flag, so it holds of every specification a builder returns, also
of one whose terminal set names ids that are no states. Main statement: `resolves_in_pass`.
-/

namespace LexLR

open RuleSpec

namespace Merger

variable {m : Merger} {f : Fork}

/-- What subset construction keeps whatever the terminal set: the specification is well formed,
every state has a cover, and no cover is repeated. -/
structure Coherent (m : Merger) : Prop where
  wf : m.spec.WellFormed
  covers_size : m.covers.size = m.spec.size
  covers_nodup : m.covers.toList.Nodup

theorem coherent_init {S : RuleSpec} (hS : S.WellFormed) : (init S).Coherent where
  wf := hS
  covers_size := by simp [init, RuleSpec.size]
  covers_nodup := covers_init_nodup S

theorem covers_resolve (m : Merger) (f : Fork) :
    (m.resolve f).covers = (m.stateFor f).1.covers := by
  rw [resolve_eq]

/-- Resolving a fork on a state and a symbol of the alphabet keeps a merger coherent. -/
theorem Coherent.resolve (h : m.Coherent) (hp : f.parent < m.spec.size)
    (hsym : f.symbol ∈ m.spec.alphabet) : (m.resolve f).Coherent := by
  obtain ⟨hwf, hc⟩ := wellFormed_resolve h.wf h.covers_size hp hsym
  exact ⟨hwf, hc, by rw [covers_resolve]; exact covers_stateFor_nodup h.covers_nodup⟩

/-- Resolving a fork leaves every other state that was there with its rule. -/
theorem rule_resolve_of_ne {x : Nat} (hx : x < m.spec.size) (hne : x ≠ f.parent) :
    (m.resolve f).spec.rule x = m.spec.rule x := by
  rw [resolve_eq, RuleSpec.rule_setRule, if_neg fun h => hne h.1, rule_stateFor_of_lt hx]

/-! ## One resolution -/

/-- What resolving the fork `f` in the merger `m` does. -/
structure Resolves (m : Merger) (f : Fork) : Prop where
  /-- The parent's productions on the symbol are still the fork's transitions and literal. -/
  current : ∀ p, p ∈ (m.spec.rule f.parent).withSymbol f.symbol ↔
    (p = .literal f.symbol ∧ f.accepting = true) ∨
      ∃ t ∈ f.targets, p = .transition f.symbol t
  /-- Its targets are states. -/
  targets_lt : ∀ t ∈ f.targets, t < m.spec.size
  /-- Afterwards the parent has one production on the symbol: a transition to the one state that
  stands for what the targets stand for together. -/
  single : ∃ q,
    ((m.resolve f).spec.rule f.parent).withSymbol f.symbol = [.transition f.symbol q] ∧
    q < (m.resolve f).spec.size ∧ (m.resolve f).cover q = m.coverOf f ∧
    ∀ q' < (m.resolve f).spec.size, (m.resolve f).cover q' = m.coverOf f → q' = q
  /-- The parent reads every other symbol as before, -/
  other_symbols : ∀ d, d ≠ f.symbol →
    ((m.resolve f).spec.rule f.parent).withSymbol d = (m.spec.rule f.parent).withSymbol d
  /-- and every other state that was there keeps its rule. -/
  other_states : ∀ x < m.spec.size, x ≠ f.parent → (m.resolve f).spec.rule x = m.spec.rule x

/-- Resolving a fork that is current in a coherent merger does what `Resolves` says. -/
theorem Coherent.resolves (h : m.Coherent) (hcur : m.spec.forkAt f.parent f.symbol = f)
    (hp : f.parent < m.spec.size) : m.Resolves f := by
  have htargets : ∀ t, t ∈ f.targets ↔ m.spec.Moves f.parent f.symbol t := fun t => by
    rw [← mem_forkAt_targets, hcur]
  have haccepting : f.accepting = true ↔ m.spec.HasLiteral f.parent f.symbol := by
    rw [← forkAt_accepting_iff, hcur]
  have hs : (m.resolve f).spec.size = (m.stateFor f).1.spec.size := by
    rw [resolve_eq]
    simp
  have hcover : ∀ x, (m.resolve f).cover x = (m.stateFor f).1.cover x := fun x => by
    simp only [cover, covers_resolve]
  obtain ⟨-, hsize, -⟩ := wellFormed_stateFor (f := f) h.wf h.covers_size
  have hnd := covers_stateFor_nodup (f := f) h.covers_nodup
  obtain ⟨hq, hqc⟩ := stateFor_cover (f := f) h.covers_size
  refine ⟨fun p => ?_, fun t ht => h.wf.target_lt ((htargets t).1 ht),
    ⟨(m.stateFor f).2, withSymbol_resolve_self hp, hs ▸ hq, (hcover _).trans hqc,
      fun q' hq' hc => ?_⟩,
    fun d hd => withSymbol_resolve_of_ne hp fun h' => hd h'.2,
    fun x hx hne => rule_resolve_of_ne hx hne⟩
  · rw [Rule.mem_withSymbol]
    constructor
    · rintro ⟨hmem, hsym⟩
      cases p with
      | literal d =>
        obtain rfl : d = f.symbol := by simpa [Production.symbol?] using hsym
        exact .inl ⟨rfl, haccepting.2 hmem⟩
      | epsilon => exact absurd hsym (by simp [Production.symbol?])
      | transition d t =>
        obtain rfl : d = f.symbol := by simpa [Production.symbol?] using hsym
        exact .inr ⟨t, (htargets t).2 hmem, rfl⟩
    · rintro (⟨rfl, hacc⟩ | ⟨t, ht, rfl⟩)
      · exact ⟨haccepting.1 hacc, rfl⟩
      · exact ⟨(htargets t).1 ht, rfl⟩
  · -- covers are not repeated, so only the state found stands for the fork's cover
    exact cover_injective_of_nodup hnd hsize (hs ▸ hq') hq (by rw [← hcover, hc, hqc])

/-! ## A pass -/

/-- A fork is current in a merger: the merger's specification still has it, on a state and a
symbol of the alphabet. -/
def Current (m : Merger) (f : Fork) : Prop :=
  m.spec.forkAt f.parent f.symbol = f ∧ f.parent < m.spec.size ∧ f.symbol ∈ m.spec.alphabet

theorem current_of_mem_forks (hf : f ∈ m.spec.forks) : m.Current f := by
  obtain ⟨q, hq, c, hc, rfl, -⟩ := mem_forks.1 hf
  exact ⟨rfl, hq, hc⟩

/-- Resolving current forks `u` on distinct states and symbols in order keeps the merger
coherent, and the forks `v` still to come stay current. -/
theorem Coherent.foldl_resolve (h : m.Coherent) {u v : List Fork}
    (hcur : ∀ g ∈ u ++ v, m.Current g)
    (hkeys : ((u ++ v).map fun g => (g.parent, g.symbol)).Nodup) :
    (u.foldl Merger.resolve m).Coherent ∧ ∀ g ∈ v, (u.foldl Merger.resolve m).Current g := by
  induction u generalizing m with
  | nil => exact ⟨h, hcur⟩
  | cons g u ih =>
    obtain ⟨-, hgp, hgs⟩ := hcur g List.mem_cons_self
    rw [List.cons_append, List.map_cons, List.nodup_cons] at hkeys
    obtain ⟨hfresh, hkeys⟩ := hkeys
    refine ih (h.resolve hgp hgs) (fun g' hg' => ?_) hkeys
    -- a later fork sits on another state or symbol, which resolving `g` leaves alone
    obtain ⟨hcur', hp', hs'⟩ := hcur g' (List.mem_cons_of_mem g hg')
    have hne : ¬(g'.parent = g.parent ∧ g'.symbol = g.symbol) := fun ⟨h₁, h₂⟩ =>
      hfresh (List.mem_map.2 ⟨g', hg', by rw [h₁, h₂]⟩)
    refine ⟨?_, Nat.lt_of_lt_of_le hp' (size_resolve_le m g), by rwa [alphabet_resolve]⟩
    rw [forkAt_congr (withSymbol_resolve_of_ne hp' hne), hcur']

/-- Each pass keeps a merger coherent. -/
theorem Coherent.pass (h : m.Coherent) : (Merger.pass m).Coherent :=
  (h.foldl_resolve (v := []) (by simpa using fun g => current_of_mem_forks)
    (by simpa using forks_keys_nodup h.wf.alphabet_sorted)).1

theorem Coherent.iterate_pass (h : m.Coherent) (k : Nat) : (Merger.pass^[k] m).Coherent := by
  induction k with
  | zero => exact h
  | succ k ih =>
    rw [Function.iterate_succ_apply']
    exact ih.pass

end Merger

/-- In every pass of subset construction on a specification a builder returns, when the fork `f`
of the pass's scan has its turn, after the forks before it, the parent's productions on the
symbol are still exactly the fork's transitions and literal, and its targets are states.
Resolving it leaves the parent one production on the symbol, a transition to the one state
standing for the union of the targets' covers with the fork's flag or any target's, and changes
no other symbol of the parent and no rule of any other state that was there. -/
theorem resolves_in_pass (steps : List Builder.Step) {S : RuleSpec}
    (hb : (Builder.performAll {} steps).1.build = .ok S) (k : Nat) {pre post : List Fork}
    {f : Fork} (hsplit : (Merger.pass^[k] (Merger.init S)).spec.forks = pre ++ f :: post) :
    (pre.foldl Merger.resolve (Merger.pass^[k] (Merger.init S))).Resolves f := by
  have hS : S.WellFormed := (Builder.sound_performAll Builder.sound_empty steps).build hb
  have h := (Merger.coherent_init hS).iterate_pass k
  obtain ⟨h', hcur⟩ := h.foldl_resolve (u := pre) (v := f :: post)
    (fun g hg => Merger.current_of_mem_forks (hsplit ▸ hg))
    (hsplit ▸ forks_keys_nodup h.wf.alphabet_sorted)
  obtain ⟨hf, hp, -⟩ := hcur f List.mem_cons_self
  exact h'.resolves hf hp

/-- Two states that both fork on `a` into both: `S ::= a<S> | a<T>` and
`T ::= a<S> | a<T> | b`. -/
def cyclicSteps : List Builder.Step :=
  [.state "S", .state "T", .addProduction 0 (.transition 'a' 0),
    .addProduction 0 (.transition 'a' 1), .addProduction 1 (.transition 'a' 0),
    .addProduction 1 (.transition 'a' 1), .addProduction 1 (.literal 'b')]

/-- What the builder makes of `cyclicSteps`. -/
def cyclicSpec : RuleSpec where
  rules := #[⟨[.transition 'a' 0, .transition 'a' 1]⟩,
    ⟨[.literal 'b', .transition 'a' 0, .transition 'a' 1]⟩]
  names := #[some "S", some "T"]
  terminals := [1]
  keywords := []
  alphabet := ['a', 'b']

/-- The first pass resolves the fork of `S` on `a`, then the fork of `T` on `a`, which the first
resolution left as it was scanned. -/
theorem cyclicSpec_second_fork_resolves :
    (Builder.performAll {} cyclicSteps).1.build = .ok cyclicSpec ∧
      (Merger.pass^[0] (Merger.init cyclicSpec)).spec.forks =
        [⟨0, 'a', [0, 1], false⟩] ++ ⟨1, 'a', [0, 1], false⟩ :: [] ∧
      ([⟨0, 'a', [0, 1], false⟩].foldl Merger.resolve
        (Merger.pass^[0] (Merger.init cyclicSpec))).Resolves ⟨1, 'a', [0, 1], false⟩ :=
  have hb : (Builder.performAll {} cyclicSteps).1.build = .ok cyclicSpec := rfl
  have hsplit : (Merger.pass^[0] (Merger.init cyclicSpec)).spec.forks =
      [⟨0, 'a', [0, 1], false⟩] ++ ⟨1, 'a', [0, 1], false⟩ :: [] := by decide
  ⟨hb, hsplit, resolves_in_pass cyclicSteps hb 0 hsplit⟩

end LexLR
