import LexLR.Proofs.Cover
import Mathlib.Data.Finset.Powerset
import Mathlib.Data.Finset.Prod
import Mathlib.Data.Finset.Card
import Mathlib.Data.Fintype.Card
import Mathlib.Data.List.Sort
/-!
# Passes of subset construction end without forks

A pass resolves, as a batch, every fork that one scan found. The forks of one scan have distinct
parents or symbols, and resolving one of them leaves the productions of every other state and
symbol as they were, so each fork is still what the scan saw when its turn comes, and after the
pass each of them has become a single transition. Hence a pass that adds no state leaves no fork.
A state is added only for a cover seen for the first time, and there are at most
`2 * (2 ^ n - 1)` non-empty covers over `n` original states; so the bound on passes that subset
construction is given is never reached with a fork left.
-/

namespace LexLR

open RuleSpec

namespace RuleSpec

theorem mem_forks {s : RuleSpec} {f : Fork} :
    f ∈ s.forks ↔
      ∃ q < s.size, ∃ c ∈ s.alphabet, f = s.forkAt q c ∧ f.isBranching = true := by
  simp only [forks, List.mem_flatMap, List.mem_range, List.mem_filter, List.mem_map]
  constructor
  · rintro ⟨q, hq, ⟨c, hc, rfl⟩, hb⟩
    exact ⟨q, hq, c, hc, rfl, hb⟩
  · rintro ⟨q, hq, c, hc, rfl, hb⟩
    exact ⟨q, hq, ⟨c, hc, rfl⟩, hb⟩

/-- A specification has no forks when no state branches on any symbol of the alphabet. -/
theorem forks_eq_nil_iff {s : RuleSpec} :
    s.forks = [] ↔ ∀ q < s.size, ∀ c ∈ s.alphabet, (s.forkAt q c).isBranching = false := by
  rw [List.eq_nil_iff_forall_not_mem]
  constructor
  · intro h q hq c hc
    cases hb : (s.forkAt q c).isBranching with
    | false => rfl
    | true => exact absurd (mem_forks.2 ⟨q, hq, c, hc, rfl, hb⟩) (h _)
  · rintro h f hf
    obtain ⟨q, hq, c, hc, rfl, hb⟩ := mem_forks.1 hf
    rw [h q hq c hc] at hb
    exact absurd hb (by decide)

/-- The forks of one scan have distinct parents or symbols. -/
theorem forks_keys_nodup {s : RuleSpec} (hs : s.alphabet.Pairwise (· < ·)) :
    (s.forks.map fun f => (f.parent, f.symbol)).Nodup := by
  have hnd : s.alphabet.Nodup := hs.imp fun h => ne_of_lt h
  simp only [forks, List.map_flatMap, List.filter_map, List.map_map]
  refine List.nodup_flatMap.2 ⟨fun q _ => ?_, ?_⟩
  · exact (hnd.filter _).map fun a b h => by simpa [Function.comp, forkAt] using h
  · refine List.nodup_range.imp fun {q₁ q₂} hne => ?_
    simp only [List.disjoint_left, List.mem_map, Function.comp, forkAt]
    rintro _ ⟨c, -, rfl⟩ ⟨d, -, hd⟩
    simp only [Prod.mk.injEq] at hd
    exact hne hd.1.symm

/-- A single transition on a symbol is no fork. -/
theorem isBranching_of_single {s : RuleSpec} {q t : Nat} {c : Char}
    (h : (s.rule q).withSymbol c = [.transition c t]) : (s.forkAt q c).isBranching = false := by
  simp [Fork.isBranching, forkAt, h, Production.target?]

end RuleSpec

/-- Non-empty covers over `n` original states, held as ascending lists, number at most
`2 * (2 ^ n - 1)`: a non-empty set of original states and a flag. -/
theorem length_le_of_covers {n : Nat} {l : List Cover} (hnd : l.Nodup)
    (hs : ∀ c ∈ l, c.states.Pairwise (· < ·)) (hne : ∀ c ∈ l, c.states ≠ [])
    (hlt : ∀ c ∈ l, ∀ p ∈ c.states, p < n) :
    l.length ≤ 2 * (2 ^ n - 1) := by
  classical
  let φ : Cover → Finset Nat × Bool := fun c => (c.states.toFinset, c.literal)
  have hinj : (l.map φ).Nodup := by
    refine hnd.map_on fun x hx y hy hxy => ?_
    simp only [φ, Prod.mk.injEq] at hxy
    obtain ⟨hst, hlit⟩ := hxy
    -- ascending lists with the same members are equal
    have : x.states = y.states :=
      (hs x hx).eq_of_mem_iff (hs y hy) fun a => by
        rw [← List.mem_toFinset, hst, List.mem_toFinset]
    cases x
    cases y
    simp_all
  have hsub : (l.map φ).toFinset ⊆ ((Finset.range n).powerset.erase ∅) ×ˢ Finset.univ := by
    intro x hx
    obtain ⟨c, hc, rfl⟩ := List.mem_map.1 (List.mem_toFinset.1 hx)
    simp only [φ, Finset.mem_product, Finset.mem_erase, Finset.mem_powerset, Finset.mem_univ,
      and_true]
    refine ⟨fun he => hne c hc (List.toFinset_eq_empty_iff _ |>.1 he), fun a ha => ?_⟩
    exact Finset.mem_range.2 (hlt c hc a (List.mem_toFinset.1 ha))
  calc l.length = (l.map φ).toFinset.card := by
        rw [List.toFinset_card_of_nodup hinj, List.length_map]
    _ ≤ (((Finset.range n).powerset.erase ∅) ×ˢ Finset.univ).card := Finset.card_le_card hsub
    _ = 2 * (2 ^ n - 1) := by
        rw [Finset.card_product, Finset.card_erase_of_mem (Finset.empty_mem_powerset _),
          Finset.card_powerset, Finset.card_range, Finset.card_univ, Fintype.card_bool,
          Nat.mul_comm]

namespace Merger

variable {S : RuleSpec} {m : Merger}

/-- Subset construction never holds more states than there are non-empty covers. -/
theorem Inv.size_le_bound (h : Inv S m) : m.spec.size ≤ 2 * (2 ^ S.size - 1) := by
  rw [← h.covers_size, ← Array.length_toList]
  -- each member of the covers is the cover of a state
  have hcov : ∀ c ∈ m.covers.toList, ∃ i < m.spec.size, m.cover i = c := fun c hc => by
    obtain ⟨i, hi, rfl⟩ := List.mem_iff_getElem.1 hc
    have hi' : i < m.covers.size := by simpa using hi
    exact ⟨i, h.covers_size ▸ hi', by simp [cover_eq_getD, Array.getElem?_eq_getElem hi']⟩
  refine length_le_of_covers h.covers_nodup (fun c hc => ?_) (fun c hc => ?_) (fun c hc => ?_)
  · obtain ⟨i, -, rfl⟩ := hcov c hc
    exact h.cover_sorted i
  · obtain ⟨i, hi, rfl⟩ := hcov c hc
    exact h.cover_ne_nil i hi
  · obtain ⟨i, -, rfl⟩ := hcov c hc
    exact h.cover_lt i

/-- A pass over forks that are still current, with distinct parents or symbols, keeps the
invariant; afterwards each of the forks is a single transition, and every other state and
symbol reads as before. -/
theorem Inv.foldl_resolve (fs : List Fork) (h : Inv S m)
    (hcur : ∀ f ∈ fs, m.spec.forkAt f.parent f.symbol = f ∧ f.isBranching = true ∧
      f.parent < m.spec.size)
    (hkeys : (fs.map fun f => (f.parent, f.symbol)).Nodup) :
    Inv S (fs.foldl Merger.resolve m) ∧ m.spec.size ≤ (fs.foldl Merger.resolve m).spec.size ∧
      (∀ x < m.spec.size, ∀ d, (∃ f ∈ fs, f.parent = x ∧ f.symbol = d) →
        ∃ y, ((fs.foldl Merger.resolve m).spec.rule x).withSymbol d = [.transition d y]) ∧
      (∀ x < m.spec.size, ∀ d, (¬∃ f ∈ fs, f.parent = x ∧ f.symbol = d) →
        ((fs.foldl Merger.resolve m).spec.rule x).withSymbol d = (m.spec.rule x).withSymbol d) := by
  induction fs generalizing m with
  | nil => exact ⟨h, Nat.le_refl _, fun _ _ _ ⟨_, hf, _⟩ => absurd hf List.not_mem_nil,
      fun _ _ _ _ => rfl⟩
  | cons f fs ih =>
    obtain ⟨hfeq, hb, hp⟩ := hcur f List.mem_cons_self
    rw [List.map_cons, List.nodup_cons] at hkeys
    obtain ⟨hfresh, hkeys⟩ := hkeys
    have h₁ : Inv S (m.resolve f) := by
      have := h.resolve hp (hfeq ▸ hb)
      rwa [hfeq] at this
    have hle₁ := size_resolve_le m f
    -- the other forks of the pass are untouched by resolving this one
    have hother : ∀ g ∈ fs, ¬(g.parent = f.parent ∧ g.symbol = f.symbol) := by
      rintro g hg ⟨hgp, hgs⟩
      exact hfresh (List.mem_map.2 ⟨g, hg, by rw [hgp, hgs]⟩)
    have hcur₁ : ∀ g ∈ fs, (m.resolve f).spec.forkAt g.parent g.symbol = g ∧
        g.isBranching = true ∧ g.parent < (m.resolve f).spec.size := by
      intro g hg
      obtain ⟨hgeq, hgb, hgp⟩ := hcur g (List.mem_cons_of_mem f hg)
      refine ⟨?_, hgb, Nat.lt_of_lt_of_le hgp hle₁⟩
      rw [forkAt_congr (withSymbol_resolve_of_ne hgp (hother g hg)), hgeq]
    obtain ⟨hinv, hle, hsingle, hsame⟩ := ih h₁ hcur₁ hkeys
    refine ⟨hinv, Nat.le_trans hle₁ hle, fun x hx d hxd => ?_, fun x hx d hxd => ?_⟩
    · by_cases hin : ∃ g ∈ fs, g.parent = x ∧ g.symbol = d
      · exact hsingle x (Nat.lt_of_lt_of_le hx hle₁) d hin
      · obtain ⟨g, hg, hgx, hgd⟩ := hxd
        rcases List.mem_cons.1 hg with rfl | hg
        · subst hgx hgd
          exact ⟨_, (hsame _ (Nat.lt_of_lt_of_le hx hle₁) _ hin).trans
            (withSymbol_resolve_self hp)⟩
        · exact absurd ⟨g, hg, hgx, hgd⟩ hin
    · have hf : ¬(x = f.parent ∧ d = f.symbol) := fun ⟨hx', hd'⟩ =>
        hxd ⟨f, List.mem_cons_self, hx'.symm, hd'.symm⟩
      have hin : ¬∃ g ∈ fs, g.parent = x ∧ g.symbol = d := fun ⟨g, hg, hgx, hgd⟩ =>
        hxd ⟨g, List.mem_cons_of_mem f hg, hgx, hgd⟩
      rw [List.foldl_cons, hsame x (Nat.lt_of_lt_of_le hx hle₁) d hin,
        withSymbol_resolve_of_ne hx hf]

/-- One pass keeps the invariant, never removes a state, and leaves no fork unless it added
a state. -/
theorem Inv.pass (h : Inv S m) :
    Inv S (m.spec.forks.foldl Merger.resolve m) ∧
      m.spec.size ≤ (m.spec.forks.foldl Merger.resolve m).spec.size ∧
      ((m.spec.forks.foldl Merger.resolve m).spec.size = m.spec.size →
        (m.spec.forks.foldl Merger.resolve m).spec.forks = []) := by
  have hcur : ∀ f ∈ m.spec.forks,
      m.spec.forkAt f.parent f.symbol = f ∧ f.isBranching = true ∧ f.parent < m.spec.size := by
    intro f hf
    obtain ⟨q, hq, c, -, rfl, hb⟩ := mem_forks.1 hf
    exact ⟨rfl, hb, hq⟩
  obtain ⟨hinv, hle, hsingle, hsame⟩ :=
    h.foldl_resolve m.spec.forks hcur (forks_keys_nodup h.wf.alphabet_sorted)
  refine ⟨hinv, hle, fun hsize => forks_eq_nil_iff.2 fun x hx d _ => ?_⟩
  rw [hsize] at hx
  by_cases hin : ∃ f ∈ m.spec.forks, f.parent = x ∧ f.symbol = d
  · obtain ⟨y, hy⟩ := hsingle x hx d hin
    exact isBranching_of_single hy
  · -- an untouched state and symbol reads as before, where it was no fork
    rw [isBranching_forkAt_congr (hsame x hx d hin)]
    cases hb : (m.spec.forkAt x d).isBranching with
    | false => rfl
    | true =>
      have hd : d ∈ m.spec.alphabet := mem_alphabet_of_isBranching h.wf hb
      exact absurd ⟨_, mem_forks.2 ⟨x, hx, d, hd, rfl, hb⟩, rfl, rfl⟩ hin

theorem run_of_forks_nil (hm : m.spec.forks = []) (fuel passes : Nat) :
    run fuel m passes = (m, passes) := by
  cases fuel with
  | zero => rfl
  | succ fuel => simp [run, hm]

/-- Run with enough passes, subset construction keeps the invariant and ends without forks. -/
theorem Inv.run (h : Inv S m) (fuel passes : Nat) (hfuel : 2 * 2 ^ S.size < m.spec.size + fuel) :
    Inv S (Merger.run fuel m passes).1 ∧ (Merger.run fuel m passes).1.spec.forks = [] := by
  induction fuel generalizing m passes with
  | zero =>
    have := h.size_le_bound
    omega
  | succ fuel ih =>
    simp only [Merger.run]
    split
    · rename_i hfs
      exact ⟨h, List.isEmpty_iff.1 hfs⟩
    · obtain ⟨h', hle, hfree⟩ := Inv.pass h
      by_cases hsize : (m.spec.forks.foldl Merger.resolve m).spec.size = m.spec.size
      · rw [run_of_forks_nil (hfree hsize)]
        exact ⟨h', hfree hsize⟩
      · -- the pass added a state, which pays for the pass
        exact ih h' (passes + 1) (by omega)

/-! Well-formedness alone needs no bound on the terminal ids: it survives every resolution, of
current forks or of forks an earlier resolution of the pass has made stale. -/

theorem alphabet_stateFor : (m.stateFor f).1.spec.alphabet = m.spec.alphabet := by
  unfold stateFor
  split <;> simp

theorem alphabet_resolve : (m.resolve f).spec.alphabet = m.spec.alphabet := by
  rw [resolve_eq]
  simp [alphabet_stateFor]

/-- The state for a fork exists, and the specification stays well formed. -/
theorem wellFormed_stateFor (hs : m.spec.WellFormed) (hc : m.covers.size = m.spec.size) :
    (m.stateFor f).1.spec.WellFormed ∧
      (m.stateFor f).1.covers.size = (m.stateFor f).1.spec.size ∧
      (m.stateFor f).2 < (m.stateFor f).1.spec.size := by
  unfold stateFor
  split
  · rename_i q hq
    obtain ⟨hlt, -⟩ := Array.findIdx?_eq_some_iff_getElem.1 hq
    exact ⟨hs, hc, hc ▸ hlt⟩
  · exact ⟨wellFormed_merge hs, by simp [covers_merge, hc], by simp⟩

theorem wellFormed_resolve (hs : m.spec.WellFormed) (hc : m.covers.size = m.spec.size)
    (hp : f.parent < m.spec.size) (hsym : f.symbol ∈ m.spec.alphabet) :
    (m.resolve f).spec.WellFormed ∧ (m.resolve f).covers.size = (m.resolve f).spec.size := by
  obtain ⟨hs', hc', hq⟩ := wellFormed_stateFor (f := f) hs hc
  have hp' := Nat.lt_of_lt_of_le hp (size_stateFor_le m f)
  rw [resolve_eq]
  exact ⟨hs'.redirect hp' hq (by rwa [alphabet_stateFor]), by simpa using hc'⟩

theorem wellFormed_foldl_resolve (fs : List Fork) (hs : m.spec.WellFormed)
    (hc : m.covers.size = m.spec.size)
    (hfs : ∀ f ∈ fs, f.parent < m.spec.size ∧ f.symbol ∈ m.spec.alphabet) :
    (fs.foldl Merger.resolve m).spec.WellFormed ∧
      (fs.foldl Merger.resolve m).covers.size = (fs.foldl Merger.resolve m).spec.size := by
  induction fs generalizing m with
  | nil => exact ⟨hs, hc⟩
  | cons f fs ih =>
    obtain ⟨hp, hsym⟩ := hfs f List.mem_cons_self
    obtain ⟨hs', hc'⟩ := wellFormed_resolve hs hc hp hsym
    -- the later forks of the pass still name existing states and alphabet symbols
    refine ih hs' hc' fun g hg => ?_
    obtain ⟨hgp, hgs⟩ := hfs g (List.mem_cons_of_mem f hg)
    exact ⟨Nat.lt_of_lt_of_le hgp (size_resolve_le m f), by rwa [alphabet_resolve]⟩

theorem wellFormed_run (hs : m.spec.WellFormed) (hc : m.covers.size = m.spec.size)
    (fuel passes : Nat) : (Merger.run fuel m passes).1.spec.WellFormed := by
  induction fuel generalizing m passes with
  | zero => exact hs
  | succ fuel ih =>
    simp only [Merger.run]
    split
    · exact hs
    · have hfs : ∀ f ∈ m.spec.forks,
          f.parent < m.spec.size ∧ f.symbol ∈ m.spec.alphabet := by
        intro f hf
        obtain ⟨q, hq, c, hc, rfl, -⟩ := mem_forks.1 hf
        exact ⟨hq, hc⟩
      obtain ⟨hs', hc'⟩ := wellFormed_foldl_resolve _ hs hc hfs
      exact ih hs' hc' _

end Merger

/-- Subset construction keeps a specification well formed, whether or not its passes ran out. -/
theorem Merger.wellFormed_removeForks {S : RuleSpec} (hS : S.WellFormed) :
    S.removeForks.1.WellFormed :=
  wellFormed_run (m := init S) hS (by simp [init, RuleSpec.size]) (passBound S.size) 0

/-- Subset construction ends without forks, with the invariant over the original
specification. -/
theorem Merger.inv_removeForks {S : RuleSpec} (hS : S.WellFormed)
    (hterm : ∀ q ∈ S.terminals, q < S.size) :
    ∃ m : Merger, Merger.Inv S m ∧ m.spec.forks = [] ∧ S.removeForks.1 = m.spec := by
  obtain ⟨h, hfree⟩ := (inv_init hS hterm).run (passBound S.size) 0 (by
    simp only [passBound, spec_init, Nat.pow_eq]
    omega)
  exact ⟨_, h, hfree, rfl⟩

end LexLR
