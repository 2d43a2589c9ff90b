import LexLR.Proofs.Classified
/-!
# The scan for forks

The scan for forks visits the states by id and, within a state, the alphabet in order, and keeps
every state and symbol with more than one way forward. It reports each as a fork: the targets of
the state's transitions on the symbol, ascending, and whether a literal for the symbol stands
beside them. A specification also checks itself for determinism, by asking of every rule that
no symbol is read by two of its productions, whatever the symbol.

The two agree because every symbol a production reads is in the alphabet. That holds of every
specification a builder returns, whose alphabet is collected from its rules, and of every
specification determinizing makes of one: the alphabet is never recollected, but every rule that
subset construction writes reads only symbols that rules read before. Main statement:
`ForkScan.of_produced`.
-/

namespace LexLR

/-! ## Erasing duplicates -/

/-- Erasing duplicates from a list onto a list of kept members keeps at most all of both. -/
theorem List.length_eraseDupsBy_loop_le {α : Type} [BEq α] (as bs : List α) :
    (List.eraseDupsBy.loop (· == ·) as bs).length ≤ as.length + bs.length := by
  induction as generalizing bs with
  | nil => simp [List.eraseDupsBy.loop]
  | cons a as ih =>
    unfold List.eraseDupsBy.loop
    split
    · have := ih bs
      simp only [List.length_cons]
      omega
    · have := ih (a :: bs)
      simp only [List.length_cons] at this ⊢
      omega

/-- Erasing duplicates from `l` onto the kept list `k` keeps every member only of a list `l`
without repeats, none of which was kept before. -/
theorem List.nodup_of_length_eraseDupsBy_loop {α : Type} [BEq α] [LawfulBEq α]
    {l k : List α} (h : (List.eraseDupsBy.loop (· == ·) l k).length = l.length + k.length) :
    l.Nodup ∧ ∀ a ∈ l, a ∉ k := by
  induction l generalizing k with
  | nil => simp
  | cons a l ih =>
    unfold List.eraseDupsBy.loop at h
    split at h
    · -- `a` was kept before, so it is dropped and the result falls short
      have := List.length_eraseDupsBy_loop_le l k
      simp only [List.length_cons] at h
      omega
    · rename_i hnew
      have ha : a ∉ k := fun hk => (by simpa using hnew : ∀ x ∈ k, ¬a = x) a hk rfl
      obtain ⟨hnd, hdis⟩ := ih (k := a :: k) (by simp only [List.length_cons] at h ⊢; omega)
      refine ⟨List.nodup_cons.2 ⟨fun hm => hdis a hm List.mem_cons_self, hnd⟩,
        fun x hx => ?_⟩
      rcases List.mem_cons.1 hx with rfl | hx
      · exact ha
      · exact fun hk => hdis x hx (List.mem_cons_of_mem a hk)

/-- A list that erasing duplicates leaves as long as it was has no repeats. -/
theorem List.nodup_of_length_eraseDups {α : Type} [BEq α] [LawfulBEq α] {l : List α}
    (h : l.eraseDups.length = l.length) : l.Nodup :=
  (List.nodup_of_length_eraseDupsBy_loop (k := []) (by simpa [List.eraseDups, List.eraseDupsBy]
    using h)).1

/-- A production that reads a symbol and has a target is a transition. -/
theorem Production.eq_transition {p : Production} {c : Char} {t : Nat}
    (ht : p.target? = some t) (hc : p.symbol? = some c) : p = .transition c t := by
  cases p <;> simp_all [Production.target?, Production.symbol?]

namespace Rule

/-- A rule whose productions read no symbol twice has at most one production on each symbol. -/
theorem length_withSymbol_le_one {r : Rule}
    (h : (r.productions.filterMap Production.symbol?).Nodup) (c : Char) :
    (r.withSymbol c).length ≤ 1 := by
  rw [withSymbol, ← List.countP_eq_length_filter, ← List.count_filterMap]
  exact List.nodup_iff_count_le_one.1 h c

end Rule

namespace RuleSpec

variable {s : RuleSpec}

/-! ## What a fork reports -/

/-- An ordered rule lists the transitions on one symbol by target, so a fork's targets are
ascending. -/
theorem forkAt_targets_pairwise (hr : (s.rule q).Sorted) (c : Char) :
    (s.forkAt q c).targets.Pairwise (· < ·) := by
  rw [forkAt_targets]
  have hw : ((s.rule q).withSymbol c).Pairwise fun p p' => compare p p' = .lt :=
    List.Pairwise.filter _ hr
  refine List.pairwise_filterMap.2 (hw.imp_of_mem fun {p p'} hp hp' hlt => ?_)
  -- both productions read `c`, so they are transitions on `c` ordered by their targets
  have hc := (Rule.mem_withSymbol.1 hp).2
  have hc' := (Rule.mem_withSymbol.1 hp').2
  intro t ht t' ht'
  obtain rfl := Production.eq_transition ht hc
  obtain rfl := Production.eq_transition ht' hc'
  have hlt' : Production.compare (.transition c t) (.transition c t') = .lt := hlt
  simpa [Production.compare, Ordering.then_eq_lt, compare_lt_iff_lt] using hlt'

/-- Forks come by state id and, within a state, in alphabet order. -/
theorem forks_ordered (hs : s.alphabet.Pairwise (· < ·)) :
    s.forks.Pairwise fun f g =>
      f.parent < g.parent ∨ (f.parent = g.parent ∧ f.symbol < g.symbol) := by
  unfold forks
  refine List.pairwise_flatMap.2 ⟨fun q _ => ?_, ?_⟩
  · -- the forks of one state follow the alphabet
    exact List.Pairwise.filter _ (List.pairwise_map.2 (hs.imp fun h => .inr ⟨rfl, h⟩))
  · refine List.pairwise_lt_range.imp fun {q q'} hlt => ?_
    intro f hf g hg
    obtain ⟨⟨c, -, rfl⟩, -⟩ := List.mem_filter.1 hf |>.imp_left List.mem_map.1
    obtain ⟨⟨d, -, rfl⟩, -⟩ := List.mem_filter.1 hg |>.imp_left List.mem_map.1
    exact .inl hlt

/-- A specification whose rules read no symbol twice has no fork. -/
theorem forks_eq_nil_of_isDeterministic (h : s.isDeterministic = true) : s.forks = [] := by
  simp only [isDeterministic, Array.all_eq_true, beq_iff_eq] at h
  refine forks_eq_nil_iff.2 fun q hq c _ => isBranching_eq_false_of_length_le ?_
  have hq' : q < s.rules.size := hq
  have hrule : s.rule q = s.rules[q] := by
    rw [rule_eq_getD, Array.getElem?_eq_getElem hq', Option.getD_some]
  rw [hrule]
  exact Rule.length_withSymbol_le_one (List.nodup_of_length_eraseDups (h q hq)) c

/-! ## The scan of a specification -/

/-- What the scan for forks reports of a specification, and how it relates to the
specification's own check for determinism. -/
structure ForkScan (s : RuleSpec) : Prop where
  /-- Every symbol a production reads is in the alphabet. -/
  symbol_mem : ∀ {q p c}, p ∈ (s.rule q).productions → p.symbol? = some c → c ∈ s.alphabet
  /-- No rule reads a symbol twice exactly when the scan finds no fork. -/
  deterministic_iff : s.isDeterministic = true ↔ s.forks = []
  /-- A fork is a state and a symbol of the alphabet. -/
  fork_mem : ∀ f ∈ s.forks, f.parent < s.size ∧ f.symbol ∈ s.alphabet
  /-- A fork lists the targets of its state's transitions on its symbol, -/
  targets_iff : ∀ f ∈ s.forks, ∀ t, t ∈ f.targets ↔ s.Moves f.parent f.symbol t
  /-- ascending, -/
  targets_pairwise : ∀ f ∈ s.forks, f.targets.Pairwise (· < ·)
  /-- and is accepting when the state has a literal for the symbol; -/
  accepting_iff : ∀ f ∈ s.forks, f.accepting = true ↔ s.HasLiteral f.parent f.symbol
  /-- together these are at least two ways forward. -/
  branching : ∀ f ∈ s.forks, 2 ≤ f.targets.length + (if f.accepting then 1 else 0)
  /-- Every state with more than one way forward on a symbol, of the alphabet or not, is
  reported. -/
  complete : ∀ q < s.size, ∀ c, (s.forkAt q c).isBranching = true → s.forkAt q c ∈ s.forks
  /-- Forks come by state id, then in alphabet order, -/
  ordered : s.forks.Pairwise fun f g =>
    f.parent < g.parent ∨ (f.parent = g.parent ∧ f.symbol < g.symbol)
  /-- so no state and symbol is reported twice. -/
  keys_nodup : (s.forks.map fun f => (f.parent, f.symbol)).Nodup

/-- The scan of a well-formed specification. -/
theorem WellFormed.forkScan (hs : s.WellFormed) : s.ForkScan where
  symbol_mem := hs.symbol_mem
  deterministic_iff := ⟨forks_eq_nil_of_isDeterministic, isDeterministic_of_forks_nil hs⟩
  fork_mem f hf := by
    obtain ⟨q, hq, c, hc, rfl, -⟩ := mem_forks.1 hf
    exact ⟨hq, hc⟩
  targets_iff f hf t := by
    obtain ⟨q, -, c, -, rfl, -⟩ := mem_forks.1 hf
    exact mem_forkAt_targets
  targets_pairwise f hf := by
    obtain ⟨q, -, c, -, rfl, -⟩ := mem_forks.1 hf
    exact forkAt_targets_pairwise (hs.rule_sorted q) c
  accepting_iff f hf := by
    obtain ⟨q, -, c, -, rfl, -⟩ := mem_forks.1 hf
    exact forkAt_accepting_iff
  branching f hf := by
    obtain ⟨-, -, -, -, -, hb⟩ := mem_forks.1 hf
    simp only [Fork.isBranching, decide_eq_true_eq] at hb
    omega
  complete q hq c hb := mem_forks.2 ⟨q, hq, c, mem_alphabet_of_isBranching hs hb, rfl, hb⟩
  ordered := forks_ordered hs.alphabet_sorted
  keys_nodup := forks_keys_nodup hs.alphabet_sorted

/-- For every specification a builder returns, and every specification determinizing leaves of
one, every symbol a production reads is in the alphabet, so its check for determinism holds
exactly when the scan finds no fork; and the scan reports, by state id and then in alphabet
order, each state and symbol with at least two ways forward once, with the targets of its
transitions on the symbol and whether it has a literal for it. -/
theorem ForkScan.of_produced {S : RuleSpec} (hS : S.Produced) : S.ForkScan :=
  hS.wellFormed.forkScan

theorem forkingSpec_forkScan : forkingSpec.Produced ∧ forkingSpec.ForkScan :=
  have h : forkingSpec.Produced := .build forkingSteps rfl
  ⟨h, ForkScan.of_produced h⟩

end RuleSpec

end LexLR
