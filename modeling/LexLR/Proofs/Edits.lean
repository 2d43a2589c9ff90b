import LexLR.Subset
import LexLR.Proofs.Built
/-!
# What the edits of subset construction change

Subset construction edits a specification in two ways only: it appends a state, and it replaces
the rule of an existing state. This module says, for each, what a reader of the specification
sees afterwards (rules, terminal flags, reserved words, names, transitions and literals), and
what a fork and a cover are in terms of membership. Later proofs cite these lemmas and never
unfold the edits.
-/

namespace LexLR

namespace RuleSpec

variable {s : RuleSpec} {r : Rule} {term : Bool} {w : Option String} {p q : Nat} {c : Char}

theorem rule_eq_getD (s : RuleSpec) (q : Nat) : s.rule q = (s.rules[q]?).getD {} := by
  simp [rule]

theorem rule_of_size_le (h : s.size ≤ q) : s.rule q = {} := by
  rw [rule_eq_getD, Array.getElem?_eq_none h, Option.getD_none]

@[simp]
theorem size_pushState : (s.pushState r term w).1.size = s.size + 1 := by
  simp [pushState, size]

@[simp]
theorem pushState_snd : (s.pushState r term w).2 = s.size :=
  rfl

@[simp]
theorem alphabet_pushState : (s.pushState r term w).1.alphabet = s.alphabet :=
  rfl

theorem rule_pushState : (s.pushState r term w).1.rule q = if q = s.size then r else s.rule q := by
  simp only [pushState, rule_eq_getD, Array.getElem?_push, size]
  split <;> simp

theorem isTerminal_pushState :
    (s.pushState r term w).1.isTerminal q = true ↔
      s.isTerminal q = true ∨ (term = true ∧ q = s.size) := by
  simp only [pushState, isTerminal]
  cases term <;> simp [IdSet.mem_insert, or_comm]

theorem name?_pushState : (s.pushState r term w).1.name? q = s.name? q := by
  simp only [pushState, name?, Array.getElem?_push]
  split
  · rename_i h
    simp [h]
  · rfl

theorem lookup_cons_ite {e : Nat} {v : String} {rest : List (Nat × String)} :
    ((e, v) :: rest).lookup q = if q = e then some v else rest.lookup q := by
  rw [List.lookup_cons]
  cases h : q == e
  · have hne : q ≠ e := by simpa using h
    simp [hne]
  · have heq : q = e := by simpa using h
    simp [heq]

theorem lookup_putKeyword {k : String} {l : List (Nat × String)} :
    (putKeyword p k l).lookup q = if q = p then some k else l.lookup q := by
  fun_induction putKeyword p k l with
  | case1 => simp [lookup_cons_ite]
  | case2 e v rest _ => simp only [lookup_cons_ite]
  | case3 v rest _ => by_cases h : q = p <;> simp [lookup_cons_ite, h]
  | case4 e v rest hlt hne ih =>
    rw [lookup_cons_ite, ih, lookup_cons_ite]
    by_cases h : q = e
    · have hep : e ≠ p := fun h' => hne h'.symm
      simp [h, hep]
    · by_cases h' : q = p <;> simp [h, h', hne]

theorem keyword?_pushState (hk : ∀ e ∈ s.keywords, e.1 < s.size) :
    (s.pushState r term w).1.keyword? q = if q = s.size then w else s.keyword? q := by
  cases w with
  | none =>
    show s.keywords.lookup q = _
    split
    · rename_i h
      subst h
      -- no keyword state is numbered beyond the last state
      rw [List.lookup_eq_none_iff]
      intro e he
      have := hk e he
      simpa using Nat.ne_of_gt this
    · rfl
  | some k => simp [pushState, keyword?, lookup_putKeyword]

@[simp]
theorem size_setRule : (s.setRule p r).size = s.size := by
  simp [setRule, size]

@[simp]
theorem alphabet_setRule : (s.setRule p r).alphabet = s.alphabet :=
  rfl

@[simp]
theorem terminals_setRule : (s.setRule p r).terminals = s.terminals :=
  rfl

@[simp]
theorem keywords_setRule : (s.setRule p r).keywords = s.keywords :=
  rfl

@[simp]
theorem isTerminal_setRule : (s.setRule p r).isTerminal q = s.isTerminal q :=
  rfl

@[simp]
theorem keyword?_setRule : (s.setRule p r).keyword? q = s.keyword? q :=
  rfl

@[simp]
theorem name?_setRule : (s.setRule p r).name? q = s.name? q :=
  rfl

theorem rule_setRule : (s.setRule p r).rule q = if q = p ∧ p < s.size then r else s.rule q := by
  simp only [setRule, rule_eq_getD, Array.set!_eq_setIfInBounds, Array.getElem?_setIfInBounds]
  by_cases hq : q = p
  · subst hq
    by_cases hp : q < s.rules.size
    · simp [hp, size]
    · simp [hp, size]
  · simp [hq, Ne.symm hq]

/-- Sending the productions of `p` on `c` to one transition, to `t`, changes the transitions of
`p` on `c` only. -/
theorem moves_redirect (hp : p < s.size) {t x y : Nat} {d : Char} :
    (s.setRule p (((s.rule p).removeSymbol c).insert (.transition c t))).Moves x d y ↔
      if x = p ∧ d = c then y = t else s.Moves x d y := by
  unfold Moves
  rw [rule_setRule]
  by_cases hx : x = p
  · subst hx
    simp only [hp, and_true, if_true, Rule.mem_insert, Rule.mem_removeSymbol,
      Production.transition.injEq, Production.symbol?, ne_eq, Option.some.injEq]
    by_cases hd : d = c
    · subst hd
      simp
    · simp [hd]
  · simp [hx]

theorem hasLiteral_redirect (hp : p < s.size) {t x : Nat} {d : Char} :
    (s.setRule p (((s.rule p).removeSymbol c).insert (.transition c t))).HasLiteral x d ↔
      ¬(x = p ∧ d = c) ∧ s.HasLiteral x d := by
  unfold HasLiteral
  rw [rule_setRule]
  by_cases hx : x = p
  · subst hx
    simp only [hp, and_true, if_true, Rule.mem_insert, Rule.mem_removeSymbol,
      Production.symbol?, ne_eq, Option.some.injEq, reduceCtorEq, false_or, true_and]
    exact and_comm
  · simp only [hx, false_and, if_false, not_false_eq_true, true_and]

theorem withSymbol_redirect {t x : Nat} {d : Char} (h : ¬(x = p ∧ d = c)) :
    ((s.setRule p (((s.rule p).removeSymbol c).insert (.transition c t))).rule x).withSymbol d =
      (s.rule x).withSymbol d := by
  rw [rule_setRule]
  split
  · rename_i hx
    obtain ⟨rfl, -⟩ := hx
    have hd : d ≠ c := fun hd => h ⟨rfl, hd⟩
    simp only [Rule.withSymbol, Rule.insert, Rule.removeSymbol]
    rw [Rule.filter_insertInto (by simp [Production.symbol?, Ne.symm hd]), List.filter_filter]
    congr 1
    funext a
    cases ha : a.symbol? with
    | none => simp
    | some e => by_cases he : e = d <;> simp [he, hd]
  · rfl

/-- Sending a state's productions on a symbol of the alphabet to one existing state keeps a
specification well formed. -/
theorem WellFormed.redirect (hs : s.WellFormed) (hp : p < s.size) {t : Nat} (ht : t < s.size)
    (hc : c ∈ s.alphabet) :
    (s.setRule p (((s.rule p).removeSymbol c).insert (.transition c t))).WellFormed where
  start_lt := by simpa using hs.start_lt
  target_lt {x d y} hm := by
    simp only [size_setRule]
    rw [moves_redirect hp] at hm
    split at hm
    · rwa [hm]
    · exact hs.target_lt hm
  symbol_mem {x a d} ha hd := by
    simp only [alphabet_setRule]
    rw [rule_setRule] at ha
    split at ha
    · rcases Rule.mem_insert.1 ha with rfl | ha
      · simp only [Production.symbol?, Option.some.injEq] at hd
        rwa [← hd]
      · exact hs.symbol_mem (Rule.mem_removeSymbol.1 ha).1 hd
    · exact hs.symbol_mem ha hd
  alphabet_sorted := by simpa using hs.alphabet_sorted
  rule_sorted x := by
    rw [rule_setRule]
    split
    · exact ((hs.rule_sorted p).removeSymbol c).insert _
    · exact hs.rule_sorted x
  keyword_lt := by simpa using hs.keyword_lt
  keywords_sorted := by simpa using hs.keywords_sorted

@[simp]
theorem forkAt_parent : (s.forkAt q c).parent = q :=
  rfl

@[simp]
theorem forkAt_symbol : (s.forkAt q c).symbol = c :=
  rfl

/-- A state's productions on a symbol determine its fork there. -/
theorem forkAt_targets : (s.forkAt q c).targets = ((s.rule q).withSymbol c).filterMap
    Production.target? :=
  rfl

theorem mem_forkAt_targets {t : Nat} : t ∈ (s.forkAt q c).targets ↔ s.Moves q c t := by
  rw [forkAt_targets, List.mem_filterMap]
  constructor
  · rintro ⟨p, hw, ht⟩
    obtain ⟨hp, hc⟩ := Rule.mem_withSymbol.1 hw
    cases p with
    | transition d u =>
      simp only [Production.target?, Option.some.injEq] at ht
      simp only [Production.symbol?, Option.some.injEq] at hc
      subst ht hc
      exact hp
    | literal d => simp [Production.target?] at ht
    | epsilon => simp [Production.target?] at ht
  · intro h
    exact ⟨.transition c t, Rule.mem_withSymbol.2 ⟨h, rfl⟩, rfl⟩

theorem forkAt_accepting_iff : (s.forkAt q c).accepting = true ↔ s.HasLiteral q c := by
  simp only [forkAt, List.any_eq_true]
  constructor
  · rintro ⟨p, hw, hl⟩
    obtain ⟨hp, hc⟩ := Rule.mem_withSymbol.1 hw
    cases p with
    | literal d =>
      simp only [Production.symbol?, Option.some.injEq] at hc
      subst hc
      exact hp
    | epsilon => simp at hl
    | transition d u => simp at hl
  · intro h
    exact ⟨.literal c, Rule.mem_withSymbol.2 ⟨h, rfl⟩, rfl⟩

/-- A symbol on which a state forks is read by one of its productions. -/
theorem mem_alphabet_of_isBranching (hs : s.WellFormed) (hb : (s.forkAt q c).isBranching = true) :
    c ∈ s.alphabet := by
  simp only [Fork.isBranching, decide_eq_true_eq] at hb
  cases ht : (s.forkAt q c).targets with
  | nil =>
    -- without targets, the fork is a literal beside nothing: it cannot branch
    rw [ht] at hb
    split at hb <;> simp at hb
  | cons t ts =>
    have hm : s.Moves q c t := mem_forkAt_targets.1 (by rw [ht]; exact List.mem_cons_self)
    exact hs.symbol_mem hm rfl

/-- A state with the same productions on a symbol has the same fork there. -/
theorem forkAt_congr {s' : RuleSpec} (h : (s.rule q).withSymbol c = (s'.rule q).withSymbol c) :
    s.forkAt q c = s'.forkAt q c := by
  unfold forkAt
  rw [h]

/-- Two states with the same productions on a symbol fork alike there. -/
theorem isBranching_forkAt_congr {s' : RuleSpec} {q' : Nat}
    (h : (s.rule q).withSymbol c = (s'.rule q').withSymbol c) :
    (s.forkAt q c).isBranching = (s'.forkAt q' c).isBranching := by
  unfold forkAt
  rw [h]
  rfl

end RuleSpec

namespace Merger

variable {m : Merger} {f : Fork} {c : Cover} {q : Nat}

theorem mem_coverOf {x : Nat} :
    x ∈ (m.coverOf f).states ↔ ∃ t ∈ f.targets, x ∈ (m.cover t).states := by
  simp only [coverOf]
  suffices ∀ acc : List Nat,
      x ∈ f.targets.foldl (fun acc t => IdSet.union acc (m.cover t).states) acc ↔
        x ∈ acc ∨ ∃ t ∈ f.targets, x ∈ (m.cover t).states by
    simpa using this []
  intro acc
  induction f.targets generalizing acc with
  | nil => simp
  | cons t ts ih =>
    rw [List.foldl_cons, ih, IdSet.mem_union]
    simp only [List.mem_cons]
    grind

theorem coverOf_literal :
    (m.coverOf f).literal = true ↔
      f.accepting = true ∨ ∃ t ∈ f.targets, (m.cover t).literal = true := by
  simp [coverOf]

theorem coverOf_pairwise : (m.coverOf f).states.Pairwise (· < ·) := by
  simp only [coverOf]
  suffices ∀ acc : List Nat, acc.Pairwise (· < ·) →
      (f.targets.foldl (fun acc t => IdSet.union acc (m.cover t).states) acc).Pairwise
        (· < ·) from
    this [] List.Pairwise.nil
  intro acc hacc
  induction f.targets generalizing acc with
  | nil => exact hacc
  | cons t ts ih => exact ih _ (IdSet.union_pairwise hacc _)

theorem mem_foldl_union {g : Nat → Rule} {a : Production} {ts : List Nat} {r : Rule} :
    a ∈ (ts.foldl (fun r t => r.union (g t)) r).productions ↔
      a ∈ r.productions ∨ ∃ t ∈ ts, a ∈ (g t).productions := by
  induction ts generalizing r with
  | nil => simp
  | cons t ts ih =>
    rw [List.foldl_cons, ih, Rule.mem_union]
    simp only [List.mem_cons]
    grind

theorem foldl_union_sorted {g : Nat → Rule} {ts : List Nat} {r : Rule} (h : r.Sorted) :
    (ts.foldl (fun r t => r.union (g t)) r).Sorted := by
  induction ts generalizing r with
  | nil => exact h
  | cons t ts ih => exact ih (h.union _)

theorem cover_eq_getD (m : Merger) (q : Nat) : m.cover q = (m.covers[q]?).getD ⟨[], false⟩ := by
  simp [cover]

@[simp]
theorem merge_snd : (m.merge f c).2 = m.spec.size :=
  rfl

@[simp]
theorem words_merge : (m.merge f c).1.words = m.words :=
  rfl

theorem spec_merge : (m.merge f c).1.spec = (m.spec.pushState
    (f.targets.foldl (fun r t => r.union (m.spec.rule t)) {})
    (c.literal || f.targets.any m.spec.isTerminal) (m.wordOf c)).1 :=
  rfl

theorem cover_merge (h : m.covers.size = m.spec.size) :
    (m.merge f c).1.cover q = if q = m.spec.size then c else m.cover q := by
  simp only [merge, cover_eq_getD, Array.getElem?_push, h]
  split <;> rfl

@[simp]
theorem size_merge : (m.merge f c).1.spec.size = m.spec.size + 1 := by
  simp [spec_merge]

@[simp]
theorem alphabet_merge : (m.merge f c).1.spec.alphabet = m.spec.alphabet :=
  rfl

theorem covers_merge : (m.merge f c).1.covers = m.covers.push c :=
  rfl

/-- Appending a state for a cover no state has keeps covers unrepeated. -/
theorem covers_merge_nodup (hnd : m.covers.toList.Nodup)
    (hnew : m.covers.findIdx? (· == c) = none) : (m.merge f c).1.covers.toList.Nodup := by
  rw [covers_merge, Array.toList_push, List.nodup_append]
  refine ⟨hnd, List.nodup_cons.2 ⟨List.not_mem_nil, List.nodup_nil⟩, fun a ha b hb hab => ?_⟩
  rw [List.mem_singleton] at hb
  subst hb hab
  have := Array.findIdx?_eq_none_iff.1 hnew _ (Array.mem_toList_iff.1 ha)
  simp at this

/-- The new state's transitions are those of the fork's targets. -/
theorem moves_merge {x y : Nat} {d : Char} :
    (m.merge f c).1.spec.Moves x d y ↔
      if x = m.spec.size then ∃ t ∈ f.targets, m.spec.Moves t d y else m.spec.Moves x d y := by
  unfold RuleSpec.Moves
  rw [spec_merge, RuleSpec.rule_pushState]
  split
  · rw [mem_foldl_union]
    simp
  · rfl

theorem hasLiteral_merge {x : Nat} {d : Char} :
    (m.merge f c).1.spec.HasLiteral x d ↔
      if x = m.spec.size then ∃ t ∈ f.targets, m.spec.HasLiteral t d
      else m.spec.HasLiteral x d := by
  unfold RuleSpec.HasLiteral
  rw [spec_merge, RuleSpec.rule_pushState]
  split
  · rw [mem_foldl_union]
    simp
  · rfl

theorem rule_merge_of_lt {x : Nat} (hx : x < m.spec.size) :
    (m.merge f c).1.spec.rule x = m.spec.rule x := by
  rw [spec_merge, RuleSpec.rule_pushState, if_neg (Nat.ne_of_lt hx)]

theorem rule_merge_sorted (h : ∀ x, (m.spec.rule x).Sorted) (x : Nat) :
    ((m.merge f c).1.spec.rule x).Sorted := by
  rw [spec_merge, RuleSpec.rule_pushState]
  split
  · exact foldl_union_sorted Rule.sorted_empty
  · exact h x

/-- The new state is terminal when the cover folds in a literal or a target is terminal. -/
theorem isTerminal_merge {x : Nat} :
    (m.merge f c).1.spec.isTerminal x = true ↔ m.spec.isTerminal x = true ∨
      ((c.literal = true ∨ ∃ t ∈ f.targets, m.spec.isTerminal t = true) ∧
        x = m.spec.size) := by
  rw [spec_merge, RuleSpec.isTerminal_pushState]
  simp

theorem keyword?_merge (hk : ∀ e ∈ m.spec.keywords, e.1 < m.spec.size) {x : Nat} :
    (m.merge f c).1.spec.keyword? x =
      if x = m.spec.size then m.wordOf c else m.spec.keyword? x := by
  rw [spec_merge, RuleSpec.keyword?_pushState hk]

theorem name?_merge {x : Nat} : (m.merge f c).1.spec.name? x = m.spec.name? x := by
  rw [spec_merge, RuleSpec.name?_pushState]

theorem terminals_merge {x : Nat} (hx : x ∈ (m.merge f c).1.spec.terminals) :
    x ∈ m.spec.terminals ∨ x = m.spec.size := by
  rw [spec_merge] at hx
  simp only [RuleSpec.pushState] at hx
  split at hx
  · rcases IdSet.mem_insert.1 hx with h | h
    · exact .inr h
    · exact .inl h
  · exact .inl hx

theorem keywords_merge {e : Nat × String} (he : e ∈ (m.merge f c).1.spec.keywords) :
    e.1 = m.spec.size ∨ e ∈ m.spec.keywords := by
  rw [spec_merge] at he
  simp only [RuleSpec.pushState] at he
  split at he
  · rcases mem_putKeyword he with rfl | h
    · exact .inl rfl
    · exact .inr h
  · exact .inr he

theorem keywords_merge_pairwise (h : m.spec.keywords.Pairwise fun a b => a.1 < b.1) :
    (m.merge f c).1.spec.keywords.Pairwise fun a b => a.1 < b.1 := by
  rw [spec_merge]
  simp only [RuleSpec.pushState]
  split
  · exact putKeyword_pairwise _ _ h
  · exact h

/-- Merging keeps a specification well formed: the new state reads what its targets read. -/
theorem wellFormed_merge (hs : m.spec.WellFormed) : (m.merge f c).1.spec.WellFormed where
  start_lt := by simp
  target_lt {x d y} hm := by
    rw [moves_merge] at hm
    simp only [size_merge]
    split at hm
    · obtain ⟨t, -, hm⟩ := hm
      have := hs.target_lt hm
      omega
    · have := hs.target_lt hm
      omega
  symbol_mem {x p d} hp hd := by
    rw [spec_merge, RuleSpec.rule_pushState] at hp
    rw [alphabet_merge]
    split at hp
    · obtain (hp | ⟨t, -, hp⟩) := mem_foldl_union.1 hp
      · simp at hp
      · exact hs.symbol_mem hp hd
    · exact hs.symbol_mem hp hd
  alphabet_sorted := by simpa using hs.alphabet_sorted
  rule_sorted := rule_merge_sorted hs.rule_sorted
  keyword_lt e he := by
    simp only [size_merge]
    rcases keywords_merge he with he | he
    · omega
    · have := hs.keyword_lt e he
      omega
  keywords_sorted := keywords_merge_pairwise hs.keywords_sorted

/-- The state a fork's targets are sent to: an existing state with their cover, or a new
one. -/
def stateFor (m : Merger) (f : Fork) : Merger × Nat :=
  match m.covers.findIdx? (· == m.coverOf f) with
  | some q => (m, q)
  | none => m.merge f (m.coverOf f)

/-- Resolving a fork sends the parent's productions on the symbol to the state for the fork. -/
theorem resolve_eq (m : Merger) (f : Fork) :
    m.resolve f =
      { (m.stateFor f).1 with
        spec := (m.stateFor f).1.spec.setRule f.parent
          ((((m.stateFor f).1.spec.rule f.parent).removeSymbol f.symbol).insert
            (.transition f.symbol (m.stateFor f).2)) } := by
  cases h : m.covers.findIdx? (· == m.coverOf f) <;> simp [resolve, stateFor, h]

theorem size_stateFor_le (m : Merger) (f : Fork) : m.spec.size ≤ (m.stateFor f).1.spec.size := by
  unfold stateFor
  split
  · exact Nat.le_refl _
  · simp

theorem rule_stateFor_of_lt {x : Nat} (hx : x < m.spec.size) :
    (m.stateFor f).1.spec.rule x = m.spec.rule x := by
  unfold stateFor
  split
  · rfl
  · exact rule_merge_of_lt hx

theorem cover_stateFor_of_lt (hc : m.covers.size = m.spec.size) {x : Nat}
    (hx : x < m.spec.size) : (m.stateFor f).1.cover x = m.cover x := by
  unfold stateFor
  split
  · rfl
  · rw [cover_merge hc, if_neg (Nat.ne_of_lt hx)]

/-- The state for a fork is a state whose cover is the fork's: one found with that cover, or one
appended for it. -/
theorem stateFor_cover (hc : m.covers.size = m.spec.size) :
    (m.stateFor f).2 < (m.stateFor f).1.spec.size ∧
      (m.stateFor f).1.cover (m.stateFor f).2 = m.coverOf f := by
  unfold stateFor
  split
  · rename_i q hq
    obtain ⟨hlt, heq, -⟩ := Array.findIdx?_eq_some_iff_getElem.1 hq
    refine ⟨hc ▸ hlt, ?_⟩
    rw [cover_eq_getD, Array.getElem?_eq_getElem hlt, Option.getD_some]
    simpa using heq
  · exact ⟨by simp, by simp [cover_merge hc]⟩

/-- A state is appended only for a cover no state has, so covers stay unrepeated. -/
theorem covers_stateFor_nodup (hnd : m.covers.toList.Nodup) :
    (m.stateFor f).1.covers.toList.Nodup := by
  unfold stateFor
  split
  · exact hnd
  · rename_i hnew
    exact covers_merge_nodup hnd hnew

theorem size_resolve_le (m : Merger) (f : Fork) : m.spec.size ≤ (m.resolve f).spec.size := by
  rw [resolve_eq]
  simpa using size_stateFor_le m f

/-- Resolving a fork leaves every other state and symbol as it was. -/
theorem withSymbol_resolve_of_ne {x : Nat} {d : Char} (hx : x < m.spec.size)
    (hne : ¬(x = f.parent ∧ d = f.symbol)) :
    ((m.resolve f).spec.rule x).withSymbol d = (m.spec.rule x).withSymbol d := by
  rw [resolve_eq, RuleSpec.withSymbol_redirect hne, rule_stateFor_of_lt hx]

/-- After resolving a fork the parent has a single transition on the symbol. -/
theorem withSymbol_resolve_self (hp : f.parent < m.spec.size) :
    ((m.resolve f).spec.rule f.parent).withSymbol f.symbol =
      [.transition f.symbol (m.stateFor f).2] := by
  rw [resolve_eq, RuleSpec.rule_setRule,
    if_pos ⟨rfl, Nat.lt_of_lt_of_le hp (size_stateFor_le m f)⟩]
  apply Rule.filter_insertInto_single (by simp [Production.symbol?])
  intro x hx
  simpa using (Rule.mem_removeSymbol.1 (by simpa [Rule.removeSymbol] using hx)).2

end Merger

end LexLR
