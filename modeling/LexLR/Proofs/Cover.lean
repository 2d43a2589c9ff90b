import LexLR.Proofs.Edits
/-!
# The invariant of subset construction

While forks are being removed, every state stands for its cover: a set of original states and
a flag for a literal folded in. The invariant `Merger.Inv` says that the specification built so
far simulates the original one through the covers, one symbol at a time:

* the transitions of a state on a symbol lead, together, to the states the transitions of its
  covered states lead to, and
* a literal for the symbol, or a transition to a state whose flag is set, stands exactly for a
  literal of a covered state;
* a state is terminal when its flag is set or it covers a terminal state, and it carries the
  reserved word of the lowest keyword state it covers.

Alongside, the invariant keeps the shape facts that the construction needs: covers are ascending
lists of original states, no cover is repeated, and the original states keep their covers,
names and the productions of every symbol on which they had no fork. Here the invariant is shown
to hold at the start and to survive each resolution of a fork.
-/

namespace LexLR

open RuleSpec

/-- The reserved word of the first keyword state, in id order, that a predicate picks. -/
theorem keywordAmong_find {S : RuleSpec} (hs : S.keywords.Pairwise fun a b => a.1 < b.1)
    (P : Nat → Bool) :
    S.KeywordAmong (fun e => P e = true) ((S.keywords.find? fun e => P e.1).map Prod.snd) := by
  obtain ⟨rules, names, terminals, keywords, alphabet⟩ := S
  simp only at hs ⊢
  induction keywords with
  | nil => simp [KeywordAmong, keyword?]
  | cons e rest ih =>
    obtain ⟨he, hrest⟩ := List.pairwise_cons.1 hs
    have ih := ih hrest
    obtain ⟨x, k⟩ := e
    simp only [List.find?_cons]
    cases hx : P x with
    | true =>
      -- the head is the lowest keyword state, and it is picked
      refine ⟨x, hx, by simp [keyword?], fun e' he' _ => ?_⟩
      simp only [keyword?, lookup_cons_ite, if_neg (Nat.ne_of_lt he'), List.lookup_eq_none_iff]
      intro a ha
      have := he a ha
      simpa using Nat.ne_of_lt (Nat.lt_trans he' this)
    | false =>
      -- the head is skipped: every state picked differs from it
      have hne : ∀ e', P e' = true → e' ≠ x := fun e' h h' => by
        simp [h'] at h
        simp [h] at hx
      cases hf : rest.find? (fun e => P e.1) with
      | none =>
        rw [hf] at ih
        intro e' he'
        simp only [keyword?, lookup_cons_ite, if_neg (hne e' he')]
        exact ih e' he'
      | some a =>
        rw [hf] at ih
        obtain ⟨y, hy, hky, hlow⟩ := ih
        refine ⟨y, hy, ?_, fun e' he' hp => ?_⟩
        · simpa [keyword?, lookup_cons_ite, hne y hy] using hky
        · simpa [keyword?, lookup_cons_ite, hne e' hp] using hlow e' he' hp

namespace Merger

@[simp]
theorem cover_with_spec (m : Merger) (s : RuleSpec) (q : Nat) :
    ({ m with spec := s } : Merger).cover q = m.cover q :=
  rfl

/-- The invariant of subset construction over the original specification `S`. -/
structure Inv (S : RuleSpec) (m : Merger) : Prop where
  base : S.WellFormed
  wf : m.spec.WellFormed
  terminal_lt : ∀ q ∈ m.spec.terminals, q < m.spec.size
  alphabet : m.spec.alphabet = S.alphabet
  words : m.words = S.keywords
  covers_size : m.covers.size = m.spec.size
  size_le : S.size ≤ m.spec.size
  cover_original : ∀ q < S.size, m.cover q = ⟨[q], false⟩
  cover_sorted : ∀ q, (m.cover q).states.Pairwise (· < ·)
  cover_lt : ∀ q, ∀ p ∈ (m.cover q).states, p < S.size
  cover_ne_nil : ∀ q < m.spec.size, (m.cover q).states ≠ []
  covers_nodup : m.covers.toList.Nodup
  name_original : ∀ q < S.size, m.spec.name? q = S.name? q
  /-- An original state keeps its productions on every symbol on which it had no fork. -/
  unforked : ∀ q < S.size, ∀ c, (S.forkAt q c).isBranching = false →
    (m.spec.rule q).withSymbol c = (S.rule q).withSymbol c
  /-- The transitions of a state on a symbol reach what its covered states reach. -/
  moves : ∀ q c x, (∃ y, m.spec.Moves q c y ∧ x ∈ (m.cover y).states) ↔
    ∃ p ∈ (m.cover q).states, S.Moves p c x
  /-- A literal, or a transition to a flagged state, stands for a literal of a covered state. -/
  literal : ∀ q c,
    (m.spec.HasLiteral q c ∨ ∃ y, m.spec.Moves q c y ∧ (m.cover y).literal = true) ↔
      ∃ p ∈ (m.cover q).states, S.HasLiteral p c
  terminal : ∀ q < m.spec.size, m.spec.isTerminal q = true ↔
    (m.cover q).literal = true ∨ ∃ p ∈ (m.cover q).states, S.isTerminal p = true
  keyword : ∀ q < m.spec.size, S.KeywordAmong (· ∈ (m.cover q).states) (m.spec.keyword? q)

variable {S : RuleSpec} {m : Merger}

@[simp]
theorem spec_init (S : RuleSpec) : (init S).spec = S :=
  rfl

theorem cover_init (S : RuleSpec) (q : Nat) :
    (init S).cover q = if q < S.size then ⟨[q], false⟩ else ⟨[], false⟩ := by
  simp only [cover_eq_getD, init, Array.getElem?_map, Array.getElem?_range]
  split <;> simp [*]

/-- At the start the states cover themselves, so no cover is repeated. -/
theorem covers_init_nodup (S : RuleSpec) : (init S).covers.toList.Nodup := by
  simp only [init, Array.toList_map, Array.toList_range]
  exact List.Pairwise.map _ (fun a b h h' => h (by simpa using h')) List.nodup_range

/-- At the start every state covers itself. -/
theorem inv_init (hS : S.WellFormed) (hterm : ∀ q ∈ S.terminals, q < S.size) :
    Inv S (init S) := by
  have hcov := cover_init S
  -- the covers of the states a transition reaches
  have htarget : ∀ {q c y}, S.Moves q c y → (init S).cover y = ⟨[y], false⟩ := fun hm => by
    rw [hcov, if_pos (hS.target_lt hm)]
  refine ⟨hS, hS, hterm, rfl, rfl, by simp [init, size], Nat.le_refl _, fun q hq => ?_,
    fun q => ?_, fun q p hp => ?_, fun q hq => ?_, ?_, fun _ _ => rfl, fun _ _ _ _ => rfl,
    fun q c x => ?_, fun q c => ?_, fun q hq => ?_, fun q hq => ?_⟩
  · rw [hcov, if_pos hq]
  · rw [hcov]
    split <;> simp
  · rw [hcov] at hp
    split at hp
    · rename_i h
      simp only [List.mem_singleton] at hp
      omega
    · simp at hp
  · change q < S.size at hq
    simp [hcov, hq]
  · exact covers_init_nodup S
  · rw [spec_init]
    constructor
    · rintro ⟨y, hm, hx⟩
      rw [htarget hm, List.mem_singleton] at hx
      subst hx
      refine ⟨q, ?_, hm⟩
      have hq : q < S.size := by
        by_contra h
        rw [Moves, rule_of_size_le (Nat.le_of_not_lt h)] at hm
        simp at hm
      simp [hcov, hq]
    · rintro ⟨p, hp, hm⟩
      rw [hcov] at hp
      split at hp
      · simp only [List.mem_singleton] at hp
        subst hp
        exact ⟨x, hm, by simp [htarget hm]⟩
      · simp at hp
  · rw [spec_init]
    constructor
    · rintro (hl | ⟨y, hm, hy⟩)
      · have hq : q < S.size := by
          by_contra h
          rw [HasLiteral, rule_of_size_le (Nat.le_of_not_lt h)] at hl
          simp at hl
        exact ⟨q, by simp [hcov, hq], hl⟩
      · simp [htarget hm] at hy
    · rintro ⟨p, hp, hl⟩
      rw [hcov] at hp
      split at hp
      · simp only [List.mem_singleton] at hp
        subst hp
        exact .inl hl
      · simp at hp
  · change q < S.size at hq
    simp [hcov, hq, spec_init]
  · change q < S.size at hq
    rw [hcov, if_pos hq]
    exact keywordAmong_singleton.2 rfl

/-! ## A new state for a new cover -/

section Merge

variable {f : Fork} (h : Inv S m)
include h

/-- The transitions of the new state reach what the covered states reach. -/
theorem Inv.merge_moves (x : Nat) (d : Char) (z : Nat) :
    (∃ y, (m.merge f (m.coverOf f)).1.spec.Moves x d y ∧
        z ∈ ((m.merge f (m.coverOf f)).1.cover y).states) ↔
      ∃ p ∈ ((m.merge f (m.coverOf f)).1.cover x).states, S.Moves p d z := by
  simp only [moves_merge, cover_merge h.covers_size]
  by_cases hx : x = m.spec.size
  · simp only [hx, if_true, mem_coverOf]
    constructor
    · rintro ⟨y, ⟨t, ht, hm⟩, hz⟩
      rw [if_neg (Nat.ne_of_lt (h.wf.target_lt hm))] at hz
      obtain ⟨p, hp, hmp⟩ := (h.moves t d z).1 ⟨y, hm, hz⟩
      exact ⟨p, ⟨t, ht, hp⟩, hmp⟩
    · rintro ⟨p, ⟨t, ht, hp⟩, hmp⟩
      obtain ⟨y, hm, hz⟩ := (h.moves t d z).2 ⟨p, hp, hmp⟩
      exact ⟨y, ⟨t, ht, hm⟩, by rwa [if_neg (Nat.ne_of_lt (h.wf.target_lt hm))]⟩
  · simp only [hx, if_false]
    rw [← h.moves x d z]
    constructor
    · rintro ⟨y, hm, hz⟩
      rw [if_neg (Nat.ne_of_lt (h.wf.target_lt hm))] at hz
      exact ⟨y, hm, hz⟩
    · rintro ⟨y, hm, hz⟩
      exact ⟨y, hm, by rwa [if_neg (Nat.ne_of_lt (h.wf.target_lt hm))]⟩

/-- The literals of the new state, and its flagged transitions, are those of the targets. -/
theorem Inv.merge_literal (x : Nat) (d : Char) :
    ((m.merge f (m.coverOf f)).1.spec.HasLiteral x d ∨
        ∃ y, (m.merge f (m.coverOf f)).1.spec.Moves x d y ∧
          ((m.merge f (m.coverOf f)).1.cover y).literal = true) ↔
      ∃ p ∈ ((m.merge f (m.coverOf f)).1.cover x).states, S.HasLiteral p d := by
  simp only [moves_merge, hasLiteral_merge, cover_merge h.covers_size]
  by_cases hx : x = m.spec.size
  · simp only [hx, if_true, mem_coverOf]
    constructor
    · rintro (⟨t, ht, hl⟩ | ⟨y, ⟨t, ht, hm⟩, hy⟩)
      · obtain ⟨p, hp, hlp⟩ := (h.literal t d).1 (.inl hl)
        exact ⟨p, ⟨t, ht, hp⟩, hlp⟩
      · rw [if_neg (Nat.ne_of_lt (h.wf.target_lt hm))] at hy
        obtain ⟨p, hp, hlp⟩ := (h.literal t d).1 (.inr ⟨y, hm, hy⟩)
        exact ⟨p, ⟨t, ht, hp⟩, hlp⟩
    · rintro ⟨p, ⟨t, ht, hp⟩, hlp⟩
      rcases (h.literal t d).2 ⟨p, hp, hlp⟩ with hl | ⟨y, hm, hy⟩
      · exact .inl ⟨t, ht, hl⟩
      · exact .inr ⟨y, ⟨t, ht, hm⟩, by rwa [if_neg (Nat.ne_of_lt (h.wf.target_lt hm))]⟩
  · simp only [hx, if_false]
    rw [← h.literal x d]
    constructor
    · rintro (hl | ⟨y, hm, hy⟩)
      · exact .inl hl
      · rw [if_neg (Nat.ne_of_lt (h.wf.target_lt hm))] at hy
        exact .inr ⟨y, hm, hy⟩
    · rintro (hl | ⟨y, hm, hy⟩)
      · exact .inl hl
      · exact .inr ⟨y, hm, by rwa [if_neg (Nat.ne_of_lt (h.wf.target_lt hm))]⟩

/-- The new state is terminal exactly when its cover is. -/
theorem Inv.merge_terminal (hlt : ∀ t ∈ f.targets, t < m.spec.size) :
    (m.merge f (m.coverOf f)).1.spec.isTerminal m.spec.size = true ↔
      (m.coverOf f).literal = true ∨ ∃ p ∈ (m.coverOf f).states, S.isTerminal p = true := by
  have hnot : m.spec.isTerminal m.spec.size = false := by
    cases ht : m.spec.isTerminal m.spec.size with
    | false => rfl
    | true =>
      have := h.terminal_lt _ (List.contains_iff_mem.1 ht)
      omega
  rw [isTerminal_merge, hnot]
  simp only [Bool.false_eq_true, false_or, and_true, mem_coverOf]
  constructor
  · rintro (hl | ⟨t, ht, hterm⟩)
    · exact .inl hl
    · rcases (h.terminal t (hlt t ht)).1 hterm with hl | ⟨p, hp, hpt⟩
      · exact .inl (coverOf_literal.2 (.inr ⟨t, ht, hl⟩))
      · exact .inr ⟨p, ⟨t, ht, hp⟩, hpt⟩
  · rintro (hl | ⟨p, ⟨t, ht, hp⟩, hpt⟩)
    · exact .inl hl
    · exact .inr ⟨t, ht, (h.terminal t (hlt t ht)).2 (.inr ⟨p, hp, hpt⟩)⟩

/-- A cover seen for the first time gets a new state, and the invariant survives. -/
theorem Inv.merge (hlt : ∀ t ∈ f.targets, t < m.spec.size) (hne : f.targets ≠ [])
    (hnew : m.covers.findIdx? (· == m.coverOf f) = none) : Inv S (m.merge f (m.coverOf f)).1 := by
  have hcov : ∀ q, _ := fun q => cover_merge (f := f) (c := m.coverOf f) (q := q) h.covers_size
  refine ⟨h.base, wellFormed_merge h.wf, fun x hx => ?_, by simpa using h.alphabet,
    by simpa using h.words, by simp [covers_merge, h.covers_size],
    by simp; have := h.size_le; omega,
    fun q hq => ?_, fun q => ?_, fun q p hp => ?_, fun q hq => ?_, ?_,
    fun q hq => by rw [name?_merge, h.name_original q hq],
    fun q hq d hb => by rw [rule_merge_of_lt (by have := h.size_le; omega), h.unforked q hq d hb],
    h.merge_moves, h.merge_literal, fun q hq => ?_, fun q hq => ?_⟩
  · simp only [size_merge]
    rcases terminals_merge hx with hx | hx
    · have := h.terminal_lt x hx
      omega
    · omega
  · rw [hcov, if_neg (by have := h.size_le; omega), h.cover_original q hq]
  · rw [hcov]
    split
    · exact coverOf_pairwise
    · exact h.cover_sorted q
  · rw [hcov] at hp
    split at hp
    · obtain ⟨t, -, hp⟩ := mem_coverOf.1 hp
      exact h.cover_lt t p hp
    · exact h.cover_lt q p hp
  · rw [hcov]
    split
    · -- the new cover holds the cover of some target, which is not empty
      obtain ⟨t, ht⟩ := List.exists_mem_of_ne_nil _ hne
      obtain ⟨x, hx⟩ := List.exists_mem_of_ne_nil _ (h.cover_ne_nil t (hlt t ht))
      exact List.ne_nil_of_mem (mem_coverOf.2 ⟨t, ht, hx⟩)
    · rename_i hq'
      simp only [size_merge] at hq
      exact h.cover_ne_nil q (by omega)
  · exact covers_merge_nodup h.covers_nodup hnew
  · rw [hcov]
    split
    · rename_i hq'
      subst hq'
      exact h.merge_terminal hlt
    · rename_i hq'
      simp only [size_merge] at hq
      rw [isTerminal_merge, h.terminal q (by omega)]
      simp [hq']
  · rw [hcov, keyword?_merge h.wf.keyword_lt]
    split
    · -- the new state's word is that of the lowest keyword state of its cover
      have := keywordAmong_find h.base.keywords_sorted fun e => (m.coverOf f).states.contains e
      rw [← h.words] at this
      exact (keywordAmong_congr fun e => by simp).1 this
    · rename_i hq'
      simp only [size_merge] at hq
      exact h.keyword q (by omega)

end Merge

/-- The state for a fork exists, stands for the targets' cover, and leaves the states that
were there as they were. -/
theorem Inv.stateFor {f : Fork} (h : Inv S m) (hlt : ∀ t ∈ f.targets, t < m.spec.size)
    (hne : f.targets ≠ []) :
    Inv S (m.stateFor f).1 ∧ (m.stateFor f).2 < (m.stateFor f).1.spec.size ∧
      (m.stateFor f).1.cover (m.stateFor f).2 = m.coverOf f ∧
      m.spec.size ≤ (m.stateFor f).1.spec.size ∧
      ∀ x < m.spec.size, (m.stateFor f).1.spec.rule x = m.spec.rule x ∧
        (m.stateFor f).1.cover x = m.cover x := by
  obtain ⟨hq, hqc⟩ := stateFor_cover (f := f) h.covers_size
  refine ⟨?_, hq, hqc, size_stateFor_le m f,
    fun x hx => ⟨rule_stateFor_of_lt hx, cover_stateFor_of_lt h.covers_size hx⟩⟩
  -- a found state leaves the merger as it was; an appended one is `Inv.merge`
  unfold Merger.stateFor
  split
  · exact h
  · rename_i hnew
    exact h.merge hlt hne hnew

/-- Sending the productions of `p` on `c` to one transition, to a state whose cover is what
those productions stood for, keeps the invariant. -/
theorem Inv.redirect (h : Inv S m) {p q : Nat} {c : Char} (hp : p < m.spec.size)
    (hq : q < m.spec.size) (hbr : (m.spec.forkAt p c).isBranching = true)
    (hcov : ∀ x, x ∈ (m.cover q).states ↔
      ∃ t, m.spec.Moves p c t ∧ x ∈ (m.cover t).states)
    (hlit : (m.cover q).literal = true ↔
      m.spec.HasLiteral p c ∨ ∃ t, m.spec.Moves p c t ∧ (m.cover t).literal = true) :
    Inv S { m with spec := m.spec.setRule p (((m.spec.rule p).removeSymbol c).insert
      (.transition c q)) } := by
  have hc : c ∈ m.spec.alphabet := mem_alphabet_of_isBranching h.wf hbr
  refine ⟨h.base, h.wf.redirect hp hq hc, by simpa using h.terminal_lt, by simpa using h.alphabet,
    h.words, by simpa using h.covers_size, by simpa using h.size_le, h.cover_original,
    h.cover_sorted, h.cover_lt, by simpa using h.cover_ne_nil, h.covers_nodup,
    by simpa using h.name_original, fun x hx d hb => ?_, fun x d z => ?_, fun x d => ?_,
    by simpa using h.terminal, by simpa using h.keyword⟩
  · by_cases hxd : x = p ∧ d = c
    · -- a fork is resolved only where the original state had one
      obtain ⟨rfl, rfl⟩ := hxd
      have := isBranching_forkAt_congr (h.unforked x hx d hb)
      rw [hbr, hb] at this
      exact absurd this (by decide)
    · rw [withSymbol_redirect hxd]
      exact h.unforked x hx d hb
  · simp only [moves_redirect hp, cover_with_spec]
    by_cases hxd : x = p ∧ d = c
    · obtain ⟨rfl, rfl⟩ := hxd
      simp only [and_self, if_true, exists_eq_left, hcov]
      exact h.moves x d z
    · simp only [hxd, if_false]
      exact h.moves x d z
  · simp only [moves_redirect hp, hasLiteral_redirect hp, cover_with_spec]
    by_cases hxd : x = p ∧ d = c
    · obtain ⟨rfl, rfl⟩ := hxd
      simp only [and_self, not_true_eq_false, false_and, if_true, exists_eq_left, false_or, hlit]
      exact h.literal x d
    · simp only [hxd, if_false, not_false_eq_true, true_and]
      exact h.literal x d

/-- Resolving a fork that the specification still has keeps the invariant. -/
theorem Inv.resolve (h : Inv S m) {p : Nat} {c : Char} (hp : p < m.spec.size)
    (hbr : (m.spec.forkAt p c).isBranching = true) :
    Inv S (m.resolve (m.spec.forkAt p c)) := by
  have hlt : ∀ t ∈ (m.spec.forkAt p c).targets, t < m.spec.size := fun t ht =>
    h.wf.target_lt (mem_forkAt_targets.1 ht)
  have hne : (m.spec.forkAt p c).targets ≠ [] := by
    intro he
    simp only [Fork.isBranching, he, List.length_nil, Nat.zero_add, decide_eq_true_eq] at hbr
    split at hbr <;> omega
  obtain ⟨h', hq, hcq, hsize, hold⟩ := h.stateFor hlt hne
  rw [resolve_eq, forkAt_parent, forkAt_symbol]
  -- the old states keep their rules and covers, so the fork reads the same from either side
  have hmoves : ∀ t, (m.stateFor (m.spec.forkAt p c)).1.spec.Moves p c t ↔ m.spec.Moves p c t :=
    fun t => by simp only [Moves, (hold p hp).1]
  have hlitp :
      (m.stateFor (m.spec.forkAt p c)).1.spec.HasLiteral p c ↔ m.spec.HasLiteral p c := by
    simp only [HasLiteral, (hold p hp).1]
  refine h'.redirect (by omega) hq ?_ (fun x => ?_) ?_
  · have hsame : ((m.stateFor (m.spec.forkAt p c)).1.spec.rule p).withSymbol c =
        (m.spec.rule p).withSymbol c := by
      rw [(hold p hp).1]
    rw [isBranching_forkAt_congr hsame]
    exact hbr
  · rw [hcq, mem_coverOf]
    constructor
    · rintro ⟨t, ht, hx⟩
      exact ⟨t, (hmoves t).2 (mem_forkAt_targets.1 ht), by rwa [(hold t (hlt t ht)).2]⟩
    · rintro ⟨t, hm, hx⟩
      have hm := (hmoves t).1 hm
      exact ⟨t, mem_forkAt_targets.2 hm, by rwa [(hold t (h.wf.target_lt hm)).2] at hx⟩
  · rw [hcq, coverOf_literal, forkAt_accepting_iff, hlitp]
    constructor
    · rintro (hl | ⟨t, ht, hl⟩)
      · exact .inl hl
      · exact .inr ⟨t, (hmoves t).2 (mem_forkAt_targets.1 ht), by rwa [(hold t (hlt t ht)).2]⟩
    · rintro (hl | ⟨t, hm, hl⟩)
      · exact .inl hl
      · have hm := (hmoves t).1 hm
        exact .inr ⟨t, mem_forkAt_targets.2 hm, by rwa [(hold t (h.wf.target_lt hm)).2] at hl⟩

end Merger

end LexLR
