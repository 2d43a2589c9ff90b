import LexLR.Proofs.Passes
import LexLR.Trimmed
/-!
# Determinizing keeps the language

Subset construction leaves a specification without forks in which every state stands for the
set of original states it covers. Read through the covers, the original states accept what they
accepted before, and along any word the one path left ends in the state that covers every end of
an original path, so that it is terminal and carries a reserved word as that set of ends says.
-/

namespace LexLR

theorem List.eraseDups_of_nodup {α : Type} [BEq α] [LawfulBEq α] {l : List α} (h : l.Nodup) :
    l.eraseDups = l := by
  induction l with
  | nil => rfl
  | cons a l ih =>
    rw [List.nodup_cons] at h
    have hkeep : l.filter (fun b => !b == a) = l := List.filter_eq_self.2 fun b hb => by
      have hba : b ≠ a := fun hba => h.1 (hba ▸ hb)
      simpa using hba
    rw [List.eraseDups_cons, hkeep, ih h.2]

namespace RuleSpec

variable {s : RuleSpec}

/-- A state with at most one production on a symbol has no fork there. -/
theorem isBranching_eq_false_of_length_le {q : Nat} {c : Char}
    (h : ((s.rule q).withSymbol c).length ≤ 1) : (s.forkAt q c).isBranching = false := by
  unfold forkAt Fork.isBranching
  rcases hw : (s.rule q).withSymbol c with _ | ⟨p, _ | ⟨p', rest⟩⟩
  · simp
  · cases p <;> simp [List.filterMap, Production.target?]
  · simp [hw] at h

/-- A path from an existing state stays among existing states. -/
theorem WellFormed.path_lt (hs : s.WellFormed) {q t : Nat} {w : List Char} (hp : s.Path q w t)
    (hq : q < s.size) : t < s.size := by
  induction hp with
  | nil => exact hq
  | cons hm _ ih => exact ih (hs.target_lt hm)

section Forkless

/-! Without forks every state has at most one production on each symbol, so transitions are a
partial function and paths are unique. -/

variable (hs : s.WellFormed) (hf : s.forks = [])
include hs hf

/-- Without forks no state branches, on a symbol of the alphabet or any other. -/
theorem isBranching_eq_false (q : Nat) (c : Char) : (s.forkAt q c).isBranching = false := by
  cases hb : (s.forkAt q c).isBranching with
  | false => rfl
  | true =>
    have hc := mem_alphabet_of_isBranching hs hb
    -- a state beyond the last has no productions, so it branches nowhere
    have hq : q < s.size := by
      by_contra hq
      simp [Fork.isBranching, forkAt, rule_of_size_le (Nat.le_of_not_lt hq), Rule.withSymbol] at hb
    rw [forks_eq_nil_iff.1 hf q hq c hc] at hb
    cases hb

/-- Without forks two productions of a state on one symbol are the same production. -/
theorem eq_of_mem_withSymbol {q : Nat} {c : Char} {p p' : Production}
    (hp : p ∈ (s.rule q).withSymbol c) (hp' : p' ∈ (s.rule q).withSymbol c) : p = p' := by
  have hb := isBranching_eq_false hs hf q c
  simp only [Fork.isBranching, decide_eq_false_iff_not, not_lt] at hb
  rw [Rule.mem_withSymbol] at hp hp'
  -- a production on `c` is a literal for `c` or a transition on `c`
  cases p <;> cases p' <;>
    simp only [Production.symbol?, Option.some.injEq, reduceCtorEq, and_false] at hp hp'
  case literal.literal d d' => rw [hp.2, hp'.2]
  case literal.transition d d' t =>
    have hacc : (s.forkAt q c).accepting = true := forkAt_accepting_iff.2 (hp.2 ▸ hp.1)
    have ht : t ∈ (s.forkAt q c).targets := mem_forkAt_targets.2 (hp'.2 ▸ hp'.1)
    have := List.length_pos_of_mem ht
    rw [if_pos hacc] at hb
    omega
  case transition.literal d t d' =>
    have hacc : (s.forkAt q c).accepting = true := forkAt_accepting_iff.2 (hp'.2 ▸ hp'.1)
    have ht : t ∈ (s.forkAt q c).targets := mem_forkAt_targets.2 (hp.2 ▸ hp.1)
    have := List.length_pos_of_mem ht
    rw [if_pos hacc] at hb
    omega
  case transition.transition d t d' t' =>
    rw [hp.2, hp'.2]
    by_contra hne
    have htt : t ≠ t' := fun h => hne (h ▸ rfl)
    have ht : t ∈ (s.forkAt q c).targets := mem_forkAt_targets.2 (hp.2 ▸ hp.1)
    have ht' : t' ∈ (s.forkAt q c).targets.erase t :=
      List.mem_erase_of_ne (Ne.symm htt) |>.2 (mem_forkAt_targets.2 (hp'.2 ▸ hp'.1))
    have hlen := List.length_erase_of_mem ht
    have := List.length_pos_of_mem ht'
    split at hb <;> omega

/-- Without forks a state moves on a symbol to one state at most. -/
theorem moves_unique {q t t' : Nat} {c : Char} (ht : s.Moves q c t) (ht' : s.Moves q c t') :
    t = t' := by
  have h := eq_of_mem_withSymbol hs hf (Rule.mem_withSymbol.2 ⟨ht, rfl⟩)
    (Rule.mem_withSymbol.2 ⟨ht', rfl⟩)
  cases h
  rfl

/-- Without forks a literal never stands beside a transition on its symbol. -/
theorem not_hasLiteral_of_moves {q t : Nat} {c : Char} (ht : s.Moves q c t) :
    ¬s.HasLiteral q c := fun hl =>
  nomatch eq_of_mem_withSymbol hs hf (Rule.mem_withSymbol.2 ⟨hl, rfl⟩)
    (Rule.mem_withSymbol.2 ⟨ht, rfl⟩)

/-- Without forks a word has one path at most from each state. -/
theorem path_unique {q t t' : Nat} {w : List Char} (hp : s.Path q w t) (hp' : s.Path q w t') :
    t = t' := by
  induction hp with
  | nil => exact (path_nil_iff.1 hp').symm
  | cons hm _ ih =>
    obtain ⟨u, hm', hu⟩ := path_cons_iff.1 hp'
    exact ih (moves_unique hs hf hm' hm ▸ hu)

/-- Without forks the check the specification makes of itself passes: no rule reads a symbol
twice. -/
theorem isDeterministic_of_forks_nil : s.isDeterministic = true := by
  simp only [isDeterministic, Array.all_eq_true, beq_iff_eq]
  intro i hi
  have hrule : s.rules[i] = s.rule i := by simp [rule_eq_getD, hi]
  rw [hrule]
  -- two productions of the rule with one symbol would be one production
  have hnodup : ((s.rule i).productions.filterMap Production.symbol?).Nodup := by
    refine List.pairwise_filterMap.2 ((hs.rule_sorted i).nodup.imp_of_mem ?_)
    intro p p' hp hp' hne c hc c' hc' hcc
    subst hcc
    exact hne (eq_of_mem_withSymbol hs hf (Rule.mem_withSymbol.2 ⟨hp, hc⟩)
      (Rule.mem_withSymbol.2 ⟨hp', hc'⟩))
  rw [List.eraseDups_of_nodup hnodup]

end Forkless

/-- What determinizing `S` into `D` with `merged` new states promises: `D` has no forks, the
original states keep their names, flags, words and every production on a symbol they did not
fork on, and they read words as they did in `S`. -/
structure Determinized (S D : RuleSpec) (merged : Nat) : Prop where
  forks_nil : D.forks = []
  deterministic : D.isDeterministic = true
  size_eq : D.size = S.size + merged
  alphabet_eq : D.alphabet = S.alphabet
  name_eq : ∀ q < S.size, D.name? q = S.name? q
  terminal_eq : ∀ q < S.size, D.isTerminal q = S.isTerminal q
  keyword_eq : ∀ q < S.size, D.keyword? q = S.keyword? q
  withSymbol_eq : ∀ q < S.size, ∀ c, ((S.rule q).withSymbol c).length ≤ 1 →
    (D.rule q).withSymbol c = (S.rule q).withSymbol c
  /-- The grammar reading of an original state is the same in both. -/
  accepts_iff : ∀ q < S.size, ∀ w, D.Accepts q w ↔ S.Accepts q w
  /-- A word has a path in `D` from an original state when it has one in `S`. -/
  path_iff : ∀ q < S.size, ∀ w, (∃ t, D.Path q w t) ↔ ∃ t, S.Path q w t
  path_unique : ∀ q w t t', D.Path q w t → D.Path q w t' → t = t'
  /-- The end of the path is terminal when `S` accepts the word. -/
  terminal_path : ∀ q < S.size, ∀ w t, D.Path q w t →
    (D.isTerminal t = true ↔ S.Accepts q w)
  /-- The end of the path carries the word of the lowest keyword state `S` can end in. -/
  keyword_path : ∀ q < S.size, ∀ w t, D.Path q w t →
    S.KeywordAmong (S.Path q w ·) (D.keyword? t)

end RuleSpec

namespace Merger

open RuleSpec

variable {S : RuleSpec} {m : Merger}

/-- The ends of original paths from the states a state covers are the states covered by the
ends of its own paths. -/
theorem Inv.path_cover (h : Inv S m) (q : Nat) (w : List Char) (x : Nat) :
    (∃ t, m.spec.Path q w t ∧ x ∈ (m.cover t).states) ↔
      ∃ p ∈ (m.cover q).states, S.Path p w x := by
  induction w generalizing q with
  | nil => simp
  | cons c w ih =>
    simp only [path_cons_iff]
    constructor
    · rintro ⟨t, ⟨u, hm, hu⟩, hx⟩
      obtain ⟨y, hy, hyw⟩ := (ih u).1 ⟨t, hu, hx⟩
      obtain ⟨p, hp, hpm⟩ := (h.moves q c y).1 ⟨u, hm, hy⟩
      exact ⟨p, hp, y, hpm, hyw⟩
    · rintro ⟨p, hp, y, hpm, hyw⟩
      obtain ⟨u, hm, hy⟩ := (h.moves q c y).2 ⟨p, hp, hpm⟩
      obtain ⟨t, hu, hx⟩ := (ih u).2 ⟨y, hy, hyw⟩
      exact ⟨t, ⟨u, hm, hu⟩, hx⟩

/-- A state accepts what the states it covers accept, and the empty word when its cover was
reached past a literal. -/
theorem Inv.accepts_cover (h : Inv S m) {q : Nat} (hq : q < m.spec.size) (w : List Char) :
    m.spec.Accepts q w ↔
      (w = [] ∧ (m.cover q).literal = true) ∨ ∃ p ∈ (m.cover q).states, S.Accepts p w := by
  induction w generalizing q with
  | nil => simpa [Accepts] using h.terminal q hq
  | cons c w ih =>
    simp only [Accepts, reduceCtorEq, false_and, false_or]
    constructor
    · rintro (⟨rfl, hl⟩ | ⟨t, hm, ht⟩)
      · obtain ⟨p, hp, hpl⟩ := (h.literal q c).1 (.inl hl)
        exact ⟨p, hp, .inl ⟨rfl, hpl⟩⟩
      · rcases (ih (h.wf.target_lt hm)).1 ht with ⟨rfl, hlit⟩ | ⟨x, hx, hxw⟩
        · obtain ⟨p, hp, hpl⟩ := (h.literal q c).1 (.inr ⟨t, hm, hlit⟩)
          exact ⟨p, hp, .inl ⟨rfl, hpl⟩⟩
        · obtain ⟨p, hp, hpm⟩ := (h.moves q c x).1 ⟨t, hm, hx⟩
          exact ⟨p, hp, .inr ⟨x, hpm, hxw⟩⟩
    · rintro ⟨p, hp, ⟨rfl, hpl⟩ | ⟨x, hpm, hxw⟩⟩
      · rcases (h.literal q c).2 ⟨p, hp, hpl⟩ with hl | ⟨t, hm, hlit⟩
        · exact .inl ⟨rfl, hl⟩
        · exact .inr ⟨t, hm, (ih (h.wf.target_lt hm)).2 (.inl ⟨rfl, hlit⟩)⟩
      · obtain ⟨t, hm, hx⟩ := (h.moves q c x).2 ⟨p, hp, hpm⟩
        exact .inr ⟨t, hm, (ih (h.wf.target_lt hm)).2 (.inr ⟨x, hx, hxw⟩)⟩

/-- An original state accepts what it accepted before. -/
theorem Inv.accepts_original (h : Inv S m) {q : Nat} (hq : q < S.size) (w : List Char) :
    m.spec.Accepts q w ↔ S.Accepts q w := by
  rw [h.accepts_cover (Nat.lt_of_lt_of_le hq h.size_le) w, h.cover_original q hq]
  simp

section Forkless

/-! Once no fork is left, the path of a word from an original state is the subset
construction's reading of the word: its end covers exactly the ends of the original paths. -/

variable (h : Inv S m) (hf : m.spec.forks = []) {q : Nat} (hq : q < S.size)
include h hf hq

theorem Inv.mem_cover_of_path {w : List Char} {t : Nat} (ht : m.spec.Path q w t) (x : Nat) :
    x ∈ (m.cover t).states ↔ S.Path q w x := by
  have hcov := h.path_cover q w x
  simp only [h.cover_original q hq, List.mem_singleton, exists_eq_left] at hcov
  constructor
  · exact fun hx => hcov.1 ⟨t, ht, hx⟩
  · intro hx
    obtain ⟨t', ht', hx'⟩ := hcov.2 hx
    rwa [path_unique h.wf hf ht ht']

theorem Inv.exists_path_iff (w : List Char) :
    (∃ t, m.spec.Path q w t) ↔ ∃ t, S.Path q w t := by
  constructor
  · rintro ⟨t, ht⟩
    -- the end of the path covers some original state, and every one it covers is an end
    have hlt := h.wf.path_lt ht (Nat.lt_of_lt_of_le hq h.size_le)
    obtain ⟨x, hx⟩ := List.exists_mem_of_ne_nil _ (h.cover_ne_nil t hlt)
    exact ⟨x, (h.mem_cover_of_path hf hq ht x).1 hx⟩
  · rintro ⟨x, hx⟩
    have hcov := (h.path_cover q w x).2 ⟨q, by simp [h.cover_original q hq], hx⟩
    obtain ⟨t, ht, -⟩ := hcov
    exact ⟨t, ht⟩

/-- The end of a path was reached past a literal exactly when the word's last symbol has a
literal at the end of an original path reading the rest. -/
theorem Inv.literal_of_path {w : List Char} {t : Nat} (ht : m.spec.Path q w t) :
    (m.cover t).literal = true ↔
      ∃ w' c p, w = w' ++ [c] ∧ S.Path q w' p ∧ S.HasLiteral p c := by
  rcases List.eq_nil_or_concat w with rfl | ⟨w', c, rfl⟩
  · rw [path_nil_iff.1 ht, h.cover_original q hq]
    simp
  · rw [List.concat_eq_append] at ht ⊢
    obtain ⟨u, hu, hm⟩ := path_snoc_iff.1 ht
    have hlit := h.literal u c
    -- past the one transition on `c` there is no literal on `c`, and its target is `t`
    have hnot := not_hasLiteral_of_moves h.wf hf hm
    have hone : ∀ y, m.spec.Moves u c y → y = t := fun y hy => moves_unique h.wf hf hy hm
    constructor
    · intro hl
      obtain ⟨p, hp, hpl⟩ := hlit.1 (.inr ⟨t, hm, hl⟩)
      exact ⟨w', c, p, rfl, (h.mem_cover_of_path hf hq hu p).1 hp, hpl⟩
    · rintro ⟨v, d, p, hw, hp, hpl⟩
      obtain ⟨rfl, hcd⟩ := List.append_inj' hw rfl
      obtain rfl : c = d := List.singleton_inj.1 hcd
      rcases hlit.2 ⟨p, (h.mem_cover_of_path hf hq hu p).2 hp, hpl⟩ with hl | ⟨y, hy, hyl⟩
      · exact absurd hl hnot
      · rwa [hone y hy] at hyl

/-- The end of a path is terminal exactly when the original specification accepts the word. -/
theorem Inv.terminal_of_path {w : List Char} {t : Nat} (ht : m.spec.Path q w t) :
    m.spec.isTerminal t = true ↔ S.Accepts q w := by
  have hlt := h.wf.path_lt ht (Nat.lt_of_lt_of_le hq h.size_le)
  rw [h.terminal t hlt, h.literal_of_path hf hq ht, accepts_iff]
  constructor
  · rintro (hl | ⟨x, hx, hxt⟩)
    · exact .inr hl
    · exact .inl ⟨x, (h.mem_cover_of_path hf hq ht x).1 hx, hxt⟩
  · rintro (⟨x, hx, hxt⟩ | hl)
    · exact .inr ⟨x, (h.mem_cover_of_path hf hq ht x).2 hx, hxt⟩
    · exact .inl hl

/-- The end of a path carries the word of the lowest keyword state among the ends of the
original paths. -/
theorem Inv.keyword_of_path {w : List Char} {t : Nat} (ht : m.spec.Path q w t) :
    S.KeywordAmong (S.Path q w ·) (m.spec.keyword? t) := by
  have hlt := h.wf.path_lt ht (Nat.lt_of_lt_of_le hq h.size_le)
  exact (keywordAmong_congr (h.mem_cover_of_path hf hq ht)).1 (h.keyword t hlt)

end Forkless

/-- A fork-free specification that keeps the invariant is a determinization of the original
one, with the states past the original ones as its merged states. -/
theorem Inv.determinized (h : Inv S m) (hf : m.spec.forks = []) :
    S.Determinized m.spec (m.spec.size - S.size) where
  forks_nil := hf
  deterministic := isDeterministic_of_forks_nil h.wf hf
  size_eq := by have := h.size_le; omega
  alphabet_eq := h.alphabet
  name_eq := h.name_original
  terminal_eq q hq := by
    have ht := h.terminal q (Nat.lt_of_lt_of_le hq h.size_le)
    rw [h.cover_original q hq] at ht
    simp only [List.mem_singleton, exists_eq_left, Bool.false_eq_true, false_or] at ht
    exact Bool.eq_iff_iff.2 ht
  keyword_eq q hq := by
    have hk := h.keyword q (Nat.lt_of_lt_of_le hq h.size_le)
    rw [h.cover_original q hq] at hk
    exact (keywordAmong_singleton.1 hk).symm
  withSymbol_eq q hq c hlen := h.unforked q hq c (isBranching_eq_false_of_length_le hlen)
  accepts_iff q hq w := h.accepts_original hq w
  path_iff q hq w := h.exists_path_iff hf hq w
  path_unique _ _ _ _ ht ht' := RuleSpec.path_unique h.wf hf ht ht'
  terminal_path q hq _ _ ht := h.terminal_of_path hf hq ht
  keyword_path q hq _ _ ht := h.keyword_of_path hf hq ht

end Merger

namespace RuleSpec

theorem determinize_spec (S : RuleSpec) : S.determinize.spec = S.removeForks.1 := by
  simp only [determinize]
  rfl

theorem determinize_merged (S : RuleSpec) :
    S.determinize.merged = S.removeForks.1.size - S.size := by
  simp only [determinize]
  rfl

/-- Determinizing a specification built from any sequence of builder calls, whose terminal
states all exist, removes every fork and keeps what each original state reads. -/
theorem determinized_determinize_of_build (steps : List Builder.Step) {S : RuleSpec}
    (hb : (Builder.performAll {} steps).1.build = .ok S)
    (hterm : ∀ q ∈ S.terminals, q < S.size) :
    S.Determinized S.determinize.spec S.determinize.merged := by
  have hS : S.WellFormed := (Builder.sound_performAll Builder.sound_empty steps).build hb
  obtain ⟨m, h, hf, hspec⟩ := Merger.inv_removeForks hS hterm
  rw [determinize_merged, determinize_spec, hspec]
  exact h.determinized hf

/-- Two reserved words sharing their first letter: the start state forks on it. -/
def forkingSteps : List Builder.Step :=
  [.start, .addKeyword "ab", .addKeyword "ac"]

/-- What the builder makes of `forkingSteps`. -/
def forkingSpec : RuleSpec where
  rules := #[⟨[.transition 'a' 1, .transition 'a' 3]⟩, ⟨[.transition 'b' 2]⟩, {},
    ⟨[.transition 'c' 4]⟩, {}]
  names := #[none, none, none, none, none]
  terminals := [2, 4]
  keywords := [(2, "ab"), (4, "ac")]
  alphabet := ['a', 'b', 'c']

theorem forkingSpec_determinized :
    (Builder.performAll {} forkingSteps).1.build = .ok forkingSpec ∧
      (∀ q ∈ forkingSpec.terminals, q < forkingSpec.size) ∧
      forkingSpec.Determinized forkingSpec.determinize.spec forkingSpec.determinize.merged :=
  ⟨rfl, by decide, determinized_determinize_of_build forkingSteps rfl (by decide)⟩

end RuleSpec

end LexLR
