import Mathlib
import LexLR.Proofs.Compiled
import LexLR.Proofs.Parsed
/-!
# The tokens a rule file recognizes

The automaton compiled from a rule file reads a word with a set of the file's states at once.
A symbol on which some state of the set has a transition takes the set to the targets of all
such transitions; a literal for that symbol in the set then only marks the new set accepting,
since subset construction folds it into a flag. A symbol that only literals of the set read
keeps the whole set, since the compiled table loops on a literal. The set accepts when its flag
is set or it holds a terminal state, and its token is the reserved word of its lowest keyword
state, or an identifier.

This is not the reading in which each state keeps its own literal: in `<S> ::= a | a<A>` with
`<A> ::= b`, the state `S` reads `aa` by its literal twice and accepts, while the automaton
moves to the set of `A` on the first `a` and rejects the second.
-/

namespace LexLR

namespace RuleSpec

variable {s : RuleSpec}

/-- The targets of the transitions on `c` of the states of `P`. -/
def movesFrom (s : RuleSpec) (P : Set Nat) (c : Char) : Set Nat :=
  {x | ∃ p ∈ P, s.Moves p c x}

/-- The reading by sets of states, with a flag for a literal folded in: `SetRun P l w Q m` when
reading `w` from the set `P` with flag `l` ends in the set `Q` with flag `m`. -/
inductive SetRun (s : RuleSpec) : Set Nat → Prop → List Char → Set Nat → Prop → Prop where
  | nil (P : Set Nat) (l : Prop) : SetRun s P l [] P l
  /-- Transitions on the symbol move the whole set; a literal beside them sets the flag. -/
  | move {P : Set Nat} {l : Prop} {c : Char} {w : List Char} {Q : Set Nat} {m : Prop} :
      (s.movesFrom P c).Nonempty →
      SetRun s (s.movesFrom P c) (∃ p ∈ P, s.HasLiteral p c) w Q m → SetRun s P l (c :: w) Q m
  /-- A symbol that only literals read keeps the set and its flag. -/
  | stay {P : Set Nat} {l : Prop} {c : Char} {w : List Char} {Q : Set Nat} {m : Prop} :
      s.movesFrom P c = ∅ → (∃ p ∈ P, s.HasLiteral p c) → SetRun s P l w Q m →
      SetRun s P l (c :: w) Q m

/-- The reading one state at a time in which a transition moves and a literal keeps its
owner. -/
inductive OwnerRun (s : RuleSpec) : Nat → List Char → Nat → Prop where
  | nil (q : Nat) : OwnerRun s q [] q
  | move {q t u : Nat} {c : Char} {w : List Char} :
      s.Moves q c t → OwnerRun s t w u → OwnerRun s q (c :: w) u
  | stay {q u : Nat} {c : Char} {w : List Char} :
      s.HasLiteral q c → OwnerRun s q w u → OwnerRun s q (c :: w) u

theorem setRun_nil_iff {P Q : Set Nat} {l m : Prop} : s.SetRun P l [] Q m ↔ Q = P ∧ m = l := by
  constructor
  · rintro ⟨⟩
    exact ⟨rfl, rfl⟩
  · rintro ⟨rfl, rfl⟩
    exact .nil _ _

theorem setRun_cons_iff {P Q : Set Nat} {l m : Prop} {c : Char} {w : List Char} :
    s.SetRun P l (c :: w) Q m ↔
      ((s.movesFrom P c).Nonempty ∧
        s.SetRun (s.movesFrom P c) (∃ p ∈ P, s.HasLiteral p c) w Q m) ∨
      (s.movesFrom P c = ∅ ∧ (∃ p ∈ P, s.HasLiteral p c) ∧ s.SetRun P l w Q m) := by
  constructor
  · rintro (_ | ⟨hne, hr⟩ | ⟨he, hl, hr⟩)
    · exact .inl ⟨hne, hr⟩
    · exact .inr ⟨he, hl, hr⟩
  · rintro (⟨hne, hr⟩ | ⟨he, hl, hr⟩)
    · exact .move hne hr
    · exact .stay he hl hr

theorem keywordAmong_unique {P : Nat → Prop} {k k' : Option String} (h : s.KeywordAmong P k)
    (h' : s.KeywordAmong P k') : k = k' := by
  cases k with
  | none =>
    cases k' with
    | none => rfl
    | some k' =>
      obtain ⟨e, he, hk, -⟩ := h'
      rw [h e he] at hk
      cases hk
  | some k =>
    cases k' with
    | none =>
      obtain ⟨e, he, hk, -⟩ := h
      rw [h' e he] at hk
      cases hk
    | some k' =>
      obtain ⟨e, he, hk, hlow⟩ := h
      obtain ⟨e', he', hk', hlow'⟩ := h'
      -- both are the lowest keyword state of the set
      rcases Nat.lt_trichotomy e e' with hlt | rfl | hlt
      · rw [hlow' e hlt he] at hk
        cases hk
      · rw [← hk, ← hk']
      · rw [hlow e' hlt he'] at hk'
        cases hk'

theorem reachable_of_follow? {q u : Nat} {w : List Char} (hq : ∃ v, s.Path 0 v q)
    (hu : s.follow? q w = some u) : ∃ v, s.Path 0 v u := by
  induction w generalizing q with
  | nil =>
    rw [follow?_nil, Option.some.injEq] at hu
    exact hu ▸ hq
  | cons c w ih =>
    obtain ⟨v, hv, hvu⟩ := Option.bind_eq_some_iff.1 hu
    exact ih (reachable_of_step? hq hv) hvu

end RuleSpec

namespace Merger

open RuleSpec

/-- The original states a state covers, as a set. -/
def coverSet (m : Merger) (q : Nat) : Set Nat :=
  {x | x ∈ (m.cover q).states}

@[simp]
theorem mem_coverSet {m : Merger} {q x : Nat} : x ∈ m.coverSet q ↔ x ∈ (m.cover q).states :=
  Iff.rfl

/-! Once no fork is left, one symbol read by a state of the specification is one symbol of the
reading by sets from its cover: a transition leads to the cover of the covered states' targets,
and a literal stands for the literals of the covered states. -/

section Symbol

variable {S : RuleSpec} {m : Merger} (h : Inv S m) (hf : m.spec.forks = [])
include h hf

theorem Inv.movesFrom_cover {y z : Nat} {c : Char} (hm : m.spec.Moves y c z) :
    S.movesFrom (m.coverSet y) c = m.coverSet z := by
  ext x
  change (∃ p ∈ (m.cover y).states, S.Moves p c x) ↔ x ∈ (m.cover z).states
  rw [← h.moves]
  constructor
  · rintro ⟨z', hz', hx⟩
    rwa [moves_unique h.wf hf hm hz']
  · intro hx
    exact ⟨z, hm, hx⟩

theorem Inv.movesFrom_cover_nonempty {y z : Nat} {c : Char} (hm : m.spec.Moves y c z) :
    (S.movesFrom (m.coverSet y) c).Nonempty := by
  rw [h.movesFrom_cover hf hm]
  obtain ⟨x, hx⟩ := List.exists_mem_of_ne_nil _ (h.cover_ne_nil z (h.wf.target_lt hm))
  exact ⟨x, hx⟩

/-- A transition reaches a flagged state exactly when a covered state has a literal beside. -/
theorem Inv.literal_cover {y z : Nat} {c : Char} (hm : m.spec.Moves y c z) :
    (∃ p ∈ m.coverSet y, S.HasLiteral p c) = ((m.cover z).literal = true) := by
  refine propext ⟨fun hl => ?_, fun hz => h.literal y c |>.1 (.inr ⟨z, hm, hz⟩)⟩
  rcases (h.literal y c).2 hl with hl' | ⟨z', hz', hlit⟩
  · exact absurd hl' (not_hasLiteral_of_moves h.wf hf hm)
  · rwa [moves_unique h.wf hf hm hz']

omit hf in
theorem Inv.movesFrom_cover_eq_empty {y : Nat} {c : Char} (hno : ∀ z, ¬m.spec.Moves y c z) :
    S.movesFrom (m.coverSet y) c = ∅ := by
  refine Set.eq_empty_iff_forall_notMem.2 fun x hx => ?_
  obtain ⟨z, hz, -⟩ := (h.moves y c x).2 hx
  exact hno z hz

omit hf in
theorem Inv.hasLiteral_iff {y : Nat} {c : Char} (hno : ∀ z, ¬m.spec.Moves y c z) :
    m.spec.HasLiteral y c ↔ ∃ p ∈ m.coverSet y, S.HasLiteral p c := by
  change _ ↔ ∃ p ∈ (m.cover y).states, _
  rw [← h.literal]
  constructor
  · exact .inl
  · rintro (hl | ⟨z, hz, -⟩)
    · exact hl
    · exact absurd hz (hno z)

/-- The table reading of a specification without forks is the reading by sets from the covers
of its states. -/
theorem Inv.setRun_cover_iff (w : List Char) (y : Nat) {Q : Set Nat} {l : Prop} :
    S.SetRun (m.coverSet y) ((m.cover y).literal = true) w Q l ↔
      ∃ z, m.spec.follow? y w = some z ∧ Q = m.coverSet z ∧
        l = ((m.cover z).literal = true) := by
  induction w generalizing y with
  | nil => simp [setRun_nil_iff]
  | cons c w ih =>
    rw [setRun_cons_iff, follow?_cons]
    by_cases hm : ∃ z, m.spec.Moves y c z
    · -- a transition: the set moves to the cover of its target
      obtain ⟨z, hz⟩ := hm
      have hstep : m.spec.step? y c = some z := (step?_eq_some_iff h.wf hf).2 (.inl hz)
      have hne := h.movesFrom_cover_nonempty hf hz
      rw [hstep, Option.bind_some, ← ih z, ← h.literal_cover hf hz, ← h.movesFrom_cover hf hz]
      simp [hne, hne.ne_empty]
    · have hno : ∀ z, ¬m.spec.Moves y c z := fun z hz => hm ⟨z, hz⟩
      rw [h.movesFrom_cover_eq_empty hno]
      by_cases hl : ∃ p ∈ m.coverSet y, S.HasLiteral p c
      · -- only literals: the reading stays
        have hstep : m.spec.step? y c = some y :=
          (step?_eq_some_iff h.wf hf).2 (.inr ⟨(h.hasLiteral_iff hno).2 hl, rfl⟩)
        rw [hstep, Option.bind_some, ← ih y]
        simp only [mem_coverSet] at hl
        simp [hl]
      · -- nothing reads the symbol: both readings stop
        have hstep : m.spec.step? y c = none := by
          refine step?_eq_none_iff.2 fun p hp hc => ?_
          cases p with
          | transition d t =>
            simp only [Production.symbol?, Option.some.injEq] at hc
            exact hno t (hc ▸ hp)
          | literal d =>
            simp only [Production.symbol?, Option.some.injEq] at hc
            exact hl ((h.hasLiteral_iff hno).1 (hc ▸ hp))
          | epsilon => cases hc
        rw [hstep]
        simp only [mem_coverSet] at hl
        simp [hl]

end Symbol

end Merger

namespace Trimmed

open RuleSpec

@[simp]
theorem spec_classify (s : RuleSpec) (passes merged : Nat) : (classify s passes merged).spec = s :=
  rfl

theorem kind?_errorRow_compiled (t : Trimmed) :
    t.compiled.kind? t.compiled.errorRow = some .error := by
  rw [errorRow_compiled]
  simp [Automaton.kind?, compiled]

/-- A classified well-formed specification that compiles compiles to its compiled automaton,
which keeps its promises: no fork is left and some terminal state can be reached. -/
theorem compiledFrom_of_compile_eq_ok {s : RuleSpec} {passes merged : Nat} {A : Automaton}
    (hs : s.WellFormed) (hA : (classify s passes merged).compile = .ok A) :
    A = (classify s passes merged).compiled ∧ (classify s passes merged).CompiledFrom A := by
  obtain ⟨hf, hl, rfl⟩ := eq_compiled_of_compile_eq_ok hs hA
  have hacc : ∃ v u, s.Path 0 v u ∧ s.isTerminal u = true := by
    by_contra hacc
    exact hl ((live_eq_nil_iff hs).2 hacc)
  exact ⟨rfl, compiledFrom_compiled hs hf (fun _ => mem_live_classify hs)
    (idxOf?_zero_live hs hacc)⟩

/-- The automaton compiled from a classified well-formed specification reads a word to a row
that accepts it, as an identifier or a reserved word, exactly when the table reading reaches a
terminal state, and the row's token is that state's. -/
theorem kind_run_eq_some_iff {s : RuleSpec} {passes merged : Nat} {A : Automaton}
    (hs : s.WellFormed) (hA : (classify s passes merged).compile = .ok A) (w : List Char)
    (kw : Option String) :
    A.kind? (A.run w) = some (kw.elim .identifier .keyword) ↔
      ∃ z, s.follow? 0 w = some z ∧ s.isTerminal z = true ∧ s.keyword? z = kw := by
  obtain ⟨hok, hfrom⟩ := compiledFrom_of_compile_eq_ok hs hA
  -- the error row accepts no token
  have herr :
      A.run w = A.errorRow → A.kind? (A.run w) ≠ some (kw.elim .identifier .keyword) := by
    intro hrun
    rw [hrun, hok, kind?_errorRow_compiled]
    cases kw <;> simp
  cases hz : s.follow? 0 w with
  | none =>
    simp only [reduceCtorEq, false_and, exists_false, iff_false]
    exact herr ((hfrom.run_eq_error_iff w).2 fun p hp => by rw [spec_classify, hz] at hp; cases hp)
  | some z =>
    have hzlt : z < s.size := follow?_lt hs hs.start_lt hz
    have hreach := reachable_of_follow? ⟨[], .nil 0⟩ hz
    cases hl : (classify s passes merged).isLive z with
    | false =>
      -- a state outside the live ones is not terminal, and the reading is in the error row
      have hnt : s.isTerminal z = false := by
        rw [Bool.eq_false_iff]
        intro ht
        have hlive : (classify s passes merged).isLive z = true :=
          (isLive_classify hs hzlt).2 ⟨hreach, [], z, .nil z, ht⟩
        rw [hl] at hlive
        cases hlive
      simp only [Option.some.injEq, hnt, Bool.false_eq_true, false_and, exists_eq_left', iff_false]
      exact herr ((hfrom.run_eq_error_iff w).2 fun p hp => by
        rw [spec_classify, hz, Option.some.injEq] at hp
        exact hp ▸ hl)
    | true =>
      rw [hfrom.kind_run w z hz hl, kindOf, spec_classify]
      simp only [Option.some.injEq, exists_eq_left']
      cases s.isTerminal z <;> cases s.keyword? z <;> cases kw <;> simp

end Trimmed

/-- A rule file compiles to an automaton that accepts a word, as an identifier or as a reserved
word, exactly when the file's states read it by sets to an accepting set; the token is the
reserved word of the set's lowest keyword state, or an identifier when it holds none. -/
theorem kind_run_iff_setRun {T : String} {S : RuleSpec} {A : Automaton}
    (hS : RuleSpec.parse T = .ok S) (hA : Automaton.ofRules T = .ok A) (w : List Char)
    (kw : Option String) :
    A.kind? (A.run w) = some (kw.elim .identifier .keyword) ↔
      ∃ Q l, S.SetRun {0} False w Q l ∧ (l ∨ ∃ p ∈ Q, S.isTerminal p = true) ∧
        S.KeywordAmong (· ∈ Q) kw := by
  obtain ⟨S', hS', hcomp⟩ := Except.bind_eq_ok.1 hA
  rw [hS, Except.ok.injEq] at hS'
  subst hS'
  obtain ⟨hwf, hterm⟩ := RuleSpec.parse_wellFormed hS
  obtain ⟨m, h, hf, hspec⟩ := Merger.inv_removeForks hwf hterm
  rw [RuleSpec.determinize_eq_classify] at hcomp
  rw [Trimmed.kind_run_eq_some_iff (Merger.wellFormed_removeForks hwf) hcomp, hspec]
  -- the reading by sets starts from the cover of the start state
  have h0 : m.cover 0 = ⟨[0], false⟩ := h.cover_original 0 hwf.start_lt
  have hset : ({0} : Set Nat) = m.coverSet 0 := by
    ext x
    simp [h0]
  have hflag : False = ((m.cover 0).literal = true) := by simp [h0]
  simp only [hset, hflag, h.setRun_cover_iff hf]
  constructor
  · rintro ⟨z, hz, ht, hk⟩
    have hzlt := Trimmed.follow?_lt h.wf h.wf.start_lt hz
    exact ⟨_, _, ⟨z, hz, rfl, rfl⟩, (h.terminal z hzlt).1 ht, hk ▸ h.keyword z hzlt⟩
  · rintro ⟨Q, l, ⟨z, hz, rfl, rfl⟩, hacc, hkw⟩
    have hzlt := Trimmed.follow?_lt h.wf h.wf.start_lt hz
    exact ⟨z, hz, (h.terminal z hzlt).2 hacc,
      RuleSpec.keywordAmong_unique (h.keyword z hzlt) hkw⟩

/-- A rule whose literal stands beside a transition on the same symbol. -/
def literalBesideTransition : String :=
  "<S> ::= a | a<A>\n<A> ::= b"

/-- What `literalBesideTransition` reads to. -/
def literalBesideSpec : RuleSpec where
  rules := #[⟨[.literal 'a', .transition 'a' 1]⟩, ⟨[.literal 'b']⟩]
  names := #[some "S", some "A"]
  terminals := [0, 1]
  keywords := []
  alphabet := ['a', 'b']

/-- What `literalBesideTransition` compiles to: the start state, then the merged state for `A`
with the literal folded in. -/
def literalBesideAutomaton : Automaton where
  table := #[1, 2, 2, 1, 2, 2]
  kinds := #[some .identifier, some .identifier, some .error]
  stateIds := #[0, 2]
  alphabet := #['a', 'b']
  rows := 3
  initial := 0

theorem literalBeside_kind_run :
    RuleSpec.parse literalBesideTransition = .ok literalBesideSpec ∧
      Automaton.ofRules literalBesideTransition = .ok literalBesideAutomaton ∧
      (literalBesideAutomaton.kind? (literalBesideAutomaton.run ['a', 'b']) = some .identifier ↔
        ∃ Q l, literalBesideSpec.SetRun {0} False ['a', 'b'] Q l ∧
          (l ∨ ∃ p ∈ Q, literalBesideSpec.isTerminal p = true) ∧
          literalBesideSpec.KeywordAmong (· ∈ Q) none) := by
  have hS : RuleSpec.parse literalBesideTransition = .ok literalBesideSpec := by cbv
  have hA : Automaton.ofRules literalBesideTransition = .ok literalBesideAutomaton := by cbv
  exact ⟨hS, hA, kind_run_iff_setRun hS hA ['a', 'b'] none⟩

/-- Reading `aa` in `literalBesideTransition`: the start state keeps itself by its literal twice
and is terminal, yet the compiled automaton rejects the word. -/
theorem literal_keeps_owner_rejected :
    RuleSpec.parse literalBesideTransition = .ok literalBesideSpec ∧
      literalBesideSpec.OwnerRun 0 ['a', 'a'] 0 ∧ literalBesideSpec.isTerminal 0 = true ∧
      (Automaton.ofRules literalBesideTransition).map
        (fun A => A.kind? (A.run ['a', 'a'])) = .ok (some .error) := by
  have hlit : literalBesideSpec.HasLiteral 0 'a' := by
    unfold RuleSpec.HasLiteral
    decide
  exact ⟨by cbv, .stay hlit (.stay hlit (.nil 0)), by decide, by cbv⟩

end LexLR
