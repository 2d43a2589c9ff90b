import LexLR.Subset
import LexLR.Proofs.Sets
/-!
# Reading words with a rule specification

A rule specification is read as a nondeterministic automaton over its states. Three readings
are used, one for each stage of the tool:

* a *path* follows transitions only;
* the *grammar reading* accepts a word when a path reads it to a terminal state, or reads all
  but its last symbol to a state with a literal for that symbol: a literal completes the token;
* the *table reading* follows, symbol by symbol, the production for the symbol, where a
  literal keeps its owner; it is the reading of a specification without forks.

A set of states also has a reserved word: the word of its lowest keyword state.
-/

namespace LexLR

namespace RuleSpec

/-- A transition of `q` reads `c` and moves to `t`. -/
def Moves (s : RuleSpec) (q : Nat) (c : Char) (t : Nat) : Prop :=
  Production.transition c t ∈ (s.rule q).productions

/-- The rule of `q` has a literal for `c`. -/
def HasLiteral (s : RuleSpec) (q : Nat) (c : Char) : Prop :=
  Production.literal c ∈ (s.rule q).productions

/-- A chain of transitions reads a word from one state to another. -/
inductive Path (s : RuleSpec) : Nat → List Char → Nat → Prop where
  | nil (q : Nat) : Path s q [] q
  | cons {q t u : Nat} {c : Char} {w : List Char} :
      s.Moves q c t → Path s t w u → Path s q (c :: w) u

/-- The grammar reading: the empty word is accepted by a terminal state, a literal accepts its
symbol as the last one, and a transition reads its symbol and leaves the rest to its target. -/
def Accepts (s : RuleSpec) : Nat → List Char → Prop
  | q, [] => s.isTerminal q = true
  | q, c :: w => (w = [] ∧ s.HasLiteral q c) ∨ ∃ t, s.Moves q c t ∧ s.Accepts t w

/-- The next state of the table reading: the target of a transition for the symbol, or the
owner of a literal for it; the first such production counts. -/
def step? (s : RuleSpec) (q : Nat) (c : Char) : Option Nat :=
  (s.rule q).productions.findSome? fun p =>
    match p with
    | .transition d t => if d = c then some t else none
    | .literal d => if d = c then some q else none
    | .epsilon => none

/-- The table reading of a word, if no symbol of it lacks a production. -/
def follow? (s : RuleSpec) (q : Nat) : List Char → Option Nat
  | [] => some q
  | c :: w => (s.step? q c).bind fun t => s.follow? t w

/-- `k` is the reserved word of the lowest keyword state among the states `P` holds, or
`none` when none of them is a keyword state. -/
def KeywordAmong (s : RuleSpec) (P : Nat → Prop) : Option String → Prop
  | some k => ∃ e, P e ∧ s.keyword? e = some k ∧ ∀ e' < e, P e' → s.keyword? e' = none
  | none => ∀ e, P e → s.keyword? e = none

@[simp]
theorem path_nil_iff {s : RuleSpec} {q u : Nat} : s.Path q [] u ↔ u = q := by
  constructor
  · rintro ⟨⟩
    rfl
  · rintro rfl
    exact .nil _

@[simp]
theorem path_cons_iff {s : RuleSpec} {q u : Nat} {c : Char} {w : List Char} :
    s.Path q (c :: w) u ↔ ∃ t, s.Moves q c t ∧ s.Path t w u := by
  constructor
  · rintro ⟨⟩
    rename_i t hm hp
    exact ⟨t, hm, hp⟩
  · rintro ⟨t, hm, hp⟩
    exact .cons hm hp

theorem path_append_iff {s : RuleSpec} {q u : Nat} {w w' : List Char} :
    s.Path q (w ++ w') u ↔ ∃ t, s.Path q w t ∧ s.Path t w' u := by
  induction w generalizing q with
  | nil => simp
  | cons c w ih =>
    simp only [List.cons_append, path_cons_iff, ih]
    constructor
    · rintro ⟨t, hm, v, hv, hu⟩
      exact ⟨v, ⟨t, hm, hv⟩, hu⟩
    · rintro ⟨v, ⟨t, hm, hv⟩, hu⟩
      exact ⟨t, hm, v, hv, hu⟩

/-- A path ending with a symbol is a path to the state before it and one transition. -/
theorem path_snoc_iff {s : RuleSpec} {q u : Nat} {w : List Char} {c : Char} :
    s.Path q (w ++ [c]) u ↔ ∃ t, s.Path q w t ∧ s.Moves t c u := by
  simp [path_append_iff]

/-- The grammar reading accepts a word exactly when a path reads it to a terminal state, or a
path reads all but its last symbol to a state with a literal for it. -/
theorem accepts_iff {s : RuleSpec} {q : Nat} {w : List Char} :
    s.Accepts q w ↔ (∃ t, s.Path q w t ∧ s.isTerminal t = true) ∨
      ∃ w' c p, w = w' ++ [c] ∧ s.Path q w' p ∧ s.HasLiteral p c := by
  induction w generalizing q with
  | nil => simp [Accepts]
  | cons c w ih =>
    simp only [Accepts, ih, path_cons_iff]
    constructor
    · rintro (⟨rfl, hl⟩ | ⟨t, hm, ⟨u, hp, ht⟩ | ⟨w', d, p, rfl, hp, hl⟩⟩)
      · exact .inr ⟨[], c, q, rfl, .nil q, hl⟩
      · exact .inl ⟨u, ⟨t, hm, hp⟩, ht⟩
      · exact .inr ⟨c :: w', d, p, rfl, .cons hm hp, hl⟩
    · rintro (⟨u, ⟨t, hm, hp⟩, ht⟩ | ⟨w', d, p, hw, hp, hl⟩)
      · exact .inr ⟨t, hm, .inl ⟨u, hp, ht⟩⟩
      · cases w' with
        | nil =>
          simp only [List.nil_append, List.cons.injEq] at hw
          obtain ⟨rfl, rfl⟩ := hw
          rw [path_nil_iff] at hp
          subst hp
          exact .inl ⟨rfl, hl⟩
        | cons e w' =>
          simp only [List.cons_append, List.cons.injEq] at hw
          obtain ⟨rfl, rfl⟩ := hw
          obtain ⟨t, hm, hp⟩ := path_cons_iff.1 hp
          exact .inr ⟨t, hm, .inr ⟨w', d, p, rfl, hp, hl⟩⟩

@[simp]
theorem follow?_nil {s : RuleSpec} {q : Nat} : s.follow? q [] = some q :=
  rfl

theorem follow?_cons {s : RuleSpec} {q : Nat} {c : Char} {w : List Char} :
    s.follow? q (c :: w) = (s.step? q c).bind fun t => s.follow? t w :=
  rfl

/-- The reserved word of a single state is its own. -/
theorem keywordAmong_singleton {s : RuleSpec} {q : Nat} {k : Option String} :
    s.KeywordAmong (· ∈ [q]) k ↔ s.keyword? q = k := by
  cases k with
  | none => simp [KeywordAmong]
  | some k =>
    simp only [KeywordAmong, List.mem_singleton]
    constructor
    · rintro ⟨e, rfl, he, -⟩
      exact he
    · intro h
      exact ⟨q, rfl, h, fun e' he' h' => absurd h' (Nat.ne_of_lt he')⟩

/-- Two sets with the same members have the same reserved word. -/
theorem keywordAmong_congr {s : RuleSpec} {P Q : Nat → Prop} (h : ∀ e, P e ↔ Q e)
    {k : Option String} : s.KeywordAmong P k ↔ s.KeywordAmong Q k := by
  have : P = Q := funext fun e => propext (h e)
  rw [this]

end RuleSpec

end LexLR
