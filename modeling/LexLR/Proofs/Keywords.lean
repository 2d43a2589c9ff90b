import LexLR.Proofs.Chains
import LexLR.Proofs.Recognized
/-!
# Reserved words are recognized

The automaton compiled from a rule file reads each of its reserved words to a row of a reserved
word: the end of the word's chain is among the states the word reaches, so the word's set is
terminal and has a keyword state, and the lowest one is the end of the earliest declared reserved
word that is a suffix of the word. No prefix of the word leads to the error row, so the lexer's
walk, which skips such symbols, reads the word the same way.
-/

namespace LexLR

namespace RuleSpec

variable {s : RuleSpec}

/-- The reserved word a sorted keyword list records for a state is the one listed with it. -/
theorem keyword?_of_mem (hs : s.keywords.Pairwise fun a b => a.1 < b.1) {e : Nat × String}
    (he : e ∈ s.keywords) : s.keyword? e.1 = some e.2 := by
  obtain ⟨rules, names, terminals, keywords, alphabet⟩ := s
  simp only [keyword?] at hs he ⊢
  induction keywords with
  | nil => cases he
  | cons a rest ih =>
    obtain ⟨ha, hrest⟩ := List.pairwise_cons.1 hs
    rw [lookup_cons_ite]
    rcases List.mem_cons.1 he with rfl | he
    · simp
    · rw [if_neg (Nat.ne_of_gt (ha e he))]
      exact ih hrest he

theorem mem_of_keyword? {e : Nat} {k : String} (h : s.keyword? e = some k) :
    (e, k) ∈ s.keywords := by
  obtain ⟨l₁, l₂, hl, -⟩ := List.lookup_eq_some_iff.1 h
  simp [hl]

theorem index_le_of_sorted {l : List (Nat × String)} (hs : l.Pairwise fun a b => a.1 < b.1)
    {i j : Nat} {a b : Nat × String} (hi : l[i]? = some a) (hj : l[j]? = some b)
    (hle : b.1 ≤ a.1) : j ≤ i := by
  by_contra hlt
  obtain ⟨hi', rfl⟩ := List.getElem?_eq_some_iff.1 hi
  obtain ⟨hj', rfl⟩ := List.getElem?_eq_some_iff.1 hj
  have := List.pairwise_iff_getElem.1 hs i j hi' hj' (by omega)
  omega

theorem follow?_of_path (hs : s.WellFormed) (hf : s.forks = []) {q t : Nat} {w : List Char}
    (hp : s.Path q w t) : s.follow? q w = some t := by
  induction hp with
  | nil q => rfl
  | cons hm _ ih => rw [follow?_cons, (step?_eq_some_iff hs hf).2 (.inl hm), Option.bind_some, ih]

end RuleSpec

namespace Automaton

/-- Skipping the symbols that lead to the error row skips none when no prefix of the word leads
there. -/
theorem foldl_walkStep_eq (a : Automaton) :
    ∀ (w : List Char) (r : Nat), (∀ v, v <+: w → a.isError (v.foldl a.next r) = false) →
      w.foldl a.walkStep r = w.foldl a.next r
  | [], _, _ => rfl
  | c :: w, r, h => by
    have hc : a.isError (a.next r c) = false :=
      h [c] ((List.prefix_cons_inj c).2 (List.nil_prefix))
    rw [List.foldl_cons, List.foldl_cons, walkStep]
    simp only [hc, Bool.false_eq_true, if_false]
    exact foldl_walkStep_eq a w (a.next r c) fun v hv => h (c :: v) ((List.prefix_cons_inj c).2 hv)

theorem walk_eq_run {a : Automaton} {w : List Char}
    (h : ∀ v, v <+: w → a.isError (a.run v) = false) : a.walk w = a.run w :=
  a.foldl_walkStep_eq w a.initial h

end Automaton

namespace Trimmed

/-- A word that the table reading takes to a live state reads the compiled automaton outside its
error row. -/
theorem isError_run_eq_false {s : RuleSpec} {passes merged : Nat} {A : Automaton}
    (hs : s.WellFormed) (hA : (classify s passes merged).compile = .ok A) {w : List Char} {z : Nat}
    (hz : s.follow? 0 w = some z) (hl : (classify s passes merged).isLive z = true) :
    A.isError (A.run w) = false := by
  obtain ⟨rfl, hfrom⟩ := compiledFrom_of_compile_eq_ok hs hA
  have hlt := search?_lt_size (hfrom.rowOf_run w z hz hl)
  simp only [compiled, List.size_toArray] at hlt
  simp only [Automaton.isError, errorRow_compiled, decide_eq_false_iff_not, Nat.not_le]
  exact hlt

/-- A word that a fork-free specification reads to a terminal state is read as that state's kind
by the compiled automaton, and by its walk too: every prefix of the word reads to a state from
which the terminal state is reached, so the walk skips no symbol. -/
theorem kind_classify_of_path {s : RuleSpec} {passes merged : Nat} {A : Automaton}
    (hs : s.WellFormed) (hf : s.forks = []) (hA : (classify s passes merged).compile = .ok A)
    {w : List Char} {z : Nat} (hz : s.Path 0 w z) (ht : s.isTerminal z = true) :
    A.kind? (A.run w) = some ((s.keyword? z).elim .identifier .keyword) ∧
      A.classify w = (s.keyword? z).elim .identifier .keyword := by
  have hkind := (kind_run_eq_some_iff hs hA w (s.keyword? z)).2
    ⟨z, RuleSpec.follow?_of_path hs hf hz, ht, rfl⟩
  have hwalk : A.walk w = A.run w := Automaton.walk_eq_run fun u hu => by
    obtain ⟨r, hr⟩ := hu
    have hz' : s.Path 0 (u ++ r) z := by rw [hr]; exact hz
    obtain ⟨y, hy, hyz⟩ := RuleSpec.path_append_iff.1 hz'
    refine isError_run_eq_false hs hA (RuleSpec.follow?_of_path hs hf hy) ?_
    exact (isLive_classify hs (hs.path_lt hy hs.start_lt)).2 ⟨⟨u, hy⟩, r, z, hyz, ht⟩
  exact ⟨hkind, by simp [Automaton.classify, hwalk, hkind]⟩

end Trimmed

/-- A reserved word reads the determinized specification to a terminal state, which records the
earliest declared reserved word that is a suffix of it: the state covers the end of the word's
chain, and the lowest keyword state it covers ends a chain declared no later. -/
theorem Merger.Inv.reservedWord {S : RuleSpec} {m : Merger} (h : m.Inv S) (hf : m.spec.forks = [])
    (hwf : S.WellFormed) (hc : S.KeywordChains) {i e : Nat} {w : String}
    (hi : S.keywords[i]? = some (e, w)) :
    ∃ z, m.spec.Path 0 w.toList z ∧ m.spec.isTerminal z = true ∧
      ∃ j ≤ i, ∃ e' v, S.keywords[j]? = some (e', v) ∧ v.toList <:+ w.toList ∧
        m.spec.keyword? z = some v := by
  have hmem := List.mem_of_getElem? hi
  have hpe : S.Path 0 w.toList e := hc.path _ hmem
  obtain ⟨z, hz⟩ := (h.exists_path_iff hf hwf.start_lt w.toList).2 ⟨e, hpe⟩
  have htz : m.spec.isTerminal z = true := (h.terminal_of_path hf hwf.start_lt hz).2
    (RuleSpec.accepts_iff.2 (.inl ⟨e, hpe, hc.terminal _ hmem⟩))
  have hke : S.keyword? e = some w := RuleSpec.keyword?_of_mem hwf.keywords_sorted hmem
  have hkz := h.keyword_of_path hf hwf.start_lt hz
  refine ⟨z, hz, htz, ?_⟩
  cases hk : m.spec.keyword? z with
  | none =>
    -- the chain's end is covered and is a keyword state
    rw [hk] at hkz
    rw [hkz e hpe] at hke
    cases hke
  | some v =>
    rw [hk] at hkz
    obtain ⟨e', hpe', hke', hlow⟩ := hkz
    have hmem' := RuleSpec.mem_of_keyword? hke'
    obtain ⟨j, hj⟩ := List.getElem?_of_mem hmem'
    have hle : e' ≤ e := by
      by_contra hlt
      rw [hlow e (by omega) hpe] at hke
      cases hke
    exact ⟨j, RuleSpec.index_le_of_sorted hwf.keywords_sorted hi hj hle, e', v, hj,
      hc.suffix _ hmem' w.toList hpe', rfl⟩

/-- Every reserved word of a rule file is read, by the compiled automaton and by the lexer's
walk alike, as the earliest declared reserved word that is a suffix of it; in particular as
itself when no reserved word declared before it is a proper suffix of it. -/
theorem classify_reservedWord {T : String} {A : Automaton} (hA : Automaton.ofRules T = .ok A)
    {i : Nat} {w : String} (hw : (RuleFile.reservedWords T)[i]? = some w) :
    ∃ j ≤ i, ∃ w', (RuleFile.reservedWords T)[j]? = some w' ∧ w'.toList <:+ w.toList ∧
      A.classify w.toList = .keyword w' ∧ A.kind? (A.run w.toList) = some (.keyword w') ∧
      ((∀ j < i, ∀ v, (RuleFile.reservedWords T)[j]? = some v → v.toList <:+ w.toList →
          v = w) → w' = w) := by
  obtain ⟨S, hS, hcomp⟩ := Except.bind_eq_ok.1 hA
  obtain ⟨hwf, hterm⟩ := RuleSpec.parse_wellFormed hS
  obtain ⟨hkw, hc⟩ := RuleSpec.parse_keywords hS
  -- the reserved words are the keyword list's words, position by position
  have hword : ∀ {j e : Nat} {v : String},
      S.keywords[j]? = some (e, v) → (RuleFile.reservedWords T)[j]? = some v := by
    intro j e v hj
    rw [← hkw, List.getElem?_map, hj]
    rfl
  rw [← hkw, List.getElem?_map] at hw
  obtain ⟨⟨e, w⟩, hei, rfl⟩ := Option.map_eq_some_iff.1 hw
  obtain ⟨m, h, hf, hspec⟩ := Merger.inv_removeForks hwf hterm
  rw [RuleSpec.determinize_eq_classify, hspec] at hcomp
  obtain ⟨z, hz, htz, j, hji, e', v, hj, hsuffix, hk⟩ := h.reservedWord hf hwf hc hei
  obtain ⟨hkind, hclass⟩ := Trimmed.kind_classify_of_path h.wf hf hcomp hz htz
  rw [hk] at hkind hclass
  refine ⟨j, hji, v, hword hj, hsuffix, hclass, hkind, fun hearlier => ?_⟩
  -- the same declaration, or an earlier one that is a suffix and so the word itself
  rcases Nat.lt_or_eq_of_le hji with hlt | rfl
  · exact hearlier j hlt v (hword hj) hsuffix
  · rw [hei, Option.some.injEq, Prod.mk.injEq] at hj
    exact hj.2.symm

/-- A rule file whose start state loops on `a`, with the reserved word `b` declared before `ab`. -/
def suffixFirstRules : String :=
  "<S> ::= a<S> | b\nb\nab"

/-- What `suffixFirstRules` compiles to. -/
def suffixFirstAutomaton : Automaton where
  table := #[1, 2, 1, 3, 4, 4, 4, 4, 4, 4]
  kinds := #[some .identifier, some .identifier, some (.keyword "b"), some (.keyword "b"),
    some .error]
  stateIds := #[0, 4, 5, 6]
  alphabet := #['a', 'b']
  rows := 5
  initial := 0

/-- `ab` is read as the reserved word `b`: the loop on `a` brings the start state back before
`b`, and the chain of `b` was hung off it first. -/
theorem suffixFirst_classify :
    Automaton.ofRules suffixFirstRules = .ok suffixFirstAutomaton ∧
      (RuleFile.reservedWords suffixFirstRules)[1]? = some "ab" ∧
      ∃ j ≤ 1, ∃ w', (RuleFile.reservedWords suffixFirstRules)[j]? = some w' ∧
        w'.toList <:+ "ab".toList ∧ suffixFirstAutomaton.classify "ab".toList = .keyword w' ∧
        suffixFirstAutomaton.kind? (suffixFirstAutomaton.run "ab".toList) = some (.keyword w') ∧
        ((∀ j < 1, ∀ v, (RuleFile.reservedWords suffixFirstRules)[j]? = some v →
          v.toList <:+ "ab".toList → v = "ab") → w' = "ab") := by
  have hA : Automaton.ofRules suffixFirstRules = .ok suffixFirstAutomaton := by cbv
  have hw : (RuleFile.reservedWords suffixFirstRules)[1]? = some "ab" := by cbv
  exact ⟨hA, hw, classify_reservedWord hA hw⟩

end LexLR
