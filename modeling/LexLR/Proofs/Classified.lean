import LexLR.Proofs.Keywords
/-!
# Trimming classifies states by paths

Trimming sorts the states of a specification into three kinds: a state is unreachable when no
chain of transitions leads to it from the start state, dead when one does but no chain leads
from it to a terminal state, and live otherwise. Literals and epsilon productions open no chain.
The specifications trimming is given are those a builder returns and those determinizing one of
them leaves. Both are well formed, and on a well-formed specification the marks trimming computes
are exactly these chains (`RuleSpec.reachable_iff`, `RuleSpec.productive_iff`).

Consequently an automaton compiled from a trimmed specification is trim: every live row is
entered from the initial row by a word over the alphabet and leads on, by another, to a row that
accepts an identifier or a reserved word. Main statement: `trim_classifies_of_produced`.
-/

namespace LexLR

namespace RuleSpec

/-- The specifications the tool trims: those a builder returns, from any calls, and those that
determinizing one of them leaves. -/
inductive Produced : RuleSpec → Prop
  | build (steps : List Builder.Step) {S : RuleSpec} :
      (Builder.performAll {} steps).1.build = .ok S → Produced S
  | determinize {S : RuleSpec} : Produced S → Produced S.determinize.spec

theorem Produced.wellFormed {S : RuleSpec} (h : S.Produced) : S.WellFormed := by
  induction h with
  | build steps hb => exact (Builder.sound_performAll Builder.sound_empty steps).build hb
  | determinize _ ih =>
    rw [determinize_spec]
    exact Merger.wellFormed_removeForks ih

/-- What compile is given, from a produced specification determinized or only trimmed, is well
formed. -/
theorem Produced.trimmed_wellFormed {S : RuleSpec} {t : Trimmed} (hS : S.Produced)
    (ht : t = S.determinize ∨ t = S.trim) : t.spec.WellFormed := by
  rcases ht with rfl | rfl
  · exact hS.determinize.wellFormed
  · exact hS.wellFormed

/-- A chain of transitions reads only symbols of the alphabet. -/
theorem Path.mem_alphabet {s : RuleSpec} (hs : s.WellFormed) {q t : Nat} {w : List Char}
    (hp : s.Path q w t) : ∀ c ∈ w, c ∈ s.alphabet := by
  induction hp with
  | nil => simp
  | cons hm _ ih =>
    intro c hc
    rcases List.mem_cons.1 hc with rfl | hc
    · exact hs.symbol_mem hm rfl
    · exact ih c hc

end RuleSpec

namespace Trimmed

open RuleSpec

/-- How trimming classifies the states of its specification: by the chains of transitions that
lead to them from the start state and from them to a terminal state. -/
structure Classifies (t : Trimmed) : Prop where
  unreachable_iff : ∀ q, q ∈ t.unreachable ↔ q < t.spec.size ∧ ¬∃ w, t.spec.Path 0 w q
  dead_iff : ∀ q, q ∈ t.dead ↔ q < t.spec.size ∧ (∃ w, t.spec.Path 0 w q) ∧
    ¬∃ w u, t.spec.Path q w u ∧ t.spec.isTerminal u = true
  isLive_iff : ∀ q < t.spec.size, t.isLive q = true ↔
    (∃ w, t.spec.Path 0 w q) ∧ ∃ w u, t.spec.Path q w u ∧ t.spec.isTerminal u = true
  /-- Every state is of exactly one kind. -/
  partition : ∀ q < t.spec.size,
    (q ∈ t.unreachable ∧ q ∉ t.dead ∧ t.isLive q = false) ∨
      (q ∉ t.unreachable ∧ q ∈ t.dead ∧ t.isLive q = false) ∨
      (q ∉ t.unreachable ∧ q ∉ t.dead ∧ t.isLive q = true)
  live_sorted : t.live.Pairwise (· < ·)
  mem_live : ∀ q, q ∈ t.live ↔ q < t.spec.size ∧ t.isLive q = true

variable {s : RuleSpec} {passes merged : Nat}

theorem mem_unreachable_classify (hs : s.WellFormed) {q : Nat} :
    q ∈ (classify s passes merged).unreachable ↔ q < s.size ∧ ¬∃ w, s.Path 0 w q := by
  simp only [classify, List.mem_filter, List.mem_range, Bool.not_eq_true', ← reachable_iff hs,
    Bool.not_eq_true]

theorem mem_dead_classify (hs : s.WellFormed) {q : Nat} :
    q ∈ (classify s passes merged).dead ↔ q < s.size ∧ (∃ w, s.Path 0 w q) ∧
      ¬∃ w u, s.Path q w u ∧ s.isTerminal u = true := by
  simp only [classify, List.mem_filter, List.mem_range, Bool.and_eq_true, Bool.not_eq_true']
  constructor
  · rintro ⟨hq, hr, hp⟩
    refine ⟨hq, (reachable_iff hs).1 hr, fun h => ?_⟩
    rw [(productive_iff hs hq).2 h] at hp
    cases hp
  · rintro ⟨hq, hr, hp⟩
    refine ⟨hq, (reachable_iff hs).2 hr, ?_⟩
    cases h : s.productive.getD q false with
    | false => rfl
    | true => exact absurd ((productive_iff hs hq).1 h) hp

/-- A trimmed well-formed specification is classified by its chains of transitions. -/
theorem classifies_classify (hs : s.WellFormed) : (classify s passes merged).Classifies where
  unreachable_iff _ := mem_unreachable_classify hs
  dead_iff _ := mem_dead_classify hs
  isLive_iff _ hq := isLive_classify hs hq
  partition q _ := by
    by_cases hu : q ∈ (classify s passes merged).unreachable
    · -- a dead state is reachable, so an unreachable one is not dead
      have hd : q ∉ (classify s passes merged).dead := fun hd =>
        ((mem_unreachable_classify hs).1 hu).2 ((mem_dead_classify hs).1 hd).2.1
      exact .inl ⟨hu, hd, by simp [isLive, hu]⟩
    · by_cases hd : q ∈ (classify s passes merged).dead
      · exact .inr (.inl ⟨hu, hd, by simp [isLive, hd]⟩)
      · exact .inr (.inr ⟨hu, hd, by simp [isLive, hu, hd]⟩)
  live_sorted := live_pairwise _
  mem_live q := by simp only [live, List.mem_filter, List.mem_range, spec_classify]

end Trimmed

namespace Automaton

/-- Every live row is entered from the initial row by some word over the alphabet, and leads on,
by some word over the alphabet, to a row that accepts an identifier or a reserved word. -/
def IsTrim (A : Automaton) : Prop :=
  ∀ r < A.liveCount,
    (∃ w : List Char, (∀ c ∈ w, c ∈ A.alphabet) ∧ A.run w = r) ∧
      ∃ w : List Char, (∀ c ∈ w, c ∈ A.alphabet) ∧
        (A.kind? (w.foldl A.next r) = some .identifier ∨
          ∃ k, A.kind? (w.foldl A.next r) = some (.keyword k))

end Automaton

namespace Trimmed

open RuleSpec

variable {s : RuleSpec} {passes merged : Nat}

/-- An automaton compiled from a trimmed well-formed specification is trim. -/
theorem isTrim_of_compile_eq_ok (hs : s.WellFormed) {A : Automaton}
    (hA : (classify s passes merged).compile = .ok A) : A.IsTrim := by
  obtain ⟨hf, -, rfl⟩ := eq_compiled_of_compile_eq_ok hs hA
  have hcl : ∀ q, q ∈ (classify s passes merged).live ↔ q < s.size ∧ (∃ v, s.Path 0 v q) ∧
      ∃ v u, s.Path q v u ∧ s.isTerminal u = true := fun _ => mem_live_classify hs
  have hrow : ∀ {q r}, (classify s passes merged).live[r]? = some q →
      (classify s passes merged).live.idxOf? q = some r := fun h =>
    (idxOf?_eq_some_iff_of_nodup (live_nodup _)).2 h
  intro r hr
  have hr' : r < (classify s passes merged).live.length := by
    simpa [Automaton.liveCount, compiled] using hr
  -- the state of the row is live: a chain reaches it, and a chain leads from it to `u`
  obtain ⟨hq, ⟨v, hv⟩, w, u, hw, hu⟩ := (hcl _).1 (List.getElem_mem hr')
  have hqr := hrow (List.getElem?_eq_getElem hr')
  have hsym : ∀ {x y : Nat} {w : List Char}, s.Path x w y → ∀ c ∈ w,
      c ∈ (classify s passes merged).compiled.alphabet := fun hp c hc => by
    simpa [compiled] using Path.mem_alphabet hs hp c hc
  -- the end `u` is live too, with a row of its own
  have hulive : u ∈ (classify s passes merged).live :=
    (hcl u).2 ⟨hs.path_lt hw hq, ⟨v ++ w, path_append_iff.2 ⟨_, hv, hw⟩⟩, [], u, .nil u, hu⟩
  obtain ⟨r', hr'lt, hr'u, hget⟩ := exists_row_of_mem_live hulive
  refine ⟨⟨v, hsym hv, ?_⟩, w, hsym hw, ?_⟩
  · have h0 : (classify s passes merged).live.idxOf? 0 = some 0 :=
      idxOf?_zero_live hs ⟨v ++ w, u, path_append_iff.2 ⟨_, hv, hw⟩, hu⟩
    rw [Automaton.run, show (classify s passes merged).compiled.initial = 0 from rfl,
      foldl_next_compiled hs hf hcl h0, spec_classify, follow?_of_path hs hf hv]
    simp [hqr]
  · rw [foldl_next_compiled hs hf hcl hqr, spec_classify, follow?_of_path hs hf hw]
    simp only [Option.bind_some, hr'u, Option.getD_some]
    rw [kind?_compiled _ hr'lt, hget, kindOf, spec_classify, if_pos hu]
    cases s.keyword? u with
    | none => exact .inl rfl
    | some k => exact .inr ⟨k, rfl⟩

end Trimmed

/-- Trimming, alone or after determinizing, a specification a builder returned or determinizing
left, classifies every state by its chains of transitions from the start state and to a terminal
state, and every automaton compiled from the result is trim. -/
theorem trim_classifies_of_produced {S : RuleSpec} (hS : S.Produced) {t : Trimmed}
    (ht : t = S.trim ∨ t = S.determinize) :
    t.Classifies ∧ ∀ A, t.compile = .ok A → A.IsTrim := by
  have hS' := hS.wellFormed
  rcases ht with rfl | rfl
  · exact ⟨Trimmed.classifies_classify hS', fun A hA => Trimmed.isTrim_of_compile_eq_ok hS' hA⟩
  · rw [RuleSpec.determinize_eq_classify]
    have hD := Merger.wellFormed_removeForks hS'
    exact ⟨Trimmed.classifies_classify hD, fun A hA => Trimmed.isTrim_of_compile_eq_ok hD hA⟩

theorem forkingSpec_trim_classifies :
    RuleSpec.forkingSpec.Produced ∧
      RuleSpec.forkingSpec.determinize.Classifies ∧
      ∀ A, RuleSpec.forkingSpec.determinize.compile = .ok A → A.IsTrim :=
  ⟨.build RuleSpec.forkingSteps rfl, trim_classifies_of_produced (.build RuleSpec.forkingSteps rfl) (.inr rfl)⟩

end LexLR
