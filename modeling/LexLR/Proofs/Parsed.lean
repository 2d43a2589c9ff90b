import LexLR.Spec.Parse
import LexLR.Proofs.Built
/-!
# Specifications read from rule files

Reading a rule file mints the head states of its grammar lines, adds productions to states it
has minted, and hangs a chain of fresh states off the start state for each reserved word. Every
call keeps the builder invariant, and marks terminal only a state that exists, so what a rule
file reads to is well formed and its terminal states are all states of it.
-/

namespace LexLR

theorem Except.bind_eq_ok {ε α β : Type} {x : Except ε α} {f : α → Except ε β} {b : β} :
    x >>= f = .ok b ↔ ∃ a, x = .ok a ∧ f a = .ok b := by
  cases x <;> simp [bind, Except.bind]

/-- A property that every step of a fold keeps holds of its result. -/
theorem foldlM_except_invariant {ε α β : Type} {f : β → α → Except ε β} (I : β → Prop)
    (step : ∀ b a b', I b → f b a = .ok b' → I b') :
    ∀ {l : List α} {b r : β}, I b → l.foldlM f b = .ok r → I r
  | [], _, _, hb, he => by
    simp only [List.foldlM_nil] at he
    cases he
    exact hb
  | a :: l, b, _, hb, he => by
    rw [List.foldlM_cons] at he
    obtain ⟨b', hb', hrest⟩ := Except.bind_eq_ok.1 he
    exact foldlM_except_invariant I step (step b a b' hb hb') hrest

namespace Builder

/-- What reading a rule file keeps of a builder: the invariant of every call, and terminal marks
only on states that were handed out. -/
structure Parsing (b : Builder) : Prop where
  sound : b.Sound
  terminal_lt : ∀ q ∈ b.terminals, q < b.size

theorem parsing_empty : ({} : Builder).Parsing :=
  ⟨sound_empty, by simp⟩

theorem Parsing.push {b : Builder} (h : b.Parsing) (name : Option String) :
    (b.push name).1.Parsing :=
  ⟨h.sound.push name, fun q hq => by
    have := h.terminal_lt q hq
    simp only [size_push]
    omega⟩

theorem Parsing.state {b : Builder} (h : b.Parsing) (name : String) : (b.state name).1.Parsing := by
  unfold Builder.state
  split
  · exact h
  · obtain ⟨hs, ht⟩ := h.push (some name)
    exact ⟨⟨hs.rule_sorted, hs.keyword_lt, hs.keywords_sorted⟩, ht⟩

theorem Parsing.start {b : Builder} (h : b.Parsing) : b.start.1.Parsing := by
  unfold Builder.start
  split
  · exact h.push _
  · exact h

theorem Parsing.addProduction {b b' : Builder} (h : b.Parsing) {q : Nat} {p : Production}
    (he : b.addProduction q p = .ok b') : b'.Parsing := by
  refine ⟨h.sound.addProduction he, fun x hx => ?_⟩
  rw [size_addProduction he]
  unfold Builder.addProduction at he
  split at he
  · rename_i hq
    simp only [Except.ok.injEq] at he
    subst he
    -- a literal or epsilon marks its owner, which exists
    split at hx
    · rcases IdSet.mem_insert.1 hx with rfl | hx
      · exact hq
      · exact h.terminal_lt x hx
    · exact h.terminal_lt x hx
  · simp at he

theorem terminals_chain (b : Builder) (q : Nat) (cs : List Char) :
    (b.chain q cs).1.terminals = b.terminals := by
  induction cs generalizing b q with
  | nil => rfl
  | cons c cs ih =>
    simp only [Builder.chain]
    rw [ih]
    rfl

theorem size_le_chain (b : Builder) (q : Nat) (cs : List Char) :
    b.size ≤ (b.chain q cs).1.size := by
  induction cs generalizing b q with
  | nil => exact Nat.le_refl _
  | cons c cs ih =>
    simp only [Builder.chain]
    refine Nat.le_trans ?_ (ih _ _)
    simp [size, newState, push]

theorem Parsing.chain {b : Builder} (h : b.Parsing) (q : Nat) (cs : List Char) :
    (b.chain q cs).1.Parsing :=
  ⟨h.sound.chain q cs, fun x hx => by
    rw [terminals_chain] at hx
    exact Nat.lt_of_lt_of_le (h.terminal_lt x hx) (size_le_chain b q cs)⟩

theorem Parsing.addKeyword {b b' : Builder} (h : b.Parsing) {word : String} {last : Nat}
    (he : b.addKeyword word = .ok (b', last)) : b'.Parsing := by
  refine ⟨h.sound.addKeyword he, ?_⟩
  unfold Builder.addKeyword at he
  split at he
  · simp at he
  · simp only [Except.ok.injEq, Prod.mk.injEq] at he
    obtain ⟨rfl, rfl⟩ := he
    have hc := h.start.chain b.start.2 word.toList
    have hlt := chain_start_lt b word.toList
    -- the chain's end is the one new mark
    intro x hx
    rcases IdSet.mem_insert.1 hx with rfl | hx
    · simpa [size, markTerminal] using hlt
    · simpa [size, markTerminal] using hc.terminal_lt x hx

/-- Building from a builder that reading keeps gives a well-formed specification whose terminal
states all exist. -/
theorem Parsing.build {b : Builder} {s : RuleSpec} (h : b.Parsing) (hb : b.build = .ok s) :
    s.WellFormed ∧ ∀ q ∈ s.terminals, q < s.size := by
  refine ⟨h.sound.build hb, ?_⟩
  have ht := h.start.terminal_lt
  unfold Builder.build at hb
  dsimp only at hb
  split at hb
  · simp at hb
  · simp only [Except.ok.injEq] at hb
    subst hb
    exact ht

end Builder

namespace RuleFile

open Builder

theorem parsing_heads {b b' : Builder} (h : b.Parsing) {ls : List (Nat × List Char)}
    {hs : List (Nat × Nat × List Char)} (he : heads b ls = .ok (b', hs)) : b'.Parsing := by
  induction ls generalizing b hs with
  | nil =>
    simp only [heads, Except.ok.injEq, Prod.mk.injEq] at he
    obtain ⟨rfl, -⟩ := he
    exact h
  | cons l ls ih =>
    obtain ⟨line, compact⟩ := l
    simp only [heads] at he
    split at he
    · cases he
    · split at he
      · cases he
      · -- the head's state is minted before the rest are read
        split at he
        · simp only [Except.ok.injEq, Prod.mk.injEq] at he
          obtain ⟨rfl, -⟩ := he
          exact ih (h.state _) (by assumption)
        · cases he

theorem parsing_bodies {b b' : Builder} (h : b.Parsing) {hs : List (Nat × Nat × List Char)}
    (he : bodies b hs = .ok b') : b'.Parsing := by
  induction hs generalizing b with
  | nil =>
    simp only [bodies, Except.ok.injEq] at he
    exact he ▸ h
  | cons l hs ih =>
    obtain ⟨line, q, body⟩ := l
    obtain ⟨b₁, hb₁, hrest⟩ := Except.bind_eq_ok.1 he
    -- each alternative of the line is read, then added to its head
    refine ih (foldlM_except_invariant Parsing (fun b alt b' hb he => ?_) h hb₁) hrest
    obtain ⟨p, -, hp⟩ := Except.bind_eq_ok.1 he
    exact hb.addProduction hp

theorem parsing_keywords {b b' : Builder} (h : b.Parsing) {ws : List String}
    (he : keywords b ws = .ok b') : b'.Parsing := by
  induction ws generalizing b with
  | nil =>
    simp only [keywords, Except.ok.injEq] at he
    exact he ▸ h
  | cons w ws ih =>
    obtain ⟨⟨b₁, last⟩, hb₁, hrest⟩ := Except.bind_eq_ok.1 he
    exact ih (h.addKeyword hb₁) hrest

end RuleFile

/-- Reading a rule file splits it into entries, mints the head states of its grammar lines, adds
their alternatives to them, expands its reserved words, and builds. -/
theorem RuleSpec.parse_eq_ok {text : String} {s : RuleSpec} (h : RuleSpec.parse text = .ok s) :
    ∃ es b hs b₁ b₂, RuleFile.entries text = .ok es ∧
      RuleFile.heads {} (es.filterMap fun e => match e with
        | .grammar line compact => some (line, compact)
        | .word _ => none) = .ok (b, hs) ∧
      RuleFile.bodies b hs = .ok b₁ ∧
      RuleFile.keywords b₁ (es.filterMap fun e => match e with
        | .grammar _ _ => none
        | .word w => some w) = .ok b₂ ∧
      b₂.build = .ok s := by
  obtain ⟨es, hes, h⟩ := Except.bind_eq_ok.1 h
  obtain ⟨⟨b, hs⟩, hb, h⟩ := Except.bind_eq_ok.1 h
  obtain ⟨b₁, hb₁, h⟩ := Except.bind_eq_ok.1 h
  obtain ⟨b₂, hb₂, h⟩ := Except.bind_eq_ok.1 h
  exact ⟨es, b, hs, b₁, b₂, hes, hb, hb₁, hb₂, h⟩

/-- A rule file reads to a well-formed specification whose terminal states all exist. -/
theorem RuleSpec.parse_wellFormed {text : String} {s : RuleSpec} (h : RuleSpec.parse text = .ok s) :
    s.WellFormed ∧ ∀ q ∈ s.terminals, q < s.size := by
  obtain ⟨es, b, hs, b₁, b₂, -, hb, hb₁, hb₂, h⟩ := RuleSpec.parse_eq_ok h
  have hp := RuleFile.parsing_keywords (RuleFile.parsing_bodies
    (RuleFile.parsing_heads Builder.parsing_empty hb) hb₁) hb₂
  exact hp.build h

end LexLR
