import LexLR.Spec.Builder
import LexLR.Proofs.Runs
/-!
# Well-formed specifications

Every specification a builder hands out is well formed: it has a start state, transitions
target states that exist, the alphabet is ascending and holds every symbol a production reads,
every rule is ordered, and the keyword states exist and are listed by id. A builder keeps an
invariant that every call preserves, and building turns it into well-formedness; the dangling
check of building supplies the targets.
-/

namespace LexLR

namespace RuleSpec

/-- What every specification assembled by a builder satisfies. -/
structure WellFormed (s : RuleSpec) : Prop where
  start_lt : 0 < s.size
  target_lt : ∀ {q c t}, s.Moves q c t → t < s.size
  symbol_mem : ∀ {q p c}, p ∈ (s.rule q).productions → p.symbol? = some c → c ∈ s.alphabet
  alphabet_sorted : s.alphabet.Pairwise (· < ·)
  rule_sorted : ∀ q, (s.rule q).Sorted
  keyword_lt : ∀ e ∈ s.keywords, e.1 < s.size
  keywords_sorted : s.keywords.Pairwise fun a b => a.1 < b.1

/-- A production of a state is one of some rule of the arena. -/
theorem mem_rule {s : RuleSpec} {q : Nat} {p : Production} (hp : p ∈ (s.rule q).productions) :
    ∃ r ∈ s.rules, p ∈ r.productions := by
  simp only [RuleSpec.rule, Array.getD_eq_getD_getElem?] at hp
  cases hq : s.rules[q]? with
  | none => simp [hq] at hp
  | some r =>
    rw [hq, Option.getD_some] at hp
    exact ⟨r, Array.mem_of_getElem? hq, hp⟩

end RuleSpec

theorem mem_putKeyword {q : Nat} {w : String} {e : Nat × String} {l : List (Nat × String)}
    (h : e ∈ putKeyword q w l) : e = (q, w) ∨ e ∈ l := by
  fun_induction putKeyword q w l with
  | case1 => simpa using h
  | case2 p v rest _ => simpa using h
  | case3 v rest _ =>
    rcases List.mem_cons.1 h with h | h
    · exact .inl h
    · exact .inr (List.mem_cons_of_mem _ h)
  | case4 p v rest _ _ ih =>
    rcases List.mem_cons.1 h with rfl | h
    · exact .inr List.mem_cons_self
    · rcases ih h with h | h
      · exact .inl h
      · exact .inr (List.mem_cons_of_mem _ h)

theorem putKeyword_pairwise (q : Nat) (w : String) {l : List (Nat × String)}
    (h : l.Pairwise fun a b => a.1 < b.1) :
    (putKeyword q w l).Pairwise fun a b => a.1 < b.1 := by
  fun_induction putKeyword q w l with
  | case1 => simp
  | case2 p v rest hlt =>
    refine List.pairwise_cons.2 ⟨fun e he => ?_, h⟩
    rcases List.mem_cons.1 he with rfl | he
    · exact hlt
    · exact Nat.lt_trans hlt (List.rel_of_pairwise_cons h he)
  | case3 v rest _ =>
    exact List.pairwise_cons.2 ⟨fun e he => List.rel_of_pairwise_cons h he,
      (List.pairwise_cons.1 h).2⟩
  | case4 p v rest hnlt hne ih =>
    obtain ⟨hp, hrest⟩ := List.pairwise_cons.1 h
    refine List.pairwise_cons.2 ⟨fun e he => ?_, ih hrest⟩
    rcases mem_putKeyword he with rfl | he
    · show p < q
      omega
    · exact hp e he

namespace Builder

/-- The invariant every call on a builder keeps. -/
structure Sound (b : Builder) : Prop where
  rule_sorted : ∀ r ∈ b.rules, r.Sorted
  keyword_lt : ∀ e ∈ b.keywords, e.1 < b.size
  keywords_sorted : b.keywords.Pairwise fun a b => a.1 < b.1

theorem sound_empty : ({} : Builder).Sound :=
  ⟨by simp, by simp, by simp⟩

@[simp]
theorem size_push (b : Builder) (name : Option String) : (b.push name).1.size = b.size + 1 := by
  simp [push, size]

@[simp]
theorem push_snd (b : Builder) (name : Option String) : (b.push name).2 = b.size :=
  rfl

theorem Sound.push {b : Builder} (h : b.Sound) (name : Option String) : (b.push name).1.Sound where
  rule_sorted r hr := by
    rcases Array.mem_push.1 hr with hr | rfl
    · exact h.rule_sorted r hr
    · exact Rule.sorted_empty
  keyword_lt e he := by
    have := h.keyword_lt e he
    simp only [size_push]
    omega
  keywords_sorted := h.keywords_sorted

theorem Sound.state {b : Builder} (h : b.Sound) (name : String) : (b.state name).1.Sound := by
  unfold Builder.state
  split
  · exact h
  · obtain ⟨hr, hk, hs⟩ := h.push (some name)
    exact ⟨hr, hk, hs⟩

theorem Sound.start {b : Builder} (h : b.Sound) : b.start.1.Sound := by
  unfold Builder.start
  split
  · exact h.push _
  · exact h

theorem start_size_pos (b : Builder) : 0 < b.start.1.size := by
  unfold Builder.start newState
  split
  · simp
  · rename_i hne
    simp only [size]
    simpa [Array.isEmpty_iff_size_eq_zero, Nat.pos_iff_ne_zero] using hne

theorem start_snd (b : Builder) : b.start.2 = 0 := by
  unfold Builder.start newState
  split
  · rename_i he
    simpa [size, Array.isEmpty_iff_size_eq_zero] using he
  · rfl

@[simp]
theorem rules_markTerminal (b : Builder) (q : Nat) : (b.markTerminal q).rules = b.rules :=
  rfl

theorem Sound.markTerminal {b : Builder} (h : b.Sound) (q : Nat) : (b.markTerminal q).Sound :=
  ⟨h.rule_sorted, h.keyword_lt, h.keywords_sorted⟩

/-- Replacing the rules by ordered ones of the same number keeps the invariant. -/
theorem Sound.withRules {b : Builder} (h : b.Sound) {rules : Array Rule}
    (hsize : rules.size = b.rules.size) (hr : ∀ r ∈ rules, r.Sorted) :
    ({ b with rules := rules } : Builder).Sound where
  rule_sorted := hr
  keyword_lt e he := by simpa [size, hsize] using h.keyword_lt e he
  keywords_sorted := h.keywords_sorted

theorem Sound.insertAt {b : Builder} (h : b.Sound) (q : Nat) (p : Production) :
    ({ b with rules := b.rules.modify q fun r => r.insert p } : Builder).Sound := by
  refine h.withRules Array.size_modify fun r hr => ?_
  obtain ⟨i, hi, rfl⟩ := Array.mem_iff_getElem.1 hr
  rw [Array.getElem_modify]
  split
  · exact (h.rule_sorted _ (Array.getElem_mem _)).insert p
  · exact h.rule_sorted _ (Array.getElem_mem _)

theorem Sound.addProduction {b b' : Builder} (h : b.Sound) {q : Nat} {p : Production}
    (he : b.addProduction q p = .ok b') : b'.Sound := by
  unfold Builder.addProduction at he
  split at he
  · rename_i hq
    have hs : ({ b with rules := b.rules.set q (b.rules[q].insert p) } : Builder).Sound := by
      refine h.withRules (Array.size_set _) fun r hr => ?_
      obtain ⟨i, hi, rfl⟩ := Array.mem_iff_getElem.1 hr
      rw [Array.getElem_set]
      split
      · exact (h.rule_sorted _ (Array.getElem_mem _)).insert p
      · exact h.rule_sorted _ (Array.getElem_mem _)
    simp only [Except.ok.injEq] at he
    subst he
    split
    · exact hs.markTerminal q
    · exact hs
  · simp at he

theorem size_addProduction {b b' : Builder} {q : Nat} {p : Production}
    (he : b.addProduction q p = .ok b') : b'.size = b.size := by
  unfold Builder.addProduction at he
  split at he
  · simp only [Except.ok.injEq] at he
    subst he
    split <;> simp [size, markTerminal]
  · simp at he

theorem Sound.chain {b : Builder} (h : b.Sound) (q : Nat) (cs : List Char) :
    (b.chain q cs).1.Sound := by
  induction cs generalizing b q with
  | nil => exact h
  | cons c cs ih =>
    simp only [Builder.chain]
    exact ih ((h.push none).insertAt _ _) _

/-- A chain hung off an existing state ends at an existing state. -/
theorem chain_lt {b : Builder} {q : Nat} (hq : q < b.size) (cs : List Char) :
    (b.chain q cs).2 < (b.chain q cs).1.size := by
  induction cs generalizing b q with
  | nil => exact hq
  | cons c cs ih =>
    simp only [Builder.chain]
    apply ih
    simp [size, newState, push]

theorem chain_start_lt (b : Builder) (cs : List Char) :
    (b.start.1.chain b.start.2 cs).2 < (b.start.1.chain b.start.2 cs).1.size :=
  chain_lt (by rw [start_snd]; exact start_size_pos b) cs

theorem Sound.addKeyword {b b' : Builder} (h : b.Sound) {word : String} {last : Nat}
    (he : b.addKeyword word = .ok (b', last)) : b'.Sound := by
  unfold Builder.addKeyword at he
  split at he
  · simp at he
  · simp only [Except.ok.injEq, Prod.mk.injEq] at he
    obtain ⟨rfl, rfl⟩ := he
    have hc := h.start.chain b.start.2 word.toList
    have hlt := chain_start_lt b word.toList
    refine ⟨hc.rule_sorted, fun e he => ?_, putKeyword_pairwise _ _ hc.keywords_sorted⟩
    rcases mem_putKeyword he with rfl | he
    · simpa [size] using hlt
    · simpa [size] using hc.keyword_lt e he

theorem Sound.perform {b : Builder} (h : b.Sound) (st : Step) : (b.perform st).1.Sound := by
  cases st with
  | state name => exact h.state name
  | lookup name => exact h
  | newState => exact h.push none
  | start => exact h.start
  | markTerminal q => exact h.markTerminal q
  | addProduction q p =>
    simp only [Builder.perform]
    split
    · rename_i b' he
      exact h.addProduction he
    · exact h
  | addKeyword w =>
    simp only [Builder.perform]
    split
    · rename_i b' q he
      exact h.addKeyword he
    · exact h

theorem mem_insertSymbol {c d : Char} {l : List Char} :
    d ∈ insertSymbol c l ↔ d = c ∨ d ∈ l := by
  fun_induction insertSymbol c l with
  | case1 => simp
  | case2 e es _ => simp
  | case3 es _ => simp
  | case4 e es _ _ ih => simp only [List.mem_cons, ih, or_left_comm]

theorem insertSymbol_pairwise (c : Char) {l : List Char} (h : l.Pairwise (· < ·)) :
    (insertSymbol c l).Pairwise (· < ·) := by
  fun_induction insertSymbol c l with
  | case1 => simp
  | case2 e es hlt =>
    refine List.pairwise_cons.2 ⟨fun x hx => ?_, h⟩
    rcases List.mem_cons.1 hx with rfl | hx
    · exact hlt
    · exact lt_trans hlt (List.rel_of_pairwise_cons h hx)
  | case3 => exact h
  | case4 e es hnlt hne ih =>
    obtain ⟨he, hes⟩ := List.pairwise_cons.1 h
    refine List.pairwise_cons.2 ⟨fun x hx => ?_, ih hes⟩
    rcases mem_insertSymbol.1 hx with rfl | hx
    · exact lt_of_le_of_ne (not_lt.1 hnlt) (Ne.symm hne)
    · exact he x hx

theorem mem_foldl_insertSymbol {c : Char} {acc cs : List Char} :
    c ∈ cs.foldl (fun acc d => insertSymbol d acc) acc ↔ c ∈ acc ∨ c ∈ cs := by
  induction cs generalizing acc with
  | nil => simp
  | cons d ds ih =>
    rw [List.foldl_cons, ih, mem_insertSymbol, List.mem_cons]
    grind

theorem foldl_insertSymbol_pairwise {acc : List Char} (h : acc.Pairwise (· < ·))
    (cs : List Char) : (cs.foldl (fun acc d => insertSymbol d acc) acc).Pairwise (· < ·) := by
  induction cs generalizing acc with
  | nil => exact h
  | cons d ds ih => exact ih (insertSymbol_pairwise d h)

/-- The alphabet holds exactly the symbols that some production reads. -/
theorem mem_alphabetOf {rules : Array Rule} {c : Char} :
    c ∈ alphabetOf rules ↔ ∃ r ∈ rules, ∃ p ∈ r.productions, p.symbol? = some c := by
  unfold alphabetOf
  rw [← Array.foldl_toList]
  suffices ∀ acc : List Char, c ∈ rules.toList.foldl (fun acc r =>
      (r.productions.filterMap Production.symbol?).foldl (fun acc c => insertSymbol c acc) acc)
        acc ↔
      c ∈ acc ∨ ∃ r ∈ rules.toList, ∃ p ∈ r.productions, p.symbol? = some c by
    simpa using this []
  intro acc
  induction rules.toList generalizing acc with
  | nil => simp
  | cons r rs ih =>
    rw [List.foldl_cons, ih, mem_foldl_insertSymbol, List.mem_filterMap]
    simp only [List.mem_cons]
    grind

theorem alphabetOf_pairwise (rules : Array Rule) : (alphabetOf rules).Pairwise (· < ·) := by
  unfold alphabetOf
  rw [← Array.foldl_toList]
  suffices ∀ acc : List Char, acc.Pairwise (· < ·) → (rules.toList.foldl (fun acc r =>
      (r.productions.filterMap Production.symbol?).foldl (fun acc c => insertSymbol c acc) acc)
      acc).Pairwise (· < ·) from this [] List.Pairwise.nil
  intro acc hacc
  induction rules.toList generalizing acc with
  | nil => exact hacc
  | cons r rs ih => exact ih _ (foldl_insertSymbol_pairwise hacc _)

/-- Building turns the invariant into well-formedness; the dangling check gives the targets. -/
theorem Sound.build {b : Builder} {s : RuleSpec} (h : b.Sound) (hb : b.build = .ok s) :
    s.WellFormed := by
  unfold Builder.build at hb
  dsimp only at hb
  split at hb
  · simp at hb
  · rename_i hd
    simp only [Except.ok.injEq] at hb
    subst hb
    have hs := h.start
    refine ⟨start_size_pos b, fun {q c t} hm => ?_, fun {q p c} hp hc => ?_,
      alphabetOf_pairwise _, fun q => ?_, hs.keyword_lt, hs.keywords_sorted⟩
    · obtain ⟨r, hr, hp⟩ := RuleSpec.mem_rule hm
      have := List.findSome?_eq_none_iff.1 hd r (Array.mem_toList_iff.2 hr)
      have := List.findSome?_eq_none_iff.1 this _ hp
      simp only [Production.target?] at this
      split at this
      · assumption
      · simp at this
    · obtain ⟨r, hr, hp⟩ := RuleSpec.mem_rule hp
      exact mem_alphabetOf.2 ⟨r, hr, p, hp, hc⟩
    · simp only [RuleSpec.rule, Array.getD_eq_getD_getElem?]
      cases hq : b.start.1.rules[q]? with
      | none => exact Rule.sorted_empty
      | some r => exact hs.rule_sorted r (Array.mem_of_getElem? hq)

/-- Every builder reached by calls from the empty one keeps the invariant. -/
theorem sound_performAll {b : Builder} (h : b.Sound) (steps : List Step) :
    (b.performAll steps).1.Sound := by
  induction steps generalizing b with
  | nil => exact h
  | cons st steps ih =>
    simp only [Builder.performAll]
    exact ih (h.perform st)

end Builder

end LexLR
