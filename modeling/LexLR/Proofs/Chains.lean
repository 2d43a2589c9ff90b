import Mathlib.Data.List.Induction
import LexLR.Proofs.Parsed
/-!
# Reserved words as chains

Each reserved word of a rule file becomes a chain of fresh states hung off the start state, one
per character, whose last state is terminal and carries the word. Grammar lines only point at
named states, which all exist before the first chain, and a chain's states only point along the
chain; so a word read from the start state to the end of a chain ends with the chain's word.
After a rule file is read, its keyword states are the ends of the chains, listed in the order
the words appear in the file.
-/

namespace LexLR

namespace RuleFile

/-- The reserved words of a rule file, in file order: its non-blank lines that are not grammar
lines, trimmed. -/
def reservedWords (text : String) : List String :=
  match entries text with
  | .ok es => es.filterMap fun e => match e with
    | .grammar _ _ => none
    | .word w => some w
  | .error _ => []

theorem reservedWords_of_entries {text : String} {es : List Entry} (h : entries text = .ok es) :
    reservedWords text = es.filterMap fun e => match e with
      | .grammar _ _ => none
      | .word w => some w := by
  rw [reservedWords, h]

end RuleFile

/-- Each keyword state is terminal, is read from the start state by its reserved word, and is
read from it only by words that end with that word. -/
structure RuleSpec.KeywordChains (s : RuleSpec) : Prop where
  terminal : ∀ e ∈ s.keywords, s.isTerminal e.1 = true
  path : ∀ e ∈ s.keywords, s.Path 0 e.2.toList e.1
  suffix : ∀ e ∈ s.keywords, ∀ u, s.Path 0 u e.1 → e.2.toList <:+ u

namespace Builder

open RuleSpec

/-- The specification a builder holds, as building would give it once the start state exists. -/
def view (b : Builder) : RuleSpec where
  rules := b.rules
  names := b.names
  terminals := b.terminals
  keywords := b.keywords
  alphabet := alphabetOf b.rules

theorem build_eq_view {b : Builder} {s : RuleSpec} (hb : b.build = .ok s) : s = b.start.1.view := by
  unfold Builder.build at hb
  dsimp only at hb
  split at hb
  · cases hb
  · simp only [Except.ok.injEq] at hb
    exact hb.symm

theorem keywords_view (b : Builder) : b.view.keywords = b.keywords :=
  rfl

/-! How each call changes the transitions: minting a state adds none, and inserting a production
into an existing state adds just that one. -/

section Frame

variable {b : Builder}

theorem rule_view_push (name : Option String) (y : Nat) :
    (b.push name).1.view.rule y = b.view.rule y := by
  simp only [view, RuleSpec.rule, push, Array.getD_eq_getD_getElem?, Array.getElem?_push]
  split
  · rename_i hy
    subst hy
    simp
  · rfl

theorem moves_view_push (name : Option String) {y x : Nat} {d : Char} :
    (b.push name).1.view.Moves y d x ↔ b.view.Moves y d x := by
  simp only [Moves, rule_view_push]

theorem moves_view_insert {q : Nat} (hq : q < b.size) (p : Production) {y x : Nat} {d : Char} :
    ({ b with rules := b.rules.modify q fun r => r.insert p } : Builder).view.Moves y d x ↔
      b.view.Moves y d x ∨ (y = q ∧ p = .transition d x) := by
  simp only [Moves, view, RuleSpec.rule, Array.getD_eq_getD_getElem?, Array.getElem?_modify]
  by_cases hy : q = y
  · subst hy
    have hget : b.rules[q]? = some b.rules[q] := Array.getElem?_eq_getElem hq
    simp only [hget, if_true, Option.map_some, Option.getD_some, Rule.mem_insert, true_and]
    exact or_comm.trans (or_congr_right eq_comm)
  · simp only [hy, if_false]
    constructor
    · exact .inl
    · rintro (hp | ⟨rfl, -⟩)
      · exact hp
      · exact absurd rfl hy

theorem path_mono {s s' : RuleSpec} (h : ∀ {y d x}, s.Moves y d x → s'.Moves y d x) {q u : Nat}
    {w : List Char} (hp : s.Path q w u) : s'.Path q w u := by
  induction hp with
  | nil q => exact .nil q
  | cons hm _ ih => exact .cons (h hm) ih

theorem path_iff_of_moves_iff {s s' : RuleSpec} (h : ∀ {y d x}, s.Moves y d x ↔ s'.Moves y d x)
    {q u : Nat} {w : List Char} : s.Path q w u ↔ s'.Path q w u :=
  ⟨path_mono h.1, path_mono h.2⟩

/-- A path that ends below `M`, in a specification whose transitions into states below `M` are
old ones between old states, is an old path. -/
theorem path_of_frame {s s' : RuleSpec} {M : Nat}
    (hnew : ∀ {y d x}, x < M → s'.Moves y d x → s.Moves y d x)
    (hold : ∀ {y d x}, s.Moves y d x → y < M) {q u : Nat} {w : List Char} (hu : u < M)
    (hp : s'.Path q w u) : s.Path q w u := by
  induction w using List.reverseRecOn generalizing u with
  | nil =>
    rw [path_nil_iff] at hp ⊢
    exact hp
  | append_singleton w d ih =>
    obtain ⟨t, ht, hm⟩ := path_snoc_iff.1 hp
    have hm' := hnew hu hm
    exact path_snoc_iff.2 ⟨t, ih (hold hm') ht, hm'⟩

end Frame

/-! A chain of fresh states hung off `q` for the characters `cs`: the `k`-th new state is read
from the one before it, or from `q` for the first, on the `k`-th character. -/

section Chain

/-- One character of a chain: a fresh state, and a transition to it from `q`. -/
theorem chain_cons (b : Builder) (q : Nat) (c : Char) (cs : List Char) :
    ∃ b' : Builder, b.chain q (c :: cs) = b'.chain b.size cs ∧ b'.size = b.size + 1 ∧
      b'.keywords = b.keywords ∧ b'.byName = b.byName ∧ b'.terminals = b.terminals ∧
      (q < b.size → ∀ {y x d}, b'.view.Moves y d x ↔
        b.view.Moves y d x ∨ (y = q ∧ d = c ∧ x = b.size)) := by
  refine ⟨{ (b.push none).1 with
    rules := (b.push none).1.rules.modify q fun r => r.insert (.transition c b.size) }, rfl,
    by simp [size, push], rfl, rfl, rfl, fun hq {y x d} => ?_⟩
  have hq' : q < (b.push none).1.size := by
    simp only [size, push, Array.size_push] at hq ⊢
    omega
  rw [moves_view_insert hq', moves_view_push]
  simp only [Production.transition.injEq]
  constructor
  · rintro (hm | ⟨rfl, rfl, rfl⟩)
    · exact .inl hm
    · exact .inr ⟨rfl, rfl, rfl⟩
  · rintro (hm | ⟨rfl, rfl, rfl⟩)
    · exact .inl hm
    · exact .inr ⟨rfl, rfl, rfl⟩

theorem size_chain (b : Builder) (q : Nat) (cs : List Char) :
    (b.chain q cs).1.size = b.size + cs.length := by
  induction cs generalizing b q with
  | nil => rfl
  | cons c cs ih =>
    obtain ⟨b', heq, hsize, -⟩ := chain_cons b q c cs
    rw [heq, ih, hsize, List.length_cons]
    omega

theorem chain_snd (b : Builder) (q : Nat) {cs : List Char} (hcs : cs ≠ []) :
    (b.chain q cs).2 = b.size + cs.length - 1 := by
  induction cs generalizing b q with
  | nil => exact absurd rfl hcs
  | cons c cs ih =>
    obtain ⟨b', heq, hsize, -⟩ := chain_cons b q c cs
    rw [heq]
    cases cs with
    | nil => simp [Builder.chain]
    | cons c' cs =>
      rw [ih _ _ (List.cons_ne_nil c' cs), hsize]
      simp only [List.length_cons]
      omega

theorem keywords_chain (b : Builder) (q : Nat) (cs : List Char) :
    (b.chain q cs).1.keywords = b.keywords := by
  induction cs generalizing b q with
  | nil => rfl
  | cons c cs ih =>
    obtain ⟨b', heq, -, hk, -⟩ := chain_cons b q c cs
    rw [heq, ih, hk]

theorem byName_chain (b : Builder) (q : Nat) (cs : List Char) :
    (b.chain q cs).1.byName = b.byName := by
  induction cs generalizing b q with
  | nil => rfl
  | cons c cs ih =>
    obtain ⟨b', heq, -, -, hn, -⟩ := chain_cons b q c cs
    rw [heq, ih, hn]

/-- The `k`-th character of a chain is read into its `k`-th fresh state, from `q` for the first
and from the state before otherwise; no other transition is added. -/
theorem moves_chain {b : Builder} {q : Nat} (hq : q < b.size) (cs : List Char) {y x : Nat}
    {d : Char} :
    (b.chain q cs).1.view.Moves y d x ↔ b.view.Moves y d x ∨
      ∃ k, cs[k]? = some d ∧ x = b.size + k ∧ y = if k = 0 then q else b.size + k - 1 := by
  induction cs generalizing b q with
  | nil => simp [Builder.chain]
  | cons c cs ih =>
    obtain ⟨b', heq, hsize, -, -, -, hmoves⟩ := chain_cons b q c cs
    rw [heq, ih (by omega), hmoves hq, hsize]
    constructor
    · rintro ((hm | ⟨rfl, rfl, rfl⟩) | ⟨k, hk, rfl, rfl⟩)
      · exact .inl hm
      · exact .inr ⟨0, rfl, by omega, rfl⟩
      · refine .inr ⟨k + 1, hk, by omega, ?_⟩
        rw [if_neg (Nat.add_one_ne_zero k)]
        split <;> omega
    · rintro (hm | ⟨k, hk, rfl, rfl⟩)
      · exact .inl (.inl hm)
      · cases k with
        | zero =>
          simp only [List.getElem?_cons_zero, Option.some.injEq] at hk
          exact .inl (.inr ⟨rfl, hk.symm, by omega⟩)
        | succ k =>
          refine .inr ⟨k, hk, by omega, ?_⟩
          rw [if_neg (Nat.add_one_ne_zero k)]
          split <;> omega

/-- A state read from the start state along chain-shaped transitions into fresh states lies at
the end of a prefix of the chain's word. -/
theorem path_chain {s : RuleSpec} {M : Nat} (cs : List Char)
    (hm : ∀ {k d}, cs[k]? = some d → s.Moves (if k = 0 then 0 else M + k - 1) d (M + k)) :
    ∀ k < cs.length, s.Path 0 (cs.take (k + 1)) (M + k) := by
  intro k
  induction k with
  | zero =>
    intro hk
    obtain ⟨d, hd⟩ := Option.isSome_iff_exists.1 (by simpa using hk : cs[0]?.isSome)
    rw [List.take_add_one, hd]
    exact .cons (hm hd) (.nil _)
  | succ k ih =>
    intro hk
    obtain ⟨d, hd⟩ := Option.isSome_iff_exists.1 (by simpa using hk : cs[k + 1]?.isSome)
    rw [List.take_add_one, hd, Option.toList_some, path_append_iff]
    have hm' := hm hd
    simp only [Nat.add_one_ne_zero, if_false] at hm'
    exact ⟨M + k, ih (by omega), .cons hm' (.nil _)⟩

/-- When the only transitions into the fresh states are those of a chain from the start state,
every word that reads the start state to the `k`-th fresh state ends with the chain's first
`k + 1` characters. -/
theorem suffix_of_path_chain {s : RuleSpec} {M : Nat} (cs : List Char) (hM : 0 < M)
    (hin : ∀ {y d k}, s.Moves y d (M + k) → k < cs.length →
      cs[k]? = some d ∧ y = if k = 0 then 0 else M + k - 1) :
    ∀ k < cs.length, ∀ u, s.Path 0 u (M + k) → cs.take (k + 1) <:+ u := by
  intro k
  induction k with
  | zero =>
    intro hk u hu
    rcases List.eq_nil_or_concat u with rfl | ⟨u', d, rfl⟩
    · rw [path_nil_iff] at hu
      omega
    · rw [List.concat_eq_append] at hu ⊢
      obtain ⟨y, -, hm⟩ := path_snoc_iff.1 hu
      obtain ⟨hd, -⟩ := hin hm hk
      rw [List.take_add_one, hd]
      exact List.suffix_append u' [d]
  | succ k ih =>
    intro hk u hu
    rcases List.eq_nil_or_concat u with rfl | ⟨u', d, rfl⟩
    · rw [path_nil_iff] at hu
      omega
    · -- the last character enters the state from the one before it on the chain
      rw [List.concat_eq_append] at hu ⊢
      obtain ⟨y, hy, hm⟩ := path_snoc_iff.1 hu
      obtain ⟨hd, rfl⟩ := hin hm hk
      simp only [Nat.add_one_ne_zero, if_false] at hy
      obtain ⟨pre, hpre⟩ := ih (by omega) u' hy
      rw [List.take_add_one, hd, Option.toList_some]
      exact ⟨pre, by rw [← List.append_assoc, hpre]⟩

end Chain

/-- Reading a reserved word adds its state at the end of the keyword list. -/
theorem putKeyword_of_lt {q : Nat} {w : String} {l : List (Nat × String)}
    (h : ∀ e ∈ l, e.1 < q) : putKeyword q w l = l ++ [(q, w)] := by
  induction l with
  | nil => rfl
  | cons e rest ih =>
    obtain ⟨p, v⟩ := e
    have hp : p < q := h (p, v) List.mem_cons_self
    rw [putKeyword, if_neg (Nat.lt_asymm hp), if_neg (Nat.ne_of_gt hp),
      ih fun e he => h e (List.mem_cons_of_mem _ he)]
    rfl

theorem lt_size_of_moves_view {b : Builder} {y x : Nat} {d : Char} (hm : b.view.Moves y d x) :
    y < b.size := by
  by_contra hy
  rw [Moves, view, RuleSpec.rule, Array.getD_eq_getD_getElem?,
    Array.getElem?_eq_none (by simpa [size] using hy)] at hm
  cases hm

/-- What reading a rule file keeps about transitions and reserved words: transitions and named
states point at states that exist, and the state of each reserved word is terminal, is read
from the start state by the word, and is read from it by no word that does not end with it. -/
structure Chained (b : Builder) : Prop where
  target_lt : ∀ {q c t}, b.view.Moves q c t → t < b.size
  name_lt : ∀ e ∈ b.byName, e.2 < b.size
  chains : b.view.KeywordChains

theorem keywordChains_of_keywords_eq_nil {s : RuleSpec} (hk : s.keywords = []) :
    s.KeywordChains :=
  ⟨by simp [hk], by simp [hk], by simp [hk]⟩

theorem chained_empty : ({} : Builder).Chained where
  target_lt hm := by simp [Moves, view, RuleSpec.rule] at hm
  name_lt := by simp
  chains := keywordChains_of_keywords_eq_nil rfl

theorem Chained.push {b : Builder} (h : b.Chained) (name : Option String) :
    (b.push name).1.Chained where
  target_lt hm := by
    have := h.target_lt ((moves_view_push name).1 hm)
    simp only [size_push]
    omega
  name_lt e he := by
    have := h.name_lt e he
    simp only [size_push]
    omega
  chains := ⟨h.chains.terminal, fun e he => (path_iff_of_moves_iff (moves_view_push name)).2
    (h.chains.path e he), fun e he u hu =>
      h.chains.suffix e he u ((path_iff_of_moves_iff (moves_view_push name)).1 hu)⟩

theorem Chained.state {b : Builder} (h : b.Chained) (name : String) : (b.state name).1.Chained := by
  unfold Builder.state
  split
  · exact h
  · have hp := h.push (some name)
    refine ⟨hp.target_lt, fun e he => ?_, hp.chains⟩
    rcases List.mem_append.1 he with he | he
    · exact hp.name_lt e he
    · simp only [List.mem_singleton] at he
      subst he
      simp only [push_snd]
      exact (size_push b (some name)).symm ▸ Nat.lt_succ_self _

theorem Chained.start {b : Builder} (h : b.Chained) : b.start.1.Chained := by
  unfold Builder.start
  split
  · exact h.push none
  · exact h

/-- While no reserved word is read, adding a production whose target exists keeps the
invariant. -/
theorem Chained.addProduction {b b' : Builder} (h : b.Chained) (hk : b.keywords = [])
    {q : Nat} {p : Production} (hp : ∀ c t, p = .transition c t → t < b.size)
    (he : b.addProduction q p = .ok b') : b'.Chained ∧ b'.keywords = [] := by
  have hsize := size_addProduction he
  unfold Builder.addProduction at he
  split at he
  · rename_i hq
    simp only [Except.ok.injEq] at he
    subst he
    have hmoves : ∀ {y d x},
        ({ b with rules := b.rules.set q (b.rules[q].insert p) } : Builder).view.Moves y d x →
          b.view.Moves y d x ∨ p = .transition d x := by
      intro y d x hm
      simp only [Moves, view, RuleSpec.rule, Array.getD_eq_getD_getElem?, Array.getElem?_set] at hm
      split at hm
      · rename_i hy
        subst hy
        rcases Rule.mem_insert.1 hm with hp | hm
        · exact .inr hp.symm
        · exact .inl (by simpa [Moves, view, RuleSpec.rule, Array.getD_eq_getD_getElem?,
            Array.getElem?_eq_getElem hq] using hm)
      · exact .inl (by simpa [Moves, view, RuleSpec.rule, Array.getD_eq_getD_getElem?] using hm)
    have hkeys :
        ({ b with rules := b.rules.set q (b.rules[q].insert p) } : Builder).keywords = [] := hk
    split
    · refine ⟨⟨fun hm => ?_, fun e he => ?_, keywordChains_of_keywords_eq_nil hk⟩, hkeys⟩
      · rcases hmoves hm with hm | rfl
        · simpa [size, markTerminal] using h.target_lt hm
        · simpa [size, markTerminal] using hp _ _ rfl
      · simpa [size, markTerminal] using h.name_lt e he
    · refine ⟨⟨fun hm => ?_, fun e he => ?_, keywordChains_of_keywords_eq_nil hk⟩, hkeys⟩
      · rcases hmoves hm with hm | rfl
        · simpa [size] using h.target_lt hm
        · simpa [size] using hp _ _ rfl
      · simpa [size] using h.name_lt e he
  · cases he

theorem size_le_start (b : Builder) : b.size ≤ b.start.1.size := by
  unfold Builder.start
  split
  · simp [newState]
  · exact Nat.le_refl _

theorem keywords_start (b : Builder) : b.start.1.keywords = b.keywords := by
  unfold Builder.start
  split <;> rfl

theorem moves_view_of_rules_eq {b b' : Builder} (h : b.rules = b'.rules) {y x : Nat} {d : Char} :
    b.view.Moves y d x ↔ b'.view.Moves y d x := by
  simp only [Moves, view, RuleSpec.rule, h]

/-- What reading a reserved word does: it hangs the word's chain off the start state, marks the
chain's end terminal and records the word for it. -/
theorem addKeyword_eq {b b' : Builder} {word : String} {last : Nat}
    (he : b.addKeyword word = .ok (b', last)) :
    word.toList ≠ [] ∧ last = (b.start.1.chain 0 word.toList).2 ∧
      b'.rules = (b.start.1.chain 0 word.toList).1.rules ∧
      b'.byName = (b.start.1.chain 0 word.toList).1.byName ∧
      b'.terminals = IdSet.insert last (b.start.1.chain 0 word.toList).1.terminals ∧
      b'.keywords = putKeyword last word (b.start.1.chain 0 word.toList).1.keywords := by
  unfold Builder.addKeyword at he
  split at he
  · cases he
  · rename_i hne
    simp only [Except.ok.injEq, Prod.mk.injEq] at he
    obtain ⟨rfl, rfl⟩ := he
    refine ⟨fun hnil => hne (String.isEmpty_iff.2 (String.toList_inj.1 (by simpa using hnil))),
      by rw [start_snd], by rw [start_snd]; rfl, by rw [start_snd]; rfl, by rw [start_snd]; rfl,
      by rw [start_snd]⟩

/-- Reading a reserved word adds its chain's end, with the word, at the end of the keyword
list. -/
theorem keywords_addKeyword {b b' : Builder} (hs : b.Sound) {word : String} {last : Nat}
    (he : b.addKeyword word = .ok (b', last)) : b'.keywords = b.keywords ++ [(last, word)] := by
  obtain ⟨hcs, hlast, -, -, -, hkw⟩ := addKeyword_eq he
  have hle := size_le_start b
  have hlen : 0 < word.toList.length := List.length_pos_iff.2 hcs
  rw [chain_snd _ _ hcs] at hlast
  rw [hkw, keywords_chain, keywords_start, putKeyword_of_lt fun e he => by
    have := hs.keyword_lt e he
    omega]

/-- Reading a reserved word hangs its chain off the start state: the invariant holds again, and
the chain's end is added at the end of the keyword list. -/
theorem Chained.addKeyword {b b' : Builder} (h : b.Chained) (hs : b.Sound) {word : String}
    {last : Nat} (he : b.addKeyword word = .ok (b', last)) :
    b'.Chained ∧ b'.keywords = b.keywords ++ [(last, word)] := by
  obtain ⟨hcs, hlast, hrules, hbyName, hterm, hkw⟩ := addKeyword_eq he
  have h0 := h.start
  have hM : 0 < b.start.1.size := start_size_pos b
  have hlen : 0 < word.toList.length := List.length_pos_iff.2 hcs
  have hsize : b'.size = b.start.1.size + word.toList.length := by
    simp only [size, hrules]
    exact size_chain b.start.1 0 word.toList
  have hle := size_le_start b
  rw [chain_snd _ _ hcs] at hlast
  -- transitions into the first states are the old ones; the others form the chain
  have hmoves : ∀ {y d x}, b'.view.Moves y d x ↔ b.start.1.view.Moves y d x ∨
      ∃ k, word.toList[k]? = some d ∧ x = b.start.1.size + k ∧
        y = if k = 0 then 0 else b.start.1.size + k - 1 := fun {y d x} =>
    (moves_view_of_rules_eq hrules).trans (moves_chain hM word.toList)
  have hk : b'.keywords = b.keywords ++ [(last, word)] := keywords_addKeyword hs he
  refine ⟨⟨fun {y c t} hm => ?_, fun e he => ?_,
    ⟨fun e he => ?_, fun e he => ?_, fun e he u hu => ?_⟩⟩, hk⟩
  · -- a transition points into the old states or along the chain
    rcases hmoves.1 hm with hm | ⟨k, hk, rfl, -⟩
    · have := h0.target_lt hm
      omega
    · have := (List.getElem?_eq_some_iff.1 hk).1
      omega
  · rw [hbyName, byName_chain] at he
    have := h0.name_lt e he
    omega
  · rw [keywords_view, hk] at he
    change b'.terminals.contains e.1 = true
    rw [hterm, List.contains_iff_mem, IdSet.mem_insert, terminals_chain]
    rcases List.mem_append.1 he with he | he
    · have := h0.chains.terminal e (by rwa [keywords_view, keywords_start])
      exact .inr (by simpa [view, RuleSpec.isTerminal] using this)
    · simp only [List.mem_singleton] at he
      exact .inl (by rw [he])
  · rw [keywords_view, hk] at he
    rcases List.mem_append.1 he with he | he
    · exact path_mono (fun hm => hmoves.2 (.inl hm))
        (h0.chains.path e (by rwa [keywords_view, keywords_start]))
    · -- the new word is read along its chain
      simp only [List.mem_singleton] at he
      subst he
      have hpath := path_chain (s := b'.view) (M := b.start.1.size) word.toList
        (fun {k d} hd => hmoves.2 (.inr ⟨k, hd, rfl, rfl⟩)) (word.toList.length - 1) (by omega)
      rw [Nat.sub_add_cancel hlen, List.take_length] at hpath
      show b'.view.Path 0 word.toList last
      rwa [hlast, Nat.add_sub_assoc hlen]
  · rw [keywords_view, hk] at he
    rcases List.mem_append.1 he with he | he
    · -- an old word's state is below the chain, so only old transitions lead to it
      have he' : e ∈ b.start.1.keywords := by rwa [keywords_start]
      have hlt : e.1 < b.start.1.size := Nat.lt_of_lt_of_le (hs.keyword_lt e he) hle
      refine h0.chains.suffix e he' u (path_of_frame (fun hx hm => ?_) lt_size_of_moves_view hlt hu)
      rcases hmoves.1 hm with hm | ⟨k, -, rfl, -⟩
      · exact hm
      · omega
    · simp only [List.mem_singleton] at he
      subst he
      have hsuf := suffix_of_path_chain (s := b'.view) word.toList hM (fun {y d k} hm hk => ?_)
        (word.toList.length - 1) (by omega) u
      · rw [Nat.sub_add_cancel hlen, List.take_length] at hsuf
        exact hsuf (by rwa [hlast, Nat.add_sub_assoc hlen] at hu)
      · rcases hmoves.1 hm with hm | ⟨k', hk', hx, rfl⟩
        · have := h0.target_lt hm
          omega
        · obtain rfl : k' = k := by omega
          exact ⟨hk', rfl⟩

theorem keywords_state (b : Builder) (name : String) : (b.state name).1.keywords = b.keywords := by
  unfold Builder.state
  split <;> rfl

theorem lookup_lt {b : Builder} (hn : ∀ e ∈ b.byName, e.2 < b.size) {name : String} {q : Nat}
    (h : b.lookup name = some q) : q < b.size := by
  obtain ⟨l₁, l₂, hl, -⟩ := List.lookup_eq_some_iff.1 h
  exact hn (name, q) (by rw [hl]; simp)

end Builder

namespace RuleFile

open Builder

/-- A production read from a grammar line points at a named state that exists. -/
theorem lt_size_of_production {b : Builder} (hn : ∀ e ∈ b.byName, e.2 < b.size) {line : Nat}
    {alt : List Char} {p : Production} (hp : production b line alt = .ok p) :
    ∀ c t, p = .transition c t → t < b.size := by
  rintro c t rfl
  unfold production at hp
  split at hp
  · cases hp
  · split at hp
    · cases hp
    · split at hp
      · cases hp
      · split at hp
        · cases hp
        · split at hp
          · cases hp
          · split at hp
            · rename_i q hq
              simp only [Except.ok.injEq, Production.transition.injEq] at hp
              obtain ⟨-, rfl⟩ := hp
              exact lookup_lt hn hq
            · cases hp

theorem chained_heads {b b' : Builder} (h : b.Chained) (hk : b.keywords = [])
    {ls : List (Nat × List Char)} {hs : List (Nat × Nat × List Char)}
    (he : heads b ls = .ok (b', hs)) : b'.Chained ∧ b'.keywords = [] := by
  induction ls generalizing b hs with
  | nil =>
    simp only [heads, Except.ok.injEq, Prod.mk.injEq] at he
    obtain ⟨rfl, -⟩ := he
    exact ⟨h, hk⟩
  | cons l ls ih =>
    obtain ⟨line, compact⟩ := l
    simp only [heads] at he
    split at he
    · cases he
    · split at he
      · cases he
      · split at he
        · simp only [Except.ok.injEq, Prod.mk.injEq] at he
          obtain ⟨rfl, -⟩ := he
          rename_i hrest
          exact ih (h.state _) (by rw [keywords_state, hk]) hrest
        · cases he

theorem chained_bodies {b b' : Builder} (h : b.Chained) (hk : b.keywords = [])
    {hs : List (Nat × Nat × List Char)} (he : bodies b hs = .ok b') :
    b'.Chained ∧ b'.keywords = [] := by
  induction hs generalizing b with
  | nil =>
    simp only [bodies, Except.ok.injEq] at he
    exact he ▸ ⟨h, hk⟩
  | cons l hs ih =>
    obtain ⟨line, q, body⟩ := l
    obtain ⟨b₁, hb₁, hrest⟩ := Except.bind_eq_ok.1 he
    obtain ⟨h₁, hk₁⟩ := foldlM_except_invariant (fun b => b.Chained ∧ b.keywords = [])
      (fun b alt b' hb he => by
        obtain ⟨hb, hkb⟩ := hb
        obtain ⟨p, hp, hadd⟩ := Except.bind_eq_ok.1 he
        exact hb.addProduction hkb (lt_size_of_production hb.name_lt hp) hadd) ⟨h, hk⟩ hb₁
    exact ih h₁ hk₁ hrest

/-- Reading the reserved words appends them, in order, to the keyword list. -/
theorem chained_keywords {b b' : Builder} (hp : b.Parsing) (h : b.Chained) {ws : List String}
    (he : keywords b ws = .ok b') :
    b'.Chained ∧ b'.keywords.map Prod.snd = b.keywords.map Prod.snd ++ ws := by
  induction ws generalizing b with
  | nil =>
    simp only [keywords, Except.ok.injEq] at he
    subst he
    simp [h]
  | cons w ws ih =>
    obtain ⟨⟨b₁, last⟩, hb₁, hrest⟩ := Except.bind_eq_ok.1 he
    obtain ⟨h₁, hk₁⟩ := h.addKeyword hp.sound hb₁
    obtain ⟨h₂, hk₂⟩ := ih (hp.addKeyword hb₁) h₁ hrest
    refine ⟨h₂, ?_⟩
    rw [hk₂, hk₁]
    simp

end RuleFile

/-- After a rule file is read, its keyword states are listed with the reserved words in file
order; each is terminal, is read from the start state by its word, and is read from it only by
words that end with its word. -/
theorem RuleSpec.parse_keywords {text : String} {s : RuleSpec} (h : RuleSpec.parse text = .ok s) :
    s.keywords.map Prod.snd = RuleFile.reservedWords text ∧ s.KeywordChains := by
  obtain ⟨es, b, hs, b₁, b₂, hes, hb, hb₁, hb₂, h⟩ := RuleSpec.parse_eq_ok h
  have hp₁ := RuleFile.parsing_bodies (RuleFile.parsing_heads Builder.parsing_empty hb) hb₁
  obtain ⟨hc, hk⟩ := RuleFile.chained_heads Builder.chained_empty rfl hb
  obtain ⟨hc₁, hk₁⟩ := RuleFile.chained_bodies hc hk hb₁
  obtain ⟨hc₂, hk₂⟩ := RuleFile.chained_keywords hp₁ hc₁ hb₂
  obtain rfl := Builder.build_eq_view h
  refine ⟨?_, hc₂.start.chains⟩
  change b₂.start.1.keywords.map Prod.snd = _
  rw [Builder.keywords_start, hk₂, hk₁, List.map_nil, List.nil_append]
  -- the parse expands exactly the reserved words of the file
  exact (RuleFile.reservedWords_of_entries hes).symm

end LexLR
