import Mathlib.Data.List.Nodup
import LexLR.Proofs.Chains
import LexLR.Proofs.Edits
/-!
# The calls of a builder

What each call on a builder does, said without running it. Ids are handed out densely and in
call order: a call mints `Step.fresh` ids right after those that exist and answers the last of
them, or answers an id that exists. A name is minted once and keeps its id, no two names share
one, and a lookup finds exactly the ids that `state` calls answered. A reserved word hangs a
chain of fresh states off the start state; a production joins the rule of an existing state and
makes it terminal when it accepts; a refused call changes nothing. Building refuses exactly a
transition to a state that was never handed out, and otherwise gives the builder's rules with
the ascending set of symbols they read. Main statement: `performAll_build_spec`.
-/

namespace LexLR

namespace Builder

open RuleSpec

/-- How many ids a call hands out: one for a name not seen before and one for a fresh state, one
for the start state when no state exists, and one per character for a reserved word, after the
start state when that is minted too. -/
def Step.fresh (b : Builder) : Step → Nat
  | .state name => if b.lookup name = none then 1 else 0
  | .newState => 1
  | .start => if b.size = 0 then 1 else 0
  | .addKeyword w => if w = "" then 0 else (if b.size = 0 then 1 else 0) + w.length
  | .lookup _ | .markTerminal _ | .addProduction _ _ => 0

@[simp]
theorem performAll_nil (b : Builder) : b.performAll [] = (b, []) :=
  rfl

@[simp]
theorem performAll_cons (b : Builder) (st : Step) (steps : List Step) :
    b.performAll (st :: steps) =
      (((b.perform st).1.performAll steps).1,
        (b.perform st).2 :: ((b.perform st).1.performAll steps).2) :=
  rfl

section Calls

variable {b b' : Builder}

@[simp]
theorem byName_push (name : Option String) : (b.push name).1.byName = b.byName :=
  rfl

@[simp]
theorem terminals_push (name : Option String) : (b.push name).1.terminals = b.terminals :=
  rfl

theorem size_start (b : Builder) : b.start.1.size = b.size + if b.size = 0 then 1 else 0 := by
  unfold Builder.start newState
  split
  · rename_i he
    have : b.size = 0 := by simpa [size, Array.isEmpty_iff_size_eq_zero] using he
    simp [this]
  · rename_i hne
    have : b.size ≠ 0 := by simpa [size, Array.isEmpty_iff_size_eq_zero] using hne
    simp [this]

theorem byName_start (b : Builder) : b.start.1.byName = b.byName := by
  unfold Builder.start
  split <;> rfl

theorem terminals_start (b : Builder) : b.start.1.terminals = b.terminals := by
  unfold Builder.start
  split <;> rfl

/-- Minting the start state adds no transition. -/
theorem moves_view_start {y x : Nat} {d : Char} :
    b.start.1.view.Moves y d x ↔ b.view.Moves y d x := by
  unfold Builder.start
  split
  · exact moves_view_push none
  · exact Iff.rfl

theorem mem_of_lookup_eq_some {name : String} {q : Nat} (h : b.lookup name = some q) :
    (name, q) ∈ b.byName := by
  obtain ⟨l₁, l₂, hl, -⟩ := List.lookup_eq_some_iff.1 h
  rw [hl]
  simp

/-! ### Adding a production -/

/-- A production can be added exactly to a state that exists. -/
theorem addProduction_eq_error_iff {q : Nat} {p : Production} {e : SpecError} :
    b.addProduction q p = .error e ↔ b.size ≤ q ∧ e = .danglingState q := by
  unfold Builder.addProduction
  split
  · rename_i hq
    simp only [reduceCtorEq, false_iff, not_and]
    intro hle
    exact absurd hq (by simpa [size] using hle)
  · rename_i hq
    simp only [Except.error.injEq]
    constructor
    · rintro rfl
      exact ⟨by simpa [size] using hq, rfl⟩
    · rintro ⟨-, rfl⟩
      rfl

/-- What adding production `p` to state `q` did to `b`, giving `b'`: `p` joined the rule of `q`,
which became terminal if `p` is no transition; nothing else changed. -/
structure ProductionAdded (b b' : Builder) (q : Nat) (p : Production) : Prop where
  size_eq : b'.size = b.size
  byName_eq : b'.byName = b.byName
  keywords_eq : b'.keywords = b.keywords
  mem_rule : ∀ y p', p' ∈ (b'.view.rule y).productions ↔
    p' ∈ (b.view.rule y).productions ∨ (y = q ∧ p' = p)
  isTerminal_iff : ∀ y, b'.view.isTerminal y = true ↔
    b.view.isTerminal y = true ∨ (y = q ∧ ∀ c t, p ≠ .transition c t)

theorem ProductionAdded.of_addProduction {q : Nat} {p : Production}
    (he : b.addProduction q p = .ok b') : ProductionAdded b b' q p := by
  unfold Builder.addProduction at he
  split at he
  · rename_i hq
    cases he
    let b₀ : Builder := { b with rules := b.rules.set q (b.rules[q].insert p) }
    have hrules : (if p.accepts then b₀.markTerminal q else b₀).rules = b₀.rules := by
      split <;> rfl
    refine ⟨by simp [size, hrules, b₀], by split <;> rfl, by split <;> rfl, fun y p' => ?_,
      fun y => ?_⟩
    · simp only [view, RuleSpec.rule, hrules, b₀, Array.getD_eq_getD_getElem?,
        Array.getElem?_set]
      by_cases hy : q = y
      · subst hy
        simp [hq, Rule.mem_insert, or_comm]
      · simp [hy, Ne.symm hy]
    · -- a production accepts exactly when it is no transition
      have hacc : p.accepts = true ↔ ∀ c t, p ≠ .transition c t := by
        cases p <;> simp [Production.accepts]
      by_cases hp : p.accepts = true
      · simp [view, RuleSpec.isTerminal, hp, markTerminal, IdSet.mem_insert, hacc.1 hp, or_comm]
      · have hp' : ¬ ∀ c t, p ≠ .transition c t := fun h => hp (hacc.2 h)
        simp [view, RuleSpec.isTerminal, hp, hp']
  · cases he

/-- A production can be added to every state that exists. -/
theorem addProduction_eq_ok {q : Nat} (hq : q < b.size) (p : Production) :
    ∃ b', b.addProduction q p = .ok b' ∧ ProductionAdded b b' q p := by
  cases he : b.addProduction q p with
  | error e => exact absurd hq (Nat.not_lt.2 (addProduction_eq_error_iff.1 he).1)
  | ok b' => exact ⟨b', rfl, .of_addProduction he⟩

/-! ### Adding a reserved word -/

/-- A reserved word can be added exactly when it is not empty. -/
theorem addKeyword_eq_error_iff {w : String} {e : SpecError} :
    b.addKeyword w = .error e ↔ w = "" ∧ e = .emptyKeyword := by
  unfold Builder.addKeyword
  split
  · rename_i hw
    simp only [Except.error.injEq, String.isEmpty_iff.1 hw, true_and]
    exact eq_comm
  · rename_i hw
    simp only [reduceCtorEq, false_iff, not_and]
    intro h
    exact absurd (String.isEmpty_iff.2 h) hw

theorem size_addKeyword {w : String} {last : Nat} (he : b.addKeyword w = .ok (b', last)) :
    b'.size = b.size + (if b.size = 0 then 1 else 0) + w.length := by
  obtain ⟨-, -, hrules, -⟩ := addKeyword_eq he
  rw [size, hrules, ← size, size_chain, size_start, String.length_toList]

/-- What adding reserved word `w` did to `b`, giving `b'` and answering `last`: it handed out
`|w|` fresh ids, after minting the start state when no state existed, and hung them off the start
state as a chain: the `k`-th character is read into the `k`-th fresh state, from the start state
for the first and from the state before otherwise. The chain's end is the last id handed out; it
is terminal and carries the word. -/
structure KeywordAdded (b b' : Builder) (w : String) (last : Nat) : Prop where
  size_eq : b'.size = b.size + (if b.size = 0 then 1 else 0) + w.length
  last_eq : last = b'.size - 1
  byName_eq : b'.byName = b.byName
  moves_iff : ∀ y d x, b'.view.Moves y d x ↔ b.view.Moves y d x ∨
    ∃ k, w.toList[k]? = some d ∧ x = b'.size - w.length + k ∧ y = if k = 0 then 0 else x - 1
  isTerminal_iff : ∀ y, b'.view.isTerminal y = true ↔ b.view.isTerminal y = true ∨ y = last
  keyword?_eq : ∀ y, b'.view.keyword? y = if y = last then some w else b.view.keyword? y

theorem KeywordAdded.of_addKeyword {w : String} {last : Nat}
    (he : b.addKeyword w = .ok (b', last)) : KeywordAdded b b' w last := by
  obtain ⟨hcs, hlast, hrules, hbyName, hterm, hkw⟩ := addKeyword_eq he
  have hsize := size_addKeyword he
  -- the chain's states follow the start state, which exists
  have hM : b.start.1.size = b'.size - w.length := by
    rw [hsize, size_start]
    omega
  have hlen : 0 < w.length := by
    rw [← String.length_toList]
    exact List.length_pos_iff.2 hcs
  refine ⟨hsize, ?_, by rw [hbyName, byName_chain, byName_start], fun y d x => ?_, fun y => ?_,
    fun y => ?_⟩
  · rw [hlast, chain_snd _ _ hcs, String.length_toList, hM]
    omega
  · rw [moves_view_of_rules_eq hrules, moves_chain (start_size_pos b), moves_view_start, hM]
    constructor
    · rintro (hm | ⟨k, hk, rfl, rfl⟩)
      · exact .inl hm
      · exact .inr ⟨k, hk, rfl, by split <;> omega⟩
    · rintro (hm | ⟨k, hk, rfl, rfl⟩)
      · exact .inl hm
      · exact .inr ⟨k, hk, rfl, by split <;> omega⟩
  · simp [view, RuleSpec.isTerminal, hterm, terminals_chain, terminals_start, IdSet.mem_insert,
      or_comm]
  · simp only [view, RuleSpec.keyword?, hkw, keywords_chain, keywords_start,
      RuleSpec.lookup_putKeyword]

/-- Every word but the empty one can be added. -/
theorem addKeyword_eq_ok {w : String} (hw : w ≠ "") :
    ∃ b' last, b.addKeyword w = .ok (b', last) ∧ KeywordAdded b b' w last := by
  cases he : b.addKeyword w with
  | error e => exact absurd (addKeyword_eq_error_iff.1 he).1 hw
  | ok r => exact ⟨r.1, r.2, rfl, .of_addKeyword he⟩

/-! ### What a call can do -/

/-- Each outcome of a call, with the builder it leaves and its reply. -/
inductive Outcome (b : Builder) : Step → Builder → Reply → Prop
  | named {name : String} {q : Nat} : b.lookup name = some q → Outcome b (.state name) b (.id q)
  | mintNamed {name : String} : b.lookup name = none →
      Outcome b (.state name)
        { (b.push (some name)).1 with byName := b.byName ++ [(name, b.size)] } (.id b.size)
  | lookup (name : String) : Outcome b (.lookup name) b (.found (b.lookup name))
  | newState : Outcome b .newState (b.push none).1 (.id b.size)
  | mintStart : b.size = 0 → Outcome b .start (b.push none).1 (.id 0)
  | start : b.size ≠ 0 → Outcome b .start b (.id 0)
  | markTerminal (q : Nat) : Outcome b (.markTerminal q) (b.markTerminal q) .done
  | addProduction {q : Nat} {p : Production} {b' : Builder} : q < b.size →
      b.addProduction q p = .ok b' → Outcome b (.addProduction q p) b' .done
  | danglingState {q : Nat} {p : Production} : b.size ≤ q →
      Outcome b (.addProduction q p) b (.failed (.danglingState q))
  | addKeyword {w : String} {b' : Builder} {last : Nat} : w ≠ "" →
      b.addKeyword w = .ok (b', last) → Outcome b (.addKeyword w) b' (.id last)
  | emptyKeyword : Outcome b (.addKeyword "") b (.failed .emptyKeyword)

theorem perform_outcome (b : Builder) (st : Step) :
    Outcome b st (b.perform st).1 (b.perform st).2 := by
  cases st with
  | state name =>
    cases h : b.lookup name with
    | some q => simpa [perform, Builder.state, h] using Outcome.named h
    | none => simpa [perform, Builder.state, h, push] using Outcome.mintNamed h
  | lookup name => exact .lookup name
  | newState => exact .newState
  | start =>
    by_cases h : b.size = 0
    · have he : b.rules.isEmpty = true := by simpa [size, Array.isEmpty_iff_size_eq_zero] using h
      simpa [perform, Builder.start, he, newState, h] using Outcome.mintStart h
    · have he : b.rules.isEmpty = false := by simpa [size, Array.isEmpty_iff_size_eq_zero] using h
      simpa [perform, Builder.start, he] using Outcome.start h
  | markTerminal q => exact .markTerminal q
  | addProduction q p =>
    by_cases hq : q < b.size
    · obtain ⟨b', he, -⟩ := addProduction_eq_ok hq p
      simpa [perform, he] using Outcome.addProduction hq he
    · have he : b.addProduction q p = .error (.danglingState q) :=
        addProduction_eq_error_iff.2 ⟨Nat.le_of_not_lt hq, rfl⟩
      simpa [perform, he] using Outcome.danglingState (p := p) (Nat.le_of_not_lt hq)
  | addKeyword w =>
    by_cases hw : w = ""
    · subst hw
      have he := addKeyword_eq_error_iff (b := b).2 ⟨rfl, rfl⟩
      simpa [perform, he] using Outcome.emptyKeyword
    · obtain ⟨b', last, he, -⟩ := addKeyword_eq_ok (b := b) hw
      simpa [perform, he] using Outcome.addKeyword hw he

variable {st : Step} {r : Reply}

/-- A call mints `fresh` ids. -/
theorem Outcome.size_eq (h : Outcome b st b' r) : b'.size = b.size + st.fresh b := by
  cases h with
  | named h => simp [Step.fresh, h]
  | mintNamed h => simp [Step.fresh, h, size, push]
  | lookup | danglingState | emptyKeyword => simp [Step.fresh]
  | newState => simp [Step.fresh]
  | mintStart h => simp [Step.fresh, h]
  | start h => simp [Step.fresh, h]
  | markTerminal => simp [Step.fresh, size]
  | addProduction _ he => simp [Step.fresh, (ProductionAdded.of_addProduction he).size_eq]
  | addKeyword hw he => simp [Step.fresh, hw, size_addKeyword he, Nat.add_assoc]

/-- An id a call answers is the last one it minted, or one that existed when it minted none. -/
theorem Outcome.id_eq (h : Outcome b st b' (.id q)) (hn : ∀ e ∈ b.byName, e.2 < b.size) :
    (0 < st.fresh b ∧ q = b.size + st.fresh b - 1) ∨ (st.fresh b = 0 ∧ q < b.size) := by
  cases h with
  | named h => exact .inr ⟨by simp [Step.fresh, h], lookup_lt hn h⟩
  | mintNamed h => exact .inl ⟨by simp [Step.fresh, h], by simp [Step.fresh, h]⟩
  | newState => exact .inl ⟨by simp [Step.fresh], by simp [Step.fresh]⟩
  | mintStart h => exact .inl ⟨by simp [Step.fresh, h], by simp [Step.fresh, h]⟩
  | start h => exact .inr ⟨by simp [Step.fresh, h], Nat.pos_of_ne_zero h⟩
  | @addKeyword w _ _ hw he =>
    have hadd := KeywordAdded.of_addKeyword he
    have hlen : 0 < w.length := by
      rw [← String.length_toList]
      exact List.length_pos_iff.2 (addKeyword_eq he).1
    have hsize := hadd.size_eq
    have hlast := hadd.last_eq
    simp only [Step.fresh, hw, if_false]
    exact .inl ⟨by omega, by omega⟩

/-- A refused call leaves the builder as it was; only a production for a state that does not
exist and an empty reserved word are refused. -/
theorem Outcome.failed_eq (h : Outcome b st b' (.failed e)) :
    b' = b ∧ ((∃ q p, st = .addProduction q p ∧ b.size ≤ q ∧ e = .danglingState q) ∨
      (st = .addKeyword "" ∧ e = .emptyKeyword)) := by
  cases h with
  | danglingState hq => exact ⟨rfl, .inl ⟨_, _, rfl, hq, rfl⟩⟩
  | emptyKeyword => exact ⟨rfl, .inr ⟨rfl, rfl⟩⟩

theorem size_perform : (b.perform st).1.size = b.size + st.fresh b :=
  (perform_outcome b st).size_eq

theorem perform_id_eq {q : Nat} (hn : ∀ e ∈ b.byName, e.2 < b.size)
    (h : (b.perform st).2 = .id q) :
    (0 < st.fresh b ∧ q = b.size + st.fresh b - 1) ∨ (st.fresh b = 0 ∧ q < b.size) := by
  have ho := perform_outcome b st
  rw [h] at ho
  exact ho.id_eq hn

theorem perform_failed_iff {e : SpecError} :
    (b.perform st).2 = .failed e ↔
      (∃ q p, st = .addProduction q p ∧ b.size ≤ q ∧ e = .danglingState q) ∨
        (st = .addKeyword "" ∧ e = .emptyKeyword) := by
  constructor
  · intro h
    have ho := perform_outcome b st
    rw [h] at ho
    exact ho.failed_eq.2
  · rintro (⟨q, p, rfl, hq, rfl⟩ | ⟨rfl, rfl⟩)
    · simp [perform, addProduction_eq_error_iff.2 ⟨hq, rfl⟩]
    · simp [perform, addKeyword_eq_error_iff.2 ⟨rfl, rfl⟩]

theorem perform_of_failed {e : SpecError} (h : (b.perform st).2 = .failed e) :
    (b.perform st).1 = b := by
  have ho := perform_outcome b st
  rw [h] at ho
  exact ho.failed_eq.1

/-- Only a `state` call for a new name changes the named states: it adds the name with the next
id, which it answers. A `state` call for a known name answers the name's id. -/
theorem Outcome.byName_eq (h : Outcome b st b' r) :
    (b'.byName = b.byName ∧
        ∀ name q, st = .state name → r = .id q → b.lookup name = some q) ∨
      ∃ name, st = .state name ∧ b.lookup name = none ∧
        b'.byName = b.byName ++ [(name, b.size)] ∧ r = .id b.size := by
  cases h with
  | named h =>
    refine .inl ⟨rfl, fun name q hst hr => ?_⟩
    cases hst
    cases hr
    exact h
  | mintNamed h => exact .inr ⟨_, rfl, h, rfl, rfl⟩
  | lookup | newState | mintStart | start | markTerminal | danglingState | emptyKeyword =>
    exact .inl ⟨rfl, by simp⟩
  | addProduction _ he => exact .inl ⟨(ProductionAdded.of_addProduction he).byName_eq, by simp⟩
  | addKeyword _ he => exact .inl ⟨(KeywordAdded.of_addKeyword he).byName_eq, by simp⟩

theorem Outcome.mem_byName (h : Outcome b st b' r) {e : String × Nat} :
    e ∈ b'.byName ↔ e ∈ b.byName ∨ (st = .state e.1 ∧ r = .id e.2) := by
  rcases h.byName_eq with ⟨hb, hknown⟩ | ⟨name, rfl, -, hb, rfl⟩
  · rw [hb]
    constructor
    · exact .inl
    · rintro (he | ⟨hst, hr⟩)
      · exact he
      · exact mem_of_lookup_eq_some (hknown _ _ hst hr)
  · obtain ⟨n, q⟩ := e
    simp [hb, Prod.ext_iff, eq_comm]

end Calls

/-! ### Named states along a run -/

/-- The named states after calls are those before and the ones the `state` calls answered. -/
theorem mem_byName_performAll (b : Builder) (steps : List Step) {e : String × Nat} :
    e ∈ (b.performAll steps).1.byName ↔
      e ∈ b.byName ∨ (Step.state e.1, Reply.id e.2) ∈ steps.zip (b.performAll steps).2 := by
  induction steps generalizing b with
  | nil => simp
  | cons st steps ih =>
    rw [performAll_cons, ih, (perform_outcome b st).mem_byName]
    simp only [List.zip_cons_cons, List.mem_cons, Prod.mk.injEq, @eq_comm Step st,
      @eq_comm Reply (b.perform st).2, or_assoc]

/-- What every builder reached by calls keeps of its named states: no name twice, no id twice,
and only ids that were handed out. -/
structure Named (b : Builder) : Prop where
  names_nodup : (b.byName.map Prod.fst).Nodup
  ids_nodup : (b.byName.map Prod.snd).Nodup
  id_lt : ∀ e ∈ b.byName, e.2 < b.size

theorem named_empty : ({} : Builder).Named :=
  ⟨List.nodup_nil, List.nodup_nil, by simp⟩

theorem Named.perform {b : Builder} (hn : b.Named) (st : Step) : (b.perform st).1.Named := by
  have ho := perform_outcome b st
  have hsize := ho.size_eq
  rcases ho.byName_eq with ⟨hb, -⟩ | ⟨name, rfl, hl, hb, -⟩
  · refine ⟨hb ▸ hn.names_nodup, hb ▸ hn.ids_nodup, fun e he => ?_⟩
    have := hn.id_lt e (hb ▸ he)
    omega
  · -- a new name comes with the next id, so neither was listed
    have hname : name ∉ b.byName.map Prod.fst := by
      intro hmem
      obtain ⟨e, he, rfl⟩ := List.mem_map.1 hmem
      have := List.lookup_eq_none_iff.1 hl e he
      simp at this
    have hid : b.size ∉ b.byName.map Prod.snd := by
      intro hmem
      obtain ⟨e, he, hq⟩ := List.mem_map.1 hmem
      have := hn.id_lt e he
      omega
    refine ⟨?_, ?_, fun e he => ?_⟩
    · rw [hb, List.map_append, List.map_singleton, ← List.concat_eq_append]
      exact hn.names_nodup.concat hname
    · rw [hb, List.map_append, List.map_singleton, ← List.concat_eq_append]
      exact hn.ids_nodup.concat hid
    · rw [hb, List.mem_append, List.mem_singleton] at he
      rcases he with he | rfl
      · have := hn.id_lt e he
        omega
      · simp only [Step.fresh, hl, if_true] at hsize
        omega

theorem named_performAll {b : Builder} (hn : b.Named) (steps : List Step) :
    (b.performAll steps).1.Named := by
  induction steps generalizing b with
  | nil => exact hn
  | cons st steps ih => exact ih (hn.perform st)

/-- With no name listed twice, a lookup finds exactly the listed id. -/
theorem Named.lookup_eq_some_iff {b : Builder} (hn : b.Named) {name : String} {q : Nat} :
    b.lookup name = some q ↔ (name, q) ∈ b.byName := by
  refine ⟨mem_of_lookup_eq_some, fun hmem => ?_⟩
  cases hl : b.lookup name with
  | none =>
    have := List.lookup_eq_none_iff.1 hl _ hmem
    simp at this
  | some q' =>
    have := List.inj_on_of_nodup_map hn.names_nodup (mem_of_lookup_eq_some hl) hmem rfl
    rw [(Prod.mk.inj this).2]

/-- After calls on an empty builder, a lookup finds exactly an id that a `state` call answered. -/
theorem lookup_performAll_iff (steps : List Step) {name : String} {q : Nat} :
    (performAll {} steps).1.lookup name = some q ↔
      (Step.state name, Reply.id q) ∈ steps.zip (performAll {} steps).2 := by
  rw [(named_performAll named_empty steps).lookup_eq_some_iff, mem_byName_performAll]
  simp

/-- The `state` calls of a run from an empty builder answer one id per name and one name per id. -/
theorem state_id_eq_iff (steps : List Step) {n n' : String} {q q' : Nat}
    (h : (Step.state n, Reply.id q) ∈ steps.zip (performAll {} steps).2)
    (h' : (Step.state n', Reply.id q') ∈ steps.zip (performAll {} steps).2) :
    q = q' ↔ n = n' := by
  have hn := named_performAll named_empty steps
  have hm := (mem_byName_performAll {} steps (e := (n, q))).2 (.inr h)
  have hm' := (mem_byName_performAll {} steps (e := (n', q'))).2 (.inr h')
  constructor
  · rintro rfl
    exact (Prod.mk.inj (List.inj_on_of_nodup_map hn.ids_nodup hm hm' rfl)).1
  · rintro rfl
    exact (Prod.mk.inj (List.inj_on_of_nodup_map hn.names_nodup hm hm' rfl)).2

/-! ### Building -/

section Build

variable {b : Builder}

theorem exists_rule_view_eq {r : Rule} (hr : r ∈ b.rules) : ∃ y, b.view.rule y = r := by
  obtain ⟨y, hy, rfl⟩ := Array.mem_iff_getElem.1 hr
  exact ⟨y, by simp [view, RuleSpec.rule, hy]⟩

/-- No transition leads to a state that was never handed out. -/
theorem danglingTarget?_eq_none_iff :
    b.danglingTarget? = none ↔ ∀ y d x, b.view.Moves y d x → x < b.size := by
  unfold danglingTarget?
  simp only [List.findSome?_eq_none_iff, Array.mem_toList_iff]
  constructor
  · intro h y d x hm
    obtain ⟨r, hr, hp⟩ := RuleSpec.mem_rule hm
    have := h r hr _ hp
    simp only [Production.target?] at this
    split at this
    · assumption
    · cases this
  · intro h r hr p hp
    obtain ⟨y, rfl⟩ := exists_rule_view_eq hr
    cases p with
    | transition d x =>
      have hx : x < b.rules.size := h y d x hp
      simp [Production.target?, hx]
    | literal | epsilon => rfl

/-- The target building reports is one of a transition, and was never handed out. -/
theorem danglingTarget?_eq_some {t : Nat} (h : b.danglingTarget? = some t) :
    ∃ y d, b.view.Moves y d t ∧ b.size ≤ t := by
  unfold danglingTarget? at h
  obtain ⟨r, hr, hf⟩ := List.exists_of_findSome?_eq_some h
  obtain ⟨p, hp, ht⟩ := List.exists_of_findSome?_eq_some hf
  obtain ⟨y, rfl⟩ := exists_rule_view_eq (Array.mem_toList_iff.1 hr)
  cases p with
  | transition d x =>
    simp only [Production.target?] at ht
    split at ht
    · cases ht
    · rename_i hx
      cases ht
      exact ⟨y, d, hp, Nat.le_of_not_lt hx⟩
  | literal | epsilon => cases ht

/-- A builder with a transition has states, so building mints none. -/
theorem size_start_of_moves {y x : Nat} {c : Char} (hm : b.view.Moves y c x) :
    b.start.1.size = b.size := by
  have := lt_size_of_moves_view hm
  have hne : b.size ≠ 0 := by omega
  simp [size_start, hne]

/-- Building fails exactly when a transition leads to a state that was never handed out. -/
theorem build_eq_error_iff :
    (∃ e, b.build = .error e) ↔ ∃ y d x, b.view.Moves y d x ∧ b.size ≤ x := by
  unfold Builder.build
  dsimp only
  split
  · rename_i t ht
    obtain ⟨y, d, hm, ht⟩ := danglingTarget?_eq_some ht
    rw [moves_view_start] at hm
    rw [size_start_of_moves hm] at ht
    exact ⟨fun _ => ⟨y, d, t, hm, ht⟩, fun _ => ⟨_, rfl⟩⟩
  · rename_i ht
    simp only [reduceCtorEq, exists_false, false_iff, not_exists, not_and, Nat.not_le]
    intro y d x hm
    have := danglingTarget?_eq_none_iff.1 ht y d x (moves_view_start.2 hm)
    rwa [size_start_of_moves hm] at this

/-- The error of building names such a target. -/
theorem build_eq_error {e : SpecError} (h : b.build = .error e) :
    ∃ y d x, e = .danglingState x ∧ b.view.Moves y d x ∧ b.size ≤ x := by
  unfold Builder.build at h
  dsimp only at h
  split at h
  · rename_i t ht
    cases h
    obtain ⟨y, d, hm, ht⟩ := danglingTarget?_eq_some ht
    rw [moves_view_start] at hm
    rw [size_start_of_moves hm] at ht
    exact ⟨y, d, t, rfl, hm, ht⟩
  · cases h

/-- A built specification is the builder's, with the start state minted if none existed, and its
alphabet lists the symbols its productions read, ascending and once each. -/
theorem build_eq_ok {s : RuleSpec} (h : b.build = .ok s) :
    s = b.start.1.view ∧ s.alphabet.Pairwise (· < ·) ∧
      ∀ c, c ∈ s.alphabet ↔ ∃ y, ∃ p ∈ (s.rule y).productions, p.symbol? = some c := by
  have hs := build_eq_view h
  subst hs
  refine ⟨rfl, alphabetOf_pairwise _, fun c => ?_⟩
  show c ∈ alphabetOf _ ↔ _
  rw [mem_alphabetOf]
  constructor
  · rintro ⟨r, hr, p, hp, hc⟩
    obtain ⟨y, rfl⟩ := exists_rule_view_eq hr
    exact ⟨y, p, hp, hc⟩
  · rintro ⟨y, p, hp, hc⟩
    obtain ⟨r, hr, hp⟩ := RuleSpec.mem_rule hp
    exact ⟨r, hr, p, hp, hc⟩

end Build

/-- Calls on an empty builder, then building. The next call mints `fresh` ids right after those
handed out and answers the last of them, or, minting none, an id handed out before. All `state`
calls for a name answer one id, which no other name gets, and a lookup finds exactly an id that a
`state` call answered. Only a production for a missing state and an empty reserved word are
refused, and a refused call changes nothing. A reserved word hangs its chain off the start state,
and a production joins the rule of an existing state. Building fails exactly when a transition
leads to a state never handed out, naming such a state, and otherwise gives the builder's
specification with the ascending set of the symbols it reads. -/
theorem performAll_build_spec (steps : List Step) :
    let b := (performAll {} steps).1
    let rs := (performAll {} steps).2
    (∀ st, (b.perform st).1.size = b.size + st.fresh b ∧
      ∀ q, (b.perform st).2 = .id q →
        (0 < st.fresh b ∧ q = b.size + st.fresh b - 1) ∨ (st.fresh b = 0 ∧ q < b.size)) ∧
    (∀ n n' q q', (Step.state n, Reply.id q) ∈ steps.zip rs →
      (Step.state n', Reply.id q') ∈ steps.zip rs → (q = q' ↔ n = n')) ∧
    (∀ n q, b.lookup n = some q ↔ (Step.state n, Reply.id q) ∈ steps.zip rs) ∧
    (∀ st e, (b.perform st).2 = .failed e ↔
      (∃ q p, st = .addProduction q p ∧ b.size ≤ q ∧ e = .danglingState q) ∨
        (st = .addKeyword "" ∧ e = .emptyKeyword)) ∧
    (∀ st e, (b.perform st).2 = .failed e → (b.perform st).1 = b) ∧
    (∀ w, w ≠ "" → ∃ b' last, b.addKeyword w = .ok (b', last) ∧ KeywordAdded b b' w last) ∧
    (∀ q p, q < b.size → ∃ b', b.addProduction q p = .ok b' ∧ ProductionAdded b b' q p) ∧
    ((∃ e, b.build = .error e) ↔ ∃ y d x, b.view.Moves y d x ∧ b.size ≤ x) ∧
    (∀ e, b.build = .error e → ∃ y d x, e = .danglingState x ∧ b.view.Moves y d x ∧ b.size ≤ x) ∧
    ∀ s, b.build = .ok s → s = b.start.1.view ∧ s.alphabet.Pairwise (· < ·) ∧
      ∀ c, c ∈ s.alphabet ↔ ∃ y, ∃ p ∈ (s.rule y).productions, p.symbol? = some c := by
  intro b rs
  -- the named states of a reached builder are all handed out
  have hn : b.Named := named_performAll named_empty steps
  exact ⟨fun st => ⟨size_perform, fun q => perform_id_eq hn.id_lt⟩,
    fun n n' q q' => state_id_eq_iff steps, fun n q => lookup_performAll_iff steps,
    fun st e => perform_failed_iff, fun st e => perform_of_failed, fun w => addKeyword_eq_ok,
    fun q p hq => addProduction_eq_ok hq p, build_eq_error_iff, fun e => build_eq_error,
    fun s => build_eq_ok⟩

/-- A name keeps its id across a reserved word's chain, and a fresh state follows the chain. -/
example : (performAll {} [.state "S", .addKeyword "if", .state "S", .lookup "S", .newState]).2 =
    [.id 0, .id 2, .id 0, .found (some 0), .id 3] := by decide

end Builder

end LexLR
