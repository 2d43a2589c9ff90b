import Mathlib
import LexLR.LR.Analyser
import LexLR.Proofs.WellFormedTable
/-!
# Configurations of a shift-reduce analysis

Every configuration a run reaches on a loaded table has its stack laid out as a path of the
table: states and symbols alternate, and each state above the bottom was entered from the state
below it by a shift on a terminal other than the end marker or by a goto on a nonterminal. The
pending nonterminal is there exactly after a reduction, and is that production's head; the cursor
counts the shifts and never passes the end of the tokens; the run has not accepted yet.

`Effect` says once what a step can do, one constructor per outcome of `step`; each invariant is
then a case analysis on it (`Sound.step`), and `Reaches.sound` carries the invariant over a whole
run. Main statement: `analyse_invariants`.
-/

namespace LexLR.LR

/-- Whether a stack entry is a state. -/
def StackEntry.isState : StackEntry → Bool
  | .state _ => true
  | .symbol _ => false

namespace Analyser

/-- What one step can do from a configuration, with the condition under which it does it: one
constructor per outcome of `step`. -/
inductive Effect (a : Analyser) (tokens : List TokenKind) (symbols : SymbolTable) (c : Config) :
    Step → Prop
  | noState : (∀ q rest, c.stack ≠ .state q :: rest) →
      Effect a tokens symbols c (.failed (.invariant "stack does not end in a state"))
  | unexpected {q rest} : c.stack = .state q :: rest →
      (∀ x, a.lookahead? tokens c = some x → ∃ e, a.table.action q x = .error e) →
      Effect a tokens symbols c (.failed (syntaxError symbols c.cursor))
  | shift {q rest x s} : c.stack = .state q :: rest → a.lookahead? tokens c = some x →
      a.table.action q x = .ok (.shift s) → x ≠ a.endMarker →
      Effect a tokens symbols c (.next { c with
        stack := .state s :: .symbol x :: c.stack, cursor := c.cursor + 1,
        steps := .shift s :: c.steps })
  | shiftEnd {q rest s} : c.stack = .state q :: rest → a.lookahead? tokens c = some a.endMarker →
      a.table.action q a.endMarker = .ok (.shift s) →
      Effect a tokens symbols c (.failed (.invariant "end of input cannot be shifted"))
  | reduce {q rest x p prod} : c.stack = .state q :: rest → a.lookahead? tokens c = some x →
      a.table.action q x = .ok (.reduce p) → a.table.productions[p]? = some prod →
      2 * prod.length < c.stack.length →
      Effect a tokens symbols c (.next { c with
        stack := c.stack.drop (2 * prod.length), pending := some prod.head,
        steps := .reduce p :: c.steps })
  | noProduction {q rest x p} : c.stack = .state q :: rest → a.lookahead? tokens c = some x →
      a.table.action q x = .ok (.reduce p) → a.table.productions[p]? = none →
      Effect a tokens symbols c (.failed (.invariant s!"production {p} does not exist"))
  | overPop {q rest x p prod} : c.stack = .state q :: rest → a.lookahead? tokens c = some x →
      a.table.action q x = .ok (.reduce p) → a.table.productions[p]? = some prod →
      c.stack.length ≤ 2 * prod.length →
      Effect a tokens symbols c (.failed (.invariant
        s!"reduce pops {2 * prod.length} entries from a stack of {c.stack.length}"))
  | goto {q rest h s} : c.stack = .state q :: rest → c.pending = some h →
      a.table.action q h = .ok (.goto s) →
      Effect a tokens symbols c (.next { c with
        stack := .state s :: .symbol h :: c.stack, pending := none,
        steps := .goto s :: c.steps })
  | gotoWithout {q rest x s} : c.stack = .state q :: rest → c.pending = none →
      a.lookahead? tokens c = some x → a.table.action q x = .ok (.goto s) →
      Effect a tokens symbols c (.failed (.invariant "goto without a reduced nonterminal"))
  | accept {q rest x} : c.stack = .state q :: rest → a.lookahead? tokens c = some x →
      a.table.action q x = .ok .accept → c.cursor = tokens.length → c.pending = none →
      Effect a tokens symbols c (.accepted { symbols, steps := (.accept :: c.steps).reverse })
  | acceptEarly {q rest x} : c.stack = .state q :: rest → a.lookahead? tokens c = some x →
      a.table.action q x = .ok .accept → (c.cursor ≠ tokens.length ∨ c.pending.isSome) →
      Effect a tokens symbols c (.failed (.invariant
        s!"accept on symbol {x} with {tokens.length - min c.cursor tokens.length} tokens unread"))

theorem step_effect (a : Analyser) (tokens : List TokenKind) (symbols : SymbolTable) (c : Config) :
    Effect a tokens symbols c (a.step tokens symbols c) := by
  unfold step
  split
  next q rest hstack =>
    split
    next hl => exact .unexpected hstack (by simp [hl])
    next x hl =>
      split
      next e he => exact .unexpected hstack (fun x' hx' => ⟨e, by simp_all⟩)
      next act hact =>
        -- one case per action, each split on the condition `step` checks for it
        cases act with
        | shift s =>
          dsimp only
          split
          next hx =>
            subst hx
            exact .shiftEnd hstack hl hact
          next hx => exact .shift hstack hl hact hx
        | reduce p =>
          dsimp only
          split
          next hp => exact .noProduction hstack hl hact hp
          next prod hp =>
            split
            next hle => exact .overPop hstack hl hact hp hle
            next hlt => exact .reduce hstack hl hact hp (Nat.lt_of_not_le hlt)
        | goto s =>
          dsimp only
          split
          next hp => exact .gotoWithout hstack hp hl hact
          next h hp =>
            have hx : x = h := by simpa [lookahead?, hp] using hl.symm
            subst hx
            exact .goto hstack hp hact
        | accept =>
          dsimp only
          split
          next hearly => exact .acceptEarly hstack hl hact (by simpa using hearly)
          next hdone =>
            simp only [Bool.or_eq_true, decide_eq_true_eq, not_or, Decidable.not_not,
              Bool.not_eq_true, Option.isSome_eq_false_iff, Option.isNone_iff_eq_none] at hdone
            exact .accept hstack hl hact hdone.1 hdone.2
  next hne => exact .noState fun q rest h => hne q rest h

/-! ### The symbol looked up -/

/-- What a run relies on: a loaded table, and an identifier symbol that is a terminal other than
the end marker. -/
structure Ready (a : Analyser) : Prop where
  table : a.table.WellFormed
  identifier : ∀ {x}, a.identifier = some x → a.table.isTerminal x = true ∧ x ≠ a.endMarker

theorem table_new {t : Table} {o : Options} {a : Analyser} (h : Analyser.new t o = .ok a) :
    a.table = t := by
  unfold Analyser.new at h
  split at h
  · cases h
  · cases h
    rfl

theorem ready_new {t : Table} {o : Options} {a : Analyser} (ht : t.WellFormed)
    (h : Analyser.new t o = .ok a) : a.Ready := by
  unfold Analyser.new at h
  split at h
  · cases h
  · cases h
    refine ⟨ht, fun hx => ?_⟩
    obtain ⟨-, hx⟩ := Option.filter_eq_some_iff.1 hx
    simp only [Bool.and_eq_true, bne_iff_ne] at hx
    exact ⟨hx.2, hx.1⟩

theorem Ready.symbolFor {a : Analyser} (hr : a.Ready) {k : TokenKind} {x : Nat}
    (h : a.symbolFor k = some x) : a.table.isTerminal x = true ∧ x ≠ a.endMarker := by
  cases k with
  | keyword w =>
    obtain ⟨-, hx⟩ := Option.filter_eq_some_iff.1 h
    simp only [Bool.and_eq_true, bne_iff_ne] at hx
    exact ⟨hx.2, hx.1⟩
  | identifier => exact hr.identifier h
  | error => cases h

variable {a : Analyser} {tokens : List TokenKind} {symbols : SymbolTable} {c c' : Config}

theorem lookahead?_of_pending {h : Nat} (hp : c.pending = some h) :
    a.lookahead? tokens c = some h := by
  simp [lookahead?, hp]

/-- With nothing pending, a run looks up a terminal other than the end marker under the cursor,
or the end marker once every token is read. -/
theorem Ready.lookahead?_of_none (hr : a.Ready) {x : Nat} (hp : c.pending = none)
    (hx : a.lookahead? tokens c = some x) :
    (a.table.isTerminal x = true ∧ x ≠ a.endMarker ∧ c.cursor < tokens.length) ∨
      x = a.endMarker := by
  simp only [lookahead?, hp] at hx
  split at hx
  · rename_i k hk
    obtain ⟨hterm, hne⟩ := hr.symbolFor hx
    exact .inl ⟨hterm, hne, (List.getElem?_eq_some_iff.1 hk).1⟩
  · cases hx
    exact .inr rfl

/-! ### The stack as a path of the table -/

/-- A stack, top first, read as a path of the table from the initial state: each state above the
bottom was entered from the state below it by a shift on a terminal other than the end marker,
or by a goto on a nonterminal. -/
inductive StackPath (a : Analyser) : List StackEntry → Prop
  | initial : StackPath a [.state Table.initial]
  | shift {q s x rest} : StackPath a (.state q :: rest) → a.table.action q x = .ok (.shift s) →
      a.table.isTerminal x = true → x ≠ a.endMarker →
      StackPath a (.state s :: .symbol x :: .state q :: rest)
  | goto {q s x rest} : StackPath a (.state q :: rest) → a.table.action q x = .ok (.goto s) →
      a.table.isNonterminal x = true → StackPath a (.state s :: .symbol x :: .state q :: rest)

theorem StackPath.exists_state {st : List StackEntry} (h : a.StackPath st) :
    ∃ q rest, st = .state q :: rest := by
  cases h <;> exact ⟨_, _, rfl⟩

/-- Popping whole state–symbol pairs off a path, short of its bottom, leaves a path. -/
theorem StackPath.drop {st : List StackEntry} (h : a.StackPath st) {n : Nat}
    (hn : 2 * n < st.length) : a.StackPath (st.drop (2 * n)) := by
  induction n generalizing st with
  | zero => simpa using h
  | succ n ih =>
    have hdrop : ∀ e₁ e₂ (l : List StackEntry), (e₁ :: e₂ :: l).drop (2 * (n + 1)) = l.drop (2 * n) :=
      fun _ _ _ => by rw [show 2 * (n + 1) = 2 * n + 1 + 1 by omega]; rfl
    cases h with
    | initial => simp at hn
    | shift hp _ _ _ =>
      rw [hdrop]
      exact ih hp (by simp at hn ⊢; omega)
    | goto hp _ _ =>
      rw [hdrop]
      exact ih hp (by simp at hn ⊢; omega)

/-- States and symbols alternate along a path, with states at the even places counted from the
top: the top and the bottom are states. -/
theorem StackPath.isState_iff {st : List StackEntry} (h : a.StackPath st) {i : Nat} {e : StackEntry}
    (he : st[i]? = some e) : e.isState = true ↔ i % 2 = 0 := by
  induction h generalizing i with
  | initial =>
    cases i with
    | zero => cases he; simp [StackEntry.isState]
    | succ i => simp at he
  | shift _ _ _ _ ih | goto _ _ _ ih =>
    match i, he with
    | 0, he => cases he; simp [StackEntry.isState]
    | 1, he => cases he; simp [StackEntry.isState]
    | i + 2, he =>
      rw [ih he]
      omega

theorem StackPath.length_odd {st : List StackEntry} (h : a.StackPath st) : st.length % 2 = 1 := by
  induction h with
  | initial => rfl
  | shift _ _ _ _ ih | goto _ _ _ ih =>
    simp only [List.length_cons] at ih ⊢
    omega

/-! ### What every configuration of a run satisfies -/

/-- What holds of every configuration a run reaches: the stack is a path of the table; a
nonterminal is pending exactly after a reduction, and it is that production's head; the cursor
counts the shifts and stays within the tokens; nothing was accepted yet, and every reduction was
by a production of the table. -/
structure Sound (a : Analyser) (tokens : List TokenKind) (c : Config) : Prop where
  path : a.StackPath c.stack
  pending_iff : ∀ h, c.pending = some h ↔
    ∃ p prod rest, c.steps = .reduce p :: rest ∧ a.table.productions[p]? = some prod ∧
      prod.head = h
  cursor_eq : c.cursor = c.steps.countP Action.isShift
  cursor_le : c.cursor ≤ tokens.length
  accept_not_mem : .accept ∉ c.steps
  reduce_exists : ∀ p, .reduce p ∈ c.steps → ∃ prod, a.table.productions[p]? = some prod

theorem sound_start : a.Sound tokens start :=
  ⟨.initial, by simp [start], rfl, Nat.zero_le _, by simp [start], by simp [start]⟩

theorem Sound.pending_nonterminal (hr : a.Ready) (hs : a.Sound tokens c) {h : Nat}
    (hp : c.pending = some h) : a.table.isNonterminal h = true := by
  obtain ⟨p, prod, rest, -, hprod, rfl⟩ := (hs.pending_iff h).1 hp
  exact hr.table.head_nonterminal hprod

/-- A pending nonterminal is only ever looked up for a goto. -/
theorem Sound.isGoto_of_pending (hr : a.Ready) (hs : a.Sound tokens c) {h x q : Nat} {act : Action}
    (hp : c.pending = some h) (hl : a.lookahead? tokens c = some x)
    (hact : a.table.action q x = .ok act) : act.isGoto = true := by
  rw [lookahead?_of_pending hp, Option.some.injEq] at hl
  subst hl
  rw [hr.table.isGoto_action hact]
  exact hs.pending_nonterminal hr hp

/-- A shift happens with nothing pending, on a terminal under the cursor. -/
theorem Sound.shift_symbol (hr : a.Ready) (hs : a.Sound tokens c) {x q s : Nat}
    (hl : a.lookahead? tokens c = some x) (hact : a.table.action q x = .ok (.shift s))
    (hx : x ≠ a.endMarker) :
    c.pending = none ∧ a.table.isTerminal x = true ∧ c.cursor < tokens.length := by
  cases hp : c.pending with
  | some h => simpa [Action.isGoto] using hs.isGoto_of_pending hr hp hl hact
  | none =>
    rcases hr.lookahead?_of_none hp hl with ⟨hterm, -, hlt⟩ | hend
    · exact ⟨rfl, hterm, hlt⟩
    · exact absurd hend hx

/-- One step keeps every fact of `Sound`. -/
theorem Sound.step (hr : a.Ready) (hs : a.Sound tokens c) (h : a.step tokens symbols c = .next c') :
    a.Sound tokens c' := by
  have he := step_effect a tokens symbols c
  rw [h] at he
  cases he with
  | shift hstack hl hact hx =>
    obtain ⟨hp, hterm, hlt⟩ := hs.shift_symbol hr hl hact hx
    have hpath := hs.path
    rw [hstack] at hpath ⊢
    refine ⟨.shift hpath hact hterm hx, fun h => ?_, ?_, ?_, ?_, fun p hmem => ?_⟩
    · simp [hp]
    · simp [Action.isShift, List.countP_cons, hs.cursor_eq]
    · exact hlt
    · simpa using hs.accept_not_mem
    · exact hs.reduce_exists p (by simpa using hmem)
  | @reduce q rest x p prod hstack hl hact hprod hlt =>
    refine ⟨hs.path.drop hlt, fun h => ?_, ?_, hs.cursor_le, ?_, fun p' hmem => ?_⟩
    · constructor
      · rintro ⟨⟩
        exact ⟨_, _, _, rfl, hprod, rfl⟩
      · rintro ⟨p', prod', rest, hsteps, hprod', rfl⟩
        obtain ⟨rfl, -⟩ : p = p' ∧ _ := by simpa using hsteps
        obtain rfl : prod = prod' := Option.some.inj (hprod.symm.trans hprod')
        rfl
    · simp [Action.isShift, hs.cursor_eq]
    · simpa using hs.accept_not_mem
    · rcases List.mem_cons.1 hmem with h | h
      · obtain rfl : p' = p := by simpa using h
        exact ⟨prod, hprod⟩
      · exact hs.reduce_exists p' h
  | goto hstack hp hact =>
    have hpath := hs.path
    rw [hstack] at hpath ⊢
    refine ⟨.goto hpath hact (hs.pending_nonterminal hr hp), fun h => ?_, ?_, hs.cursor_le, ?_,
      fun p hmem => ?_⟩
    · simp
    · simp [Action.isShift, hs.cursor_eq]
    · simpa using hs.accept_not_mem
    · exact hs.reduce_exists p (by simpa using hmem)

/-! ### Runs -/

/-- The configurations a run passes through, from the start. -/
inductive Reaches (a : Analyser) (tokens : List TokenKind) (symbols : SymbolTable) : Config → Prop
  | start : Reaches a tokens symbols Analyser.start
  | step {c c' : Config} : Reaches a tokens symbols c → a.step tokens symbols c = .next c' →
      Reaches a tokens symbols c'

theorem Reaches.sound (hr : a.Ready) (hc : a.Reaches tokens symbols c) : a.Sound tokens c := by
  induction hc with
  | start => exact sound_start
  | step _ h ih => exact ih.step hr h

/-- A run that accepts does so from a configuration it reaches. -/
theorem runFrom_eq_ok {fuel : Nat} {d : Derivation} (hc : a.Reaches tokens symbols c)
    (h : a.runFrom tokens symbols fuel c = .ok d) :
    ∃ c', a.Reaches tokens symbols c' ∧ a.step tokens symbols c' = .accepted d := by
  induction fuel generalizing c with
  | zero => cases h
  | succ fuel ih =>
    unfold runFrom at h
    split at h
    next c'' hstep => exact ih (hc.step hstep) h
    next d' hstep =>
      cases h
      exact ⟨c, hc, hstep⟩
    next e hstep => cases h

/-- A run that fails does so from a configuration it reaches, or runs out of steps. -/
theorem runFrom_eq_error {fuel : Nat} {e : AnalyseError} (hc : a.Reaches tokens symbols c)
    (h : a.runFrom tokens symbols fuel c = .error e) :
    e = .stalled 0 ∨ ∃ c', a.Reaches tokens symbols c' ∧ a.step tokens symbols c' = .failed e := by
  induction fuel generalizing c with
  | zero =>
    cases h
    exact .inl rfl
  | succ fuel ih =>
    unfold runFrom at h
    split at h
    next c'' hstep => exact ih (hc.step hstep) h
    next d' hstep => cases h
    next e' hstep =>
      cases h
      exact .inr ⟨c, hc, hstep⟩

theorem analyse_eq_ok {d : Derivation} (h : a.analyse tokens symbols = .ok d) :
    ∃ c, a.Reaches tokens symbols c ∧ a.step tokens symbols c = .accepted d := by
  unfold analyse analyseWithin at h
  split at h
  · cases h
  · split at h
    · cases h
    · exact runFrom_eq_ok .start h

theorem analyse_eq_error (hlen : tokens.length = symbols.size) {e : AnalyseError}
    (h : a.analyse tokens symbols = .error e) :
    e = .stalled stepBudget ∨
      ∃ c, a.Reaches tokens symbols c ∧ a.step tokens symbols c = .failed e := by
  unfold analyse analyseWithin at h
  rw [if_neg (not_not.2 hlen)] at h
  split at h
  · cases h
    exact .inl rfl
  · rename_i hns
    rcases runFrom_eq_error .start h with rfl | hreach
    · exact absurd h (hns _)
    · exact .inr hreach

/-! ### What a run never does -/

/-- Two failures with texts that begin differently are different. -/
theorem failed_invariant_ne {s t : String} (h : s.toList.head? ≠ t.toList.head?) :
    Step.failed (.invariant s) ≠ .failed (.invariant t) := by
  intro hst
  simp only [Step.failed.injEq, AnalyseError.invariant.injEq] at hst
  exact h (congrArg (fun s => s.toList.head?) hst)

/-- A run never finds its stack without a state on top. -/
theorem Sound.step_ne_noState (hs : a.Sound tokens c) :
    a.step tokens symbols c ≠ .failed (.invariant "stack does not end in a state") := by
  obtain ⟨q, rest, hstack⟩ := hs.path.exists_state
  have he := step_effect a tokens symbols c
  generalize a.step tokens symbols c = st at he ⊢
  -- every other failure carries a different text: they begin with other letters
  cases he with
  | noState hne => exact absurd hstack (hne q rest)
  | unexpected => simp [syntaxError]
  | noProduction => exact failed_invariant_ne (by simp [toString])
  | overPop => exact failed_invariant_ne (by simp [toString])
  | acceptEarly => exact failed_invariant_ne (by simp [toString])
  | shiftEnd | gotoWithout => simp
  | shift | reduce | goto | accept => simp

/-- A goto always has a reduced nonterminal to push, provided the end marker is no
nonterminal. -/
theorem step_ne_gotoWithout (hr : a.Ready) (hend : a.table.isNonterminal a.endMarker = false) :
    a.step tokens symbols c ≠ .failed (.invariant "goto without a reduced nonterminal") := by
  have he := step_effect a tokens symbols c
  generalize a.step tokens symbols c = st at he ⊢
  cases he with
  | gotoWithout _ hp hl hact =>
    -- with nothing pending the symbol looked up is a terminal or the end marker, and a goto is
    -- only ever on a nonterminal
    have hgoto := hr.table.isGoto_action hact
    rcases hr.lookahead?_of_none hp hl with ⟨hterm, -, -⟩ | rfl
    · rw [Table.isNonterminal_eq_false_of_isTerminal hterm] at hgoto
      cases hgoto
    · rw [hend] at hgoto
      cases hgoto
  | unexpected => simp [syntaxError]
  | noProduction => exact failed_invariant_ne (by simp [toString])
  | overPop => exact failed_invariant_ne (by simp [toString])
  | acceptEarly => exact failed_invariant_ne (by simp [toString])
  | noState | shiftEnd => simp
  | shift | reduce | goto | accept => simp

/-- A shift pushes a terminal other than the end marker, with the state it leads to. -/
theorem Sound.step_shift (hr : a.Ready) (hs : a.Sound tokens c)
    (h : a.step tokens symbols c = .next c') {s : Nat} (hshift : c'.steps.head? = some (.shift s)) :
    ∃ x, c'.stack = .state s :: .symbol x :: c.stack ∧ a.table.isTerminal x = true ∧
      x ≠ a.endMarker := by
  have he := step_effect a tokens symbols c
  rw [h] at he
  cases he with
  | shift _ hl hact hx =>
    obtain ⟨-, hterm, -⟩ := hs.shift_symbol hr hl hact hx
    simp only [List.head?_cons, Option.some.injEq, Action.shift.injEq] at hshift
    subst hshift
    exact ⟨_, rfl, hterm, hx⟩
  | reduce | goto => simp at hshift

/-- After a reduction the run looks up the reduced nonterminal: it takes a goto on it, or stops
with a syntax error when the state below has no action on it. -/
theorem Sound.step_after_reduce (hr : a.Ready) (hs : a.Sound tokens c) {p : Nat}
    (hred : c.steps.head? = some (.reduce p)) :
    (∃ c' s, a.step tokens symbols c = .next c' ∧ c'.steps.head? = some (.goto s)) ∨
      a.step tokens symbols c = .failed (syntaxError symbols c.cursor) := by
  obtain ⟨rest, hsteps⟩ : ∃ rest, c.steps = .reduce p :: rest := by
    cases hc : c.steps with
    | nil => simp [hc] at hred
    | cons act rest =>
      simp only [hc, List.head?_cons, Option.some.injEq] at hred
      exact ⟨rest, by rw [hred]⟩
  obtain ⟨prod, hprod⟩ := hs.reduce_exists p (by simp [hsteps])
  have hp : c.pending = some prod.head := (hs.pending_iff _).2 ⟨p, prod, rest, hsteps, hprod, rfl⟩
  obtain ⟨q, rest', hstack⟩ := hs.path.exists_state
  have he := step_effect a tokens symbols c
  generalize a.step tokens symbols c = st at he ⊢
  -- the pending nonterminal is looked up, and on it a table has gotos only
  cases he with
  | noState hne => exact absurd hstack (hne q rest')
  | unexpected => exact .inr rfl
  | goto => exact .inl ⟨_, _, rfl, rfl⟩
  | gotoWithout _ hnone => simp [hp] at hnone
  | shift _ hl hact | shiftEnd _ hl hact | reduce _ hl hact | noProduction _ hl hact
  | overPop _ hl hact | accept _ hl hact | acceptEarly _ hl hact =>
    simpa [Action.isGoto] using hs.isGoto_of_pending hr hp hl hact

/-- An accepting step ends the derivation with its only accept, after one shift per token, and
hands the symbol table back. -/
theorem Sound.step_accepted (hs : a.Sound tokens c) {d : Derivation}
    (h : a.step tokens symbols c = .accepted d) :
    d.symbols = symbols ∧ d.steps.countP Action.isShift = tokens.length ∧
      d.steps.getLast? = some .accept ∧ d.steps.count .accept = 1 := by
  have he := step_effect a tokens symbols c
  rw [h] at he
  cases he with
  | accept _ _ _ hcur _ =>
    refine ⟨rfl, ?_, by simp, ?_⟩
    · simp [Action.isShift, ← hs.cursor_eq, hcur]
    · simp [List.count_eq_zero.2 hs.accept_not_mem]

/-! ### Every run on a loaded table -/

/-- On a loaded table, with an end marker that is no nonterminal and one symbol record per token:
every configuration a run reaches has a stack of odd length alternating states and symbols, a
pending nonterminal exactly after a reduction (that production's head), a cursor that counts the
shifts within the tokens; a shift pushes a terminal other than the end marker; a reduction is
followed by a goto or by a syntax error. The analysis never finds its stack without a state on top
or a goto without a nonterminal, and an accepted derivation has one shift per token, ends with
its only accept, and hands the symbol table back. -/
theorem analyse_invariants {d : TableDocument} {t : Table} {o : Options} {a : Analyser}
    {tokens : List TokenKind} {symbols : SymbolTable}
    (ht : Table.ofDocument d = .ok t) (ha : Analyser.new t o = .ok a)
    (hend : t.isNonterminal a.endMarker = false) (hlen : tokens.length = symbols.size) :
    (∀ c, a.Reaches tokens symbols c →
      c.stack.length % 2 = 1 ∧
      (∀ i e, c.stack[i]? = some e → (e.isState = true ↔ i % 2 = 0)) ∧
      (∀ h, c.pending = some h ↔ ∃ p prod rest, c.steps = .reduce p :: rest ∧
        t.productions[p]? = some prod ∧ prod.head = h) ∧
      (∀ h, c.pending = some h → t.isNonterminal h = true) ∧
      c.cursor = c.steps.countP Action.isShift ∧ c.cursor ≤ tokens.length ∧
      (∀ c' s, a.step tokens symbols c = .next c' → c'.steps.head? = some (.shift s) →
        ∃ x, c'.stack = .state s :: .symbol x :: c.stack ∧ t.isTerminal x = true ∧
          x ≠ a.endMarker) ∧
      (∀ p, c.steps.head? = some (.reduce p) →
        (∃ c' s, a.step tokens symbols c = .next c' ∧ c'.steps.head? = some (.goto s)) ∨
          a.step tokens symbols c = .failed (syntaxError symbols c.cursor))) ∧
    a.analyse tokens symbols ≠ .error (.invariant "stack does not end in a state") ∧
    a.analyse tokens symbols ≠ .error (.invariant "goto without a reduced nonterminal") ∧
    (∀ r, a.analyse tokens symbols = .ok r →
      r.symbols = symbols ∧ r.steps.countP Action.isShift = tokens.length ∧
        r.steps.getLast? = some .accept ∧ r.steps.count .accept = 1) := by
  have hr : a.Ready := ready_new (Table.ofDocument_wellFormed ht) ha
  obtain rfl : a.table = t := table_new ha
  -- a failure of the whole analysis is a failure of one step of the run
  have hfail : ∀ e, (∀ c, a.Sound tokens c → a.step tokens symbols c ≠ .failed e) →
      e ≠ .stalled stepBudget → a.analyse tokens symbols ≠ .error e := by
    intro e hstep hne h
    rcases analyse_eq_error hlen h with rfl | ⟨c, hc, hfailed⟩
    · exact hne rfl
    · exact hstep c (hc.sound hr) hfailed
  refine ⟨fun c hc => ?_, hfail _ (fun c hs => hs.step_ne_noState) (by simp),
    hfail _ (fun c _ => step_ne_gotoWithout hr hend) (by simp), fun r h => ?_⟩
  · have hs := hc.sound hr
    exact ⟨hs.path.length_odd, fun i e he => hs.path.isState_iff he, hs.pending_iff,
      fun h hp => hs.pending_nonterminal hr hp, hs.cursor_eq, hs.cursor_le,
      fun c' s hstep hshift => hs.step_shift hr hstep hshift,
      fun p hred => hs.step_after_reduce hr hred⟩
  · obtain ⟨c, hc, hacc⟩ := analyse_eq_ok h
    exact (hc.sound hr).step_accepted hacc

end Analyser

/-- The table of the expression grammar `exp → exp + term | term`, `term → term * fac | fac`,
`fac → ID`, as its document numbers it. -/
def expressionsDocument : TableDocument where
  symbols := [⟨0, "EOF", 3⟩, ⟨1, "Error", 7⟩, ⟨2, "*", 1⟩, ⟨3, "+", 1⟩, ⟨4, "ID", 1⟩,
    ⟨5, "exp", 0⟩, ⟨6, "fac", 0⟩, ⟨7, "term", 0⟩]
  productions := [⟨0, 5, 3⟩, ⟨1, 5, 1⟩, ⟨2, 7, 3⟩, ⟨3, 7, 1⟩, ⟨4, 6, 1⟩]
  states := [⟨0, [⟨4, 1, 4⟩, ⟨5, 3, 1⟩, ⟨7, 3, 2⟩, ⟨6, 3, 3⟩]⟩,
    ⟨1, [⟨0, 4, 0⟩, ⟨3, 1, 5⟩]⟩,
    ⟨2, [⟨0, 2, 1⟩, ⟨3, 2, 1⟩, ⟨2, 1, 6⟩]⟩,
    ⟨3, [⟨0, 2, 3⟩, ⟨3, 2, 3⟩, ⟨2, 2, 3⟩]⟩,
    ⟨4, [⟨0, 2, 4⟩, ⟨3, 2, 4⟩, ⟨2, 2, 4⟩]⟩,
    ⟨5, [⟨4, 1, 4⟩, ⟨7, 3, 7⟩, ⟨6, 3, 3⟩]⟩,
    ⟨6, [⟨4, 1, 4⟩, ⟨6, 3, 8⟩]⟩,
    ⟨7, [⟨0, 2, 0⟩, ⟨3, 2, 0⟩, ⟨2, 1, 6⟩]⟩,
    ⟨8, [⟨0, 2, 2⟩, ⟨3, 2, 2⟩, ⟨2, 2, 2⟩]⟩]

/-- What `expressionsDocument` loads to: each state's actions ascending by symbol. -/
def expressionsTable : Table where
  symbols := #[⟨"EOF", .endOfInput⟩, ⟨"Error", .error⟩, ⟨"*", .terminal⟩, ⟨"+", .terminal⟩,
    ⟨"ID", .terminal⟩, ⟨"exp", .nonterminal⟩, ⟨"fac", .nonterminal⟩, ⟨"term", .nonterminal⟩]
  productions := #[⟨5, 3⟩, ⟨5, 1⟩, ⟨7, 3⟩, ⟨7, 1⟩, ⟨6, 1⟩]
  states := #[[(4, .shift 4), (5, .goto 1), (6, .goto 3), (7, .goto 2)],
    [(0, .accept), (3, .shift 5)],
    [(0, .reduce 1), (2, .shift 6), (3, .reduce 1)],
    [(0, .reduce 3), (2, .reduce 3), (3, .reduce 3)],
    [(0, .reduce 4), (2, .reduce 4), (3, .reduce 4)],
    [(4, .shift 4), (6, .goto 3), (7, .goto 7)],
    [(4, .shift 4), (6, .goto 8)],
    [(0, .reduce 0), (2, .shift 6), (3, .reduce 0)],
    [(0, .reduce 2), (2, .reduce 2), (3, .reduce 2)]]

/-- The analyser of `expressionsTable` under the default options: `ID` for identifiers, `EOF`
ends the input. -/
def expressionsAnalyser : Analyser :=
  { table := expressionsTable, identifier := some 4, endMarker := 0 }

/-- The tokens of `x + y`, and their records. -/
def sumTokens : List TokenKind := [.identifier, .keyword "+", .identifier]

/-- The records of `x + y`, all on line 1. -/
def sumSymbols : SymbolTable :=
  { records := [⟨"x", 1, .identifier⟩, ⟨"+", 1, .keyword "+"⟩, ⟨"y", 1, .identifier⟩] }

theorem expressions_analyse_invariants :
    Table.ofDocument expressionsDocument = .ok expressionsTable ∧
    Analyser.new expressionsTable {} = .ok expressionsAnalyser ∧
    expressionsTable.isNonterminal expressionsAnalyser.endMarker = false ∧
    sumTokens.length = sumSymbols.size ∧
    ((∀ c, expressionsAnalyser.Reaches sumTokens sumSymbols c →
      c.stack.length % 2 = 1 ∧
      (∀ i e, c.stack[i]? = some e → (e.isState = true ↔ i % 2 = 0)) ∧
      (∀ h, c.pending = some h ↔ ∃ p prod rest, c.steps = .reduce p :: rest ∧
        expressionsTable.productions[p]? = some prod ∧ prod.head = h) ∧
      (∀ h, c.pending = some h → expressionsTable.isNonterminal h = true) ∧
      c.cursor = c.steps.countP Action.isShift ∧ c.cursor ≤ sumTokens.length ∧
      (∀ c' s, expressionsAnalyser.step sumTokens sumSymbols c = .next c' →
        c'.steps.head? = some (.shift s) →
        ∃ x, c'.stack = .state s :: .symbol x :: c.stack ∧
          expressionsTable.isTerminal x = true ∧ x ≠ expressionsAnalyser.endMarker) ∧
      (∀ p, c.steps.head? = some (.reduce p) →
        (∃ c' s, expressionsAnalyser.step sumTokens sumSymbols c = .next c' ∧
          c'.steps.head? = some (.goto s)) ∨
          expressionsAnalyser.step sumTokens sumSymbols c =
            .failed (Analyser.syntaxError sumSymbols c.cursor))) ∧
    expressionsAnalyser.analyse sumTokens sumSymbols ≠
      .error (.invariant "stack does not end in a state") ∧
    expressionsAnalyser.analyse sumTokens sumSymbols ≠
      .error (.invariant "goto without a reduced nonterminal") ∧
    (∀ r, expressionsAnalyser.analyse sumTokens sumSymbols = .ok r →
      r.symbols = sumSymbols ∧ r.steps.countP Action.isShift = sumTokens.length ∧
        r.steps.getLast? = some .accept ∧ r.steps.count .accept = 1)) := by
  have ht : Table.ofDocument expressionsDocument = .ok expressionsTable := by cbv
  have ha : Analyser.new expressionsTable {} = .ok expressionsAnalyser := by cbv
  have hend : expressionsTable.isNonterminal expressionsAnalyser.endMarker = false := by decide
  have hlen : sumTokens.length = sumSymbols.size := rfl
  exact ⟨ht, ha, hend, hlen, Analyser.analyse_invariants ht ha hend hlen⟩

end LexLR.LR
