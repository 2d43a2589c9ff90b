import Mathlib
import LexLR.Proofs.Analysis
/-!
# When an analysis ends

Only a shift moves the cursor, and a run on a loaded table never moves it past the last token;
reductions and gotos consume nothing, and loading checks each action on its own, so a table can
chain them without end. The loop of an analysis therefore ends exactly when no configuration it
reaches starts an endless chain of steps that consume no input (`runFrom_ends_iff`). Such chains
exist: `emptyLoop_never_ends` gives a table the loader accepts on which the loop never ends.
-/

namespace LexLR.LR

namespace Analyser

variable {a : Analyser} {tokens : List TokenKind} {symbols : SymbolTable} {c c' : Config}

/-- `a.Idles tokens symbols n c`: from `c` the run takes `n` more steps, none of which consumes
input. -/
inductive Idles (a : Analyser) (tokens : List TokenKind) (symbols : SymbolTable) :
    Nat → Config → Prop
  | zero (c : Config) : Idles a tokens symbols 0 c
  | succ {n : Nat} {c c' : Config} : a.step tokens symbols c = .next c' → c'.cursor = c.cursor →
      Idles a tokens symbols n c' → Idles a tokens symbols (n + 1) c

/-- A step moves the cursor by one at most. -/
theorem cursor_step (h : a.step tokens symbols c = .next c') :
    c'.cursor = c.cursor ∨ c'.cursor = c.cursor + 1 := by
  have he := step_effect a tokens symbols c
  rw [h] at he
  cases he with
  | shift => exact .inr rfl
  | reduce | goto => exact .inl rfl

/-- A step fails only for a reason of its own, never for want of steps. -/
theorem step_ne_stalled (n : Nat) : a.step tokens symbols c ≠ .failed (.stalled n) := by
  have he := step_effect a tokens symbols c
  generalize a.step tokens symbols c = st at he ⊢
  cases he <;> simp [syntaxError]

theorem runFrom_succ_of_next (h : a.step tokens symbols c = .next c') (n : Nat) :
    a.runFrom tokens symbols (n + 1) c = a.runFrom tokens symbols n c' := by
  rw [runFrom, h]

/-- A run that ended within `n` steps ends the same way with more. -/
theorem runFrom_add_of_ne_stalled {n : Nat}
    (h : a.runFrom tokens symbols n c ≠ .error (.stalled 0)) (k : Nat) :
    a.runFrom tokens symbols (n + k) c = a.runFrom tokens symbols n c := by
  induction n generalizing c with
  | zero => exact absurd rfl h
  | succ n ih =>
    rw [show n + 1 + k = n + k + 1 by omega]
    cases hstep : a.step tokens symbols c with
    | next c'' =>
      rw [runFrom_succ_of_next hstep, runFrom_succ_of_next hstep]
      rw [runFrom_succ_of_next hstep] at h
      exact ih h
    | accepted d => simp [runFrom, hstep]
    | failed e => simp [runFrom, hstep]

/-- A reached configuration is where the run from the start stands after some number of steps. -/
theorem Reaches.runFrom_shift (hc : a.Reaches tokens symbols c) :
    ∃ k, ∀ n, a.runFrom tokens symbols (k + n) Analyser.start = a.runFrom tokens symbols n c := by
  induction hc with
  | start => exact ⟨0, fun n => by rw [Nat.zero_add]⟩
  | step _ hstep ih =>
    obtain ⟨k, hk⟩ := ih
    refine ⟨k + 1, fun n => ?_⟩
    rw [show k + 1 + n = k + (n + 1) by omega, hk, runFrom_succ_of_next hstep]

theorem Idles.runFrom {n : Nat} (h : a.Idles tokens symbols n c) :
    a.runFrom tokens symbols n c = .error (.stalled 0) := by
  induction h with
  | zero => rfl
  | succ hstep _ _ ih => rw [runFrom_succ_of_next hstep, ih]

/-- A run ends when every configuration it reaches idles for a bounded number of steps only:
between two shifts it idles a bounded while, and it shifts at most once per token. -/
theorem Ready.ends_of_idles_bounded (hr : a.Ready)
    (hb : ∀ c, a.Reaches tokens symbols c → ∃ n, ¬ a.Idles tokens symbols n c)
    (hc : a.Reaches tokens symbols c) :
    ∃ m, a.runFrom tokens symbols m c ≠ .error (.stalled 0) := by
  -- induction on the tokens left to read, and inside it on the bound on idling
  induction hk : tokens.length - c.cursor using Nat.strong_induction_on generalizing c with
  | _ k ihk =>
    obtain ⟨n, hn⟩ := hb c hc
    induction n generalizing c with
    | zero => exact absurd (.zero c) hn
    | succ n ihn =>
      cases hstep : a.step tokens symbols c with
      | accepted d => exact ⟨1, by simp [runFrom, hstep]⟩
      | failed e =>
        refine ⟨1, ?_⟩
        simp only [runFrom, hstep, ne_eq, Except.error.injEq]
        rintro rfl
        exact step_ne_stalled 0 hstep
      | next c'' =>
        have hc'' := hc.step hstep
        rcases cursor_step hstep with hsame | hnext
        · -- an idle step: the bound on idling drops by one
          have hidle : ¬ a.Idles tokens symbols n c'' := fun h => hn (.succ hstep hsame h)
          obtain ⟨m, hm⟩ := ihn hc'' (by rw [hsame]; exact hk) hidle
          exact ⟨m + 1, by rw [runFrom_succ_of_next hstep]; exact hm⟩
        · -- a shift: one token fewer is left to read
          have hle := (hc''.sound hr).cursor_le
          obtain ⟨m, hm⟩ := ihk (tokens.length - c''.cursor) (by omega) hc'' rfl
          exact ⟨m + 1, by rw [runFrom_succ_of_next hstep]; exact hm⟩

/-- The loop of an analysis on a loaded table ends, with an answer or an error, exactly when no
configuration it reaches starts an endless chain of steps that consume no input. -/
theorem runFrom_ends_iff {d : TableDocument} {t : Table} {o : Options} {a : Analyser}
    {tokens : List TokenKind} {symbols : SymbolTable}
    (ht : Table.ofDocument d = .ok t) (ha : Analyser.new t o = .ok a) :
    (∃ m, a.runFrom tokens symbols m start ≠ .error (.stalled 0)) ↔
      ∀ c, a.Reaches tokens symbols c → ∃ n, ¬ a.Idles tokens symbols n c := by
  have hr : a.Ready := ready_new (Table.ofDocument_wellFormed ht) ha
  constructor
  · rintro ⟨m, hm⟩ c hc
    -- idling `m` steps from a reached configuration would leave the run unfinished after `m`
    refine ⟨m, fun hidle => ?_⟩
    obtain ⟨k, hk⟩ := hc.runFrom_shift
    have hend := runFrom_add_of_ne_stalled hm k
    rw [Nat.add_comm, hk, hidle.runFrom] at hend
    exact hm hend.symm
  · exact fun hb => hr.ends_of_idles_bounded hb .start

end Analyser

theorem expressions_runFrom_ends_iff :
    Table.ofDocument expressionsDocument = .ok expressionsTable ∧
    Analyser.new expressionsTable {} = .ok expressionsAnalyser ∧
    ((∃ m, expressionsAnalyser.runFrom sumTokens sumSymbols m Analyser.start ≠
        .error (.stalled 0)) ↔
      ∀ c, expressionsAnalyser.Reaches sumTokens sumSymbols c →
        ∃ n, ¬ expressionsAnalyser.Idles sumTokens sumSymbols n c) := by
  have ht : Table.ofDocument expressionsDocument = .ok expressionsTable := by cbv
  have ha : Analyser.new expressionsTable {} = .ok expressionsAnalyser := by cbv
  exact ⟨ht, ha, Analyser.runFrom_ends_iff ht ha⟩

/-- A table the loader accepts on which an analysis never ends: on the end marker state 0 reduces
the empty production of `S`, and on `S` it goes back to state 0. -/
def emptyLoopDocument : TableDocument where
  symbols := [⟨0, "EOF", 3⟩, ⟨1, "S", 0⟩]
  productions := [⟨0, 1, 0⟩]
  states := [⟨0, [⟨0, 2, 0⟩, ⟨1, 3, 0⟩]⟩]

/-- What `emptyLoopDocument` loads to. -/
def emptyLoopTable : Table where
  symbols := #[⟨"EOF", .endOfInput⟩, ⟨"S", .nonterminal⟩]
  productions := #[⟨1, 0⟩]
  states := #[[(0, .reduce 0), (1, .goto 0)]]

/-- The analyser of `emptyLoopTable` under the default options: no identifier symbol, `EOF` ends
the input. -/
def emptyLoopAnalyser : Analyser :=
  { table := emptyLoopTable, identifier := none, endMarker := 0 }

/-- Without tokens, state 0 on top and nothing or `S` pending, the run takes another step to a
configuration of the same kind: a reduction of `S → ε`, or a goto back to state 0 on `S`. -/
theorem emptyLoop_step (symbols : SymbolTable) {c : Config} {rest : List StackEntry}
    (hstack : c.stack = .state 0 :: rest) (hp : c.pending = none ∨ c.pending = some 1) :
    ∃ c' rest', emptyLoopAnalyser.step [] symbols c = .next c' ∧
      c'.stack = .state 0 :: rest' ∧ (c'.pending = none ∨ c'.pending = some 1) := by
  have hend : emptyLoopAnalyser.table.action 0 emptyLoopAnalyser.endMarker = .ok (.reduce 0) :=
    rfl
  have hprod : emptyLoopAnalyser.table.productions[0]? = some ⟨1, 0⟩ := rfl
  have hS : emptyLoopAnalyser.table.action 0 1 = .ok (.goto 0) := rfl
  rcases hp with hp | hp
  · refine ⟨⟨.state 0 :: rest, c.cursor, some 1, .reduce 0 :: c.steps⟩, rest, ?_, rfl, .inr rfl⟩
    simp [Analyser.step, Analyser.lookahead?, hstack, hp, hend, hprod]
  · refine ⟨{ c with
        stack := .state 0 :: .symbol 1 :: c.stack, pending := none, steps := .goto 0 :: c.steps },
      _, ?_, rfl, .inl rfl⟩
    simp [Analyser.step, Analyser.lookahead?, hstack, hp, hS]

theorem emptyLoop_runFrom {symbols : SymbolTable} (n : Nat) {c : Config} {rest : List StackEntry}
    (hstack : c.stack = .state 0 :: rest) (hp : c.pending = none ∨ c.pending = some 1) :
    emptyLoopAnalyser.runFrom [] symbols n c = .error (.stalled 0) := by
  induction n generalizing c rest with
  | zero => rfl
  | succ n ih =>
    obtain ⟨c', rest', hstep, hstack', hp'⟩ := emptyLoop_step symbols hstack hp
    rw [Analyser.runFrom_succ_of_next hstep]
    exact ih hstack' hp'

/-- On `emptyLoopTable`, which the loader accepts, with no tokens the loop of an analysis never
ends: no number of steps brings an answer or an error, and the analysis stops only when its
step budget runs out. -/
theorem emptyLoop_never_ends :
    Table.ofDocument emptyLoopDocument = .ok emptyLoopTable ∧
    Analyser.new emptyLoopTable {} = .ok emptyLoopAnalyser ∧
    ([] : List TokenKind).length = ({} : SymbolTable).size ∧
    (∀ n, emptyLoopAnalyser.runFrom [] {} n Analyser.start = .error (.stalled 0)) ∧
    emptyLoopAnalyser.analyse [] {} = .error (.stalled Analyser.stepBudget) := by
  have hloop : ∀ n, emptyLoopAnalyser.runFrom [] {} n Analyser.start = .error (.stalled 0) :=
    fun n => emptyLoop_runFrom n rfl (.inl rfl)
  refine ⟨by cbv, by cbv, rfl, hloop, ?_⟩
  simp [Analyser.analyse, Analyser.analyseWithin, hloop, SymbolTable.size]

end LexLR.LR
