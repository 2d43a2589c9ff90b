import Mathlib
import LexLR.Proofs.WellFormedTable
/-!
# The checks a table document must pass

Loading a table document checks its records one after another and reports the first check that
fails. This module lists those checks in the order loading makes them, each as a condition on the
document and the reason reported when it fails (`TableDocument.checks`):

* each symbol record, in order: its number is its position, its kind code is one of 0, 1, 2, 3
  and 7, and no earlier record has its name;
* each production record: its number is its position, its head is an existing symbol, and that
  symbol's kind code is 0 (a nonterminal);
* each state record: its number is its position, then each of its actions in order: the symbol
  exists, the code is 1 to 4 with a shift or goto target below the number of states and a reduce
  below the number of productions, the action is a goto exactly when the symbol's kind code is
  0, and no earlier action of the state is on the same symbol;
* finally, that there is a state.

`TableDocument.Valid` says the same without an order, field by field, and
`TableDocument.checks_hold_iff_valid` shows the two agree. `outcome` reads a list of checks as a
computation, and `foldlM_zipIdx_outcome` turns a loop whose every step is such a computation into
one over all the checks of the loop.
-/

namespace LexLR.LR

namespace ActionRow

/-- The action an action record stands for once its code is checked: 1 shift, 2 reduce, 3 goto,
4 accept. -/
def action (e : ActionRow) : Action :=
  match e.code with
  | 1 => .shift e.value
  | 2 => .reduce e.value
  | 3 => .goto e.value
  | _ => .accept

/-- Whether an action record decodes, given the numbers of states and productions: its code is 1
to 4, a shift or a goto targets an existing state, and a reduce an existing production. -/
def decodes (e : ActionRow) (states productions : Nat) : Bool :=
  match e.code with
  | 1 | 3 => decide (e.value < states)
  | 2 => decide (e.value < productions)
  | 4 => true
  | _ => false

/-- The reason an action record that does not decode is refused. -/
def decodeReason (e : ActionRow) : String :=
  let value := e.value
  let code := e.code
  match code with
  | 1 | 3 => s!"action targets state {value}, which does not exist"
  | 2 => s!"reduce by production {value}, which does not exist"
  | _ => s!"unknown action code {code}"

end ActionRow

namespace TableDocument

/-- A condition loading checks, and the reason it reports when the condition fails. -/
structure Check where
  holds : Bool
  reason : String

/-- Checks made in order: the reason of the first that fails, or else `b`. -/
def outcome {β : Type} : List Check → β → Except TableError β
  | [], b => .ok b
  | c :: cs, b => if c.holds then outcome cs b else .error (.malformed c.reason)

section Outcome

variable {α β : Type}

@[simp] theorem outcome_nil (b : β) : outcome [] b = .ok b := rfl

theorem outcome_cons (c : Check) (cs : List Check) (b : β) :
    outcome (c :: cs) b = if c.holds then outcome cs b else .error (.malformed c.reason) := rfl

theorem outcome_eq_ok_iff {cs : List Check} {b b' : β} :
    outcome cs b = .ok b' ↔ (∀ c ∈ cs, c.holds = true) ∧ b = b' := by
  induction cs with
  | nil => simp
  | cons c cs ih =>
    rw [outcome_cons]
    by_cases hc : c.holds <;> simp [hc, ih]

theorem outcome_eq_error_iff {cs : List Check} {b : β} {e : TableError} :
    outcome cs b = .error e ↔
      ∃ c, cs.find? (fun c => !c.holds) = some c ∧ e = .malformed c.reason := by
  induction cs with
  | nil => simp
  | cons c cs ih =>
    rw [outcome_cons]
    by_cases hc : c.holds
    · simp [hc, ih]
    · simp only [hc, Bool.false_eq_true, if_false, Except.error.injEq, List.find?_cons,
        Bool.not_false, Option.some.injEq]
      constructor
      · rintro rfl
        exact ⟨c, rfl, rfl⟩
      · rintro ⟨c', rfl, rfl⟩
        rfl

/-- Checks followed by a computation that, once they all hold, is itself checks: all the checks
in order. -/
theorem outcome_bind {cs cs' : List Check} {a : α} {b : β} {f : α → Except TableError β}
    (hf : (∀ c ∈ cs, c.holds = true) → f a = outcome cs' b) :
    outcome cs a >>= f = outcome (cs ++ cs') b := by
  induction cs with
  | nil => exact hf (by simp)
  | cons c cs ih =>
    rw [List.cons_append, outcome_cons, outcome_cons]
    by_cases hc : c.holds
    · rw [if_pos hc, if_pos hc]
      exact ih fun h => hf fun c' hc' => (List.mem_cons.1 hc').elim (· ▸ hc) (h c')
    · rw [if_neg hc, if_neg hc]
      rfl

/-- Checks followed by a plain computation on their result. -/
theorem outcome_map {cs : List Check} {a : α} {g : α → β} :
    (outcome cs a >>= fun x => pure (g x)) = outcome cs (g a) := by
  induction cs with
  | nil => rfl
  | cons c cs ih =>
    rw [outcome_cons, outcome_cons]
    by_cases hc : c.holds
    · rw [if_pos hc, if_pos hc, ih]
    · rw [if_neg hc, if_neg hc]
      rfl

/-- A loop over numbered records whose every step makes checks and moves to the next stage makes
all the checks of its records in order, and ends at the last stage. -/
theorem foldlM_zipIdx_outcome {f : β → α × Nat → Except TableError β} (accAt : Nat → β)
    (checks : α × Nat → List Check) :
    ∀ (l : List α) (k : Nat), (∀ j (hj : j < l.length),
      f (accAt (k + j)) (l[j], k + j) = outcome (checks (l[j], k + j)) (accAt (k + j + 1))) →
    (l.zipIdx k).foldlM f (accAt k) = outcome ((l.zipIdx k).flatMap checks) (accAt (k + l.length))
  | [], k, _ => by simp [pure, Except.pure]
  | x :: l, k, hf => by
    have h0 := hf 0 (by simp)
    simp only [Nat.add_zero, List.getElem_cons_zero] at h0
    rw [List.zipIdx_cons, List.foldlM_cons, List.flatMap_cons, h0]
    refine outcome_bind fun _ => ?_
    -- the rest of the loop starts at the next stage, one position on
    have hrest := foldlM_zipIdx_outcome accAt checks l (k + 1) fun j hj => by
      have := hf (j + 1) (by simpa using hj)
      simpa [Nat.add_assoc, Nat.add_comm 1 j] using this
    simpa [Nat.add_assoc, Nat.add_comm 1 l.length] using hrest

/-- A loop over numbered records that, record by record, makes the record's checks and pushes
what the record stands for, builds the array of what every record stands for. -/
theorem foldlM_push_outcome {γ : Type} {f : Array γ → α × Nat → Except TableError (Array γ)}
    (g : α → γ) (checks : α × Nat → List Check) (l : List α)
    (hf : ∀ j (hj : j < l.length), f ((l.take j).map g).toArray (l[j], j) =
      outcome (checks (l[j], j)) (((l.take j).map g).toArray.push (g l[j]))) :
    l.zipIdx.foldlM f #[] = outcome (l.zipIdx.flatMap checks) (l.map g).toArray := by
  have hend : (l.map g).toArray = ((l.take (0 + l.length)).map g).toArray := by simp
  rw [hend]
  refine foldlM_zipIdx_outcome (fun j => ((l.take j).map g).toArray) checks l 0 fun j hj => ?_
  -- the stage after record `j` holds one more entry than the stage before it
  have hpush : ((l.take (j + 1)).map g).toArray = ((l.take j).map g).toArray.push (g l[j]) := by
    rw [List.take_succ_eq_append_getElem hj, List.map_append, List.map_singleton,
      List.push_toArray]
  simpa only [Nat.zero_add, hpush] using hf j hj

/-- The same for a loop over records without their numbers. -/
theorem foldlM_outcome {f : β → α → Except TableError β} (accAt : Nat → β)
    (checks : α × Nat → List Check) (l : List α)
    (hf : ∀ j (hj : j < l.length), f (accAt j) l[j] = outcome (checks (l[j], j)) (accAt (j + 1))) :
    l.foldlM f (accAt 0) = outcome (l.zipIdx.flatMap checks) (accAt l.length) := by
  have hl : l.foldlM f (accAt 0) = (l.zipIdx.map Prod.fst).foldlM f (accAt 0) := by
    rw [List.zipIdx_map_fst]
  rw [hl, List.foldlM_map]
  simpa using foldlM_zipIdx_outcome (f := fun b p => f b p.1) accAt checks l 0
    (fun j hj => by simpa using hf j hj)

end Outcome

/-! ### The checks, in order -/

/-- The reason a record numbered `index` at `position` is refused. -/
def denseReason (what : String) (position index : Nat) : String :=
  s!"{what} records must be numbered densely from 0, found {index} at position {position}"

/-- The kind codes a symbol may have. -/
def kindCodes : List Nat := [0, 1, 2, 3, 7]

/-- The checks on the symbol record at position `i` of `rows`: its number, its kind code, and
that no earlier record has its name. -/
def symbolChecks (rows : List SymbolRow) : SymbolRow × Nat → List Check
  | (r, i) =>
    let name := r.name
    let code := r.kind
    [⟨r.index == i, denseReason "symbol" i r.index⟩,
      ⟨decide (code ∈ kindCodes), s!"symbol `{name}` has unknown type {code}"⟩,
      ⟨!(rows.take i).any (·.name == name), s!"symbol `{name}` is defined twice"⟩]

/-- The checks on the production record at position `i`: its number, that its head exists, and
that its head is a nonterminal. -/
def productionChecks (symbols : List SymbolRow) : ProductionRow × Nat → List Check
  | (r, i) =>
    let head := r.head
    let name := (symbols[head]?.map SymbolRow.name).getD ""
    [⟨r.index == i, denseReason "production" i r.index⟩,
      ⟨decide (head < symbols.length), s!"symbol {head} does not exist"⟩,
      ⟨symbols[head]?.map SymbolRow.kind == some 0,
        s!"production {i} reduces to `{name}`, which is not a nonterminal"⟩]

/-- The checks on the action at position `j` of the actions `acts` of the state at position `i`:
that its symbol exists, that it decodes, that it is a goto exactly when its symbol is a
nonterminal, and that no earlier action of the state is on its symbol. -/
def actionChecks (d : TableDocument) (i : Nat) (acts : List ActionRow) :
    ActionRow × Nat → List Check
  | (e, j) =>
    let x := e.symbol
    let name := (d.symbols[x]?.map SymbolRow.name).getD ""
    let shown := e.action.render
    [⟨decide (x < d.symbols.length), s!"symbol {x} does not exist"⟩,
      ⟨e.decodes d.states.length d.productions.length, e.decodeReason⟩,
      ⟨(d.symbols[x]?.map SymbolRow.kind == some 0) == (e.code == 3),
        s!"state {i}: `{shown}` on `{name}` mixes up terminals and nonterminals"⟩,
      ⟨!(acts.take j).any (·.symbol == x), s!"state {i} has more than one action on `{name}`"⟩]

/-- The checks on the state record at position `i`: its number, then each of its actions. -/
def stateChecks (d : TableDocument) : StateRow × Nat → List Check
  | (r, i) => ⟨r.index == i, denseReason "state" i r.index⟩ ::
      r.actions.zipIdx.flatMap (actionChecks d i r.actions)

/-- Every check loading makes on a document, in order. -/
def checks (d : TableDocument) : List Check :=
  d.symbols.zipIdx.flatMap (symbolChecks d.symbols) ++
    d.productions.zipIdx.flatMap (productionChecks d.symbols) ++
    d.states.zipIdx.flatMap (stateChecks d) ++ [⟨!d.states.isEmpty, "table has no states"⟩]

/-! ### The same, field by field -/

/-- What loading requires of an action record of a document: its symbol exists, its code is 1 to
4, a shift or goto targets an existing state, a reduce an existing production, and it is a goto
exactly when its symbol is a nonterminal. -/
structure ActionValid (d : TableDocument) (e : ActionRow) : Prop where
  symbol_lt : e.symbol < d.symbols.length
  code_mem : 1 ≤ e.code ∧ e.code ≤ 4
  target_lt : (e.code = 1 ∨ e.code = 3) → e.value < d.states.length
  reduce_lt : e.code = 2 → e.value < d.productions.length
  goto_iff : ∀ s, d.symbols[e.symbol]? = some s → (e.code = 3 ↔ s.kind = 0)

/-- What loading requires of a document: every record carries its position as its number; every
symbol has a known kind code and a name of its own; every production reduces to an existing
nonterminal; every action is as `ActionValid` says, and no state has two on one symbol; and there
is a state. -/
structure Valid (d : TableDocument) : Prop where
  symbol_index : ∀ (i : Nat) r, d.symbols[i]? = some r → r.index = i
  symbol_kind : ∀ r ∈ d.symbols, r.kind ∈ kindCodes
  names_nodup : (d.symbols.map SymbolRow.name).Nodup
  production_index : ∀ (i : Nat) r, d.productions[i]? = some r → r.index = i
  production_head : ∀ r ∈ d.productions, ∃ s, d.symbols[r.head]? = some s ∧ s.kind = 0
  state_index : ∀ (i : Nat) r, d.states[i]? = some r → r.index = i
  action_valid : ∀ r ∈ d.states, ∀ e ∈ r.actions, d.ActionValid e
  actions_nodup : ∀ r ∈ d.states, (r.actions.map ActionRow.symbol).Nodup
  states_ne_nil : d.states ≠ []

section Agree

variable {α β : Type}

/-- A list maps to distinct values exactly when no entry's value is that of an entry before it. -/
theorem nodup_map_iff_take {l : List α} {f : α → β} :
    (l.map f).Nodup ↔ ∀ (i : Nat) x, l[i]? = some x → ∀ y ∈ l.take i, f y ≠ f x := by
  rw [List.Nodup, List.pairwise_map, List.pairwise_iff_getElem]
  constructor
  · intro h i x hx y hy
    obtain ⟨hi, rfl⟩ := List.getElem?_eq_some_iff.1 hx
    obtain ⟨j, hj, rfl⟩ := List.mem_take_iff_getElem.1 hy
    exact h j i (by omega) hi (by omega)
  · intro h j i hj hi hji
    exact h i l[i] (List.getElem?_eq_getElem hi) l[j]
      (List.mem_take_iff_getElem.2 ⟨j, by omega, rfl⟩)

theorem forall_getElem?_iff {l : List α} {P : α → Prop} :
    (∀ (i : Nat) x, l[i]? = some x → P x) ↔ ∀ x ∈ l, P x := by
  simp only [List.mem_iff_getElem?]
  exact ⟨fun h x ⟨i, hi⟩ => h i x hi, fun h i x hi => h x ⟨i, hi⟩⟩

/-- The checks of a loop over numbered records all hold when those of each record do. -/
theorem forall_mem_flatMap_zipIdx {l : List α} {F : α × Nat → List Check} :
    (∀ c ∈ l.zipIdx.flatMap F, c.holds = true) ↔
      ∀ (i : Nat) x, l[i]? = some x → ∀ c ∈ F (x, i), c.holds = true := by
  simp only [List.mem_flatMap, Prod.exists]
  constructor
  · intro h i x hx c hc
    exact h c ⟨x, i, List.mk_mem_zipIdx_iff_getElem?.2 hx, hc⟩
  · rintro h c ⟨x, i, hxi, hc⟩
    exact h i x (List.mk_mem_zipIdx_iff_getElem?.1 hxi) c hc

end Agree

theorem decodes_iff {e : ActionRow} {states productions : Nat} :
    e.decodes states productions = true ↔ (1 ≤ e.code ∧ e.code ≤ 4) ∧
      ((e.code = 1 ∨ e.code = 3) → e.value < states) ∧ (e.code = 2 → e.value < productions) := by
  unfold ActionRow.decodes
  split
  case h_5 h1 h3 h2 h4 =>
    -- any other code is refused
    simp only [Bool.false_eq_true, false_iff]
    rintro ⟨⟨hlo, hhi⟩, -⟩
    simp only [imp_false] at h1 h3 h2 h4
    omega
  all_goals simp_all

theorem symbolChecks_hold_iff {rows : List SymbolRow} :
    (∀ c ∈ rows.zipIdx.flatMap (symbolChecks rows), c.holds = true) ↔
      (∀ (i : Nat) r, rows[i]? = some r → r.index = i) ∧ (∀ r ∈ rows, r.kind ∈ kindCodes) ∧
        (rows.map SymbolRow.name).Nodup := by
  rw [forall_mem_flatMap_zipIdx, nodup_map_iff_take, ← forall_getElem?_iff]
  simp only [symbolChecks, List.mem_cons, List.not_mem_nil, or_false, forall_eq_or_imp,
    forall_eq, beq_iff_eq, decide_eq_true_eq, Bool.not_eq_true', List.any_eq_false,
    imp_and, forall_and]

theorem productionChecks_hold_iff {symbols : List SymbolRow} {rows : List ProductionRow} :
    (∀ c ∈ rows.zipIdx.flatMap (productionChecks symbols), c.holds = true) ↔
      (∀ (i : Nat) r, rows[i]? = some r → r.index = i) ∧
        ∀ r ∈ rows, ∃ s, symbols[r.head]? = some s ∧ s.kind = 0 := by
  rw [forall_mem_flatMap_zipIdx, ← forall_getElem?_iff]
  simp only [productionChecks, List.mem_cons, List.not_mem_nil, or_false, forall_eq_or_imp,
    forall_eq, beq_iff_eq, decide_eq_true_eq, Option.map_eq_some_iff, imp_and, forall_and]
  -- the head's existence is implied by the head's kind
  refine ⟨fun ⟨hi, _, hh⟩ => ⟨hi, hh⟩, fun ⟨hi, hh⟩ => ⟨hi, fun i r hr => ?_, hh⟩⟩
  obtain ⟨s, hs, -⟩ := hh i r hr
  exact (List.getElem?_eq_some_iff.1 hs).1

/-- The kind check on an action whose symbol exists. -/
theorem kindCheck_iff {d : TableDocument} {e : ActionRow} {s : SymbolRow}
    (hs : d.symbols[e.symbol]? = some s) :
    (d.symbols[e.symbol]?.map SymbolRow.kind == some 0) = (e.code == 3) ↔
      (e.code = 3 ↔ s.kind = 0) := by
  rw [hs, Option.map_some]
  by_cases h0 : s.kind = 0 <;> by_cases h3 : e.code = 3 <;> simp [h0, h3]

/-- The checks on one action hold when the action is valid and no earlier action of its state is
on its symbol. -/
theorem actionChecks_hold_iff {d : TableDocument} {i j : Nat} {acts : List ActionRow}
    {e : ActionRow} :
    (∀ c ∈ actionChecks d i acts (e, j), c.holds = true) ↔
      d.ActionValid e ∧ ∀ y ∈ acts.take j, y.symbol ≠ e.symbol := by
  simp only [actionChecks, List.mem_cons, List.not_mem_nil, or_false, forall_eq_or_imp,
    forall_eq, beq_iff_eq, decide_eq_true_eq, Bool.not_eq_true', List.any_eq_false, decodes_iff]
  constructor
  · rintro ⟨hx, ⟨hcode, htarget, hreduce⟩, hkind, hfresh⟩
    exact ⟨⟨hx, hcode, htarget, hreduce, fun s hs => (kindCheck_iff hs).1 hkind⟩, hfresh⟩
  · rintro ⟨⟨hx, hcode, htarget, hreduce, hgoto⟩, hfresh⟩
    have hs : d.symbols[e.symbol]? = some d.symbols[e.symbol] := List.getElem?_eq_getElem hx
    exact ⟨hx, ⟨hcode, htarget, hreduce⟩, (kindCheck_iff hs).2 (hgoto _ hs), hfresh⟩

theorem stateChecks_hold_iff {d : TableDocument} :
    (∀ c ∈ d.states.zipIdx.flatMap (stateChecks d), c.holds = true) ↔
      (∀ (i : Nat) r, d.states[i]? = some r → r.index = i) ∧
        (∀ r ∈ d.states, ∀ e ∈ r.actions, d.ActionValid e) ∧
        ∀ r ∈ d.states, (r.actions.map ActionRow.symbol).Nodup := by
  -- a state's checks: its number, then the checks of each of its actions
  have hstate : ∀ (i : Nat) r, (∀ c ∈ stateChecks d (r, i), c.holds = true) ↔
      r.index = i ∧ (∀ e ∈ r.actions, d.ActionValid e) ∧
        (r.actions.map ActionRow.symbol).Nodup := by
    intro i r
    simp only [stateChecks, List.forall_mem_cons, beq_iff_eq, forall_mem_flatMap_zipIdx,
      actionChecks_hold_iff, nodup_map_iff_take, imp_and, forall_and, forall_getElem?_iff]
  rw [forall_mem_flatMap_zipIdx]
  simp only [hstate, imp_and, forall_and, forall_getElem?_iff]

/-- Every check loading makes holds exactly when the document is valid. -/
theorem checks_hold_iff_valid {d : TableDocument} :
    (∀ c ∈ d.checks, c.holds = true) ↔ d.Valid := by
  simp only [checks, List.forall_mem_append, List.forall_mem_cons, List.not_mem_nil,
    symbolChecks_hold_iff, productionChecks_hold_iff, stateChecks_hold_iff,
    Bool.not_eq_true', List.isEmpty_eq_false_iff, false_implies, implies_true, and_true]
  constructor
  · rintro ⟨⟨⟨⟨h1, h2, h3⟩, h4, h5⟩, h6, h7, h8⟩, h9⟩
    exact ⟨h1, h2, h3, h4, h5, h6, h7, h8, h9⟩
  · rintro ⟨h1, h2, h3, h4, h5, h6, h7, h8, h9⟩
    exact ⟨⟨⟨⟨h1, h2, h3⟩, h4, h5⟩, h6, h7, h8⟩, h9⟩

end TableDocument

end LexLR.LR
