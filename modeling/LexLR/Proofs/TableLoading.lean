import Mathlib
import LexLR.Proofs.TableChecks
/-!
# Loading a table document

Loading goes through the symbol, production and state records in three loops. Each step of each
loop makes the checks `TableDocument.checks` lists for its record and then adds one entry to what
the loop builds, so `foldlM_push_outcome` (and `foldlM_outcome` for the actions of a state) turns
each loop into all of its checks. With the last check, that there is a state, loading a document
is its checks in order, ending in the table the document describes (`Table.ofDocument_eq`). A
state keeps its actions ascending by symbol, and as a valid state has one action per symbol, its
action on a symbol is the one its record for the symbol decodes to (`lookup_storedActions`). Main
statement: `Table.ofDocument_spec`.
-/

namespace LexLR.LR

/-- The symbol a symbol record stands for once its kind code is checked. -/
def SymbolRow.symbol (r : SymbolRow) : GrammarSymbol :=
  ⟨r.name, (SymbolKind.ofCode? r.kind).getD .nonterminal⟩

@[simp] theorem SymbolRow.name_symbol (r : SymbolRow) : r.symbol.name = r.name := rfl

/-- The production a production record stands for. -/
def ProductionRow.production (r : ProductionRow) : Production :=
  ⟨r.head, r.length⟩

/-- The kind codes are exactly those a kind decodes from. -/
theorem SymbolKind.ofCode?_isSome_iff {code : Nat} :
    (SymbolKind.ofCode? code).isSome = true ↔ code ∈ TableDocument.kindCodes := by
  unfold SymbolKind.ofCode?
  split
  case h_6 h0 h1 h2 h3 h7 =>
    simp only [imp_false] at h0 h1 h2 h3 h7
    simp [TableDocument.kindCodes, h0, h1, h2, h3, h7]
  all_goals simp [TableDocument.kindCodes]

/-- The code of a kind. -/
def SymbolKind.code : SymbolKind → Nat
  | .nonterminal => 0
  | .terminal => 1
  | .noise => 2
  | .endOfInput => 3
  | .error => 7

theorem SymbolKind.ofCode?_eq_some_iff {code : Nat} {k : SymbolKind} :
    SymbolKind.ofCode? code = some k ↔ code = k.code := by
  cases k <;> unfold SymbolKind.ofCode? <;> split <;> simp_all [SymbolKind.code]

/-- A symbol record with a known kind code stands for a symbol of the kind the code names. -/
theorem SymbolRow.symbol_kind_eq_iff {r : SymbolRow} (h : r.kind ∈ TableDocument.kindCodes)
    {k : SymbolKind} : r.symbol.kind = k ↔ r.kind = k.code := by
  obtain ⟨k', hk'⟩ := Option.isSome_iff_exists.1 (SymbolKind.ofCode?_isSome_iff.2 h)
  have hsym : r.symbol.kind = k' := by simp [SymbolRow.symbol, hk']
  rw [hsym, ← SymbolKind.ofCode?_eq_some_iff, hk', Option.some.injEq]

@[simp] theorem throw_eq_error {α : Type} (e : TableError) :
    (throw e : Except TableError α) = .error e := rfl

namespace TableDocument

theorem checkDense_eq (what : String) (position index : Nat) :
    checkDense what position index =
      outcome [⟨index == position, denseReason what position index⟩] () := by
  unfold checkDense
  by_cases h : index = position <;> simp [h, outcome_cons, denseReason]

theorem loadSymbols_eq (rows : List SymbolRow) :
    loadSymbols rows =
      outcome (rows.zipIdx.flatMap (symbolChecks rows)) (rows.map SymbolRow.symbol).toArray := by
  rw [loadSymbols]
  refine foldlM_push_outcome SymbolRow.symbol (symbolChecks rows) rows fun j hj => ?_
  -- the record's number, then its kind code, then its name against the records before it
  have hany : ((rows.take j).map SymbolRow.symbol).toArray.any (·.name == rows[j].name) =
      (rows.take j).any (·.name == rows[j].name) := by
    rw [List.any_toArray, List.any_map]
    rfl
  simp only [symbolChecks, checkDense_eq, hany]
  refine outcome_bind fun _ => ?_
  cases hk : SymbolKind.ofCode? rows[j].kind with
  | none =>
    have hcode : rows[j].kind ∉ kindCodes := by
      rw [← SymbolKind.ofCode?_isSome_iff, hk]
      simp
    simp [outcome_cons, hcode, bind, Except.bind]
  | some k =>
    have hcode : rows[j].kind ∈ kindCodes := by
      rw [← SymbolKind.ofCode?_isSome_iff, hk]
      rfl
    by_cases hdup : (rows.take j).any (·.name == rows[j].name) <;>
      simp [outcome_cons, hk, hcode, hdup, bind, Except.bind, SymbolRow.symbol, pure, Except.pure]

theorem loadProductions_eq {symbols : List SymbolRow} (hk : ∀ r ∈ symbols, r.kind ∈ kindCodes)
    (rows : List ProductionRow) :
    loadProductions (symbols.map SymbolRow.symbol).toArray rows =
      outcome (rows.zipIdx.flatMap (productionChecks symbols))
        (rows.map ProductionRow.production).toArray := by
  rw [loadProductions]
  refine foldlM_push_outcome ProductionRow.production (productionChecks symbols) rows
    fun j hj => ?_
  -- the record's number, then that its head exists, then that the head is a nonterminal
  simp only [productionChecks, checkDense_eq, existing]
  refine outcome_bind fun _ => ?_
  cases hs : symbols[rows[j].head]? with
  | none =>
    have hlt : ¬ rows[j].head < symbols.length := by simpa using hs
    simp [outcome_cons, hlt, bind, Except.bind]
  | some s =>
    have hlt : rows[j].head < symbols.length := (List.getElem?_eq_some_iff.1 hs).1
    have hkind := SymbolRow.symbol_kind_eq_iff (k := .nonterminal) (hk s (List.mem_of_getElem? hs))
    have harr : (symbols.map SymbolRow.symbol).toArray[rows[j].head]? = some s.symbol := by
      simp [hs]
    rw [harr]
    by_cases h0 : s.kind = 0 <;>
      simp [outcome_cons, hlt, hkind, SymbolKind.code, h0, bind, Except.bind,
        ProductionRow.production, pure, Except.pure]

theorem decodeAction_eq (e : ActionRow) (states productions : Nat) :
    decodeAction e states productions =
      outcome [⟨e.decodes states productions, e.decodeReason⟩] e.action := by
  unfold decodeAction
  split
  case h_1 hc | h_3 hc =>
    by_cases h : e.value < states <;>
      simp [hc, h, outcome_cons, ActionRow.decodes, ActionRow.decodeReason, ActionRow.action,
        Functor.map, Except.map]
  case h_2 hc =>
    by_cases h : e.value < productions <;>
      simp [hc, h, outcome_cons, ActionRow.decodes, ActionRow.decodeReason, ActionRow.action]
  case h_4 hc => simp [hc, outcome_cons, ActionRow.decodes, ActionRow.action]
  case h_5 h1 h2 h3 h4 =>
    -- any other code is refused, with the code in the reason
    simp only [imp_false] at h1 h2 h3 h4
    have hdec : e.decodes states productions = false := by
      unfold ActionRow.decodes
      split <;> simp_all
    have hreason : e.decodeReason = s!"unknown action code {e.code}" := by
      unfold ActionRow.decodeReason
      dsimp only
      split <;> simp_all
    simp [outcome_cons, hdec, hreason]

/-- The actions of a state as loading stores them: inserted one by one, ascending by symbol. -/
def storedActions (acts : List ActionRow) : List (Nat × Action) :=
  acts.foldl (fun acc e => insertAction e.symbol e.action acc) []

theorem isSome_lookup_insertAction {x y : Nat} {a : Action} {l : List (Nat × Action)} :
    ((insertAction x a l).lookup y).isSome = (y == x || (l.lookup y).isSome) := by
  induction l with
  | nil => cases hyx : y == x <;> simp [insertAction, List.lookup, hyx]
  | cons e rest ih =>
    obtain ⟨z, c⟩ := e
    unfold insertAction
    split
    · cases hyx : y == x <;> cases hyz : y == z <;> simp [List.lookup, hyx, hyz]
    · cases hyz : y == z <;> simp [List.lookup, hyz, ih]

/-- Loading finds an action on a symbol in the actions stored so far exactly when one of the
records inserted is on it. -/
theorem isSome_lookup_foldl_insertAction (acts : List ActionRow) (acc : List (Nat × Action))
    (y : Nat) :
    ((acts.foldl (fun acc e => insertAction e.symbol e.action acc) acc).lookup y).isSome =
      ((acc.lookup y).isSome || acts.any (·.symbol == y)) := by
  induction acts generalizing acc with
  | nil => simp
  | cons e rest ih =>
    rw [List.foldl_cons, ih, isSome_lookup_insertAction, List.any_cons,
      Bool.beq_comm (a := y)]
    cases e.symbol == y <;> simp

theorem storedActions_take_succ {acts : List ActionRow} {j : Nat} (hj : j < acts.length) :
    storedActions (acts.take (j + 1)) =
      insertAction acts[j].symbol acts[j].action (storedActions (acts.take j)) := by
  rw [storedActions, List.take_succ_eq_append_getElem hj, List.foldl_append]
  rfl

/-- The decoded action is a goto exactly for code 3. -/
theorem ActionRow.isGoto_action (e : ActionRow) : e.action.isGoto = (e.code == 3) := by
  unfold ActionRow.action
  split <;> simp_all [Action.isGoto]

theorem loadActions_eq {d : TableDocument} (hk : ∀ r ∈ d.symbols, r.kind ∈ kindCodes) (i : Nat)
    (acts : List ActionRow) :
    loadActions (d.symbols.map SymbolRow.symbol).toArray d.states.length d.productions.length i
        acts = outcome (acts.zipIdx.flatMap (actionChecks d i acts)) (storedActions acts) := by
  rw [loadActions, show storedActions acts = storedActions (acts.take acts.length) by simp]
  refine foldlM_outcome (fun j => storedActions (acts.take j)) (actionChecks d i acts) acts
    fun j hj => ?_
  have hfresh : ((storedActions (acts.take j)).lookup acts[j].symbol).isSome =
      (acts.take j).any (·.symbol == acts[j].symbol) := by
    simp [storedActions, isSome_lookup_foldl_insertAction]
  rw [storedActions_take_succ hj]
  simp only [actionChecks, outcome_cons, existing, decodeAction_eq]
  cases hs : d.symbols[acts[j].symbol]? with
  | none =>
    have hlt : ¬ acts[j].symbol < d.symbols.length := by simpa using hs
    have harr : (d.symbols.map SymbolRow.symbol).toArray[acts[j].symbol]? = none := by simp [hs]
    rw [harr]
    simp [hlt, bind, Except.bind]
  | some s =>
    have hlt : acts[j].symbol < d.symbols.length := (List.getElem?_eq_some_iff.1 hs).1
    have harr : (d.symbols.map SymbolRow.symbol).toArray[acts[j].symbol]? = some s.symbol := by
      simp [hs]
    have hkind := SymbolRow.symbol_kind_eq_iff (k := .nonterminal) (hk s (List.mem_of_getElem? hs))
    rw [harr]
    by_cases hdec : acts[j].decodes d.states.length d.productions.length = true
    · -- the action decodes: the kind check, then the check for an earlier action on the symbol
      by_cases hgoto : acts[j].code = 3 <;> by_cases h0 : s.kind = 0 <;>
        by_cases hdup : (acts.take j).any (·.symbol == acts[j].symbol) = true <;>
        simp [hlt, hdec, hgoto, h0, hdup, hfresh, hkind, SymbolKind.code,
          ActionRow.isGoto_action, bind, Except.bind, pure, Except.pure]
    · simp [hlt, hdec, bind, Except.bind]

theorem lookup_insertAction_of_lookup_eq_none {x y : Nat} {a : Action}
    {l : List (Nat × Action)} (hx : l.lookup x = none) :
    (insertAction x a l).lookup y = if y = x then some a else l.lookup y := by
  induction l with
  | nil =>
    by_cases hyx : y = x
    · simp [insertAction, hyx]
    · simp [insertAction, List.lookup, hyx, beq_false_of_ne hyx]
  | cons e rest ih =>
    obtain ⟨z, c⟩ := e
    -- `x` is not `z`, and not a key of the rest
    have hxz : x ≠ z := fun h => by simp [List.lookup, h] at hx
    have hrest : rest.lookup x = none := by simpa [List.lookup, beq_false_of_ne hxz] using hx
    unfold insertAction
    split
    · by_cases hyx : y = x
      · simp [List.lookup, hyx]
      · simp [List.lookup, hyx, beq_false_of_ne hyx]
    · rw [List.lookup_cons, List.lookup_cons, ih hrest]
      by_cases hyz : y = z
      · simp [hyz, Ne.symm hxz]
      · simp [beq_false_of_ne hyz]

/-- Inserting actions on distinct symbols, none of them a key already, makes each found on its
own symbol. -/
theorem lookup_foldl_insertAction {acts : List ActionRow} (hnd : (acts.map ActionRow.symbol).Nodup)
    {acc : List (Nat × Action)} (hacc : ∀ e ∈ acts, acc.lookup e.symbol = none) (y : Nat) :
    (acts.foldl (fun acc e => insertAction e.symbol e.action acc) acc).lookup y =
      (acc.lookup y).or ((acts.find? (·.symbol == y)).map ActionRow.action) := by
  induction acts generalizing acc with
  | nil => simp
  | cons e rest ih =>
    rw [List.map_cons, List.nodup_cons] at hnd
    have he := hacc e List.mem_cons_self
    -- no later action is on the symbol just inserted
    have hacc' : ∀ e' ∈ rest,
        (insertAction e.symbol e.action acc).lookup e'.symbol = none := by
      intro e' he'
      have hne : e'.symbol ≠ e.symbol := fun h => hnd.1 (h ▸ List.mem_map_of_mem he')
      rw [lookup_insertAction_of_lookup_eq_none he, if_neg hne]
      exact hacc e' (List.mem_cons_of_mem e he')
    rw [List.foldl_cons, ih hnd.2 hacc', lookup_insertAction_of_lookup_eq_none he, List.find?_cons]
    by_cases hy : e.symbol = y
    · subst hy
      simp [he]
    · simp [Ne.symm hy, beq_false_of_ne hy]

theorem lookup_storedActions {acts : List ActionRow} (hnd : (acts.map ActionRow.symbol).Nodup)
    (y : Nat) :
    (storedActions acts).lookup y = (acts.find? (·.symbol == y)).map ActionRow.action := by
  rw [storedActions, lookup_foldl_insertAction hnd (fun _ _ => rfl)]
  simp

/-- The table a document describes once every check holds. -/
def loaded (d : TableDocument) : Table where
  symbols := (d.symbols.map SymbolRow.symbol).toArray
  productions := (d.productions.map ProductionRow.production).toArray
  states := (d.states.map fun r => storedActions r.actions).toArray

/-- The record of the action the state at position `s` has on symbol `x`: the first of the
state's records on `x`. -/
def entry? (d : TableDocument) (s x : Nat) : Option ActionRow :=
  d.states[s]?.bind fun r => r.actions.find? (·.symbol == x)

/-- The reason of the first check a document fails. -/
def firstViolation (d : TableDocument) : Option String :=
  (d.checks.find? fun c => !c.holds).map Check.reason

end TableDocument

open TableDocument in
/-- Loading a document makes the checks of `TableDocument.checks` in order: it fails with the
reason of the first that fails, and otherwise gives the table the document describes. -/
theorem Table.ofDocument_eq (d : TableDocument) :
    Table.ofDocument d = outcome d.checks d.loaded := by
  unfold Table.ofDocument
  rw [loadSymbols_eq, checks, List.append_assoc, List.append_assoc]
  refine outcome_bind fun hsym => ?_
  -- once the symbols pass, every kind code is known
  have hk : ∀ r ∈ d.symbols, r.kind ∈ kindCodes := (symbolChecks_hold_iff.1 hsym).2.1
  rw [loadProductions_eq hk]
  refine outcome_bind fun _ => ?_
  simp only [List.size_toArray, List.length_map]
  rw [foldlM_push_outcome (fun r => storedActions r.actions) (stateChecks d) d.states
    fun j hj => ?_]
  · -- after the states, the check that there is one
    refine outcome_bind fun _ => ?_
    by_cases hne : d.states = [] <;>
      simp [hne, outcome_cons, loaded, pure, Except.pure, bind, Except.bind]
  · -- a state: its number, then its actions
    rw [stateChecks, checkDense_eq, loadActions_eq hk]
    exact outcome_bind fun _ => outcome_map

/-- How a table answers for a document: its symbols are the records' with their kinds decoded,
its productions the records', one state per record; the action of a state on a symbol is the one
its record for that symbol decodes to, and there is none for a symbol without a record or a state
past the last; a name leads to the one symbol of that name, and the end of input is the first
symbol of kind code 3. -/
structure Table.Describes (t : Table) (d : TableDocument) : Prop where
  symbol?_eq : ∀ x, t.symbol? x =
    d.symbols[x]?.bind fun r => (SymbolKind.ofCode? r.kind).map (GrammarSymbol.mk r.name)
  production_eq : ∀ p : Nat, t.productions[p]? = d.productions[p]?.map ProductionRow.production
  size_states : t.states.size = d.states.length
  action_eq : ∀ s x, t.action s x =
    match d.entry? s x with
    | some e => .ok e.action
    | none => .error (.noAction s x)
  symbolByName?_eq_some_iff : ∀ name x,
    t.symbolByName? name = some x ↔ d.symbols[x]?.map SymbolRow.name = some name
  endOfInput?_eq : t.endOfInput? = d.symbols.findIdx? (·.kind == 3)

theorem findIdx?_congr {α : Type} {l : List α} {p q : α → Bool} (h : ∀ x ∈ l, p x = q x) :
    l.findIdx? p = l.findIdx? q := by
  induction l with
  | nil => rfl
  | cons a l ih =>
    rw [List.findIdx?_cons, List.findIdx?_cons, h a List.mem_cons_self,
      ih fun x hx => h x (List.mem_cons_of_mem a hx)]

namespace TableDocument

variable {d : TableDocument}

theorem symbol?_loaded (hv : d.Valid) (x : Nat) :
    d.loaded.symbol? x =
      d.symbols[x]?.bind fun r => (SymbolKind.ofCode? r.kind).map (GrammarSymbol.mk r.name) := by
  simp only [Table.symbol?, loaded, List.getElem?_toArray, List.getElem?_map]
  cases hx : d.symbols[x]? with
  | none => rfl
  | some r =>
    -- the record's kind code is known, and decodes to the kind of its symbol
    obtain ⟨k, hk⟩ := Option.isSome_iff_exists.1
      (SymbolKind.ofCode?_isSome_iff.2 (hv.symbol_kind r (List.mem_of_getElem? hx)))
    simp [SymbolRow.symbol, hk]

theorem action_loaded (hv : d.Valid) (s x : Nat) :
    d.loaded.action s x =
      match d.entry? s x with
      | some e => .ok e.action
      | none => .error (.noAction s x) := by
  simp only [Table.action, loaded, entry?, List.getElem?_toArray, List.getElem?_map]
  cases hs : d.states[s]? with
  | none => rfl
  | some r =>
    have hnd := hv.actions_nodup r (List.mem_of_getElem? hs)
    simp only [Option.map_some, Option.getD_some, lookup_storedActions hnd, Option.bind_some]
    cases r.actions.find? (·.symbol == x) <;> rfl

theorem symbolByName?_loaded (hv : d.Valid) (name : String) (x : Nat) :
    d.loaded.symbolByName? name = some x ↔ d.symbols[x]?.map SymbolRow.name = some name := by
  simp only [Table.symbolByName?, loaded, List.findIdx?_toArray, List.findIdx?_map,
    List.findIdx?_eq_some_iff_getElem, Function.comp_def, SymbolRow.name_symbol, beq_iff_eq,
    Option.map_eq_some_iff, List.getElem?_eq_some_iff]
  constructor
  · rintro ⟨hx, hname, -⟩
    exact ⟨_, ⟨hx, rfl⟩, hname⟩
  · rintro ⟨r, ⟨hx, rfl⟩, hname⟩
    refine ⟨hx, hname, fun j hj hj' => ?_⟩
    -- no record before the one at `x` has its name, names being distinct
    have hdistinct := nodup_map_iff_take.1 hv.names_nodup x d.symbols[x]
      (List.getElem?_eq_getElem hx) d.symbols[j] (List.mem_take_iff_getElem.2 ⟨j, by omega, rfl⟩)
    exact hdistinct (hj'.trans hname.symm)

theorem endOfInput?_loaded (hv : d.Valid) :
    d.loaded.endOfInput? = d.symbols.findIdx? (·.kind == 3) := by
  simp only [Table.endOfInput?, loaded, List.findIdx?_toArray, List.findIdx?_map]
  refine findIdx?_congr fun r hr => ?_
  have hkind := SymbolRow.symbol_kind_eq_iff (k := .endOfInput) (hv.symbol_kind r hr)
  rw [Function.comp_apply, Bool.eq_iff_iff, beq_iff_eq, beq_iff_eq, hkind]
  rfl

/-- A valid document's table answers for it. -/
theorem describes_loaded (hv : d.Valid) : d.loaded.Describes d where
  symbol?_eq := symbol?_loaded hv
  production_eq p := by simp [loaded]
  size_states := by simp [loaded]
  action_eq := action_loaded hv
  symbolByName?_eq_some_iff := symbolByName?_loaded hv
  endOfInput?_eq := endOfInput?_loaded hv

end TableDocument

open TableDocument in
/-- Loading a table document fails exactly with the reason of the first check the document fails,
in the order loading makes them, and succeeds exactly on valid documents. The table it then gives
answers for the document: its symbols, productions and states are the records', the action of a
state on a symbol is the one its record for the symbol decodes to and there is none for any other
pair, and the lookups by name and of the end of input find the records'. -/
theorem Table.ofDocument_spec (d : TableDocument) :
    (∀ e, Table.ofDocument d = .error e ↔
      ∃ reason, d.firstViolation = some reason ∧ e = .malformed reason) ∧
    ((∃ t, Table.ofDocument d = .ok t) ↔ d.Valid) ∧
    ∀ t, Table.ofDocument d = .ok t → t.Describes d := by
  rw [Table.ofDocument_eq]
  refine ⟨fun e => ?_, ⟨fun ⟨t, ht⟩ => ?_, fun hv => ?_⟩, fun t ht => ?_⟩
  · rw [outcome_eq_error_iff, firstViolation]
    constructor
    · rintro ⟨c, hc, rfl⟩
      exact ⟨c.reason, by rw [hc]; rfl, rfl⟩
    · rintro ⟨reason, hr, rfl⟩
      obtain ⟨c, hc, rfl⟩ := Option.map_eq_some_iff.1 hr
      exact ⟨c, hc, rfl⟩
  · exact checks_hold_iff_valid.1 (outcome_eq_ok_iff.1 ht).1
  · exact ⟨d.loaded, outcome_eq_ok_iff.2 ⟨checks_hold_iff_valid.2 hv, rfl⟩⟩
  · obtain ⟨hall, rfl⟩ := outcome_eq_ok_iff.1 ht
    exact describes_loaded (checks_hold_iff_valid.1 hall)

/-- A name given twice is reported at its second record, before the later record's unknown kind
code. -/
example : ({ symbols := [⟨0, "x", 1⟩, ⟨1, "x", 0⟩, ⟨2, "y", 5⟩], productions := [], states := [] } :
    TableDocument).firstViolation = some "symbol `x` is defined twice" := by
  decide

end LexLR.LR
