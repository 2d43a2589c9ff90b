import LexLR.LR.Table
import LexLR.Json.Read
import LexLR.Json.Encoding
/-!
# Loading parse tables

A parse table is loaded from a table document, itself read from JSON text. Loading checks every
record in a fixed order and reports the first failure.
-/

/-! ## The checks of a table document

A table document lists symbol, production and state records, each numbered densely from 0.
Loading checks, in this order and reporting the first failure: each symbol's number, kind code
and the uniqueness of its name; each production's number and that it reduces to an existing
nonterminal; each state's number and each of its actions: the symbol exists, the action decodes
(a shift or goto targets an existing state, a reduce an existing production, the code is 1 to 4),
it is a goto exactly when its symbol is a nonterminal, and no symbol has two actions; finally that
there is at least one state.
-/

namespace LexLR.LR

/-- A symbol record: number, name and kind code. -/
structure SymbolRow where
  index : Nat
  name : String
  kind : Nat
  deriving Repr

/-- A production record: number, the nonterminal it reduces to, and its length. -/
structure ProductionRow where
  index : Nat
  head : Nat
  length : Nat
  deriving Repr

/-- An action record: the symbol, the action code (1 shift, 2 reduce, 3 goto, 4 accept) and the
value it acts with. -/
structure ActionRow where
  symbol : Nat
  code : Nat
  value : Nat
  deriving Repr

/-- A state record: its number and actions. -/
structure StateRow where
  index : Nat
  actions : List ActionRow
  deriving Repr

/-- A whole table document. -/
structure TableDocument where
  symbols : List SymbolRow
  productions : List ProductionRow
  states : List StateRow
  deriving Repr

namespace TableDocument

/-- A record must carry its position as its number. -/
def checkDense (what : String) (position index : Nat) : Except TableError Unit :=
  if index = position then .ok ()
  else .error (.malformed
    s!"{what} records must be numbered densely from 0, found {index} at position {position}")

/-- The symbols, checked record by record. -/
def loadSymbols (rows : List SymbolRow) : Except TableError (Array GrammarSymbol) :=
  rows.zipIdx.foldlM (fun acc (r, i) => do
    checkDense "symbol" i r.index
    let name := r.name
    let code := r.kind
    let kind ← match SymbolKind.ofCode? code with
      | some k => pure k
      | none => throw (.malformed s!"symbol `{name}` has unknown type {code}")
    if acc.any (·.name == name) then throw (.malformed s!"symbol `{name}` is defined twice")
    pure (acc.push ⟨name, kind⟩)) #[]

/-- An existing symbol. -/
def existing (symbols : Array GrammarSymbol) (x : Nat) : Except TableError GrammarSymbol :=
  match symbols[x]? with
  | some s => .ok s
  | none => .error (.malformed s!"symbol {x} does not exist")

/-- The productions, checked record by record. -/
def loadProductions (symbols : Array GrammarSymbol) (rows : List ProductionRow) :
    Except TableError (Array Production) :=
  rows.zipIdx.foldlM (fun acc (r, i) => do
    checkDense "production" i r.index
    let head ← existing symbols r.head
    if head.kind != .nonterminal then
      let name := head.name
      throw (.malformed s!"production {i} reduces to `{name}`, which is not a nonterminal")
    pure (acc.push ⟨r.head, r.length⟩)) #[]

/-- The action a record stands for, given the numbers of states and productions. -/
def decodeAction (r : ActionRow) (states productions : Nat) : Except TableError Action :=
  let value := r.value
  let target : Except TableError Nat :=
    if value < states then .ok value
    else .error (.malformed s!"action targets state {value}, which does not exist")
  match r.code with
  | 1 => .shift <$> target
  | 2 =>
    if value < productions then .ok (.reduce value)
    else .error (.malformed s!"reduce by production {value}, which does not exist")
  | 3 => .goto <$> target
  | 4 => .ok .accept
  | code => .error (.malformed s!"unknown action code {code}")

/-- Inserts an action into a state's actions, ascending by symbol. -/
def insertAction (x : Nat) (a : Action) : List (Nat × Action) → List (Nat × Action)
  | [] => [(x, a)]
  | (y, b) :: rest => if x < y then (x, a) :: (y, b) :: rest else (y, b) :: insertAction x a rest

/-- The actions of the state at position `i`, checked action by action. -/
def loadActions (symbols : Array GrammarSymbol) (states productions i : Nat) (rows : List ActionRow) :
    Except TableError (List (Nat × Action)) :=
  rows.foldlM (fun acc r => do
    let on ← existing symbols r.symbol
    let action ← decodeAction r states productions
    let name := on.name
    let shown := action.render
    if (on.kind == .nonterminal) != action.isGoto then
      throw (.malformed s!"state {i}: `{shown}` on `{name}` mixes up terminals and nonterminals")
    if (acc.lookup r.symbol).isSome then
      throw (.malformed s!"state {i} has more than one action on `{name}`")
    pure (insertAction r.symbol action acc)) []

end TableDocument

/-- The table a document describes, if it passes every check. -/
def Table.ofDocument (d : TableDocument) : Except TableError Table := do
  let symbols ← TableDocument.loadSymbols d.symbols
  let productions ← TableDocument.loadProductions symbols d.productions
  let n := d.states.length
  let states ← d.states.zipIdx.foldlM (fun acc (r, i) => do
    TableDocument.checkDense "state" i r.index
    let actions ← TableDocument.loadActions symbols n productions.size i r.actions
    pure (acc.push actions)) #[]
  if states.isEmpty then throw (.malformed "table has no states")
  return { symbols, productions, states }

/-! ## Table documents in JSON

A table document is a JSON record with the fields `Symbols` (records `Index`, `Name`, `Type`),
`Productions` (records `Index`, `NonTerminalIndex`, `SymbolCount`) and `States` (records
`Index` and `Actions`, whose records are `SymbolIndex`, `Action`, `Value`). Kind and action codes
are 8-bit, every other number 32-bit.
-/

open LexLR.Json

/-- A symbol record. -/
def symbolRow? (d : Doc) : Option SymbolRow := do
  match ← d.fields? ["Index", "Name", "Type"] with
  | [i, n, k] => return ⟨← i.u32?, ← n.text?, ← k.u8?⟩
  | _ => none

/-- A production record. -/
def productionRow? (d : Doc) : Option ProductionRow := do
  match ← d.fields? ["Index", "NonTerminalIndex", "SymbolCount"] with
  | [i, h, n] => return ⟨← i.u32?, ← h.u32?, ← n.u32?⟩
  | _ => none

/-- An action record. -/
def actionRow? (d : Doc) : Option ActionRow := do
  match ← d.fields? ["SymbolIndex", "Action", "Value"] with
  | [x, c, v] => return ⟨← x.u32?, ← c.u8?, ← v.u32?⟩
  | _ => none

/-- A state record. -/
def stateRow? (d : Doc) : Option StateRow := do
  match ← d.fields? ["Index", "Actions"] with
  | [i, acts] => return ⟨← i.u32?, ← (← acts.items?).mapM actionRow?⟩
  | _ => none

/-- A whole table document. -/
def tableDocument? (d : Doc) : Option TableDocument := do
  match ← d.fields? ["Symbols", "Productions", "States"] with
  | [s, p, st] =>
    return ⟨← (← s.items?).mapM symbolRow?, ← (← p.items?).mapM productionRow?,
      ← (← st.items?).mapM stateRow?⟩
  | _ => none

/-- Loads a parse table from its JSON text. -/
def Table.ofJson (text : String) : Except TableError Table :=
  match (Doc.read (Utf8.encode text)).bind tableDocument? with
  | none => .error .serialization
  | some d => Table.ofDocument d

end LexLR.LR
