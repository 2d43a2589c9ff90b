/-!
# Parse tables

An LR parse table: grammar symbols (each with a name and a kind), productions (each with the
nonterminal it reduces to and the number of symbols it pops), and per state the actions on
symbols. A missing action is how a syntax error shows. State 0 is the initial state.
-/

namespace LexLR.LR

/-- What a grammar symbol is. -/
inductive SymbolKind where
  | nonterminal
  | terminal
  | noise
  | endOfInput
  | error
  deriving DecidableEq, Repr

/-- The numeric codes of symbol kinds: 0, 1, 2, 3 and 7. -/
def SymbolKind.ofCode? : Nat → Option SymbolKind
  | 0 => some .nonterminal
  | 1 => some .terminal
  | 2 => some .noise
  | 3 => some .endOfInput
  | 7 => some .error
  | _ => none

/-- A grammar symbol. -/
structure GrammarSymbol where
  name : String
  kind : SymbolKind
  deriving DecidableEq, Repr

/-- A production: the nonterminal it reduces to and how many symbols it replaces. -/
structure Production where
  head : Nat
  length : Nat
  deriving DecidableEq, Repr

/-- What the automaton does on a symbol in a state. -/
inductive Action where
  | shift (state : Nat)
  | reduce (production : Nat)
  | goto (state : Nat)
  | accept
  deriving DecidableEq, Repr

/-- Whether an action is a shift. -/
def Action.isShift : Action → Bool
  | .shift _ => true
  | _ => false

/-- Whether an action is a goto. -/
def Action.isGoto : Action → Bool
  | .goto _ => true
  | _ => false

/-- The printed form: `shift N`, `reduce N`, `goto N` or `accept`. -/
def Action.render : Action → String
  | .shift s => "shift " ++ toString s
  | .reduce p => "reduce " ++ toString p
  | .goto s => "goto " ++ toString s
  | .accept => "accept"

/-- Why a parse table was refused, or a lookup found nothing. -/
inductive TableError where
  | noAction (state symbol : Nat)
  | malformed (reason : String)
  | serialization
  deriving DecidableEq, Repr

/-- The text each error is reported with. -/
def TableError.message : TableError → String
  | .noAction state symbol => s!"no action for symbol {symbol} in state {state}"
  | .malformed reason => s!"malformed parse table: {reason}"
  | .serialization => "failed to deserialize parse table"

/-- A loaded parse table. -/
structure Table where
  symbols : Array GrammarSymbol
  productions : Array Production
  /-- The actions of each state, ascending by symbol, at most one per symbol. -/
  states : Array (List (Nat × Action))
  deriving Repr

namespace Table

/-- The initial state. -/
def initial : Nat := 0

/-- The action of a state on a symbol, or the error that there is none. -/
def action (t : Table) (state symbol : Nat) : Except TableError Action :=
  match ((t.states[state]?).getD []).lookup symbol with
  | some a => .ok a
  | none => .error (.noAction state symbol)

/-- A symbol by index. -/
def symbol? (t : Table) (x : Nat) : Option GrammarSymbol :=
  t.symbols[x]?

/-- The symbol with the given name; names are unique. -/
def symbolByName? (t : Table) (name : String) : Option Nat :=
  t.symbols.findIdx? (·.name == name)

/-- The first symbol that marks the end of input. -/
def endOfInput? (t : Table) : Option Nat :=
  t.symbols.findIdx? (·.kind == .endOfInput)

/-- Whether a symbol is a terminal. -/
def isTerminal (t : Table) (x : Nat) : Bool :=
  match t.symbol? x with
  | some s => s.kind == .terminal
  | none => false

/-- Whether a symbol is a nonterminal. -/
def isNonterminal (t : Table) (x : Nat) : Bool :=
  match t.symbol? x with
  | some s => s.kind == .nonterminal
  | none => false

end Table

end LexLR.LR
