import LexLR.LR.Table
import LexLR.Scan.Lexer
/-!
# Shift-reduce analysis

The analyser runs a token sequence, followed by the end marker, through a parse table. Its
configuration is a stack of states and symbols with a state on top, a cursor into the tokens, and
the nonterminal of the last reduction, which is looked up before the next token. A shift pushes
the token's symbol and the target state and moves the cursor; a reduce pops twice the production's
length and leaves its head pending; a goto pushes the pending head and the target state; accept
ends the run once every token is read. A missing action, or a token without a terminal, is a
syntax error at the cursor.

Nothing bounds the number of reductions between two shifts, so a run is given a number of steps,
far more than a run can take in practice.
-/

namespace LexLR.LR

/-- How lexer tokens find their symbols. -/
structure Options where
  /-- The symbol every identifier stands for. -/
  identifier : String := "ID"
  /-- The end marker's name, used only when no symbol marks the end of input. -/
  endSymbol : String := "EOF"
  deriving Repr

/-- A parse table ready to analyse: the symbols of identifiers and of the end marker. -/
structure Analyser where
  table : Table
  identifier : Option Nat
  endMarker : Nat

/-- An entry of the analysis stack. -/
inductive StackEntry where
  | state (s : Nat)
  | symbol (x : Nat)
  deriving DecidableEq, Repr

/-- Why an analysis failed. -/
inductive AnalyseError where
  /-- No action fits: the line of the token under the cursor and the words up to it. -/
  | unexpected (line : Nat) (consumed : String)
  /-- A condition that well-formed tables always meet does not hold. -/
  | invariant (reason : String)
  /-- The run did not end within the steps it was given. -/
  | stalled (steps : Nat)
  deriving DecidableEq, Repr

/-- The text each error is reported with. -/
def AnalyseError.message : AnalyseError → String
  | .unexpected line consumed => s!"syntax error on line {line} after `{consumed}`"
  | .invariant reason => s!"internal invariant violated: {reason}"
  | .stalled steps => s!"analysis did not end within {steps} steps"

/-- A successful analysis: the symbol table handed in and every action taken. -/
structure Derivation where
  symbols : SymbolTable
  steps : List Action
  deriving Repr

/-- The productions in the order they were reduced. -/
def Derivation.reductions (d : Derivation) : List Nat :=
  d.steps.filterMap fun a => match a with
    | .reduce p => some p
    | _ => none

/-- The state of a run. -/
structure Config where
  /-- The stack, top first. -/
  stack : List StackEntry
  cursor : Nat
  pending : Option Nat
  /-- The actions so far, last first. -/
  steps : List Action
  deriving Repr

/-- What one step leads to. -/
inductive Step where
  | next (c : Config)
  | accepted (d : Derivation)
  | failed (e : AnalyseError)

namespace Analyser

/-- Finds the end marker and the identifier symbol. The end marker is the first end-of-input
symbol, else the symbol named by the options; the identifier symbol must be a terminal other than
the end marker. -/
def new (t : Table) (o : Options) : Except TableError Analyser :=
  match t.endOfInput?.orElse fun _ => t.symbolByName? o.endSymbol with
  | none =>
    let e := o.endSymbol
    .error (.malformed s!"no end of input symbol, and no symbol named `{e}`")
  | some endMarker =>
    let identifier := (t.symbolByName? o.identifier).filter fun x => x != endMarker && t.isTerminal x
    .ok { table := t, identifier, endMarker }

/-- The symbol of a token: a keyword's symbol of the same name if that is a terminal other than
the end marker, the identifier symbol for identifiers, nothing for errors. -/
def symbolFor (a : Analyser) : TokenKind → Option Nat
  | .keyword w => (a.table.symbolByName? w).filter fun x => x != a.endMarker && a.table.isTerminal x
  | .identifier => a.identifier
  | .error => none

/-- The syntax error at the cursor: the line of the token under it (of the last token past the
end, 1 without tokens) and the words up to and including it. -/
def syntaxError (symbols : SymbolTable) (cursor : Nat) : AnalyseError :=
  let line := match symbols.records[cursor]? with
    | some r => r.line
    | none => (symbols.records.getLast?.map SymbolRecord.line).getD 1
  let consumed := " ".intercalate ((symbols.records.take (cursor + 1)).map SymbolRecord.literal)
  .unexpected line consumed

/-- The start of every run. -/
def start : Config :=
  { stack := [.state Table.initial], cursor := 0, pending := none, steps := [] }

/-- The symbol a configuration looks up: the pending nonterminal, else the symbol of the token
under the cursor, else the end marker once every token is read. -/
def lookahead? (a : Analyser) (tokens : List TokenKind) (c : Config) : Option Nat :=
  match c.pending with
  | some x => some x
  | none => match tokens[c.cursor]? with
    | some t => a.symbolFor t
    | none => some a.endMarker

/-- One step of a run. -/
def step (a : Analyser) (tokens : List TokenKind) (symbols : SymbolTable) (c : Config) : Step :=
  match c.stack with
  | .state top :: _ =>
    match a.lookahead? tokens c with
    | none => .failed (syntaxError symbols c.cursor)
    | some x =>
      match a.table.action top x with
      | .error _ => .failed (syntaxError symbols c.cursor)
      | .ok act =>
        let steps := act :: c.steps
        match act with
        | .shift s =>
          if x = a.endMarker then .failed (.invariant "end of input cannot be shifted")
          else .next { c with stack := .state s :: .symbol x :: c.stack, cursor := c.cursor + 1,
                              steps }
        | .reduce p =>
          match a.table.productions[p]? with
          | none => .failed (.invariant s!"production {p} does not exist")
          | some prod =>
            let popped := 2 * prod.length
            let size := c.stack.length
            if size ≤ popped then
              .failed (.invariant s!"reduce pops {popped} entries from a stack of {size}")
            else .next { c with stack := c.stack.drop popped, pending := some prod.head, steps }
        | .goto s =>
          match c.pending with
          | none => .failed (.invariant "goto without a reduced nonterminal")
          | some h => .next { c with stack := .state s :: .symbol h :: c.stack, pending := none, steps }
        | .accept =>
          if c.cursor ≠ tokens.length || c.pending.isSome then
            let unread := tokens.length - min c.cursor tokens.length
            .failed (.invariant s!"accept on symbol {x} with {unread} tokens unread")
          else .accepted { symbols, steps := steps.reverse }
  | _ => .failed (.invariant "stack does not end in a state")

/-- Steps until the run ends, at most `fuel` of them. -/
def runFrom (a : Analyser) (tokens : List TokenKind) (symbols : SymbolTable) :
    Nat → Config → Except AnalyseError Derivation
  | 0, _ => .error (.stalled 0)
  | fuel + 1, c =>
    match a.step tokens symbols c with
    | .next c => a.runFrom tokens symbols fuel c
    | .accepted d => .ok d
    | .failed e => .error e

/-- Analyses tokens read into `symbols` within `fuel` steps. The two must be equally long. -/
def analyseWithin (a : Analyser) (fuel : Nat) (tokens : List TokenKind) (symbols : SymbolTable) :
    Except AnalyseError Derivation :=
  if tokens.length ≠ symbols.size then
    let n := tokens.length
    let m := symbols.size
    .error (.invariant s!"{n} tokens but {m} symbol records")
  else match a.runFrom tokens symbols fuel start with
    | .error (.stalled _) => .error (.stalled fuel)
    | r => r

/-- The steps a run is given: 2^128, more than any run can take in practice. A loaded table may
reduce without end before reading a token, so no budget in the size of the input bounds every
run. The budget is the same for every input, so that how a run goes up to some token never
depends on the tokens after it. -/
def stepBudget : Nat :=
  340282366920938463463374607431768211456

/-- Analyses tokens read into `symbols`. -/
def analyse (a : Analyser) (tokens : List TokenKind) (symbols : SymbolTable) :
    Except AnalyseError Derivation :=
  a.analyseWithin stepBudget tokens symbols

end Analyser

end LexLR.LR
