import LexLR.Spec.Basic
/-!
# Assembling rule specifications

A builder hands out state ids densely, in call order, and never reuses one: the next id is the
number of states so far, with no bound here, where the tool keeps it in 32 bits (fewer than
`2 ^ 32` states are assumed, as in `Spec.Basic`). Named states are minted on first use; a reserved
word becomes a chain of fresh states hung off the start state, one per character, whose last
state is terminal and carries the word. Building checks that every transition targets a state
that exists and collects the alphabet.
-/

namespace LexLR

/-- A rule specification under construction. -/
structure Builder where
  rules : Array Rule := #[]
  names : Array (Option String) := #[]
  /-- Named states, in the order they were minted. -/
  byName : List (String × Nat) := []
  /-- Terminal ids, ascending; any id may be marked, allocated or not. -/
  terminals : List Nat := []
  keywords : List (Nat × String) := []
  deriving Repr

namespace Builder

/-- The number of states handed out. -/
def size (b : Builder) : Nat :=
  b.rules.size

/-- Hands out the next id, for a state with the given name or none. -/
def push (b : Builder) (name : Option String) : Builder × Nat :=
  ({ b with rules := b.rules.push {}, names := b.names.push name }, b.size)

/-- The id of a named state, if it was minted. -/
def lookup (b : Builder) (name : String) : Option Nat :=
  b.byName.lookup name

/-- The id of a named state, minting it on first use. -/
def state (b : Builder) (name : String) : Builder × Nat :=
  match b.lookup name with
  | some q => (b, q)
  | none =>
    let (b, q) := b.push (some name)
    ({ b with byName := b.byName ++ [(name, q)] }, q)

/-- A fresh unnamed state. -/
def newState (b : Builder) : Builder × Nat :=
  b.push none

/-- The start state, minted if no state exists yet. -/
def start (b : Builder) : Builder × Nat :=
  if b.rules.isEmpty then b.newState else (b, 0)

/-- Marks any id terminal, whether or not it was handed out. -/
def markTerminal (b : Builder) (q : Nat) : Builder :=
  { b with terminals := IdSet.insert q b.terminals }

/-- Adds a production to an existing state; a literal or epsilon makes its owner terminal.
Targets are checked only when building. -/
def addProduction (b : Builder) (q : Nat) (p : Production) : Except SpecError Builder :=
  if h : q < b.rules.size then
    let b := { b with rules := b.rules.set q (b.rules[q].insert p) }
    .ok (if p.accepts then b.markTerminal q else b)
  else .error (.danglingState q)

/-- Hangs a chain for the remaining characters off state `q`, returning the chain's end. -/
def chain (b : Builder) (q : Nat) : List Char → Builder × Nat
  | [] => (b, q)
  | c :: cs =>
    let (b, next) := b.newState
    let b := { b with rules := b.rules.modify q fun r => r.insert (.transition c next) }
    chain b next cs

/-- Expands a reserved word into a chain of fresh states from the start state; the chain's end
is terminal, carries the word, and is returned. -/
def addKeyword (b : Builder) (word : String) : Except SpecError (Builder × Nat) :=
  if word.isEmpty then .error .emptyKeyword
  else
    let (b, q) := b.start
    let (b, last) := b.chain q word.toList
    .ok ({ b.markTerminal last with keywords := putKeyword last word b.keywords }, last)

/-- The first transition target, in state and production order, that is no state. -/
def danglingTarget? (b : Builder) : Option Nat :=
  b.rules.toList.findSome? fun r =>
    r.productions.findSome? fun p =>
      match p.target? with
      | some t => if t < b.rules.size then none else some t
      | none => none

/-- Inserts a symbol into an ascending list of symbols, without repeats. -/
def insertSymbol (c : Char) : List Char → List Char
  | [] => [c]
  | d :: ds => if c < d then c :: d :: ds else if c = d then d :: ds else d :: insertSymbol c ds

/-- Every symbol some production reads, ascending. -/
def alphabetOf (rules : Array Rule) : List Char :=
  rules.foldl (fun acc r => (r.productions.filterMap Production.symbol?).foldl
    (fun acc c => insertSymbol c acc) acc) []

/-- The finished specification: the start state is minted if none exists, and a transition to
a state that was never handed out is refused. -/
def build (b : Builder) : Except SpecError RuleSpec :=
  let b := b.start.1
  match b.danglingTarget? with
  | some t => .error (.danglingState t)
  | none =>
    .ok { rules := b.rules, names := b.names, terminals := b.terminals, keywords := b.keywords,
          alphabet := alphabetOf b.rules }

/-- One call on a builder. -/
inductive Step where
  | state (name : String)
  | lookup (name : String)
  | newState
  | start
  | markTerminal (q : Nat)
  | addProduction (q : Nat) (p : Production)
  | addKeyword (word : String)
  deriving DecidableEq, Repr

/-- What a call answers. -/
inductive Reply where
  /-- The id handed out or found. -/
  | id (q : Nat)
  /-- The result of a lookup. -/
  | found (q : Option Nat)
  /-- The call succeeded and has nothing to say. -/
  | done
  /-- The call was refused; the builder is left as it was. -/
  | failed (e : SpecError)
  deriving DecidableEq, Repr

/-- Performs one call. -/
def perform (b : Builder) : Step → Builder × Reply
  | .state name => let (b, q) := b.state name; (b, .id q)
  | .lookup name => (b, .found (b.lookup name))
  | .newState => let (b, q) := b.newState; (b, .id q)
  | .start => let (b, q) := b.start; (b, .id q)
  | .markTerminal q => (b.markTerminal q, .done)
  | .addProduction q p =>
    match b.addProduction q p with
    | .ok b => (b, .done)
    | .error e => (b, .failed e)
  | .addKeyword w =>
    match b.addKeyword w with
    | .ok (b, q) => (b, .id q)
    | .error e => (b, .failed e)

/-- Performs calls in order, collecting the replies. -/
def performAll (b : Builder) : List Step → Builder × List Reply
  | [] => (b, [])
  | s :: ss =>
    let (b, r) := b.perform s
    let (b, rs) := b.performAll ss
    (b, r :: rs)

end Builder

end LexLR
