import LexLR.Spec.Basic
/-!
# Forks and subset construction

A fork is a state and a symbol with more than one way forward. Subset construction removes every
fork by sending it to one state that stands for all its targets together, appending that state
when it is new. An appended state takes the next id, the size of the specification: as
everywhere, fewer than `2 ^ 32` states are assumed (see `Spec.Basic`).
-/

/-! ## Forks

A fork is a state and a symbol on which the state has more than one way forward: several
transition targets, or a transition beside a literal that would accept. Subset construction
removes forks; a compiled automaton needs a specification without any.
-/

namespace LexLR

/-- The ways forward of one state on one symbol. -/
structure Fork where
  parent : Nat
  symbol : Char
  /-- Transition targets, ascending. -/
  targets : List Nat
  /-- A literal for the symbol stands beside the transitions. -/
  accepting : Bool
  deriving DecidableEq, Repr

namespace Fork

/-- More than one way forward. -/
def isBranching (f : Fork) : Bool :=
  f.targets.length + (if f.accepting then 1 else 0) > 1

end Fork

namespace RuleSpec

/-- The ways forward of a state on a symbol. Targets come out ascending because a rule lists
transitions on one symbol by target. -/
def forkAt (s : RuleSpec) (q : Nat) (c : Char) : Fork :=
  let ps := (s.rule q).withSymbol c
  { parent := q, symbol := c
    targets := ps.filterMap Production.target?
    accepting := ps.any fun p => p matches .literal _ }

/-- Every fork, by state id and then in alphabet order. -/
def forks (s : RuleSpec) : List Fork :=
  (List.range s.size).flatMap fun q => (s.alphabet.map (s.forkAt q)).filter Fork.isBranching

end RuleSpec

/-! ## Subset construction

Forks are removed in passes. A pass takes every fork of the current specification and resolves
each: the parent's productions on the fork's symbol are replaced by one transition to a state
that stands for the union of what the targets stand for, plus a flag for a literal folded in.
Each state stands for a cover: a set of original states and that flag; an original state stands
for itself without the flag. A cover seen before reuses its state; a new cover gets a new state
whose rule unites the targets' current rules, which is terminal when the flag is set or a target
is terminal, and which keeps the reserved word of the lowest keyword state it covers. Passes
repeat until no fork is left.
-/

/-- The original states a state stands for, and whether a literal was folded into it. -/
structure Cover where
  states : List Nat
  literal : Bool
  deriving DecidableEq, Repr

/-- Subset construction in progress: the specification so far and the cover of each state. -/
structure Merger where
  spec : RuleSpec
  /-- The cover of each state, by id. -/
  covers : Array Cover
  /-- The reserved words of the original states, ascending by id. -/
  words : List (Nat × String)

namespace Merger

/-- Every original state covers itself alone. -/
def init (s : RuleSpec) : Merger :=
  { spec := s
    covers := (Array.range s.size).map fun q => ⟨[q], false⟩
    words := s.keywords }

/-- The cover of a state. -/
def cover (m : Merger) (q : Nat) : Cover :=
  m.covers.getD q ⟨[], false⟩

/-- What a fork's targets stand for together. -/
def coverOf (m : Merger) (f : Fork) : Cover :=
  { states := f.targets.foldl (fun acc t => IdSet.union acc (m.cover t).states) []
    literal := f.accepting || f.targets.any fun t => (m.cover t).literal }

/-- The reserved word of the lowest original keyword state in a cover. -/
def wordOf (m : Merger) (c : Cover) : Option String :=
  (m.words.find? fun (q, _) => c.states.contains q).map Prod.snd

/-- A new state for a cover seen for the first time. -/
def merge (m : Merger) (f : Fork) (c : Cover) : Merger × Nat :=
  let rule := f.targets.foldl (fun r t => r.union (m.spec.rule t)) {}
  let terminal := c.literal || f.targets.any m.spec.isTerminal
  let (spec, q) := m.spec.pushState rule terminal (m.wordOf c)
  ({ m with spec := spec, covers := m.covers.push c }, q)

/-- Resolves one fork: the parent gets a single transition on the symbol, to the state of the
targets' cover. -/
def resolve (m : Merger) (f : Fork) : Merger :=
  let c := m.coverOf f
  let (m, q) := match m.covers.findIdx? (· == c) with
    | some q => (m, q)
    | none => m.merge f c
  let parent := ((m.spec.rule f.parent).removeSymbol f.symbol).insert (.transition f.symbol q)
  { m with spec := m.spec.setRule f.parent parent }

/-- Passes until no fork is left, at most `fuel` of them; counts the passes made. -/
def run : Nat → Merger → Nat → Merger × Nat
  | 0, m, passes => (m, passes)
  | fuel + 1, m, passes =>
    let fs := m.spec.forks
    if fs.isEmpty then (m, passes) else run fuel (fs.foldl resolve m) (passes + 1)

end Merger

/-- Enough passes for any specification of `n` states: there are fewer than `2 * 2 ^ n` covers,
and every pass but the last makes a new state. -/
def passBound (n : Nat) : Nat :=
  2 * Nat.pow 2 n + 1

/-- Subset construction to a fixed point: the specification without forks and the number of
passes it took. -/
def RuleSpec.removeForks (s : RuleSpec) : RuleSpec × Nat :=
  let (m, passes) := Merger.run (passBound s.size) (Merger.init s) 0
  (m.spec, passes)

end LexLR
