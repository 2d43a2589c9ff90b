import LexLR.Subset
/-!
# Trimmed specifications

A state is unreachable when no chain of transitions leads to it from the start state, dead when
it is reachable but no chain of transitions leads from it to a terminal state, and live
otherwise. Determinizing is subset construction followed by this classification; trimming alone
classifies without merging.
-/

namespace LexLR

namespace RuleSpec

/-- The targets of a state's transitions. -/
def successors (s : RuleSpec) (q : Nat) : List Nat :=
  (s.rule q).productions.filterMap Production.target?

/-- One round forward: every marked state marks its successors. -/
def stepForward (s : RuleSpec) (marks : Array Bool) : Array Bool :=
  (List.range s.size).foldl (fun acc q =>
    if marks.getD q false then (s.successors q).foldl (fun a t => a.setIfInBounds t true) acc
    else acc) marks

/-- One round backward: a state is marked when it or one of its successors is. -/
def stepBackward (s : RuleSpec) (marks : Array Bool) : Array Bool :=
  (Array.range s.size).map fun q =>
    marks.getD q false || (s.successors q).any fun t => marks.getD t false

/-- Rounds until nothing changes, at most `fuel` of them. -/
def closeMarks (step : Array Bool → Array Bool) : Nat → Array Bool → Array Bool
  | 0, marks => marks
  | fuel + 1, marks =>
    let next := step marks
    if next == marks then marks else closeMarks step fuel next

/-- Marks of the states reachable from the start state. -/
def reachable (s : RuleSpec) : Array Bool :=
  closeMarks s.stepForward s.size ((Array.replicate s.size false).setIfInBounds 0 true)

/-- Marks of the states from which a terminal state can be reached. -/
def productive (s : RuleSpec) : Array Bool :=
  closeMarks s.stepBackward s.size ((Array.range s.size).map s.isTerminal)

end RuleSpec

/-- A specification with its states classified, and what subset construction did to it. -/
structure Trimmed where
  spec : RuleSpec
  /-- States no transition chain from the start reaches, ascending. -/
  unreachable : List Nat
  /-- Reachable states that reach no terminal state, ascending. -/
  dead : List Nat
  passes : Nat
  merged : Nat

namespace Trimmed

/-- Classifies the states of a specification. -/
def classify (s : RuleSpec) (passes merged : Nat) : Trimmed :=
  let reach := s.reachable
  let prod := s.productive
  { spec := s
    unreachable := (List.range s.size).filter fun q => !reach.getD q false
    dead := (List.range s.size).filter fun q => reach.getD q false && !prod.getD q false
    passes := passes
    merged := merged }

/-- Neither unreachable nor dead. -/
def isLive (t : Trimmed) (q : Nat) : Bool :=
  !t.unreachable.contains q && !t.dead.contains q

/-- The live states, ascending. -/
def live (t : Trimmed) : List Nat :=
  (List.range t.spec.size).filter t.isLive

end Trimmed

/-- Subset construction, then classification. -/
def RuleSpec.determinize (s : RuleSpec) : Trimmed :=
  let (d, passes) := s.removeForks
  Trimmed.classify d passes (d.size - s.size)

/-- Classification only; the specification is left as it is. -/
def RuleSpec.trim (s : RuleSpec) : Trimmed :=
  Trimmed.classify s 0 0

end LexLR
