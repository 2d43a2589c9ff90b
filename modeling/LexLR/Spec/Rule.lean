/-!
# Productions and rules

The ways out of a state, and the rule that keeps a state's set of them in one form.
-/

/-! ## Productions

A state of a lexical rule has a set of productions, each one way out of the state: a literal
completes a token on its symbol and stays where it is, epsilon accepts without reading, and a
transition reads its symbol and moves to its target. Productions are ordered literals first (by
symbol), then epsilon, then transitions (by symbol, then target); a rule lists them in this order.
-/

namespace LexLR

/-- One way out of a state. Targets are state ids. -/
inductive Production where
  /-- Reading the symbol completes a token without leaving the state. -/
  | literal (symbol : Char)
  /-- The state accepts without reading anything. -/
  | epsilon
  /-- Reading the symbol moves to the target state. -/
  | transition (symbol : Char) (target : Nat)
  deriving DecidableEq, Repr

namespace Production

/-- The symbol read, if any. -/
def symbol? : Production → Option Char
  | literal c => some c
  | epsilon => none
  | transition c _ => some c

/-- The state moved to, if any. -/
def target? : Production → Option Nat
  | transition _ t => some t
  | _ => none

/-- Whether the production completes a token where it stands (a literal or epsilon). -/
def accepts : Production → Bool
  | transition _ _ => false
  | _ => true

/-- Literals before epsilon before transitions; within a kind by symbol, then target. -/
def compare : Production → Production → Ordering
  | literal a, literal b => Ord.compare a b
  | literal _, _ => .lt
  | epsilon, literal _ => .gt
  | epsilon, epsilon => .eq
  | epsilon, transition _ _ => .lt
  | transition _ _, literal _ => .gt
  | transition _ _, epsilon => .gt
  | transition a s, transition b t => (Ord.compare a b).then (Ord.compare s t)

instance : Ord Production := ⟨compare⟩

/-- The written form: the symbol, `epsi`, or the symbol followed by the target in angle
brackets. -/
def render : Production → String
  | literal c => String.singleton c
  | epsilon => "epsi"
  | transition c t => String.singleton c ++ "<" ++ toString t ++ ">"

example : compare (literal 'z') epsilon = .lt ∧ compare (transition 'a' 5) (transition 'a' 3) = .gt := by
  decide

end Production

/-! ## Rules

The rule of a state is its set of productions, kept in production order without repeats, so that
equal sets have one form and adding a production twice changes nothing.
-/

/-- The productions of one state, ascending in production order, without repeats. -/
structure Rule where
  productions : List Production := []
  deriving DecidableEq, Repr, Inhabited

namespace Rule

/-- Inserts into an ascending list; a production already present is not added again. -/
def insertInto (p : Production) : List Production → List Production
  | [] => [p]
  | q :: qs =>
    match Production.compare p q with
    | .lt => p :: q :: qs
    | .eq => q :: qs
    | .gt => q :: insertInto p qs

/-- Adds a production. -/
def insert (r : Rule) (p : Production) : Rule :=
  ⟨insertInto p r.productions⟩

/-- The productions that read a given symbol. -/
def withSymbol (r : Rule) (c : Char) : List Production :=
  r.productions.filter fun p => p.symbol? == some c

/-- Drops every production that reads a given symbol. -/
def removeSymbol (r : Rule) (c : Char) : Rule :=
  ⟨r.productions.filter fun p => p.symbol? != some c⟩

/-- Every production of both rules. -/
def union (r s : Rule) : Rule :=
  s.productions.foldl insert r

example : (Rule.insert (Rule.insert {} (.transition 'a' 2)) (.literal 'b')).productions =
    [.literal 'b', .transition 'a' 2] := by
  decide

end Rule

end LexLR
