import LexLR.Spec.Rule
/-!
# Rule specifications

Rule specifications, the sets of state ids they keep, and the errors reported about them.

State ids are natural numbers here. The tool keeps an id in 32 bits and, when it appends a state,
takes the length of the arena modulo `2 ^ 32` as the new id; `StateId.ofIndex` is that reading, for
ids that come from outside. The two agree while a specification has fewer than `2 ^ 32` states,
which the builder, subset construction and compiling assume throughout: an arena of `2 ^ 32`
states would take hundreds of gigabytes.
-/

/-! ## Sets of state ids

A set of state ids is an ascending list without repeats. Terminal states, the original states a
merged state stands for, and the targets of one symbol are all such sets.
-/

namespace LexLR.IdSet

/-- Inserts an id into an ascending list; an id already present is not repeated. -/
def insert (x : Nat) : List Nat → List Nat
  | [] => [x]
  | y :: ys => if x < y then x :: y :: ys else if x = y then y :: ys else y :: insert x ys

/-- Every id of either set. -/
def union (s t : List Nat) : List Nat :=
  t.foldl (fun acc x => insert x acc) s

/-- Inserting adds the id and keeps all others. -/
theorem mem_insert {a x : Nat} {s : List Nat} : a ∈ insert x s ↔ a = x ∨ a ∈ s := by
  induction s with
  | nil => simp [insert]
  | cons y ys ih =>
    simp only [insert]
    split
    · simp
    · split
      · rename_i h; subst h; simp only [List.mem_cons]; grind
      · simp only [List.mem_cons, ih]; grind

/-- The union holds exactly the ids of both sets. -/
theorem mem_union {a : Nat} {s t : List Nat} : a ∈ union s t ↔ a ∈ s ∨ a ∈ t := by
  induction t generalizing s with
  | nil => simp [union]
  | cons x xs ih =>
    simp only [union, List.foldl_cons] at ih ⊢
    rw [ih, mem_insert, List.mem_cons]
    grind

end LexLR.IdSet

/-! ## The specification

A rule specification is an arena of rules indexed by state id, with state 0 as the start state.
Beside the rules it records an optional name per state, the set of terminal states (which may
hold ids that no state has yet), the reserved word of each keyword state, and the alphabet: every
symbol read by some production, ascending.
-/

namespace LexLR

/-- State ids are 32-bit: an index from outside is taken modulo 2^32. -/
def StateId.ofIndex (n : Nat) : Nat :=
  n % 4294967296

/-- One rule file, or one assembled set of rules. -/
structure RuleSpec where
  /-- The rule of each state, by id. -/
  rules : Array Rule
  /-- The name of each state, by id; states made for reserved words or by merging have none. -/
  names : Array (Option String)
  /-- The terminal states, ascending; may hold ids beyond the last state. -/
  terminals : List Nat
  /-- The reserved word of each keyword state, ascending by id. -/
  keywords : List (Nat × String)
  /-- Every symbol that some production reads, ascending. -/
  alphabet : List Char
  deriving Repr

/-- Puts the word of a state into an id-ordered association list, replacing an earlier one. -/
def putKeyword (q : Nat) (w : String) : List (Nat × String) → List (Nat × String)
  | [] => [(q, w)]
  | (p, v) :: rest =>
    if q < p then (q, w) :: (p, v) :: rest
    else if q = p then (q, w) :: rest
    else (p, v) :: putKeyword q w rest

namespace RuleSpec

/-- The start state. -/
def start : Nat := 0

/-- The number of states. -/
def size (s : RuleSpec) : Nat :=
  s.rules.size

/-- The rule of a state; a state that does not exist has no productions. -/
def rule (s : RuleSpec) (q : Nat) : Rule :=
  s.rules.getD q {}

/-- The name of a state, if it has one. -/
def name? (s : RuleSpec) (q : Nat) : Option String :=
  (s.names[q]?).getD none

/-- Whether a state accepts. -/
def isTerminal (s : RuleSpec) (q : Nat) : Bool :=
  s.terminals.contains q

/-- The reserved word of a keyword state. -/
def keyword? (s : RuleSpec) (q : Nat) : Option String :=
  s.keywords.lookup q

/-- No rule has two productions that read the same symbol. -/
def isDeterministic (s : RuleSpec) : Bool :=
  s.rules.all fun r =>
    let symbols := r.productions.filterMap Production.symbol?
    symbols.eraseDups.length == symbols.length

/-- Appends a state with the given rule; it is terminal if asked (or if its id was already
marked) and carries the reserved word if one is given. -/
def pushState (s : RuleSpec) (r : Rule) (terminal : Bool) (word : Option String) : RuleSpec × Nat :=
  let q := s.size
  ({ s with
      rules := s.rules.push r
      names := s.names.push none
      terminals := if terminal then IdSet.insert q s.terminals else s.terminals
      keywords := match word with
        | some w => putKeyword q w s.keywords
        | none => s.keywords },
    q)

/-- Replaces the rule of an existing state. -/
def setRule (s : RuleSpec) (q : Nat) (r : Rule) : RuleSpec :=
  { s with rules := s.rules.set! q r }

end RuleSpec

/-! ## Errors of rule specifications

What can go wrong while a rule specification is read, assembled, determinized, compiled, or its
compiled automaton loaded; each cause has one message.
-/

/-- Why a rule specification or a compiled automaton was refused. -/
inductive SpecError where
  /-- A line of a rule file has the wrong form. -/
  | malformed (line : Nat) (reason : String)
  /-- A production names a state that no grammar line defines. -/
  | undefinedState (line : Nat) (name : String)
  /-- A production refers to a state id that was never handed out. -/
  | danglingState (state : Nat)
  /-- A reserved word has no characters. -/
  | emptyKeyword
  /-- No token can be accepted. -/
  | noAcceptingState
  /-- A condition that assembled specifications always meet does not hold. -/
  | invariant (reason : String)
  /-- A stored automaton is not a well-formed document. -/
  | serialization
  deriving DecidableEq, Repr

namespace SpecError

/-- The text each error is reported with. -/
def message : SpecError → String
  | malformed line reason => s!"malformed rule specification on line {line}: {reason}"
  | undefinedState line name => s!"line {line} refers to state <{name}>, which has no rule"
  | danglingState state => s!"production refers to state {state}, which was never allocated"
  | emptyKeyword => "reserved words cannot be empty"
  | noAcceptingState => "rule specification accepts no token"
  | invariant reason => s!"internal invariant violated: {reason}"
  | serialization => "failed to (de)serialize automaton"

end SpecError

end LexLR
