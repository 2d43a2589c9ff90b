import LexLR.Spec.Builder
import LexLR.Text.Blank
import LexLR.Text.Alnum
/-!
# Reading rule files

A rule file has two kinds of lines. A grammar line `<name> ::= a<other> | b | epsi` gives the
productions of a named state; blanks inside it are ignored. Any other non-blank line is one
reserved word. The names on the left of grammar lines get their ids first, in order of first
appearance, so the first grammar line defines the start state; then the right-hand sides are read;
then each reserved word is expanded, in file order.
-/

namespace LexLR.RuleFile

open Text

/-- Splits at the first occurrence of `sep`. -/
def splitOnce (sep : List Char) : List Char → Option (List Char × List Char)
  | [] => if sep.isEmpty then some ([], []) else none
  | c :: cs =>
    if sep.isPrefixOf (c :: cs) then some ([], (c :: cs).drop sep.length)
    else (splitOnce sep cs).map fun (a, b) => (c :: a, b)

/-- The separator between a state and its alternatives. -/
def ruleSeparator : List Char := "::=".toList

/-- A non-blank line of a rule file. -/
inductive Entry where
  /-- A grammar line, with its number and its text with every blank deleted. -/
  | grammar (line : Nat) (compact : List Char)
  /-- A reserved word. -/
  | word (w : String)

/-- Classifies the lines of a file; a line that holds blanks between words but no rule separator
is refused. -/
def entries (text : String) : Except SpecError (List Entry) :=
  ((lines text.toList).zipIdx 1).foldr (fun (line, number) rest => do
    let trimmed := trimBlank line
    if trimmed.isEmpty then rest
    else if (splitOnce ruleSeparator trimmed).isSome then
      return .grammar number (trimmed.filter fun c => !isBlank c) :: (← rest)
    else if trimmed.any isBlank then
      throw (.malformed number
        s!"`{String.ofList trimmed}` is neither a grammar rule nor a single reserved word")
    else
      return .word (String.ofList trimmed) :: (← rest)) (.ok [])

/-- The name inside `<` and `>`: non-empty, of alphanumeric characters and underscores. -/
def stateName? (text : List Char) : Option String :=
  match text with
  | '<' :: rest =>
    match rest.reverse with
    | '>' :: inner =>
      let name := inner.reverse
      if !name.isEmpty && name.all (fun c => isAlnum c || c = '_') then some (String.ofList name)
      else none
    | _ => none
  | _ => none

/-- Reads one alternative of a grammar line. -/
def production (b : Builder) (line : Nat) (alt : List Char) : Except SpecError Production :=
  if alt = "epsi".toList || alt = ['ε'] then .ok .epsilon
  else match alt with
    | [] => .error (.malformed line "empty alternative")
    | c :: rest =>
      if c = '<' || c = '>' then
        .error (.malformed line s!"`{String.ofList alt}` has no input symbol")
      else if rest.isEmpty then .ok (.literal c)
      else match stateName? rest with
        | none => .error (.malformed line s!"`{String.ofList alt}` is not a production")
        | some name =>
          match b.lookup name with
          | some q => .ok (.transition c q)
          | none => .error (.undefinedState line name)

/-- The head state of each grammar line, minted in order, with the line's alternatives. -/
def heads (b : Builder) : List (Nat × List Char) → Except SpecError (Builder × List (Nat × Nat × List Char))
  | [] => .ok (b, [])
  | (line, compact) :: rest =>
    match splitOnce ruleSeparator compact with
    | none => .error (.malformed line "missing `::=`")
    | some (head, body) =>
      match stateName? head with
      | none => .error (.malformed line s!"`{String.ofList head}` is not a state name")
      | some name =>
        let (b, q) := b.state name
        match heads b rest with
        | .ok (b, hs) => .ok (b, (line, q, body) :: hs)
        | .error e => .error e

/-- Adds the alternatives of each grammar line to its head state. -/
def bodies (b : Builder) : List (Nat × Nat × List Char) → Except SpecError Builder
  | [] => .ok b
  | (line, q, body) :: rest => do
    let b ← (body.splitOn '|').foldlM (fun b alt => do
      let p ← production b line alt
      b.addProduction q p) b
    bodies b rest

/-- Expands the reserved words in order. -/
def keywords (b : Builder) : List String → Except SpecError Builder
  | [] => .ok b
  | w :: ws => do
    let (b, _) ← b.addKeyword w
    keywords b ws

end RuleFile

/-- Reads a rule file into a rule specification. -/
def RuleSpec.parse (text : String) : Except SpecError RuleSpec := do
  let es ← RuleFile.entries text
  let grammar := es.filterMap fun e => match e with
    | .grammar line compact => some (line, compact)
    | .word _ => none
  let words := es.filterMap fun e => match e with
    | .grammar _ _ => none
    | .word w => some w
  let (b, hs) ← RuleFile.heads {} grammar
  let b ← RuleFile.bodies b hs
  let b ← RuleFile.keywords b words
  b.build

end LexLR
