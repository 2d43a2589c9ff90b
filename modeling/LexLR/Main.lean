import LexLR.LR.Analyser
import LexLR.Recognizer
import LexLR.Automaton.Render
import LexLR.Automaton.Json
import LexLR.Spec.Render
/-!
# The command-line tool

A command line is read into one of the tool's three commands, and the command is run: the files
it names are read, the results printed, and an error printed with what the tool was doing.
-/

/-! ## Command lines

The command-line tool has three commands: `automaton --rules FILE [--output FILE]` determinizes a
rule file and prints the specification and the compiled automaton, optionally saving the
automaton; `lex --rules FILE [--input FILE]` prints the symbol table of a source; `parse --rules
FILE --table FILE [--input FILE] [--identifier-symbol S] [--end-symbol S] [--trace]` recognizes a
source. A rules file ending in `.json` is a saved automaton. Without `--input` the source is read
from standard input. Options take their value as the next argument or after `=`, and the short
forms `-r`, `-o`, `-i` and `-t` stand for `--rules`, `--output`, `--input` and `--table`.
-/

namespace LexLR

/-- A command of the tool. -/
inductive Command where
  | automaton (rules : String) (output : Option String)
  | lex (rules : String) (input : Option String)
  | parse (rules table : String) (input : Option String) (options : LR.Options) (trace : Bool)
  deriving Repr

namespace Command

/-- The long name of an option. -/
def longName : String → String
  | "-r" => "--rules"
  | "-o" => "--output"
  | "-i" => "--input"
  | "-t" => "--table"
  | other => other

/-- Options with their values, and flags with an empty value, in order. -/
def options : List String → Except String (List (String × String))
  | [] => .ok []
  | "--trace" :: rest => (("--trace", "") :: ·) <$> options rest
  | arg :: rest =>
    match arg.splitOn "=" with
    | name :: value :: more =>
      (((longName name), "=".intercalate (value :: more)) :: ·) <$> options rest
    | _ =>
      match rest with
      | value :: rest' => ((longName arg, value) :: ·) <$> options rest'
      | [] => .error s!"option {arg} needs a value"

/-- The value of an option, if given. -/
def value? (opts : List (String × String)) (name : String) : Option String :=
  opts.lookup name

/-- The value of an option that must be given. -/
def required (opts : List (String × String)) (name : String) : Except String String :=
  match opts.lookup name with
  | some v => .ok v
  | none => .error s!"the option {name} is required"

/-- Reads a command line. -/
def ofArgs : List String → Except String Command
  | "automaton" :: rest => do
    let opts ← options rest
    return .automaton (← required opts "--rules") (value? opts "--output")
  | "lex" :: rest => do
    let opts ← options rest
    return .lex (← required opts "--rules") (value? opts "--input")
  | "parse" :: rest => do
    let opts ← options rest
    let identifier := (value? opts "--identifier-symbol").getD "ID"
    let endSymbol := (value? opts "--end-symbol").getD "EOF"
    return .parse (← required opts "--rules") (← required opts "--table") (value? opts "--input")
      { identifier, endSymbol } (opts.any (·.1 == "--trace"))
  | _ => .error "usage: automaton | lex | parse"

end Command

end LexLR

/-! ## Running a command

Reads the files a command names, runs it, and prints the results; an error is printed with what
the tool was doing.
-/

open LexLR

/-- Reports an error and fails. -/
def fail (context cause : String) : IO UInt32 := do
  IO.eprintln ("Error: " ++ context ++ "\n\nCaused by:\n    " ++ cause)
  return 1

/-- The lexer of a rules file: a saved automaton if the name ends in `.json`, else a rule file. -/
def loadLexer (path : String) : IO (Except String Automaton) := do
  if path.endsWith ".json" then
    let bytes ← IO.FS.readBinFile path
    return (Automaton.load bytes.toList).mapError SpecError.message
  else
    let text ← IO.FS.readFile path
    return (Automaton.ofRules text).mapError SpecError.message

/-- The source: a file, or standard input. -/
def readInput : Option String → IO String
  | some path => IO.FS.readFile path
  | none => do (← IO.getStdin).readToEnd

def main (args : List String) : IO UInt32 := do
  match Command.ofArgs args with
  | .error m =>
    IO.eprintln m
    return 2
  | .ok (.automaton rules output) =>
    let text ← IO.FS.readFile rules
    match RuleSpec.parse text with
    | .error e => fail s!"can't load {rules}" e.message
    | .ok s =>
      let t := s.determinize
      IO.println t.spec.render
      match t.compile with
      | .error e => fail "can't compile" e.message
      | .ok a =>
        IO.println a.render
        if let some path := output then IO.FS.writeFile path a.toJson
        return 0
  | .ok (.lex rules input) =>
    match ← loadLexer rules with
    | .error m => fail s!"can't build automaton from {rules}" m
    | .ok a =>
      match a.read (← readInput input) with
      | .error e => fail "can't read the source" e.message
      | .ok (_, symbols) =>
        IO.print symbols.render
        return 0
  | .ok (.parse rules table input options trace) =>
    match ← loadLexer rules with
    | .error m => fail s!"can't build automaton from {rules}" m
    | .ok a =>
      match LR.Table.ofJson (← IO.FS.readFile table) >>= fun t => LR.Analyser.new t options with
      | .error e => fail s!"can't load {table}" e.message
      | .ok analyser =>
        match ({ automaton := a, analyser } : Recognizer).recognize (← readInput input) with
        | .error e => fail "can't recognize the source" e.message
        | .ok d =>
          if trace then
            for step in d.steps do IO.println step.render
          IO.println s!"accepted {d.symbols.size} tokens"
          return 0
