import LexLR.Text.Printable
import LexLR.Spec.Basic
/-!
# Printing rule specifications

A specification prints one line per state, with its productions and its notes. A reserved word
in the notes is shown quoted, with escapes for the characters that would not read back plainly.
-/

/-! ## Quoted strings

A reserved word is shown between double quotes. Inside the quotes the backslash, the double quote,
NUL, tab, carriage return and line feed get a backslash escape; a character that extends the
grapheme before it or is not printable is written as its code point, `\u` followed by lowercase
hexadecimal digits in braces; every other character stands as it is.
-/

namespace LexLR.Text

/-- Lowercase hexadecimal digits without leading zeros. -/
def hexDigits (n : Nat) : List Char :=
  Nat.toDigits 16 n

/-- How one character is written inside the quotes. -/
def quoteChar (c : Char) : List Char :=
  if c = '\x00' then ['\\', '0']
  else if c = '\t' then ['\\', 't']
  else if c = '\r' then ['\\', 'r']
  else if c = '\n' then ['\\', 'n']
  else if c = '\\' then ['\\', '\\']
  else if c = '"' then ['\\', '"']
  else if isGraphemeExtend c || !isPrintable c then
    ['\\', 'u', '\x7b'] ++ hexDigits c.toNat ++ ['\x7d']
  else [c]

/-- The quoted form of a text, quotes included. -/
def quote (s : String) : String :=
  String.ofList ('"' :: s.toList.flatMap quoteChar ++ ['"'])

end LexLR.Text

/-! ## The printed specification

One line per state: `<id> ::=` followed by its productions separated by ` |`, and, when there is
something to say, a comment after four spaces and `#` with the state's name in angle brackets,
the word `terminal`, and `keyword` with the quoted reserved word, separated by commas.
-/

namespace LexLR.RuleSpec

/-- The notes of a state: name, terminal, reserved word. -/
def notes (s : RuleSpec) (q : Nat) : List String :=
  (match s.name? q with | some n => ["<" ++ n ++ ">"] | none => []) ++
  (if s.isTerminal q then ["terminal"] else []) ++
  (match s.keyword? q with | some w => ["keyword " ++ Text.quote w] | none => [])

/-- The line of one state, with its line break. -/
def renderState (s : RuleSpec) (q : Nat) : String :=
  let head := "<" ++ toString q ++ "> ::="
  let body := " |".intercalate ((s.rule q).productions.map fun p => " " ++ p.render)
  let ns := s.notes q
  let comment := if ns.isEmpty then "" else "    # " ++ ", ".intercalate ns
  head ++ body ++ comment ++ "\n"

/-- Every state's line, in id order. -/
def render (s : RuleSpec) : String :=
  String.join ((List.range s.size).map s.renderState)

end LexLR.RuleSpec
