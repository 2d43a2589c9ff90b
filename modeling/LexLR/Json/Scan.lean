import LexLR.Json.Encoding
/-!
# JSON documents and their tokens

What a JSON document is, as far as reading typed records needs it, and how JSON text is cut into
tokens.
-/

/-! ## JSON documents

A document as far as reading typed records needs it. A number keeps its value only when it is
written as a plain non-negative integer (no sign, fraction or exponent); a string keeps its text
only when its bytes are well-formed UTF-8 and its escapes pair their surrogates. Object members
stay in document order, repeats included.
-/

namespace LexLR.Json

/-- A JSON value. -/
inductive Doc where
  | null
  | bool (b : Bool)
  /-- A number: its value if it is a plain non-negative integer. -/
  | num (value : Option Nat)
  /-- A string: its text if it is well formed. -/
  | str (text : Option String)
  | arr (items : List Doc)
  /-- An object's members in order; a key is `none` when it is not well-formed text. -/
  | obj (members : List (Option String × Doc))
  deriving Repr, Inhabited

/-! ## Scanning JSON text

JSON text is cut into tokens byte by byte: brackets, braces, colons and commas, strings, numbers
and the literals `true`, `false` and `null`. Only space, tab, line feed and carriage return may
stand between tokens. A string holds no control character below U+0020 and only the escapes
`\"`, `\\`, `\/`, `\b`, `\f`, `\n`, `\r`, `\t` and `\u` with four hexadecimal digits. A number
is an optional minus, then `0` or a digit string not starting with `0`, then optionally a point
and digits, then optionally `e` or `E`, a sign and digits.
-/

/-- A token of JSON text. -/
inductive Token where
  | openArray
  | closeArray
  | openObject
  | closeObject
  | colon
  | comma
  /-- A string, number or literal. -/
  | scalar (d : Doc)
  deriving Repr

/-- Where inside an escape a string is. -/
inductive Escape where
  | none
  | backslash
  /-- After `\u` and `digits` hexadecimal digits making up `acc`. -/
  | hex (digits acc : Nat)
  deriving Repr

/-- Where inside a number the scanner is. -/
inductive NumPart where
  | minus
  | zero
  | int
  | point
  | frac
  | exp
  | expSign
  | expDigits
  deriving DecidableEq, Repr

/-- Whether a number may end in this part. -/
def NumPart.isFinal : NumPart → Bool
  | .zero | .int | .frac | .expDigits => true
  | _ => false

/-- What the scanner is in the middle of. -/
inductive Mode where
  /-- Between tokens. -/
  | idle
  | text (d : Utf8.Decoder) (e : Escape)
  /-- A number, its integer value so far and whether it is still plain. -/
  | number (part : NumPart) (value : Nat) (plain : Bool)
  /-- A literal with the bytes still expected. -/
  | literal (rest : List UInt8) (v : Doc)
  | failed

/-- The scanner: its mode and the tokens so far, last first. -/
structure Scanner where
  mode : Mode := .idle
  tokens : List Token := []

/-- The value of a hexadecimal digit. -/
def hexValue (b : UInt8) : Option Nat :=
  let n := b.toNat
  if 0x30 ≤ n && n ≤ 0x39 then some (n - 0x30)
  else if 0x41 ≤ n && n ≤ 0x46 then some (n - 0x37)
  else if 0x61 ≤ n && n ≤ 0x66 then some (n - 0x57)
  else none

/-- The unit a one-character escape stands for. -/
def simpleEscape (b : UInt8) : Option Nat :=
  match b.toNat with
  | 0x22 => some 0x22
  | 0x5C => some 0x5C
  | 0x2F => some 0x2F
  | 0x62 => some 0x08
  | 0x66 => some 0x0C
  | 0x6E => some 0x0A
  | 0x72 => some 0x0D
  | 0x74 => some 0x09
  | _ => none

/-- Whether a byte is a decimal digit. -/
def isDigit (b : UInt8) : Bool :=
  0x30 ≤ b.toNat && b.toNat ≤ 0x39

namespace Scanner

/-- Adds a token and returns to the idle mode. -/
def emit (s : Scanner) (t : Token) : Scanner :=
  { mode := .idle, tokens := t :: s.tokens }

/-- A byte between tokens. -/
def idle (s : Scanner) (b : UInt8) : Scanner :=
  match b.toNat with
  | 0x20 | 0x09 | 0x0A | 0x0D => s
  | 0x5B => s.emit .openArray
  | 0x5D => s.emit .closeArray
  | 0x7B => s.emit .openObject
  | 0x7D => s.emit .closeObject
  | 0x3A => s.emit .colon
  | 0x2C => s.emit .comma
  | 0x22 => { s with mode := .text {} .none }
  | 0x2D => { s with mode := .number .minus 0 false }
  | 0x30 => { s with mode := .number .zero 0 true }
  | 0x74 => { s with mode := .literal [0x72, 0x75, 0x65] (.bool true) }
  | 0x66 => { s with mode := .literal [0x61, 0x6C, 0x73, 0x65] (.bool false) }
  | 0x6E => { s with mode := .literal [0x75, 0x6C, 0x6C] .null }
  | n => if 0x31 ≤ n && n ≤ 0x39 then { s with mode := .number .int (n - 0x30) true }
    else { s with mode := .failed }

/-- The number token for a finished number. -/
def numberToken (value : Nat) (plain : Bool) : Token :=
  .scalar (.num (if plain then some value else none))

/-- The part after reading a byte in a number, if the number goes on. -/
def numberNext (part : NumPart) (b : UInt8) : Option NumPart :=
  let n := b.toNat
  match part with
  | .minus => if n = 0x30 then some .zero else if isDigit b then some .int else none
  | .zero => if n = 0x2E then some .point else if n = 0x65 || n = 0x45 then some .exp else none
  | .int =>
    if isDigit b then some .int else if n = 0x2E then some .point
    else if n = 0x65 || n = 0x45 then some .exp else none
  | .point => if isDigit b then some .frac else none
  | .frac => if isDigit b then some .frac else if n = 0x65 || n = 0x45 then some .exp else none
  | .exp => if n = 0x2B || n = 0x2D then some .expSign else if isDigit b then some .expDigits else none
  | .expSign => if isDigit b then some .expDigits else none
  | .expDigits => if isDigit b then some .expDigits else none

/-- Reads one byte. -/
def push (s : Scanner) (b : UInt8) : Scanner :=
  match s.mode with
  | .failed => s
  | .idle => s.idle b
  | .literal rest v =>
    match rest with
    | [] => s.emit (.scalar v) |>.idle b
    | [x] => if x = b then s.emit (.scalar v) else { s with mode := .failed }
    | x :: xs => if x = b then { s with mode := .literal xs v } else { s with mode := .failed }
  | .number part value plain =>
    match numberNext part b with
    | some next =>
      let value := if next = .int then value * 10 + (b.toNat - 0x30) else value
      let plain := plain && (next = .int || next = .zero)
      { s with mode := .number next value plain }
    | none =>
      if part.isFinal && !(part = .zero && isDigit b) then (s.emit (numberToken value plain)).idle b
      else { s with mode := .failed }
  | .text d e =>
    match e with
    | .none =>
      if b.toNat = 0x22 then s.emit (.scalar (.str d.finish))
      else if b.toNat = 0x5C then { s with mode := .text d .backslash }
      else if b.toNat < 0x20 then { s with mode := .failed }
      else { s with mode := .text (d.pushByte b) .none }
    | .backslash =>
      if b.toNat = 0x75 then { s with mode := .text d (.hex 0 0) }
      else match simpleEscape b with
        | some u => { s with mode := .text (d.pushUnit u) .none }
        | none => { s with mode := .failed }
    | .hex k acc =>
      match hexValue b with
      | some v =>
        if k = 3 then { s with mode := .text (d.pushUnit (acc * 16 + v)) .none }
        else { s with mode := .text d (.hex (k + 1) (acc * 16 + v)) }
      | none => { s with mode := .failed }

/-- The tokens at the end of the text, if it ends between tokens or after a number. -/
def finish (s : Scanner) : Option (List Token) :=
  match s.mode with
  | .idle => some s.tokens.reverse
  | .number part value plain =>
    if part.isFinal then some (numberToken value plain :: s.tokens).reverse else none
  | _ => none

end Scanner

/-- The tokens of JSON text, if it scans. -/
def tokens (bytes : List UInt8) : Option (List Token) :=
  (bytes.foldl Scanner.push {}).finish

end LexLR.Json
