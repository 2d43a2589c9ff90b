/-!
# Text encodings

Text travels as UTF-8 bytes, JSON escapes name UTF-16 units, and JSON text is written compactly
with the few escapes a string needs.
-/

/-! ## UTF-8 and UTF-16 units

Text travels as UTF-8 bytes. Decoding accepts exactly the well-formed sequences: shortest forms
only, no surrogate code points, nothing above U+10FFFF. JSON escapes name UTF-16 units, where a
character above U+FFFF is a high surrogate followed by a low one.
-/

namespace LexLR.Utf8

/-- The UTF-8 bytes of a character. -/
def encodeChar (c : Char) : List UInt8 :=
  let n := c.toNat
  if n < 0x80 then [n.toUInt8]
  else if n < 0x800 then [(0xC0 + n / 64).toUInt8, (0x80 + n % 64).toUInt8]
  else if n < 0x10000 then
    [(0xE0 + n / 4096).toUInt8, (0x80 + n / 64 % 64).toUInt8, (0x80 + n % 64).toUInt8]
  else
    [(0xF0 + n / 262144).toUInt8, (0x80 + n / 4096 % 64).toUInt8, (0x80 + n / 64 % 64).toUInt8,
      (0x80 + n % 64).toUInt8]

/-- The UTF-8 bytes of a text. -/
def encode (s : String) : List UInt8 :=
  s.toList.flatMap encodeChar

/-- A code point that is a character: below U+110000 and not a surrogate. -/
def isScalar (n : Nat) : Bool :=
  n < 0xD800 || (0xE000 ≤ n && n < 0x110000)

/-- Decoding text from bytes and UTF-16 units, one at a time. -/
structure Decoder where
  /-- The characters so far, last first. -/
  chars : List Char := []
  /-- Continuation bytes still expected. -/
  need : Nat := 0
  /-- The code point under construction. -/
  value : Nat := 0
  /-- The least code point the current sequence may encode. -/
  least : Nat := 0
  /-- A high surrogate waiting for its low half. -/
  high : Option Nat := none
  /-- Nothing ill-formed was seen. -/
  valid : Bool := true
  deriving Repr

namespace Decoder

/-- Ends a character. -/
def emit (d : Decoder) (n : Nat) : Decoder :=
  if isScalar n then { d with chars := Char.ofNat n :: d.chars } else { d with valid := false }

/-- Takes one byte of UTF-8. -/
def pushByte (d : Decoder) (b : UInt8) : Decoder :=
  let n := b.toNat
  if d.high.isSome then { d with valid := false }
  else if d.need > 0 then
    if 0x80 ≤ n && n < 0xC0 then
      let v := d.value * 64 + (n - 0x80)
      if d.need = 1 then
        if v < d.least then { d with valid := false, need := 0 }
        else { d.emit v with need := 0 }
      else { d with need := d.need - 1, value := v }
    else { d with valid := false, need := 0 }
  else if n < 0x80 then d.emit n
  else if 0xC0 ≤ n && n < 0xE0 then { d with need := 1, value := n - 0xC0, least := 0x80 }
  else if 0xE0 ≤ n && n < 0xF0 then { d with need := 2, value := n - 0xE0, least := 0x800 }
  else if 0xF0 ≤ n && n < 0xF8 then { d with need := 3, value := n - 0xF0, least := 0x10000 }
  else { d with valid := false }

/-- Takes one UTF-16 unit. -/
def pushUnit (d : Decoder) (u : Nat) : Decoder :=
  if d.need > 0 then { d with valid := false, need := 0 }
  else match d.high with
    | some h =>
      if 0xDC00 ≤ u && u < 0xE000 then
        { d.emit (0x10000 + (h - 0xD800) * 0x400 + (u - 0xDC00)) with high := none }
      else { d with valid := false, high := none }
    | none =>
      if 0xD800 ≤ u && u < 0xDC00 then { d with high := some u }
      else if 0xDC00 ≤ u && u < 0xE000 then { d with valid := false }
      else d.emit u

/-- The text, if everything was well formed and nothing is left unfinished. -/
def finish (d : Decoder) : Option String :=
  if d.valid && d.need == 0 && d.high.isNone then some (String.ofList d.chars.reverse) else none

end Decoder

/-- Decodes UTF-8 bytes. -/
def decode (bytes : List UInt8) : Option String :=
  (bytes.foldl Decoder.pushByte {}).finish

example : decode (encode "aé名😀") = some "aé名😀" := by decide
example : decode [0xC0, 0x80] = none ∧ decode [0xED, 0xA0, 0x80] = none ∧ decode [0xE2, 0x82] = none := by
  decide

end LexLR.Utf8

/-! ## Writing JSON

Compact JSON text: no blanks between tokens. In strings the quote and the backslash are escaped,
the control characters below U+0020 are written `\b`, `\t`, `\n`, `\f`, `\r` or `\u00` with two
lowercase hexadecimal digits, and every other character stands as it is.
-/

namespace LexLR.Json

/-- A lowercase hexadecimal digit. -/
def hexDigit (n : Nat) : Char :=
  if n < 10 then Char.ofNat (48 + n) else Char.ofNat (87 + n)

/-- How one character is written inside a JSON string. -/
def escapeChar (c : Char) : List Char :=
  if c = '"' then ['\\', '"']
  else if c = '\\' then ['\\', '\\']
  else if c = '\n' then ['\\', 'n']
  else if c = '\r' then ['\\', 'r']
  else if c = '\t' then ['\\', 't']
  else if c = '\x08' then ['\\', 'b']
  else if c = '\x0c' then ['\\', 'f']
  else if c.toNat < 0x20 then ['\\', 'u', '0', '0', hexDigit (c.toNat / 16), hexDigit (c.toNat % 16)]
  else [c]

/-- A JSON string. -/
def quote (s : String) : String :=
  String.ofList ('"' :: s.toList.flatMap escapeChar ++ ['"'])

/-- A JSON array of written values. -/
def array (items : List String) : String :=
  "[" ++ ",".intercalate items ++ "]"

/-- A JSON object of written values, keys in the given order. -/
def object (fields : List (String × String)) : String :=
  "\x7b" ++ ",".intercalate (fields.map fun (k, v) => quote k ++ ":" ++ v) ++ "\x7d"

example : quote "a\"\x01é" = "\"a\\\"\\u0001é\"" := by decide

end LexLR.Json
