import LexLR.Json.Scan
/-!
# Reading JSON documents and typed records

Tokens are assembled into one document, and the fields of typed records are taken from it.
-/

/-! ## Assembling documents

Tokens are assembled into one document with a stack of open containers. The whole text must be
exactly one value, with only blanks after it. Nesting is not limited: the records read from
documents nest only a few levels, so a deep value can only stand where it is ignored.
-/

namespace LexLR.Json

/-- A container being read: its items so far, last first. -/
inductive Frame where
  | array (items : List Doc)
  /-- An object's members so far and the key waiting for its value. -/
  | object (members : List (Option String × Doc)) (key : Option (Option String))

/-- What the next token must be. -/
inductive Expect where
  /-- A value: at the start, after a comma in an array, after a colon. -/
  | value
  /-- A value or the end of the array just opened. -/
  | valueOrClose
  /-- A key or the end of the object just opened. -/
  | keyOrClose
  /-- A key, after a comma in an object. -/
  | key
  | colon
  /-- A comma or the end of the innermost container. -/
  | commaOrClose
  /-- Nothing: the document is complete. -/
  | finished (d : Doc)

/-- The reader: the open containers, innermost first, and what comes next. -/
structure Reader where
  stack : List Frame := []
  expect : Expect := .value

namespace Reader

/-- A value is complete: it ends the document or joins the innermost container. -/
def complete (stack : List Frame) (d : Doc) : Option Reader :=
  match stack with
  | [] => some ⟨[], .finished d⟩
  | .array items :: rest => some ⟨.array (d :: items) :: rest, .commaOrClose⟩
  | .object members (some k) :: rest => some ⟨.object ((k, d) :: members) none :: rest, .commaOrClose⟩
  | .object _ none :: _ => none

/-- Opens a container. -/
def openFrame (stack : List Frame) (f : Frame) (e : Expect) : Option Reader :=
  some ⟨f :: stack, e⟩

/-- Closes the innermost container if it is of the kind the token closes. -/
def close (stack : List Frame) (array : Bool) : Option Reader :=
  match stack, array with
  | .array items :: rest, true => complete rest (.arr items.reverse)
  | .object members none :: rest, false => complete rest (.obj members.reverse)
  | _, _ => none

/-- A value token where a value may stand. -/
def value (stack : List Frame) : Token → Option Reader
  | .scalar d => complete stack d
  | .openArray => openFrame stack (.array []) .valueOrClose
  | .openObject => openFrame stack (.object [] none) .keyOrClose
  | _ => none

/-- Takes one token. -/
def push (r : Reader) (t : Token) : Option Reader :=
  match r.expect, t with
  | .value, t => value r.stack t
  | .valueOrClose, .closeArray => close r.stack true
  | .valueOrClose, t => value r.stack t
  | .keyOrClose, .closeObject => close r.stack false
  | .keyOrClose, .scalar (.str k) | .key, .scalar (.str k) =>
    match r.stack with
    | .object members none :: rest => some ⟨.object members (some k) :: rest, .colon⟩
    | _ => none
  | .colon, .colon => some { r with expect := .value }
  | .commaOrClose, .comma =>
    match r.stack with
    | .array _ :: _ => some { r with expect := .value }
    | .object _ _ :: _ => some { r with expect := .key }
    | [] => none
  | .commaOrClose, .closeArray => close r.stack true
  | .commaOrClose, .closeObject => close r.stack false
  | _, _ => none

/-- The document, once every token is taken. -/
def finish (r : Reader) : Option Doc :=
  match r.expect with
  | .finished d => some d
  | _ => none

end Reader

/-- Reads a whole JSON text given as bytes. -/
def Doc.read (bytes : List UInt8) : Option Doc := do
  let ts ← tokens bytes
  let r ← ts.foldlM Reader.push {}
  r.finish

end LexLR.Json

/-! ## Typed fields

How the values of a record are taken from a document. A record is an object that has each of its
fields exactly once (other keys are ignored, every key must be well-formed text), or an array of
exactly its fields in order. An unsigned field is a plain integer below its bound; a text field
is a well-formed string; a character is a string of exactly one character; a list is an array.
-/

namespace LexLR.Json.Doc

/-- A plain non-negative integer below the bound. -/
def natBelow? (bound : Nat) : Doc → Option Nat
  | .num (some n) => if n < bound then some n else none
  | _ => none

/-- An unsigned 8-bit field. -/
def u8? (d : Doc) : Option Nat := d.natBelow? 256

/-- An unsigned 32-bit field. -/
def u32? (d : Doc) : Option Nat := d.natBelow? 4294967296

/-- An unsigned 64-bit field. -/
def u64? (d : Doc) : Option Nat := d.natBelow? 18446744073709551616

/-- A well-formed string. -/
def text? : Doc → Option String
  | .str (some s) => some s
  | _ => none

/-- A string of exactly one character. -/
def char? (d : Doc) : Option Char := do
  let s ← d.text?
  match s.toList with
  | [c] => some c
  | _ => none

/-- The items of an array. -/
def items? : Doc → Option (List Doc)
  | .arr items => some items
  | _ => none

/-- The one member named `name`; none when it is missing or repeated. -/
def member? (members : List (Option String × Doc)) (name : String) : Option Doc :=
  match members.filter fun m => m.1 == some name with
  | [(_, d)] => some d
  | _ => none

/-- The values of a record's fields, in the order of `names`. -/
def fields? (names : List String) : Doc → Option (List Doc)
  | .arr items => if items.length = names.length then some items else none
  | .obj members =>
    if members.all fun m => m.1.isSome then names.mapM (member? members) else none
  | _ => none

end LexLR.Json.Doc
