/-!
# Blank characters and padding

Rule files and sources are cut at blank characters into lines and words, and printed tables
pad their columns with spaces.
-/

/-! ## Blank characters, lines and words

Blank characters are those of the Unicode White_Space property. Rule files and sources are cut
into lines at line feeds (a carriage return just before a line feed belongs to the break), and
lines are cut into words at runs of blank characters.
-/

namespace LexLR.Text

/-- The Unicode White_Space property: the controls tab to carriage return, space, next line,
no-break space, the ogham space mark, the spaces U+2000 to U+200A, the line and paragraph
separators, the narrow no-break space, the medium mathematical space and the ideographic space.
The zero width space U+200B is not blank. -/
def isBlank (c : Char) : Bool :=
  let n := c.toNat
  (0x09 ≤ n && n ≤ 0x0D) || n == 0x20 || n == 0x85 || n == 0xA0 || n == 0x1680 ||
    (0x2000 ≤ n && n ≤ 0x200A) || n == 0x2028 || n == 0x2029 || n == 0x202F ||
    n == 0x205F || n == 0x3000

/-- Drops blank characters from both ends. -/
def trimBlank (cs : List Char) : List Char :=
  ((cs.dropWhile isBlank).reverse.dropWhile isBlank).reverse

/-- Words of `cs` after the open word `word` (kept reversed): the maximal runs of characters that
are not blank. -/
def wordsFrom : List Char → List Char → List (List Char)
  | [], word => if word.isEmpty then [] else [word.reverse]
  | c :: rest, word =>
    if isBlank c then
      if word.isEmpty then wordsFrom rest [] else word.reverse :: wordsFrom rest []
    else wordsFrom rest (c :: word)

/-- The maximal runs of non-blank characters, in order; no word is empty. -/
def words (cs : List Char) : List (List Char) :=
  wordsFrom cs []

/-- A line without its break: one carriage return before the line feed goes with the break. -/
def dropReturn (line : List Char) : List Char :=
  match line.reverse with
  | '\r' :: rest => rest.reverse
  | _ => line

/-- Lines of `cs` after the open line `line` (kept reversed). -/
def linesFrom : List Char → List Char → List (List Char)
  | [], line => if line.isEmpty then [] else [line.reverse]
  | c :: rest, line =>
    if c = '\n' then dropReturn line.reverse :: linesFrom rest []
    else linesFrom rest (c :: line)

/-- The lines of a text: it is cut after each line feed, a carriage return right before a line
feed is dropped, and a text that ends with a line break has no empty last line. A lone carriage
return breaks nothing. -/
def lines (cs : List Char) : List (List Char) :=
  linesFrom cs []

example : lines "a\r\nb\n\nc".toList = ["a".toList, "b".toList, [], "c".toList] := by decide
example : lines "a\n".toList = ["a".toList] := by decide
example : lines "".toList = [] := by decide
example : words " ab　c  ".toList = ["ab".toList, "c".toList] := by decide

/-! ## Padding to a width

Columns of the printed tables are padded with spaces to a width counted in characters (Unicode
scalar values), not in display cells. A text longer than the width is left as it is.
-/

/-- Spaces before the text up to `width` characters: the text is right-aligned. -/
def padLeft (width : Nat) (s : String) : String :=
  String.ofList (List.replicate (width - s.length) ' ') ++ s

/-- Spaces after the text up to `width` characters: the text is left-aligned. -/
def padRight (width : Nat) (s : String) : String :=
  s ++ String.ofList (List.replicate (width - s.length) ' ')

example : padLeft 6 "line" = "  line" ∧ padRight 3 "é😀" = "é😀 " ∧ padLeft 1 "<10>" = "<10>" := by
  decide

end LexLR.Text
