/-!
# Cutting texts

Splitting at a separator keeps empty pieces, so that joining the pieces gives the text back.
`lines` follows the convention of text files: a line ends at a line feed, which may be preceded by
a carriage return, and a last line without a line feed counts.

## Main definitions

- `Text.splitOn` : the pieces between the occurrences of a separator
- `Text.cut?` : the two sides of the first separator
- `Text.joinWith` : pieces with a separator between them
- `Text.lines` : the lines of a text
-/

namespace LogSetup.Text

/-- The pieces between the occurrences of `sep`; one more than there are separators. -/
def splitOn {α : Type} [DecidableEq α] (sep : α) : List α → List (List α)
  | [] => [[]]
  | c :: rest =>
    if c = sep then [] :: splitOn sep rest
    else
      match splitOn sep rest with
      | [] => [[c]]
      | piece :: pieces => (c :: piece) :: pieces

/-- The text before the first `sep` and the text after it, if there is one. -/
def cut? (sep : Char) : List Char → Option (List Char × List Char)
  | [] => none
  | c :: rest =>
    if c = sep then some ([], rest)
    else (cut? sep rest).map fun (front, back) => (c :: front, back)

/-- Pieces with `sep` between neighbours. -/
def joinWith {α : Type} (sep : List α) : List (List α) → List α
  | [] => []
  | [piece] => piece
  | piece :: pieces => piece ++ sep ++ joinWith sep pieces

/-- Texts with `sep` between neighbours. -/
def joinTexts (sep : String) (pieces : List String) : String :=
  String.ofList (joinWith sep.toList (pieces.map String.toList))

/-- Drop a carriage return at the end of a line. -/
def dropReturn (line : List Char) : List Char :=
  match line.reverse with
  | '\r' :: front => front.reverse
  | _ => line

/-- Lines that end in a line feed lose one carriage return before it; a last piece without a line
feed is kept as it stands, and is no line when it is empty. -/
def linesOf : List (List Char) → List (List Char)
  | [] => []
  | [last] => if last.isEmpty then [] else [last]
  | line :: rest => dropReturn line :: linesOf rest

/-- The lines of a text. -/
def lines (s : String) : List String :=
  (linesOf (splitOn '\n' s.toList)).map String.ofList

/-- Whether `front` stands at the beginning of the text. -/
def startsWith (front s : String) : Bool := front.toList.isPrefixOf s.toList

/-- Whether `back` stands at the end of the text. -/
def endsWith (back s : String) : Bool := back.toList.isSuffixOf s.toList

/-- Whether `needle` stands somewhere in a list of characters. -/
def hasInside (needle : List Char) : List Char → Bool
  | [] => needle.isEmpty
  | c :: rest => needle.isPrefixOf (c :: rest) || hasInside needle rest

/-- Whether `needle` stands somewhere in a text. -/
def contains (needle s : String) : Bool := hasInside needle.toList s.toList

/-- Drop every leading occurrence of a character. -/
def dropLeading (c : Char) (s : String) : String := String.ofList (s.toList.dropWhile (· == c))

/-- The ASCII lower-case form of a character list. -/
def lowerAscii (cs : List Char) : List Char := cs.map Char.toLower

end LogSetup.Text
