/-!
# Blank characters and trimming

A character is *blank* when it has the Unicode property `White_Space`. Texts that come from
outside (locations, settings, versions) are compared after blanks at both ends are dropped.

## Main definitions

- `Text.isBlank` : membership in `White_Space`
- `Text.trim` : a text without the blanks at its two ends
- `Text.isBlankText` : the text holds blanks only
-/

namespace LogSetup.Text

/-- The property `White_Space` of the Unicode character database: twenty-five characters. -/
def isBlank (c : Char) : Bool :=
  let n := c.toNat
  (0x09 ≤ n && n ≤ 0x0D) || n == 0x20 || n == 0x85 || n == 0xA0 || n == 0x1680 ||
    (0x2000 ≤ n && n ≤ 0x200A) || n == 0x2028 || n == 0x2029 || n == 0x202F || n == 0x205F ||
    n == 0x3000

/-- Drop the blanks at the front. -/
def trimFront (cs : List Char) : List Char := cs.dropWhile isBlank

/-- Drop the blanks at the back. -/
def trimBack (cs : List Char) : List Char := (trimFront cs.reverse).reverse

/-- Drop the blanks at both ends of a list of characters. -/
def trimChars (cs : List Char) : List Char := trimBack (trimFront cs)

/-- Drop the blanks at both ends of a text. -/
def trim (s : String) : String := String.ofList (trimChars s.toList)

/-- Every character is blank; in particular the empty text is. -/
def isBlankText (s : String) : Bool := s.toList.all isBlank

/-- What a written value stands for: its trimmed text, or nothing when that is empty. -/
def nonBlank? (s : String) : Option String :=
  if trim s = "" then none else some (trim s)

end LogSetup.Text
