import LogSetup.Yaml.Cursor

/-!
# YAML scalars in the stream

Plain and quoted scalars fold their line breaks: a single break becomes a space, and of several the
first is dropped. Block scalars keep them, or fold those between lines that do not start with a
space.

## Main definitions

- `Yaml.Fold` : blanks and line breaks between two words
- `Yaml.readPlain?`, `Yaml.readQuoted?`, `Yaml.readBlock?` : the scalars
-/

namespace LogSetup.Yaml

/-- Blanks and line breaks between two words of a scalar. -/
structure Fold where
  /-- Spaces and tabs before the first line break. -/
  gaps : List Char
  /-- Whether a line has ended. -/
  broken : Bool
  /-- The first line break. -/
  first : Option Char
  /-- The line breaks after it. -/
  others : List Char
  deriving Repr

namespace Fold

/-- Nothing between two words. -/
def none : Fold := ⟨[], false, .none, []⟩

/-- The text that stands for the fold. -/
def text (f : Fold) : List Char :=
  if !f.broken then f.gaps
  else if f.first = some '\n' then (if f.others = [] then [' '] else f.others)
  else f.first.toList ++ f.others

/-- One more line break. -/
def push (f : Fold) (b : Char) : Fold :=
  if f.broken then { f with others := f.others ++ [b] } else ⟨[], true, some b, []⟩

end Fold

/-- Read blanks and line breaks. In a block, a tab to the left of column `least` is refused once a
line has ended. -/
def readFold? (least : Option Nat) : Nat → Fold → Cursor → Option (Fold × Cursor)
  | 0, f, c => some (f, c)
  | steps + 1, f, c =>
    match c.rest with
    | d :: _ =>
      if isGap d then
        if f.broken ∧ d = '\t' ∧ c.column < least.getD 0 then none
        else
          readFold? least steps (if f.broken then f else { f with gaps := f.gaps ++ [d] }) (c.advance 1)
      else
        match c.nextLine? with
        | some (b, next) => readFold? least steps (f.push b) next
        | .none => some (f, c)
    | [] => some (f, c)

/-! ### Plain scalars -/

/-- Characters that separate in a flow collection. -/
def isFlowIndicator (c : Char) : Bool :=
  c == ',' || c == '[' || c == ']' || c == '\x7b' || c == '\x7d'

/-- The characters of a plain scalar up to a blank, a line break or an indicator. -/
def plainRun? (inFlow : Bool) : List Char → Option (List Char)
  | [] => some []
  | c :: rest =>
    if isGap c || isBreak c then some []
    else if c = ':' ∧ inFlow ∧ (rest.head?.any fun d => isFlowIndicator d || d == '?') then none
    else if c = ':' ∧ endsHere rest then some []
    else if inFlow && isFlowIndicator c then some []
    else (plainRun? inFlow rest).map (c :: ·)

/-- A plain scalar, of which `text` has been read and `fold` after it. The flag of the answer says
whether a line has ended after the last word. -/
def plainWords? (inFlow : Bool) (least : Nat) :
    Nat → List Char → Fold → Cursor → Option (List Char × Bool × Cursor)
  | 0, text, fold, c => some (text, fold.broken, c)
  | steps + 1, text, fold, c =>
    if c.atMarker || c.rest.head? == some '#' then some (text, fold.broken, c)
    else
      match plainRun? inFlow c.rest with
      | none => none
      | some run =>
        let text := if run = [] then text else text ++ fold.text ++ run
        let fold := if run = [] then fold else Fold.none
        let c := c.advance run.length
        if c.rest ≠ [] ∧ endsHere c.rest then
          match readFold? (some least) (c.rest.length + 1) fold c with
          | none => none
          | some (fold, c) =>
            if !inFlow ∧ c.column < least then some (text, fold.broken, c)
            else plainWords? inFlow least steps text fold c
        else some (text, fold.broken, c)

/-- The plain scalar that starts here. -/
def readPlain? (inFlow : Bool) (least : Nat) (c : Cursor) : Option (List Char × Bool × Cursor) :=
  plainWords? inFlow least (c.rest.length + 1) [] Fold.none c

/-! ### Quoted scalars -/

/-- What a character stands for after a backslash, where it stands for one character. -/
def escape? (c : Char) : Option Char :=
  match c with
  | '0' => some '\x00'
  | 'a' => some '\x07'
  | 'b' => some '\x08'
  | 't' => some '\t'
  | '\t' => some '\t'
  | 'n' => some '\n'
  | 'v' => some '\x0b'
  | 'f' => some '\x0c'
  | 'r' => some '\r'
  | 'e' => some '\x1b'
  | ' ' => some ' '
  | '\x22' => some '\x22'
  | '/' => some '/'
  | '\\' => some '\\'
  | 'N' => some '\u0085'
  | '_' => some '\u00a0'
  | 'L' => some '\u2028'
  | 'P' => some '\u2029'
  | _ => none

/-- How many hexadecimal digits follow a character after a backslash. -/
def escapeDigits? (c : Char) : Option Nat :=
  match c with
  | 'x' => some 2
  | 'u' => some 4
  | 'U' => some 8
  | _ => none

/-- The character of an escape and how many characters the escape takes after the backslash. -/
def readEscape? : List Char → Option (Char × Nat)
  | [] => none
  | c :: rest =>
    match escape? c, escapeDigits? c with
    | some d, _ => some (d, 1)
    | none, some n =>
      if rest.length < n then none
      else
        match Text.readDigits? 16 (rest.take n) with
        | some code =>
          if (0xD800 ≤ code ∧ code ≤ 0xDFFF) ∨ 0x10FFFF < code then none
          else some (Char.ofNat code, n + 1)
        | none => none
    | none, none => none

/-- The characters of a quoted scalar up to a blank, a line break or the closing quote, and the
flag of a backslash at the end of the line. -/
def quotedRun? (single : Bool) : Nat → Cursor → Option (List Char × Bool × Cursor)
  | 0, c => some ([], false, c)
  | steps + 1, c =>
    match c.rest with
    | [] => some ([], false, c)
    | d :: rest =>
      if isGap d || isBreak d then some ([], false, c)
      else if single then
        if d = '\x27' then
          if rest.head? = some '\x27' then
            (quotedRun? single steps (c.advance 2)).map fun (run, more) => ('\x27' :: run, more)
          else some ([], false, c)
        else (quotedRun? single steps (c.advance 1)).map fun (run, more) => (d :: run, more)
      else if d = '\x22' then some ([], false, c)
      else if d = '\\' then
        match (c.advance 1).nextLine? with
        | some (_, next) => some ([], true, next)
        | none =>
          match readEscape? rest with
          | some (e, n) =>
            (quotedRun? single steps (c.advance (n + 1))).map fun (run, more) => (e :: run, more)
          | none => none
      else (quotedRun? single steps (c.advance 1)).map fun (run, more) => (d :: run, more)

/-- A quoted scalar of which `text` has been read. -/
def quotedWords? (single : Bool) : Nat → List Char → Cursor → Option (List Char × Cursor)
  | 0, _, _ => none
  | steps + 1, text, c =>
    if c.atMarker || c.rest.isEmpty then none
    else
      match quotedRun? single (c.rest.length + 1) c with
      | none => none
      | some (run, escapedBreak, c) =>
        let text := text ++ run
        if c.rest.head? = some (if single then '\x27' else '\x22') then some (text, c.advance 1)
        else
          let fold : Fold := if escapedBreak then ⟨[], true, none, []⟩ else Fold.none
          match readFold? none (c.rest.length + 1) fold c with
          | none => none
          | some (fold, c) => quotedWords? single steps (text ++ fold.text) c

/-- The quoted scalar whose opening quote stands here. -/
def readQuoted? (single : Bool) (c : Cursor) : Option (List Char × Cursor) :=
  quotedWords? single (c.rest.length + 2) [] (c.advance 1)

/-! ### Block scalars -/

/-- What happens to the line breaks at the end of a block scalar. -/
inductive Chomp where
  | strip
  | clip
  | keep
  deriving DecidableEq, Repr

/-- The mark of a way to chomp. -/
def Chomp.ofMark? (c : Char) : Option Chomp :=
  if c = '+' then some .keep else if c = '-' then some .strip else none

/-- The indentation that a digit asks for. -/
def indentDigit? (c : Char) : Option Nat :=
  if c.isDigit && c != '0' then some (c.toNat - 48) else none

/-- The header of a block scalar after its indicator: chomping, indentation, and the position
after them. A zero is refused. -/
def blockHeader? (c : Cursor) : Option (Chomp × Option Nat × Cursor) :=
  let digit? := fun (c : Cursor) =>
    match c.rest with
    | '0' :: _ => (none : Option (Option Nat × Cursor))
    | d :: _ =>
      match indentDigit? d with
      | some n => some (some n, c.advance 1)
      | none => some (none, c)
    | [] => some (none, c)
  match c.rest.head?.bind Chomp.ofMark? with
  | some chomp => (digit? (c.advance 1)).map fun (n, c) => (chomp, n, c)
  | none =>
    match digit? c with
    | none => none
    | some (none, c) => some (.clip, none, c)
    | some (some n, c) =>
      match c.rest.head?.bind Chomp.ofMark? with
      | some chomp => some (chomp, some n, c.advance 1)
      | none => some (.clip, some n, c)

/-- Read indentation and line breaks before a line of a block scalar. `indent` is zero until it is
known; `deepest` is the greatest column seen. -/
def blockBreaks? (indent : Nat) : Nat → Nat → List Char → Cursor → Option (Nat × List Char × Cursor)
  | 0, deepest, breaks, c => some (deepest, breaks, c)
  | steps + 1, deepest, breaks, c =>
    let spaces := (c.rest.takeWhile (· == ' ')).length
    let c := c.advance (if indent = 0 then spaces else min spaces (indent - c.column))
    let deepest := max deepest c.column
    if (indent = 0 ∨ c.column < indent) ∧ c.rest.head? = some '\t' then none
    else
      match c.nextLine? with
      | some (b, next) => blockBreaks? indent steps deepest (breaks ++ [b]) next
      | none => some (deepest, breaks, c)

/-- The lines of a block scalar. `ended` is the break that ended the last line, `breaks` are those
of the empty lines after it, and `blank` says that the last line started with a blank. -/
def blockLines? (literal : Bool) (indent : Nat) :
    Nat → List Char → Option Char → List Char → Bool → Cursor →
    Option (List Char × Option Char × List Char × Cursor)
  | 0, text, ended, breaks, _, c => some (text, ended, breaks, c)
  | steps + 1, text, ended, breaks, blank, c =>
    if c.column = indent ∧ c.rest ≠ [] then
      let starts := c.rest.head?.any isGap
      let joint :=
        if !literal && ended == some '\n' && !blank && !starts then
          (if breaks = [] then [' '] else [])
        else ended.toList
      let (line, c) := c.takeWhile fun d => !isBreak d
      let text := text ++ joint ++ breaks ++ line
      let (ended, c) :=
        match c.nextLine? with
        | some (b, next) => (some b, next)
        | none => (none, c)
      match blockBreaks? indent (c.rest.length + 1) 0 [] c with
      | none => none
      | some (_, breaks, c) => blockLines? literal indent steps text ended breaks starts c
    else some (text, ended, breaks, c)

/-- The block scalar whose indicator stands here, inside a block of the given indentation. -/
def readBlock? (literal : Bool) (parent : Int) (c : Cursor) : Option (List Char × Cursor) :=
  match blockHeader? (c.advance 1) with
  | none => none
  | some (chomp, increment, c) =>
    let c := (c.skipWhile isGap).skipComment
    if c.rest ≠ [] ∧ c.nextLine?.isNone then none
    else
      let c := ((c.nextLine?).map (·.2)).getD c
      let indent :=
        match increment with
        | some n => if 0 ≤ parent then parent.toNat + n else n
        | none => 0
      match blockBreaks? indent (c.rest.length + 1) 0 [] c with
      | none => none
      | some (deepest, breaks, c) =>
        let indent := if indent = 0 then max (max deepest (parent + 1).toNat) 1 else indent
        match blockLines? literal indent (c.rest.length + 1) [] none breaks false c with
        | none => none
        | some (text, ended, breaks, c) =>
          some
            (text ++ (if chomp = .strip then [] else ended.toList) ++
              (if chomp = .keep then breaks else []), c)

end LogSetup.Yaml
