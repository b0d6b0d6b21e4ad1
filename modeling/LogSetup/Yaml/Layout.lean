import LogSetup.Yaml.Token

/-!
# From indentation to tokens

A line that is indented more than the block around it opens a block, and one that is indented less
closes blocks. A key is only known to be one when its colon is found, so the place where a key may
start is remembered: one place per level of flow collections. When the colon comes, the key token,
and the start of a block mapping if there is one, are put in at that place. A place is given up when
its line ends or after 1024 characters; if the key was required there, the stream is malformed.

## Main definitions

- `Yaml.Layout` : the state of the reading
- `Yaml.Layout.step?` : one token more
- `Yaml.tokens?` : the tokens of a stream
-/

namespace LogSetup.Yaml

/-- A place where a key may start. -/
structure KeyPlace where
  /-- A key must start here. -/
  required : Bool
  /-- How many tokens stand before it. -/
  tokens : Nat
  index : Nat
  line : Nat
  column : Nat
  deriving Repr

/-- The state of the reading. -/
structure Layout where
  cursor : Cursor
  /-- The column of the innermost block; -1 outside of all. -/
  indent : Int
  /-- The columns of the blocks around it. -/
  outer : List Int
  /-- Whether a key may start at the position reached. -/
  keyAllowed : Bool
  /-- The place of a possible key in the innermost flow collection, or in the blocks. -/
  place : Option KeyPlace
  /-- The places in the collections around it; one for each level of flow collections. -/
  outerPlaces : List (Option KeyPlace)
  /-- The tokens so far, the last one first. -/
  tokens : List Token
  deriving Repr

namespace Layout

/-- Inside a flow collection. -/
def inFlow (l : Layout) : Bool := !l.outerPlaces.isEmpty

/-- Add a token at the end. -/
def push (l : Layout) (t : Token) : Layout := { l with tokens := t :: l.tokens }

/-- Put a token behind the first `n` ones. -/
def insert (l : Layout) (n : Nat) (t : Token) : Layout :=
  let after := l.tokens.length - n
  { l with tokens := l.tokens.take after ++ t :: l.tokens.drop after }

/-- A place that its line or length has put out of reach. -/
def isStale (l : Layout) (p : KeyPlace) : Bool :=
  p.line < l.cursor.line || p.index + 1024 < l.cursor.index

/-- Give up places out of reach; a required one may not be. -/
def dropStale? (l : Layout) : Option Layout :=
  let stale := fun (p : Option KeyPlace) => p.any l.isStale
  let lost := fun (p : Option KeyPlace) => p.any fun q => l.isStale q && q.required
  if lost l.place || l.outerPlaces.any lost then none
  else
    some { l with
      place := if stale l.place then none else l.place
      outerPlaces := l.outerPlaces.map fun p => if stale p then none else p }

/-- Give up the innermost place; a required one may not be. -/
def forgetPlace? (l : Layout) : Option Layout :=
  if l.place.any (·.required) then none else some { l with place := none }

/-- Remember that a key may start here. -/
def savePlace? (l : Layout) : Option Layout :=
  if l.keyAllowed then
    let c := l.cursor
    let required := !l.inFlow && l.indent == (c.column : Int)
    (l.forgetPlace?).map fun l =>
      { l with place := some ⟨required, l.tokens.length, c.index, c.line, c.column⟩ }
  else some l

/-- Open a block at a column that is deeper than the innermost one, with its token behind the first
`n` tokens. -/
def openBlock (l : Layout) (column : Nat) (n : Nat) (t : Token) : Layout :=
  if !l.inFlow ∧ l.indent < column then
    { l.insert n t with indent := column, outer := l.indent :: l.outer }
  else l

/-- Close the blocks deeper than a column. -/
def closeBlocks (l : Layout) (column : Int) : Layout :=
  if l.inFlow then l
  else
    let rec close : List Int → Int → List Token → Int × List Int × List Token
      | [], indent, ts => (indent, [], ts)
      | i :: rest, indent, ts =>
        if column < indent then close rest i (.blockEnd :: ts) else (indent, i :: rest, ts)
    let (indent, outer, tokens) := close l.outer l.indent l.tokens
    { l with indent, outer, tokens }

/-- Go past blanks, comments and line breaks. Tabs do not count as blanks where a key may start in
a block. A new line in a block is a place where a key may start. -/
def skipBlanks (l : Layout) : Nat → Layout
  | 0 => l
  | steps + 1 =>
    let c := l.cursor
    let c := if c.column = 0 ∧ c.rest.head? = some '\uFEFF' then c.advance 1 else c
    let tabs := l.inFlow || !l.keyAllowed
    let c := (c.skipWhile fun d => d == ' ' || (tabs && d == '\t')).skipComment
    match c.nextLine? with
    | some (_, next) =>
      skipBlanks { l with cursor := next, keyAllowed := l.keyAllowed || !l.inFlow } steps
    | none => { l with cursor := c }

/-- Go on by an indicator of `n` characters and add its token. -/
def indicator (l : Layout) (n : Nat) (t : Token) (keyAllowed : Bool) : Layout :=
  { l.push t with cursor := l.cursor.advance n, keyAllowed }

/-- Add a token that was read up to a position. -/
def add (l : Layout) (t : Token) (c : Cursor) (keyAllowed : Bool) : Layout :=
  { l.push t with cursor := c, keyAllowed }

/-- A document marker or directive ends all blocks. -/
def toTop? (l : Layout) : Option Layout := (l.closeBlocks (-1)).forgetPlace?

/-- A bracket that opens a flow collection. -/
def openFlow? (l : Layout) (t : Token) : Option Layout :=
  (l.savePlace?).map fun l =>
    { l.indicator 1 t true with place := none, outerPlaces := l.place :: l.outerPlaces }

/-- A bracket that closes a flow collection. -/
def closeFlow? (l : Layout) (t : Token) : Option Layout :=
  (l.forgetPlace?).map fun l =>
    let l := l.indicator 1 t false
    match l.outerPlaces with
    | p :: rest => { l with place := p, outerPlaces := rest }
    | [] => l

/-- A dash or question mark that starts an entry or key; in a block it must stand where a key may
start. -/
def entry? (l : Layout) (block t : Token) (keyAllowed : Bool) : Option Layout :=
  if !l.inFlow ∧ !l.keyAllowed then none
  else
    ((l.openBlock l.cursor.column l.tokens.length block).forgetPlace?).map fun l =>
      l.indicator 1 t keyAllowed

/-- A colon: the value of the key at the remembered place, or of a key that was marked. -/
def value? (l : Layout) : Option Layout :=
  match l.place with
  | some p =>
    let l := (l.insert p.tokens .key).openBlock p.column p.tokens .blockMappingStart
    some ({ l with place := none }.indicator 1 .value false)
  | none =>
    if !l.inFlow ∧ !l.keyAllowed then none
    else
      let l := l.openBlock l.cursor.column l.tokens.length .blockMappingStart
      some (l.indicator 1 .value (!l.inFlow))

/-- Characters that no plain scalar starts with. -/
def isIndicator (c : Char) : Bool := "-?:,[]\x7b\x7d#&*!|>\x27\x22%@\x60".toList.contains c

/-- A plain scalar may start here. -/
def startsPlain (l : Layout) : Bool :=
  match l.cursor.rest with
  | [] => false
  | c :: rest =>
    (!(isGap c || isBreak c) && !isIndicator c) || (c == '-' && !(rest.head?.any isGap)) ||
      (!l.inFlow && (c == '?' || c == ':') && !endsHere rest)

/-- One token more, read at a position that no blank precedes. -/
def token? (l : Layout) (c : Char) (rest : List Char) : Option Layout :=
  let ends := endsHere rest
  if l.cursor.column = 0 ∧ c = '%' then
    (l.toTop?).bind fun l => (readDirective? l.cursor).map fun (t, c) => l.add t c false
  else if l.cursor.atMarker then
    (l.toTop?).map fun l => l.indicator 3 (if c = '-' then .documentStart else .documentEnd) false
  else if c = '[' then l.openFlow? .flowSequenceStart
  else if c = '\x7b' then l.openFlow? .flowMappingStart
  else if c = ']' then l.closeFlow? .flowSequenceEnd
  else if c = '\x7d' then l.closeFlow? .flowMappingEnd
  else if c = ',' then (l.forgetPlace?).map fun l => l.indicator 1 .flowEntry true
  else if c = '-' ∧ ends then l.entry? .blockSequenceStart .blockEntry true
  else if c = '?' ∧ (l.inFlow ∨ ends) then l.entry? .blockMappingStart .key (!l.inFlow)
  else if c = ':' ∧ (l.inFlow ∨ ends) then l.value?
  else if c = '*' ∨ c = '&' then
    (l.savePlace?).bind fun l =>
      (readAnchor? l.cursor).map fun (name, next) =>
        l.add (if c = '*' then .aliasOf name else .anchor name) next false
  else if c = '!' then
    (l.savePlace?).bind fun l =>
      (readTag? l.inFlow l.cursor).map fun (t, next) => l.add t next false
  else if (c = '|' ∨ c = '>') ∧ !l.inFlow then
    (l.forgetPlace?).bind fun l =>
      (readBlock? (c == '|') l.indent l.cursor).map fun (text, next) =>
        l.add (.scalar .marked text) next true
  else if c = '\x27' ∨ c = '\x22' then
    (l.savePlace?).bind fun l =>
      (readQuoted? (c == '\x27') l.cursor).map fun (text, next) =>
        l.add (.scalar .marked text) next false
  else if l.startsPlain then
    (l.savePlace?).bind fun l =>
      (readPlain? l.inFlow (l.indent + 1).toNat l.cursor).map fun (text, broken, next) =>
        l.add (.scalar .plain text) next broken
  else none

/-- One token more. The flag of the answer says that the stream has ended. -/
def step? (l : Layout) : Option (Layout × Bool) :=
  let l := l.skipBlanks (l.cursor.rest.length + 1)
  match l.dropStale? with
  | none => none
  | some l =>
    let l := l.closeBlocks l.cursor.column
    match l.cursor.rest with
    | [] => ((l.closeBlocks (-1)).forgetPlace?).map (·, true)
    | c :: rest => (l.token? c rest).map (·, false)

/-- Read to the end of the stream. -/
def run? : Nat → Layout → Option (List Token)
  | 0, _ => none
  | steps + 1, l =>
    match l.step? with
    | none => none
    | some (l, true) => some l.tokens.reverse
    | some (l, false) => run? steps l

/-- The state at the start of a stream. -/
def start (cs : List Char) : Layout := ⟨Cursor.start cs, -1, [], true, none, [], []⟩

end Layout

/-- The tokens of a stream; each takes a character at least. -/
def tokens? (cs : List Char) : Option (List Token) := (Layout.start cs).run? (cs.length + 2)

end LogSetup.Yaml
