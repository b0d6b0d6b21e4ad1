import LogSetup.Binary64.Layout
import LogSetup.Yaml.Plain

/-!
# YAML values

The value of a node, with links followed. Nesting beyond 128 levels is refused, which also stops a
node that holds itself, and so are more than a hundred followed links per part of the document.
Equal keys of a mapping and integers of more than 64 bits are refused.

## Main definitions

- `Yaml.Value` : values
- `Yaml.Value.of?` : the value of a node
- `Yaml.Document.fields?` : the entries of a document that is a mapping with text keys
-/

namespace LogSetup.Yaml

/-- A number. -/
inductive Number where
  | whole (value : Int)
  | float (value : Binary64)
  deriving DecidableEq, Repr

/-- Numbers that are not whole are written with a point, or with an exponent outside the positions
from -4 to 16. -/
def layout : Binary64.Layout :=
  { positional := some (-4, 16)
    wholeMark := true
    exponentSign := ""
    nan := ".nan"
    infinity := ".inf" }

/-- How a number is written. -/
def Number.text : Number → String
  | .whole i => Text.decimalInt i
  | .float x => layout.text x

/-- Equal as keys: whole numbers differ from numbers with a fraction part. -/
def Number.same : Number → Number → Bool
  | .whole i, .whole j => i == j
  | .float x, .float y => x.same y
  | _, _ => false

/-- A value. -/
inductive Value where
  | null
  | bool (value : Bool)
  | number (value : Number)
  | string (value : String)
  | sequence (items : List Value)
  | mapping (entries : List (Value × Value))
  | tagged (tag : List Char) (value : Value)
  deriving Repr, Inhabited

mutual

/-- Equal as keys; the entries of mappings may stand in any order. -/
def Value.same : Nat → Value → Value → Bool
  | 0, _, _ => false
  | _ + 1, .null, .null => true
  | _ + 1, .bool a, .bool b => a == b
  | _ + 1, .number a, .number b => a.same b
  | _ + 1, .string a, .string b => a == b
  | steps + 1, .sequence as, .sequence bs =>
    as.length == bs.length && (as.zip bs).all fun (a, b) => Value.same steps a b
  | steps + 1, .mapping as, .mapping bs =>
    as.length == bs.length &&
      as.all fun (k, v) => bs.any fun (l, w) => Value.same steps k l && Value.same steps v w
  | steps + 1, .tagged s a, .tagged t b => s == t && Value.same steps a b
  | _ + 1, _, _ => false

end

/-- How deep collections may nest. -/
def depthLimit : Nat := 128

/-- Equal as keys. -/
def Value.equal (a b : Value) : Bool := Value.same (2 * depthLimit + 2) a b

/-- No two keys are equal. -/
def Value.distinct : List Value → Bool
  | [] => true
  | k :: rest => !(rest.any k.equal) && Value.distinct rest

/-- The value of a meaning; an integer of more than 64 bits has none. -/
def Value.ofPlain? : Plain → Option Value
  | .null => some .null
  | .bool b => some (.bool b)
  | .integer i => some (.number (.whole i))
  | .wide _ => none
  | .float x => some (.number (.float x))
  | .text s => some (.string s)

/-- Run a reader that counts followed links on every item of a list. -/
def readAll? {α β : Type} (read? : Nat → α → Option (β × Nat)) :
    Nat → List α → Option (List β × Nat)
  | links, [] => some ([], links)
  | links, a :: rest =>
    match read? links a with
    | none => none
    | some (b, links) => (readAll? read? links rest).map fun (bs, links) => (b :: bs, links)

/-- The node that a node stands for, and how many links have been followed. -/
def Document.follow? (d : Document) (links : Nat) : Node → Option (Node × Nat)
  | .link target =>
    if d.size * 100 < links + 1 then none
    else (d.targets.find? fun t => t.1 == target).map fun t => (t.2, links + 1)
  | n => some (n, links)

/-- The value without its tag, where the tag is of the application. -/
def Value.withTag (tag : Option (List Char)) (v : Value) : Value :=
  match localTag? tag with
  | some t => .tagged t v
  | none => v

/-- The value of a node at most `depth` levels deep. -/
def Value.of? (d : Document) : Nat → Nat → Node → Option (Value × Nat)
  | depth, links, n =>
    match d.follow? links n with
    | none => none
    | some (.link _, _) => none
    | some (.scalar tag style text, links) =>
      let plain? :=
        match localTag? tag with
        | some _ => Plain.ofScalar? none style text
        | none => Plain.ofScalar? tag style text
      (plain?.bind Value.ofPlain?).map fun v => (v.withTag tag, links)
    | some (.sequence tag items, links) =>
      match depth with
      | 0 => none
      | depth + 1 =>
        (readAll? (Value.of? d depth) links items).map fun (vs, links) =>
          (Value.withTag tag (.sequence vs), links)
    | some (.mapping tag entries, links) =>
      match depth with
      | 0 => none
      | depth + 1 =>
        let entry? := fun (links : Nat) (e : Node × Node) =>
          match Value.of? d depth links e.1 with
          | none => none
          | some (k, links) => (Value.of? d depth links e.2).map fun (v, links) => ((k, v), links)
        match readAll? entry? links entries with
        | none => none
        | some (es, links) =>
          if Value.distinct (es.map (·.1)) then some (Value.withTag tag (.mapping es), links)
          else none

/-- The text of a scalar, whatever its tag and style. -/
def Document.text? (d : Document) (links : Nat) (n : Node) : Option (String × Nat) :=
  match d.follow? links n with
  | some (.scalar _ _ text, links) => some (String.ofList text, links)
  | _ => none

/-- The entries of a mapping; an empty stream and an empty scalar have none. -/
def Document.entries? : Option Document → Option (Document × List (Node × Node))
  | none => some (⟨.mapping none [], [], 0⟩, [])
  | some d =>
    match d.root with
    | .mapping _ es => some (d, es)
    | .scalar _ .plain [] => some (d, [])
    | _ => none

/-- The entries of a stream that is a mapping with text keys, in the order written. -/
def Document.fields? (bs : Bytes) : Option (List (String × Value)) :=
  match (Document.read? bs).bind Document.entries? with
  | none => none
  | some (d, entries) =>
    let field? := fun (links : Nat) (e : Node × Node) =>
      match d.text? links e.1 with
      | none => none
      | some (k, links) =>
        (Value.of? d (depthLimit - 1) links e.2).map fun (v, links) => ((k, v), links)
    (readAll? field? 0 entries).map (·.1)

end LogSetup.Yaml
