import LogSetup.Yaml.Layout

/-!
# YAML nodes

A document is one node. A node may be given a name with an anchor; an alias stands for the node that
had its name last, and is kept as a link so that its meaning is looked up where it is used.

## Main definitions

- `Yaml.Node` : scalars, sequences, mappings and links
- `Yaml.Document` : a node, the nodes that links lead to, and the size of the document
- `Yaml.Document.read?` : the document of a stream that holds at most one
-/

namespace LogSetup.Yaml

/-- A node as written. -/
inductive Node where
  | scalar (tag : Option (List Char)) (style : Style) (text : List Char)
  | sequence (tag : Option (List Char)) (items : List Node)
  | mapping (tag : Option (List Char)) (entries : List (Node × Node))
  | link (target : Nat)
  deriving Repr, Inhabited

/-- A document. -/
structure Document where
  root : Node
  /-- The nodes with anchors, by number. -/
  targets : List (Nat × Node)
  /-- How many scalars, links and ends of collections it was read from. -/
  size : Nat
  deriving Repr

/-- What has been read of a document and what has not. -/
structure Composer where
  tokens : List Token
  /-- The meanings of tag handles. -/
  handles : List (List Char × List Char)
  /-- Anchor names, the last one first, with the numbers of their nodes. -/
  names : List (List Char × Nat)
  anchors : Nat
  targets : List (Nat × Node)
  size : Nat
  deriving Repr

namespace Composer

/-- The next token, if there is one. -/
def peek (s : Composer) : Option Token := s.tokens.head?

/-- Go past a token. -/
def drop (s : Composer) : Composer := { s with tokens := s.tokens.drop 1 }

/-- Count one more part of the document. -/
def count (s : Composer) : Composer := { s with size := s.size + 1 }

/-- The next token is one of some. -/
def nextIn (s : Composer) (ts : List Token) : Bool := s.peek.any fun t => ts.contains t

/-- A node that was left out. -/
def missing (s : Composer) : Node × Composer := (.scalar none .plain [], s.count)

/-- An anchor and a tag in front of a node, in either order. -/
def properties (s : Composer) : Option (List Char) × Option (List Char × List Char) × Composer :=
  match s.tokens with
  | .anchor a :: .tag h r :: rest => (some a, some (h, r), { s with tokens := rest })
  | .anchor a :: rest => (some a, none, { s with tokens := rest })
  | .tag h r :: .anchor a :: rest => (some a, some (h, r), { s with tokens := rest })
  | .tag h r :: rest => (none, some (h, r), { s with tokens := rest })
  | _ => (none, none, s)

/-- The full form of a tag; its handle must have a meaning. -/
def fullTag? (s : Composer) (handle rest : List Char) : Option (List Char) :=
  if handle = [] then some rest
  else (s.handles.find? fun h => h.1 == handle).map fun h => h.2 ++ rest

/-- Give an anchor name to the node that starts here. -/
def name (s : Composer) (a : Option (List Char)) : Composer :=
  match a with
  | none => s
  | some n => { s with names := (n, s.anchors) :: s.names, anchors := s.anchors + 1 }

/-- Keep the node that an anchor was given to. -/
def keep (s : Composer) (a : Option (List Char)) (number : Nat) (n : Node) : Composer :=
  match a with
  | none => s
  | some _ => { s with targets := (number, n) :: s.targets }

mutual

/-- The node that starts here. In a block mapping a sequence need not be indented. -/
def node? : Nat → Bool → Bool → Composer → Option (Node × Composer)
  | 0, _, _, _ => none
  | steps + 1, block, flush, s =>
    match s.tokens with
    | .aliasOf a :: rest =>
      (s.names.find? fun n => n.1 == a).map fun n =>
        (.link n.2, ({ s with tokens := rest } : Composer).count)
    | _ =>
      let (anchor, tag, s) := s.properties
      let tag? : Option (Option (List Char)) :=
        match tag with
        | none => some none
        | some (h, r) => (s.fullTag? h r).map some
      match tag? with
      | none => none
      | some tag =>
        let number := s.anchors
        let s := s.name anchor
        let done := fun (n : Node) (s : Composer) => some (n, s.keep anchor number n)
        match s.tokens with
        | .scalar style text :: rest =>
          done (.scalar tag style text) ({ s with tokens := rest } : Composer).count
        | .flowSequenceStart :: rest =>
          (flowItems? steps true { s with tokens := rest }).bind fun (ns, s) =>
            done (.sequence tag ns) s.count.count
        | .flowMappingStart :: rest =>
          (flowEntries? steps true { s with tokens := rest }).bind fun (es, s) =>
            done (.mapping tag es) s.count.count
        | t :: rest =>
          if flush ∧ t = .blockEntry then
            (flushItems? steps s).bind fun (ns, s) => done (.sequence tag ns) s.count.count
          else if block ∧ t = .blockSequenceStart then
            (blockItems? steps { s with tokens := rest }).bind fun (ns, s) =>
              done (.sequence tag ns) s.count.count
          else if block ∧ t = .blockMappingStart then
            (blockEntries? steps { s with tokens := rest }).bind fun (es, s) =>
              done (.mapping tag es) s.count.count
          else if anchor.isSome ∨ tag.isSome then done (.scalar tag .plain []) s.count
          else none
        | [] => if anchor.isSome ∨ tag.isSome then done (.scalar tag .plain []) s.count else none

/-- A node, or a missing one before any of some tokens. -/
def nodeUnless? : Nat → Bool → Bool → List Token → Composer → Option (Node × Composer)
  | 0, _, _, _, _ => none
  | steps + 1, block, flush, ends, s =>
    if s.nextIn ends then some s.missing else node? steps block flush s

/-- The items of a block sequence, up to its end. -/
def blockItems? : Nat → Composer → Option (List Node × Composer)
  | 0, _ => none
  | steps + 1, s =>
    match s.tokens with
    | .blockEntry :: rest =>
      match nodeUnless? steps true false [.blockEntry, .blockEnd] { s with tokens := rest } with
      | none => none
      | some (n, s) => (blockItems? steps s).map fun (ns, s) => (n :: ns, s)
    | .blockEnd :: rest => some ([], { s with tokens := rest })
    | _ => none

/-- The items of a sequence that is not indented more than the mapping around it. -/
def flushItems? : Nat → Composer → Option (List Node × Composer)
  | 0, _ => none
  | steps + 1, s =>
    match s.tokens with
    | .blockEntry :: rest =>
      match
        nodeUnless? steps true false [.blockEntry, .key, .value, .blockEnd] { s with tokens := rest }
      with
      | none => none
      | some (n, s) => (flushItems? steps s).map fun (ns, s) => (n :: ns, s)
    | _ => some ([], s)

/-- The value of an entry of a block mapping. -/
def blockValue? : Nat → Composer → Option (Node × Composer)
  | 0, _ => none
  | steps + 1, s =>
    match s.tokens with
    | .value :: rest =>
      nodeUnless? steps true true [.key, .value, .blockEnd] { s with tokens := rest }
    | _ => some s.missing

/-- The entries of a block mapping, up to its end. -/
def blockEntries? : Nat → Composer → Option (List (Node × Node) × Composer)
  | 0, _ => none
  | steps + 1, s =>
    match s.tokens with
    | .key :: rest =>
      match nodeUnless? steps true true [.key, .value, .blockEnd] { s with tokens := rest } with
      | none => none
      | some (k, s) =>
        match blockValue? steps s with
        | none => none
        | some (v, s) => (blockEntries? steps s).map fun (es, s) => ((k, v) :: es, s)
    | .blockEnd :: rest => some ([], { s with tokens := rest })
    | _ => none

/-- The value of an entry inside brackets or braces. -/
def flowValue? : Nat → Token → Composer → Option (Node × Composer)
  | 0, _, _ => none
  | steps + 1, close, s =>
    match s.tokens with
    | .value :: rest => nodeUnless? steps false false [.flowEntry, close] { s with tokens := rest }
    | _ => some s.missing

/-- A single entry inside brackets, after its key token. A missing key takes the token after it. -/
def flowPair? : Nat → Composer → Option (Node × Composer)
  | 0, _ => none
  | steps + 1, s =>
    let key? :=
      if s.nextIn [.value, .flowEntry, .flowSequenceEnd] then some s.drop.missing
      else node? steps false false s
    match key? with
    | none => none
    | some (k, s) =>
      (flowValue? steps .flowSequenceEnd s).map fun (v, s) =>
        (.mapping none [(k, v)], s.count.count)

/-- The items of a sequence in brackets, up to the closing one. -/
def flowItems? : Nat → Bool → Composer → Option (List Node × Composer)
  | 0, _, _ => none
  | steps + 1, first, s =>
    match s.tokens with
    | .flowSequenceEnd :: rest => some ([], { s with tokens := rest })
    | ts =>
      let items? : Option (List Token) :=
        if first then some ts
        else
          match ts with
          | .flowEntry :: rest => some rest
          | _ => none
      match items? with
      | none => none
      | some (.flowSequenceEnd :: rest) => some ([], { s with tokens := rest })
      | some ts =>
        let item? :=
          match ts with
          | .key :: rest => flowPair? steps { s with tokens := rest }
          | _ => node? steps false false { s with tokens := ts }
        match item? with
        | none => none
        | some (n, s) => (flowItems? steps false s).map fun (ns, s) => (n :: ns, s)

/-- The entries of a mapping in braces, up to the closing one. -/
def flowEntries? : Nat → Bool → Composer → Option (List (Node × Node) × Composer)
  | 0, _, _ => none
  | steps + 1, first, s =>
    match s.tokens with
    | .flowMappingEnd :: rest => some ([], { s with tokens := rest })
    | ts =>
      let entries? : Option (List Token) :=
        if first then some ts
        else
          match ts with
          | .flowEntry :: rest => some rest
          | _ => none
      match entries? with
      | none => none
      | some (.flowMappingEnd :: rest) => some ([], { s with tokens := rest })
      | some ts =>
        let entry? : Option ((Node × Node) × Composer) :=
          match ts with
          | .key :: rest =>
            match
              nodeUnless? steps false false [.value, .flowEntry, .flowMappingEnd]
                { s with tokens := rest }
            with
            | none => none
            | some (k, s) => (flowValue? steps .flowMappingEnd s).map fun (v, s) => ((k, v), s)
          | _ =>
            (node? steps false false { s with tokens := ts }).map fun (k, s) =>
              let (v, s) := s.missing
              ((k, v), s)
        match entry? with
        | none => none
        | some (e, s) => (flowEntries? steps false s).map fun (es, s) => (e :: es, s)

end

end Composer

/-- The handles that need no directive. -/
def defaultHandles : List (List Char × List Char) :=
  [(['!'], ['!']), (['!', '!'], "tag:yaml.org,2002:".toList)]

/-- The directives in front of a document: the handles they define and the tokens after them. A
version is given at most once and is 1.1 or 1.2; a handle is defined at most once. -/
def readDirectives? : Bool → List (List Char × List Char) → List Token →
    Option (List (List Char × List Char) × List Token)
  | versioned, handles, .version major minor :: rest =>
    if versioned ∨ major ≠ 1 ∨ (minor ≠ 1 ∧ minor ≠ 2) then none
    else readDirectives? true handles rest
  | versioned, handles, .tagDirective h p :: rest =>
    if handles.any fun d => d.1 == h then none
    else readDirectives? versioned (handles ++ [(h, p)]) rest
  | _, handles, rest => some (handles, rest)

/-- Tokens that end a document without content. -/
def isDocumentToken : Token → Bool
  | .version .. | .tagDirective .. | .documentStart | .documentEnd => true
  | _ => false

/-- The node of a document and what follows it. -/
def readContent? (handles : List (List Char × List Char)) (ts : List Token) (mayBeEmpty : Bool) :
    Option (Document × List Token) :=
  let s : Composer := ⟨ts, handles ++ defaultHandles, [], 0, [], 0⟩
  let content? :=
    if mayBeEmpty ∧ (ts.head?.all isDocumentToken) then some s.missing
    else s.node? (4 * ts.length + 4) true false
  content?.map fun (n, s) => (⟨n, s.targets, s.size⟩, s.tokens)

/-- The tokens that remain after a document consist of end markers. -/
def isOver (ts : List Token) : Bool := ts.all fun t => t == .documentEnd

/-- The document of a stream, if it holds one; a stream of several documents is refused. -/
def Document.read? (bs : Bytes) : Option (Option Document) :=
  match (decode? bs).bind tokens? with
  | none => none
  | some [] => some none
  | some (t :: ts) =>
    let document? :=
      match t with
      | .version .. | .tagDirective .. | .documentStart =>
        match readDirectives? false [] (t :: ts) with
        | some (handles, .documentStart :: rest) => readContent? handles rest true
        | _ => none
      | _ => readContent? [] (t :: ts) false
    match document? with
    | some (d, rest) => if isOver rest then some (some d) else none
    | none => none

end LogSetup.Yaml
