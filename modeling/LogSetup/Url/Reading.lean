import LogSetup.Url.Basic

/-!
# Reading a URL

Blanks and control characters at the ends are dropped, and so are tabs and line breaks anywhere.
What remains is cut into scheme, authority, path, query and fragment, and each part is brought into
normal form: hosts and schemes in small letters, default ports left out, dot segments resolved,
forbidden characters escaped.

## Main definitions

- `Url.read` : the URL that a text denotes, or why it denotes none
- `Url.resolveSegments` : a path without dot segments
-/

namespace LogSetup.Url

/-- Drop control characters and spaces at both ends, and tabs and line breaks everywhere. -/
def clean (cs : List Char) : List Char :=
  let ended := fun (l : List Char) => l.dropWhile fun c => decide (c.toNat ≤ 0x20)
  (ended (ended cs).reverse).reverse.filter fun c => c != '\t' && c != '\n' && c != '\r'

/-- The kinds of scheme. -/
inductive SchemeKind where
  | file
  | special
  | plain
  deriving DecidableEq, Repr

/-- The port that a scheme uses when none is written. -/
def defaultPort? (scheme : List Char) : Option Nat :=
  match String.ofList scheme with
  | "http" | "ws" => some 80
  | "https" | "wss" => some 443
  | "ftp" => some 21
  | _ => none

/-- The kind of a scheme. -/
def SchemeKind.of (scheme : List Char) : SchemeKind :=
  if scheme = fileScheme then .file
  else if (defaultPort? scheme).isSome then .special
  else .plain

/-- A backslash separates like a slash, except under a plain scheme. -/
def SchemeKind.isSlash (k : SchemeKind) (c : Char) : Bool :=
  c == '/' || (c == '\\' && k != .plain)

/-- Characters that may follow the first letter of a scheme. -/
def isSchemeChar (c : Char) : Bool := c.isAlphanum || c == '+' || c == '-' || c == '.'

/-- The scheme in small letters and the text after its colon. -/
def cutScheme? (cs : List Char) : Option (List Char × List Char) :=
  match Text.cut? ':' cs with
  | some (c :: front, rest) =>
    if c.isAlpha ∧ front.all isSchemeChar then some (Text.lowerAscii (c :: front), rest) else none
  | _ => none

/-! ### Paths -/

/-- A letter and a colon or bar. -/
def isDrive : List Char → Bool
  | [c, mark] => c.isAlpha && (mark == ':' || mark == '|')
  | _ => false

/-- A single dot, plain or escaped. -/
def isDot (s : List Char) : Bool :=
  Text.lowerAscii s == ['.'] || Text.lowerAscii s == ['%', '2', 'e']

/-- Two dots, each plain or escaped. -/
def isDoubleDot (s : List Char) : Bool :=
  ["..", ".%2e", "%2e.", "%2e%2e"].any fun d => Text.lowerAscii s == d.toList

/-- Segments read so far, without the last, unless that one is a drive. -/
def dropLast (done : List (List Char)) : List (List Char) :=
  match done.getLast? with
  | some s => if isDrive s then done else done.dropLast
  | none => []

/-- In the path of a file a drive is written with a colon. -/
def settleDrive (kind : SchemeKind) (s : List Char) : List Char :=
  match kind, s with
  | .file, [c, mark] => if isDrive [c, mark] then [c, ':'] else s
  | _, _ => s

/-- In the path of a file, a first segment that goes on after a drive is cut there. -/
def cutDrive? (kind : SchemeKind) (done : List (List Char)) :
    List Char → Option (List Char × List Char)
  | c :: ':' :: d :: rest =>
    if kind = .file ∧ done = [] ∧ c.isAlpha then some ([c, ':'], d :: rest) else none
  | _ => none

/-- Resolve dot segments. `done` are the segments that a slash has closed. -/
def resolveSegments (kind : SchemeKind) (done : List (List Char)) :
    List (List Char) → List (List Char)
  | [] => done
  | [last] =>
    match cutDrive? kind done last with
    | some (drive, rest) => done ++ [drive, rest]
    | none =>
      if isDoubleDot last then dropLast done ++ [[]]
      else if isDot last then done ++ [[]]
      else done ++ [settleDrive kind last]
  | s :: rest =>
    match cutDrive? kind done s with
    | some (drive, more) => resolveSegments kind (done ++ [drive, more]) rest
    | none =>
      if isDoubleDot s then resolveSegments kind (dropLast done) rest
      else if isDot s then resolveSegments kind done rest
      else resolveSegments kind (done ++ [settleDrive kind s]) rest

/-- The segments of a path text, escaped. -/
def segmentsOf (kind : SchemeKind) (cs : List Char) : List (List Char) :=
  (Text.splitOn '/' (cs.map fun c => if kind.isSlash c then '/' else c)).map
    (Percent.encode Percent.pathSet)

/-- The path with the given segments. -/
def pathOfSegments (segments : List (List Char)) : List Char := segments.flatMap fun s => '/' :: s

/-- The path of a file starts with one slash only. -/
def singleSlash (path : List Char) : List Char := '/' :: path.dropWhile (· == '/')

/-- Whether a drive is a segment of a path as written; a file URL with one has no host. -/
def holdsDrive (segments : List (List Char)) : Bool := segments.any isDrive

/-- The path text without the slash that starts it. -/
def afterSlash (kind : SchemeKind) : List Char → List Char
  | c :: rest => if kind.isSlash c then rest else c :: rest
  | [] => []

/-- The path of a URL that is no file, read from the text after the authority. -/
def readPath (kind : SchemeKind) (cs : List Char) : List Char :=
  match kind, cs with
  | .plain, [] => []
  | _, _ => pathOfSegments (resolveSegments kind [] (segmentsOf kind (afterSlash kind cs)))

/-! ### Query and fragment -/

/-- A text cut at its first question mark or hash: path, query and fragment as they stand. -/
structure Parts where
  path : List Char
  query : Option (List Char)
  fragment : Option (List Char)
  deriving Repr

/-- Cut off fragment and query. -/
def Parts.of (cs : List Char) : Parts :=
  let (body, fragment) :=
    match Text.cut? '#' cs with
    | some (b, f) => (b, some f)
    | none => (cs, none)
  match Text.cut? '?' body with
  | some (p, q) => ⟨p, some q, fragment⟩
  | none => ⟨body, none, fragment⟩

/-- A URL with escaped query and fragment. -/
def assemble (scheme : List Char) (authority : Option Authority) (path : List Char)
    (parts : Parts) : Url :=
  let set := if SchemeKind.of scheme = .plain then Percent.querySet else Percent.specialQuerySet
  { scheme, authority, path
    query := parts.query.map (Percent.encode set)
    fragment := parts.fragment.map (Percent.encode Percent.fragmentSet) }

/-! ### Authorities -/

/-- The text before the first slash, and that slash and what follows. -/
def cutAuthority (kind : SchemeKind) (cs : List Char) : List Char × List Char :=
  (cs.takeWhile fun c => !kind.isSlash c, cs.dropWhile fun c => !kind.isSlash c)

/-- The text before the last at sign and the text after it. -/
def cutCredentials? (cs : List Char) : Option (List Char × List Char) :=
  (Text.cut? '@' cs.reverse).map fun (host, front) => (front.reverse, host.reverse)

/-- User name and password; an empty password counts as none. -/
def readCredentials (cs : List Char) : List Char × Option (List Char) :=
  let encode := Percent.encode Percent.userSet
  match Text.cut? ':' cs with
  | some (user, []) => (encode user, none)
  | some (user, password) => (encode user, some (encode password))
  | none => (encode cs, none)

/-- The host text and the port text: the first colon outside brackets separates them. -/
def cutPort (brackets : Bool) : List Char → List Char × Option (List Char)
  | [] => ([], none)
  | c :: rest =>
    if c = ':' ∧ !brackets then ([], some rest)
    else
      let (host, port) :=
        cutPort (if c = '[' then true else if c = ']' then false else brackets) rest
      (c :: host, port)

/-- A port number; no digits mean no port, and so does the default of the scheme. -/
def readPort (scheme cs : List Char) : Except UrlError (Option Nat) :=
  if cs = [] then .ok none
  else
    match (if cs.all Char.isDigit then Text.readDigits? 10 cs else none) with
    | none => .error .invalidPort
    | some n =>
      if 65535 < n then .error .invalidPort
      else if defaultPort? scheme = some n then .ok none
      else .ok (some n)

/-- The authority written between the slashes and the path, and what a backslash after the port
keeps for the path. `atEnd` says that nothing follows the authority. -/
def readAuthority (kind : SchemeKind) (scheme cs : List Char) (atEnd : Bool) :
    Except UrlError (Authority × List Char) :=
  let credentials? := cutCredentials? cs
  let (user, password) :=
    match credentials? with
    | some (front, _) => readCredentials front
    | none => ([], none)
  let rest := (credentials?.map (·.2)).getD cs
  let (hostText, afterColon) := cutPort false rest
  let portText := (afterColon.getD []).takeWhile (· != '\\')
  let left := (afterColon.getD []).dropWhile (· != '\\')
  if credentials?.map (·.1) = some [] ∧ rest = [] ∧ !atEnd then .error .emptyHost
  else if kind = .special ∧ hostText = [] then .error .emptyHost
  else
    match (if kind = .special then Host.read hostText else Host.readPlain hostText) with
    | .error e => .error e
    | .ok host =>
      if host = .domain [] ∧ afterColon.isSome then .error .emptyHost
      else
        match readPort scheme portText with
        | .error e => .error e
        | .ok port =>
          let a : Authority := ⟨user, password, host, port⟩
          if host = .domain [] ∧ a.credentials ≠ [] then .error .emptyHost else .ok (a, left)

/-- A URL with an authority, read from the text after the two slashes. -/
def readHierarchical (kind : SchemeKind) (scheme : List Char) (parts : Parts) :
    Except UrlError Url :=
  let (authorityText, pathText) := cutAuthority kind parts.path
  let atEnd := pathText = [] ∧ parts.query.isNone ∧ parts.fragment.isNone
  match readAuthority kind scheme authorityText (decide atEnd) with
  | .error e => .error e
  | .ok (a, left) => .ok (assemble scheme (some a) (readPath kind (left ++ pathText)) parts)

/-! ### Files -/

/-- An authority that names a host only. -/
def hostOnly (host : Host) : Authority := ⟨[], none, host, none⟩

/-- A file URL with the given host and the path written as the given text. -/
def fileUrl (host : Host) (path : List Char) (parts : Parts) : Url :=
  let segments := segmentsOf .file path
  let host := if holdsDrive segments then .domain [] else host
  assemble fileScheme (some (hostOnly host))
    (singleSlash (pathOfSegments (resolveSegments .file [] segments))) parts

/-- A file URL, read from the text after the colon. After two slashes comes a host, unless a drive
stands there; `localhost` is no host. -/
def ofFile (parts : Parts) : Except UrlError Url :=
  let noHost : Host := .domain []
  match parts.path with
  | a :: b :: rest =>
    if SchemeKind.file.isSlash a ∧ SchemeKind.file.isSlash b then
      let (hostText, pathText) := cutAuthority .file rest
      if isDrive hostText then .ok (fileUrl noHost rest parts)
      else if hostText = [] then .ok (fileUrl noHost pathText parts)
      else
        match Host.read hostText with
        | .error e => .error e
        | .ok host =>
          if host = .domain "localhost".toList then .ok (fileUrl noHost pathText parts)
          else .ok (fileUrl host (afterSlash .file pathText) parts)
    else .ok (fileUrl noHost (afterSlash .file parts.path) parts)
  | short => .ok (fileUrl noHost (afterSlash .file short) parts)

/-! ### All kinds -/

/-- A URL with a scheme that is not special, read from the text after the colon. -/
def readPlain (scheme : List Char) (cs : List Char) : Except UrlError Url :=
  match cs with
  | '/' :: '/' :: rest => readHierarchical .plain scheme (Parts.of rest)
  | '/' :: rest =>
    let parts := Parts.of rest
    let segments := resolveSegments .plain [] (segmentsOf .plain parts.path)
    .ok (assemble scheme none (pathOfSegments segments) parts)
  | _ =>
    let parts := Parts.of cs
    .ok (assemble scheme none (Percent.encode Percent.controlSet parts.path) parts)

/-- The URL that a list of characters denotes. -/
def readChars (cs : List Char) : Except UrlError Url :=
  match cutScheme? (clean cs) with
  | none => .error .relativeWithoutBase
  | some (scheme, rest) =>
    match SchemeKind.of scheme with
    | .file => ofFile (Parts.of rest)
    | .special =>
      readHierarchical .special scheme (Parts.of (rest.dropWhile SchemeKind.special.isSlash))
    | .plain => readPlain scheme rest

/-- The URL that a text denotes. -/
def read (s : String) : Except UrlError Url := readChars s.toList

end LogSetup.Url
