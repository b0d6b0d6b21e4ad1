import LogSetup.Disk.Path
import LogSetup.Url.Host

/-!
# URLs

A URL keeps its parts in the normal form in which they are written, so writing is concatenation.

## Main definitions

- `Url` : the parts
- `Url.text` : the written form
- `Url.localPath?` : the file that a URL without a host denotes
-/

namespace LogSetup

/-- What stands between the two slashes and the path. -/
structure Authority where
  user : List Char
  password : Option (List Char)
  host : Host
  port : Option Nat
  deriving DecidableEq, Repr

/-- An absolute URL. The path of a URL with an authority is empty or starts with a slash. -/
structure Url where
  scheme : List Char
  authority : Option Authority
  path : List Char
  query : Option (List Char)
  fragment : Option (List Char)
  deriving DecidableEq, Repr

/-- The credentials as written before the host. -/
def Authority.credentials (a : Authority) : List Char :=
  match a.password with
  | some p => a.user ++ ':' :: (p ++ ['@'])
  | none => if a.user = [] then [] else a.user ++ ['@']

/-- The written form of an authority. -/
def Authority.text (a : Authority) : List Char :=
  a.credentials ++ a.host.text ++
    match a.port with
    | some n => ':' :: Text.decimalDigits n
    | none => []

/-- Whether the authority names a host. -/
def Authority.hasHost (a : Authority) : Bool := a.host != .domain []

namespace Url

/-- What stands between the scheme and the path. Without an authority, a path that starts with two
slashes is kept apart from one by `/.`. -/
def lead (u : Url) : List Char :=
  match u.authority with
  | some a => '/' :: '/' :: a.text
  | none => if ['/', '/'].isPrefixOf u.path then ['/', '.'] else []

/-- The written form, as characters. -/
def chars (u : Url) : List Char :=
  u.scheme ++ ':' :: (u.lead ++ u.path ++
    (match u.query with
      | some q => '?' :: q
      | none => []) ++
    match u.fragment with
    | some f => '#' :: f
    | none => [])

/-- The written form. -/
def text (u : Url) : String := String.ofList u.chars

/-- The scheme of URLs that denote files. -/
def fileScheme : List Char := ['f', 'i', 'l', 'e']

/-- The URL has the scheme of files. -/
def isFile (u : Url) : Bool := u.scheme == fileScheme

/-- No host, or the local one. -/
def isLocal (u : Url) : Bool :=
  match u.authority with
  | none => true
  | some a => a.host == .domain [] || a.host == .domain "localhost".toList

/-- A path that ends in a letter and a colon or bar, as a drive does, gets a slash after it. -/
def closeDrive (bytes : Bytes) : Bytes :=
  match bytes.reverse with
  | mark :: letter :: _ :: _ =>
    if (Char.ofNat letter.toNat).isAlpha ∧ (mark = 0x3A ∨ mark = 0x7C) then bytes ++ [0x2F]
    else bytes
  | _ => bytes

/-- The path, with escapes replaced, of a URL that has no host and whose path starts with a
slash. -/
def localPath? (u : Url) : Option FilePath :=
  match u.path with
  | '/' :: rest =>
    if u.isLocal then
      some ⟨closeDrive ((Text.splitOn '/' rest).flatMap fun segment =>
        0x2F :: Percent.decode segment)⟩
    else none
  | _ => none

end Url

end LogSetup
