import LogSetup.Factories.Canned
import LogSetup.Text.Shown
import LogSetup.World.Resolver

/-!
# Developer texts of the parts of a process

## Main definitions

- `World.shownResolver`, `World.shownProviders` : the large parts
- `Catalog.shown`, `Request.shown`, `Descriptor.shown`, `Canned.shown`, `Source.shown` : values
-/

namespace LogSetup

/-- An IPv6 address. One that stands for an IPv4 address ends in the parts of that address. -/
def Host.shownIpv6 (pieces : List Nat) : List Char :=
  match pieces with
  | [0, 0, 0, 0, 0, 0xFFFF, high, low] =>
    "::ffff:".toList ++ (Host.ipv4 (high * 0x10000 + low)).text
  | _ => Host.ipv6Text pieces

/-- The host of a URL. -/
def Host.shown : Host → Shown
  | .domain name => .call "Domain" [.ofText (String.ofList name)]
  | h@(.ipv4 _) => .call "Ipv4" [.word (String.ofList h.text)]
  | .ipv6 pieces => .call "Ipv6" [.word (String.ofList (Host.shownIpv6 pieces))]

/-- A URL by its parts. -/
def Url.shown (u : Url) : Shown :=
  let ofChars := fun (cs : List Char) => Shown.ofText (String.ofList cs)
  let host := (u.authority.filter Authority.hasHost).map fun a => a.host.shown
  let isOpaque := u.authority.isNone && u.path.head? != some '/'
  .record "Url"
    [("scheme", ofChars u.scheme),
      ("cannot_be_a_base", .ofBool isOpaque),
      ("username", ofChars ((u.authority.map Authority.user).getD [])),
      ("password", .ofOption ((u.authority.bind Authority.password).map ofChars)),
      ("host", .ofOption host),
      ("port", .ofOption ((u.authority.bind Authority.port).map fun p => .ofInt p)),
      ("path", ofChars u.path),
      ("query", .ofOption (u.query.map ofChars)),
      ("fragment", .ofOption (u.fragment.map ofChars))]
    false

/-- A path. -/
def FilePath.shown (p : FilePath) : Shown := .ofBytes p.bytes

/-- A parsed location. -/
def Location.shown : Location → Shown
  | .path text => .call "Path" [(FilePath.ofText text).shown]
  | .resource name => .call "Resource" [.ofText name]
  | .url u => .call "Url" [u.shown]

/-- Where data came from. -/
def Origin.shown : Origin → Shown
  | .file p => .call "File" [p.shown]
  | .url u => .call "Url" [u.shown]
  | .unknown => .word "Unknown"

/-- A source, of which the data is not shown. -/
def Source.shown (s : Source) : Shown :=
  .record "ConfigurationSource" [("origin", s.origin.shown), ("len", .ofInt s.data.length)] false

/-- A loading context. -/
def Locator.shown (l : Locator) : Shown :=
  .record "LoadingContext"
    [("name", .ofText l.context.name), ("loader", .ofText l.loader.kind)] false

/-- The opener of locations. -/
def Locator.shownOpener (l : Locator) : Shown := .record "Locator" [("context", l.shown)] true

/-- A request. -/
def Request.shown (r : Request) : Shown :=
  .record "FactoryRequest"
    [("name", .ofOption (r.name.map .ofText)),
      ("location", .ofOption (r.location.map Location.shown)),
      ("context", r.locator.shown)]
    true

/-- A factory of the list. -/
def Descriptor.shown (d : Descriptor) : Shown :=
  .record "FactoryDescriptor"
    [("name", .ofText d.name), ("rank", .ofInt d.rank), ("types", .list (d.types.map .ofText))]
    false

/-- A candidate. -/
def Candidate.shown {α : Type} (c : Candidate α) : Shown :=
  .record "PluginCandidate" [("name", .ofText c.name), ("rank", .ofInt c.rank)] false

/-- The names of the candidates of every category. -/
def PluginTable.shown {α : Type} (t : PluginTable α) : Shown :=
  .table (t.categories.map fun c => (.ofText c.1, .list (c.2.map fun d => .ofText d.name)))

/-- What a canned factory does. -/
def Verdict.shown : Verdict → Shown
  | .accept => .word "Accept"
  | .decline => .word "Decline"
  | .fail message => .call "Fail" [.ofText message]

/-- A canned factory. -/
def Canned.shown (c : Canned) : Shown :=
  .record "MockConfigurationFactory"
    [("name", .ofText c.name), ("types", .list (c.types.map .ofText)), ("mode", c.verdict.shown),
      ("active", .ofBool c.isActive)]
    false

/-- The catalog. -/
def Catalog.shown (c : Catalog) : Shown :=
  .record "FactoryCatalog"
    [("initialized", .ofBool c.isInitialized), ("factories", .list (c.list.map Descriptor.shown))]
    true

/-- The stages of resolution over a catalog. -/
def Catalog.shownResolving (c : Catalog) : Shown :=
  .record "ResolvingFactory" [("catalog", c.shown)] true

/-- A source of settings, of which the settings are not shown. -/
def Settings.shown : Settings → Shown
  | .memory es =>
    .record "MemoryPropertySource"
      [("properties", .table (es.map fun e => (.ofText e.1, .ofText e.2)))] false
  | .file p es =>
    .record "FilePropertySource" [("path", p.shown), ("properties", .ofInt es.length)] false
  | .environment _ => .record "EnvPropertySource" [("_private", .word "()")] false
  | .chain sources =>
    .record "ChainPropertySource"
      [("sources", .ofText ("[" ++ Text.decimal sources.length ++ " sources]"))] false

namespace World

/-- What resolves configurations. -/
def shownResolver (w : World) : Shown :=
  .record "ConfigurationResolver"
    [("catalog", w.catalog.shown), ("active", .ofText w.currentActive.name),
      ("context", (w.locator w.context).shown)]
    false

/-- The providers. -/
def shownProviders (w : World) : Shown :=
  .record "ProviderRegistry"
    [("initialized", .ofBool w.registry.isInitialized),
      ("providers", .ofInt w.registry.providers.length), ("context", (w.locator w.context).shown)]
    false

/-- The interrupt flag of a thread. -/
def shownInterrupt (w : World) (me : ThreadId) : Shown :=
  .record "InterruptHandle" [("is_interrupted", .ofBool (w.registry.interrupts.isRaised me))] false

/-- A scope. -/
def shownScope : Shown := .record "ContextScope" [] true

/-- A hold of the start-up lock. -/
def shownGuard : Shown := .record "StartupGuard" [] true

end World

end LogSetup
