import LogSetup.Proofs.Loader.Origins
import LogSetup.Proofs.Loader.Searches
import LogSetup.Proofs.Resolving.Composite
import LogSetup.Proofs.Resolving.Consulting
import LogSetup.Proofs.Resolving.Ranking
import LogSetup.Proofs.Source.Locations
import Mathlib.Logic.Relation

/-!
# URLs that a loader holds

What is added under a URL, in the form in which the URL is written, is what the URL opens to until
something else is added under it. A location with that text reads it, be it given explicitly or in
the settings. A scheme of one letter is taken for a drive, and no URL is asked for then; the scheme
of resources names a resource, which an explicit location does not go beyond.

## Main definitions

- `MemoryLoader.Spares` : a change that adds nothing under a URL, in whatever spelling
- `Locator.Unrivalled` : neither a file nor a resource takes precedence over a location
- `Resolution.Reads` : a source is handed to the factories that take a location, as if it was found
- `Locator.ReadsExplicitly`, `Locator.ReadsFromSettings` : the two ways to give a location

## Main statements

- `added_url_is_read` : what was added under a URL is found under it
- `not_forall_added_url_is_read` : not in every spelling, and not by every location
-/

namespace LogSetup

variable {u : Url} {text : String} {d : Bytes} {s : Source}

/-! ### What is kept under a URL -/

namespace MemoryLoader

/-- A change of the content that adds nothing under a URL, in whatever spelling. -/
inductive Spares (u : Url) : MemoryLoader → MemoryLoader → Prop
  | add (m : MemoryLoader) (name : String) (d : Deposit) : Spares u m (m.addResource name d)
  | remove (m : MemoryLoader) (name : String) : Spares u m (m.removeResource name)
  | file (m : MemoryLoader) (p : FilePath) (data : Bytes) : Spares u m (m.addFile p data)
  | url (m : MemoryLoader) (text : String) (data : Bytes) (h : Url.read text ≠ .ok u) :
      Spares u m (m.addUrl text data)

/-- What was added last under a text. -/
def addedAs? (m : MemoryLoader) (text : String) : Option Bytes :=
  (m.urls.find? fun e => e.1 == text).map (·.2)

variable {m m' : MemoryLoader}

theorem addedAs?_addUrl (m : MemoryLoader) (other : String) (d : Bytes) :
    (m.addUrl other d).addedAs? text = if other = text then some d else m.addedAs? text := by
  by_cases h : other = text
  · simp [addedAs?, addUrl, h]
  · simp [addedAs?, addUrl, h]

theorem Spares.addedAs?_eq (h : Spares u m m') (hread : Url.read text = .ok u) :
    m'.addedAs? text = m.addedAs? text := by
  cases h with
  | add name d => rfl
  | remove name => rfl
  | file p data => rfl
  | url other data hother =>
    rw [addedAs?_addUrl, if_neg]
    rintro rfl
    exact hother hread

theorem addedAs?_of_spares (h : Relation.ReflTransGen (Spares u) m m')
    (hread : Url.read text = .ok u) : m'.addedAs? text = m.addedAs? text := by
  induction h with
  | refl => rfl
  | tail _ hstep ih => exact (hstep.addedAs?_eq hread).trans ih

/-- A URL that is no file opens to what was added last under its written form. -/
theorem openUrl_of_addedAs? (hfile : u.isFile = false) (h : m.addedAs? u.text = some d) :
    m.openUrl u = .ok ⟨d, .url u⟩ := by
  obtain ⟨e, he, rfl⟩ := Option.map_eq_some_iff.mp h
  refine (openUrl_eq_ok_iff_of_url fun p hp => ?_).mpr ⟨e, he, rfl⟩
  rw [Origin.ofUrl_eq_file_iff, hfile] at hp
  exact Bool.false_ne_true hp.1

end MemoryLoader

/-! ### The location that a written URL is -/

namespace Location

/-- The text that a URL is written as is a resource, a URL or a path, by the scheme. -/
theorem parse_of_written (hread : Url.read text = .ok u) (hwritten : u.text = text) :
    (IsResourceScheme u.scheme → ∃ name, parse text = .ok (.resource name)) ∧
    (¬ IsResourceScheme u.scheme →
      parse text = .ok (if 1 < u.scheme.length then .url u else .path text)) := by
  obtain ⟨hresource, hplain⟩ := afterResourceScheme?_text hread
  have hne := trim_text_ne_empty hread
  have htrim := Url.trim_text_of_read hread
  rw [hwritten] at hresource hplain hne htrim
  constructor
  · intro hscheme
    obtain ⟨rest, hrest⟩ := hresource hscheme
    exact ⟨_, parse_of_resource hrest⟩
  · intro hscheme
    rw [parse_of_plain hne (hplain hscheme), htrim, ofPlain, hread]

theorem not_isResourceScheme_of_length {scheme : List Char} (h : scheme.length = 1) :
    ¬ IsResourceScheme scheme := by
  rintro (rfl | rfl) <;> exact absurd h (by decide)

end Location

/-! ### Opening it -/

namespace Locator

variable {l : Locator}

/-- Neither a file nor a resource takes precedence over a location as it was written. -/
def Unrivalled (l : Locator) (text : String) : Prop :=
  ∀ location, Location.parse text = .ok location →
    l.fileAt? location = none ∧ l.resourceAt? location = none

theorem value_openLocation_url (hfile : u.isFile = false) (hopen : l.loader.openUrl u = .ok s) :
    (l.openLocation (.url u)).value = some s := by
  have hpath : l.fileAt? (.url u) = none := by
    rw [fileAt?, Location.filePath?, hfile]
    rfl
  have hresource : l.resourceAt? (.url u) = none := rfl
  have hfound : l.found? (.url u) = some s := by
    rw [found?, url?, hopen]
    rfl
  rw [value_openLocation, hpath, hresource, Location.urlQuestions, hfile]
  simpa using hfound

/-- The text of a URL opens to what the URL opens to: by way of its location, or else literally. -/
theorem value_openText_url (hread : Url.read text = .ok u) (hwritten : u.text = text)
    (hfile : u.isFile = false) (hlong : 1 < u.scheme.length) (hopen : l.loader.openUrl u = .ok s)
    (hrival : l.Unrivalled text) : (l.openText text).value = some s := by
  have hliteral : l.literalUrl? text = some s := by
    rw [literalUrl?, hread]
    simp only [if_pos hlong, url?, hopen]
    rfl
  obtain ⟨hresource, hplain⟩ := Location.parse_of_written hread hwritten
  rw [value_openText, hliteral]
  by_cases hscheme : Location.IsResourceScheme u.scheme
  · obtain ⟨name, hname⟩ := hresource hscheme
    obtain ⟨hnofile, hnoresource⟩ := hrival _ hname
    have hnone : l.parsed? text = none := by
      rw [parsed?, hname]
      show (l.openLocation _).value = none
      rw [value_openLocation, hnofile, hnoresource]
      rfl
    rw [hnone]
    rfl
  · have hparsed : l.parsed? text = some s := by
      rw [parsed?, hplain hscheme, if_pos hlong]
      exact value_openLocation_url hfile hopen
    rw [hparsed]
    rfl

/-- Where the scheme is one letter, no URL is asked for. -/
theorem url_not_mem_lookupsOf (hread : Url.read text = .ok u) (hwritten : u.text = text)
    (hshort : u.scheme.length = 1) (v : Url) :
    .url v ∉ lookupsOf l.context.loader (l.openLocation (.path text)).events ∧
      .url v ∉ lookupsOf l.context.loader (l.openText text).events := by
  have hparse := (Location.parse_of_written hread hwritten).2
    (Location.not_isResourceScheme_of_length hshort)
  rw [if_neg (by omega)] at hparse
  have hpath : Lookup.url v ∉ (Location.path text).fileFirst := by
    simp [Location.fileFirst, Location.fileQuestions, Location.resourceQuestions,
      Location.urlQuestions]
  constructor
  · rw [(searches_openLocation _).lookups]
    exact fun h => hpath (mem_of_mem_upTo h)
  · rw [(searches_openText text).lookups]
    intro h
    have hmem := mem_of_mem_upTo h
    rw [textQuestions, parsedQuestions, hparse, literalUrlQuestions, hread] at hmem
    simp [hshort, hpath] at hmem

end Locator

/-! ### Reading it -/

namespace Resolution

variable {l : Locator}

/-- A source is handed to the factories that take a location and to no other ones, and the answer is
theirs. -/
structure Reads (ds : List Descriptor) (s : Source) (text : String)
    (x : Traced (Option Configuration)) : Prop where
  value : x.value = (firstAccepting ds s text).value
  handed : handed x.events = LogSetup.handed (firstAccepting ds s text).events

theorem reads_explicit_url (ds : List Descriptor) (hfile : u.isFile = false)
    (hopen : l.loader.openUrl u = .ok s) : Reads ds s u.text (explicit ds l (.url u)) := by
  have hlocation := Locator.value_openLocation_url hfile hopen
  have hresource : (fromResource ds l (.url u)).value = none := rfl
  constructor
  · rw [value_explicit, hresource, Option.none_or, value_fromLocation, hlocation]
    rfl
  · have hnothing : LogSetup.handed (fromResource ds l (.url u)).events = [] := rfl
    rw [handed_explicit, hresource, hnothing, handed_fromLocation, hlocation]
    simp [Location.display]

theorem reads_single (ds : List Descriptor) (h : (l.openText text).value = some s) :
    Reads ds s text (single ds l text) := by
  have hopening : LogSetup.handed (l.openText text).events = [] :=
    (l.only_openText text).handed_eq_nil fun _ _ => id
  rw [single_of_openText h]
  constructor
  · rw [Traced.value_bind]
  · rw [Traced.events_bind, handed_append, hopening, List.nil_append]

end Resolution

namespace Locator

variable {l : Locator}

/-- Given explicitly, a text reads a source. -/
def ReadsExplicitly (l : Locator) (text : String) (s : Source) : Prop :=
  ∃ location, Location.parse text = .ok location ∧
    ∀ ds, Resolution.Reads ds s text (Resolution.explicit ds l location)

/-- As a location of the settings, a text reads a source; it answers as the source does where it is
the only location. -/
def ReadsFromSettings (l : Locator) (text : String) (s : Source) : Prop :=
  ∀ ds, Resolution.Reads ds s text (Resolution.single ds l text) ∧
    ∀ raw, Resolution.segments raw = [text] →
      handed (Resolution.override ds l raw).events =
        handed (Resolution.firstAccepting ds s text).events ∧
      ∀ c, (Resolution.override ds l raw).value = .ok c ↔
        (Resolution.firstAccepting ds s text).value = some c

theorem readsFromSettings_of_openText (h : (l.openText text).value = some s) :
    l.ReadsFromSettings text s := by
  intro ds
  have hreads := Resolution.reads_single ds h
  refine ⟨hreads, fun raw hraw => ?_⟩
  rw [Resolution.override_of_segments_eq hraw, Resolution.events_only, hreads.handed]
  refine ⟨rfl, fun c => ?_⟩
  rw [Resolution.value_only_eq_ok_iff, hreads.value]

end Locator

/-- What was added under a URL in its written form is found under the URL as long as nothing else is
added under it in any spelling. It is read by a location with that text: by an explicit one unless
the scheme is that of resources, and by one of the settings over which neither a file nor a resource
takes precedence. Where the scheme is one letter, the location is a path and asks for no URL. -/
theorem added_url_is_read {m m' : MemoryLoader} (hread : Url.read text = .ok u)
    (hwritten : u.text = text) (hfile : u.isFile = false)
    (hchanges : Relation.ReflTransGen (MemoryLoader.Spares u) (m.addUrl text d) m') :
    m'.loader.openUrl u = .ok ⟨d, .url u⟩ ∧
    ∀ l : Locator, l.loader = m'.loader →
      (1 < u.scheme.length →
        (¬ Location.IsResourceScheme u.scheme → l.ReadsExplicitly text ⟨d, .url u⟩) ∧
        (l.Unrivalled text → l.ReadsFromSettings text ⟨d, .url u⟩)) ∧
      (u.scheme.length = 1 → Location.parse text = .ok (.path text) ∧
        ∀ v, .url v ∉ lookupsOf l.context.loader (l.openLocation (.path text)).events ∧
          .url v ∉ lookupsOf l.context.loader (l.openText text).events) := by
  have hadded : m'.addedAs? u.text = some d := by
    rw [hwritten, MemoryLoader.addedAs?_of_spares hchanges hread, MemoryLoader.addedAs?_addUrl,
      if_pos rfl]
  have hopen : m'.loader.openUrl u = .ok ⟨d, .url u⟩ :=
    MemoryLoader.openUrl_of_addedAs? hfile hadded
  obtain ⟨-, hplain⟩ := Location.parse_of_written hread hwritten
  refine ⟨hopen, fun l hl => ?_⟩
  rw [← hl] at hopen
  refine ⟨fun hlong => ⟨fun hscheme => ?_, fun hrival => ?_⟩, fun hshort => ⟨?_, fun v => ?_⟩⟩
  · refine ⟨.url u, by rw [hplain hscheme, if_pos hlong], fun ds => ?_⟩
    have hreads := Resolution.reads_explicit_url ds hfile hopen
    rwa [hwritten] at hreads
  · exact Locator.readsFromSettings_of_openText
      (Locator.value_openText_url hread hwritten hfile hlong hopen hrival)
  · rw [hplain (Location.not_isResourceScheme_of_length hshort), if_neg (by omega)]
  · exact Locator.url_not_mem_lookupsOf hread hwritten hshort v

/-- The URL `https://h/a.xml`. -/
def remote : Url :=
  ⟨"https".toList, some ⟨[], none, .domain "h".toList, none⟩, "/a.xml".toList, none, none⟩

/-- The URL `classpath:a.xml`. -/
def resourceUrl : Url := ⟨"classpath".toList, none, "a.xml".toList, none, none⟩

/-- The URL `c:/a.xml`. -/
def driveUrl : Url := ⟨['c'], none, "/a.xml".toList, none, none⟩

/-- A locator whose loader holds one URL. -/
def holding (text : String) : Locator := ⟨⟨"main", 0⟩, (MemoryLoader.empty.addUrl text [1]).loader⟩

theorem unrivalled_of_parse {l : Locator} (location : Location)
    (hparse : Location.parse text = .ok location) (hfile : l.fileAt? location = none)
    (hresource : l.resourceAt? location = none) : l.Unrivalled text := by
  intro location' hlocation
  rw [hparse] at hlocation
  cases hlocation
  exact ⟨hfile, hresource⟩

theorem read_resourceUrl : Url.read "classpath:a.xml" = .ok resourceUrl := by decide +kernel

theorem read_driveUrl : Url.read "c:/a.xml" = .ok driveUrl := by decide +kernel

theorem parse_resourceUrl : Location.parse "classpath:a.xml" = .ok (.resource "a.xml") := by
  decide +kernel

theorem unrivalled_resourceUrl : (holding "classpath:a.xml").Unrivalled "classpath:a.xml" :=
  unrivalled_of_parse _ parse_resourceUrl rfl rfl

/-- A URL is read in both ways, also after another one was added; one with the scheme of resources
from the settings; and one with a scheme of one letter is opened, but its location is a path. -/
theorem three_schemes_are_read :
    (∃ l : Locator,
      l.loader = ((MemoryLoader.empty.addUrl "https://h/a.xml" [1]).addUrl "https://h/" []).loader ∧
      l.ReadsExplicitly "https://h/a.xml" ⟨[1], .url remote⟩ ∧
      l.ReadsFromSettings "https://h/a.xml" ⟨[1], .url remote⟩) ∧
    (holding "classpath:a.xml").ReadsFromSettings "classpath:a.xml" ⟨[1], .url resourceUrl⟩ ∧
    (holding "c:/a.xml").loader.openUrl driveUrl = .ok ⟨[1], .url driveUrl⟩ ∧
    Location.parse "c:/a.xml" = .ok (.path "c:/a.xml") := by
  have hremote : Url.read "https://h/a.xml" = .ok remote := by decide +kernel
  have hother : Url.read "https://h/" ≠ .ok remote := by decide +kernel
  obtain ⟨-, hremotely⟩ := added_url_is_read (m := .empty) (d := [1]) hremote rfl rfl
    (.single (.url _ _ [] hother))
  obtain ⟨-, hresourcely⟩ :=
    added_url_is_read (m := .empty) (d := [1]) read_resourceUrl rfl rfl .refl
  obtain ⟨hopen, hdrively⟩ :=
    added_url_is_read (m := .empty) (d := [1]) read_driveUrl rfl rfl .refl
  refine ⟨⟨⟨⟨"main", 0⟩, _⟩, rfl, ?_⟩, ?_, hopen, ((hdrively (holding _) rfl).2 rfl).1⟩
  · obtain ⟨hexplicit, hsettings⟩ := (hremotely ⟨⟨"main", 0⟩, _⟩ rfl).1 (by decide)
    refine ⟨hexplicit ?_, hsettings ?_⟩
    · rintro (h | h) <;> exact absurd h (by decide)
    · exact unrivalled_of_parse (.url remote) (by decide +kernel) rfl rfl
  · exact ((hresourcely (holding _) rfl).1 (by decide)).2 unrivalled_resourceUrl

/-- One factory, for the ending of the locations above. -/
def xmlOnly : List Descriptor :=
  [.ofFactory "xml" 0 (Canned.factory ⟨0, "xml", [".xml"], .accept, true, none⟩)]

/-- A URL that is added in another spelling than it is written is not found. Although neither a file
nor a resource takes precedence, one with a scheme of one letter is not read from the settings, and
one with the scheme of resources is not read by an explicit location. -/
theorem not_forall_added_url_is_read :
    (¬ ∀ (m m' : MemoryLoader) (text : String) (u : Url) (d : Bytes), Url.read text = .ok u →
      u.isFile = false → Relation.ReflTransGen (MemoryLoader.Spares u) (m.addUrl text d) m' →
      m'.loader.openUrl u = .ok ⟨d, .url u⟩) ∧
    (¬ ∀ (m m' : MemoryLoader) (text : String) (u : Url) (d : Bytes), Url.read text = .ok u →
      u.text = text → u.isFile = false →
      Relation.ReflTransGen (MemoryLoader.Spares u) (m.addUrl text d) m' →
      ∀ l : Locator, l.loader = m'.loader → l.Unrivalled text →
        l.ReadsFromSettings text ⟨d, .url u⟩) ∧
    ¬ ∀ (m m' : MemoryLoader) (text : String) (u : Url) (d : Bytes), Url.read text = .ok u →
      u.text = text → u.isFile = false → 1 < u.scheme.length →
      Relation.ReflTransGen (MemoryLoader.Spares u) (m.addUrl text d) m' →
      ∀ l : Locator, l.loader = m'.loader → l.Unrivalled text →
        l.ReadsExplicitly text ⟨d, .url u⟩ := by
  refine ⟨fun hall => ?_, fun hall => ?_, fun hall => ?_⟩
  · have hread : Url.read "HTTPS://H/a.xml" = .ok remote := by decide +kernel
    exact absurd (hall .empty _ _ _ [1] hread rfl .refl) (by decide +kernel)
  · have hrival : (holding "c:/a.xml").Unrivalled "c:/a.xml" :=
      unrivalled_of_parse (.path "c:/a.xml") (by decide +kernel) rfl rfl
    have hreads := hall .empty _ _ _ [1] read_driveUrl rfl rfl .refl (holding _) rfl hrival
    exact absurd (hreads xmlOnly).1.handed (by decide +kernel)
  · obtain ⟨location, hlocation, hreads⟩ := hall .empty _ _ _ [1] read_resourceUrl rfl rfl
      (by decide) .refl (holding _) rfl unrivalled_resourceUrl
    rw [parse_resourceUrl] at hlocation
    cases hlocation
    exact absurd (hreads xmlOnly).handed (by decide +kernel)

end LogSetup
