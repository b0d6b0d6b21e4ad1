import LogSetup.Loader.Memory
import LogSetup.Loader.Table
import LogSetup.Proofs.Loader.Openings
import Mathlib.Data.List.Forall2

/-!
# Opening as a search

However a location is opened, the loader is asked one question after another through the first that
is answered with a source. A way to open is thus known from the list of its questions: it yields the
first answer, and an error is no answer, so that it never keeps the next question from being asked.

The two orders in which a parsed location is opened have the same questions in different order. A
location as it was written has the questions of its parsed form and then those of its literal
text.

## Main definitions

- `Locator.found?` : the source that answers a question
- `Locator.Searches` : a call that asks questions through the first that is answered
- `Location.fileQuestions`, `resourceQuestions`, `urlQuestions` : what a location is looked up as

## Main statements

- `Locator.orders_agree` : opening a location in either order
- `Locator.openText_falls_back` : opening a location as it was written
-/

namespace LogSetup

/-! ### The questions for a location -/

namespace Location

/-- The file that a location may denote, as a question. -/
def fileQuestions (location : Location) : List Lookup := location.filePath?.toList.map .file

/-- The resource that a location may name, as a question. -/
def resourceQuestions (location : Location) : List Lookup :=
  location.resourcePath?.toList.map .resource

/-- The URL that a location may be, as a question. Those of files are not opened as URLs. -/
def urlQuestions : Location → List Lookup
  | .url u => if u.isFile then [] else [.url u]
  | _ => []

/-- The questions for a location when files come first. -/
def fileFirst (location : Location) : List Lookup :=
  [location.fileQuestions, location.resourceQuestions, location.urlQuestions].flatten

/-- The questions for a location when resources of the loading context come first. -/
def resourceFirst (location : Location) : List Lookup :=
  [location.resourceQuestions, location.fileQuestions, location.urlQuestions].flatten

end Location

/-- The questions for the parsed form of a location as it was written. -/
def parsedQuestions (raw : String) : List Lookup :=
  match Location.parse raw with
  | .ok location => location.fileFirst
  | .error _ => []

/-- The URL that a text literally is, as a question. A scheme of one letter is none. -/
def literalUrlQuestions (raw : String) : List Lookup :=
  match Url.read raw with
  | .error _ => []
  | .ok u => if 1 < u.scheme.length then [.url u] else []

/-- The questions for a location as it was written. -/
def textQuestions (raw : String) : List Lookup :=
  [parsedQuestions raw, literalUrlQuestions raw, [.resource raw], [.file (.ofText raw)]].flatten

/-! ### Questions and answers -/

namespace Locator

variable {l : Locator}

/-- The file at a path; one that cannot be read counts as none. -/
def file? (l : Locator) (p : FilePath) : Option Source :=
  match l.loader.openFile p with
  | .ok source => source
  | .error _ => none

/-- What a URL denotes, if it can be opened. -/
def url? (l : Locator) (u : Url) : Option Source := (l.loader.openUrl u).toOption

/-- The source that answers a question. The question for all resources of a name is never asked for
a single source. -/
def found? (l : Locator) : Lookup → Option Source
  | .resource name => l.resource? name
  | .resources _ => none
  | .file p => l.file? p
  | .url u => l.url? u

/-- A call that asks questions in order through the first that is answered with a source, and yields
that source. -/
structure Searches (l : Locator) (x : Traced (Option Source)) (questions : List Lookup) : Prop where
  value : x.value = questions.findSome? l.found?
  lookups : lookupsOf l.context.loader x.events =
    upTo (fun q => (l.found? q).isSome) questions

theorem searches_none {x : Traced (Option Source)} (hvalue : x.value = none)
    (hlookups : lookupsOf l.context.loader x.events = []) : l.Searches x [] :=
  ⟨hvalue, hlookups⟩

/-- Searches one after another are a search. -/
theorem Searches.firstSome {α : Type} {call : α → Traced (Option Source)} {as : List α}
    {questions : List (List Lookup)}
    (h : List.Forall₂ (fun a qs => l.Searches (call a) qs) as questions) :
    l.Searches (Traced.firstSome call as) questions.flatten := by
  induction h with
  | nil => exact searches_none rfl rfl
  | @cons a qs as questions ha _ ih =>
    have hany : qs.any (fun q => (l.found? q).isSome) = (call a).value.isSome := by
      rw [ha.value, List.isSome_findSome?]
    constructor
    · rw [List.flatten_cons, List.findSome?_append, ← ha.value, ← ih.value, Traced.firstSome,
        Traced.value_bind]
      cases (call a).value <;> rfl
    · rw [List.flatten_cons, upTo_append, hany, ← ha.lookups, ← ih.lookups, Traced.firstSome,
        Traced.events_bind, lookupsOf_append]
      -- nothing is asked after an answer
      have hunanswered : (call a).value = none → qs = upTo (fun q => (l.found? q).isSome) qs := by
        intro hnone
        refine (upTo_eq_self fun q hq => ?_).symm
        rw [hnone] at hany
        simpa using List.any_eq_false.mp hany q hq
      cases hvalue : (call a).value with
      | some s => simp [lookupsOf]
      | none => simp [ha.lookups, ← hunanswered hvalue]

/-! ### The ways to open a location -/

/-- A question is a search when nothing more is asked, whatever the answer. -/
theorem searches_question {α : Type} {q : Lookup} {answer : Except LoadError α}
    {next : Except LoadError α → Traced (Option Source)} (hvalue : (next answer).value = l.found? q)
    (hnext : ∀ a, lookupsOf l.context.loader (next a).events = []) :
    l.Searches ((do
      Traced.emit (.lookup l.context.loader q)
      Traced.settle .load answer) >>= next) [q] := by
  constructor
  · rw [List.findSome?_singleton, ← hvalue]
    rfl
  · have hsettled : lookupsOf l.context.loader (Traced.settle Failure.load answer).events = [] := by
      cases answer <;> rfl
    have hasked : lookupsOf l.context.loader [.lookup l.context.loader q] = [q] := by
      simp [lookupsOf]
    rw [upTo, upTo, ite_self]
    simp only [Traced.events_bind, Traced.value_bind, Traced.events_emit, lookupsOf_append,
      Traced.value_settle, hsettled, hasked, hnext, List.append_nil]

theorem searches_openResource (name : String) :
    l.Searches (l.openResource name) [.resource name] := by
  refine searches_question ?_ fun a => by cases a <;> rfl
  exact l.value_openResource name

theorem searches_openAsResource (location : Location) :
    l.Searches (l.openAsResource location) location.resourceQuestions := by
  rw [openAsResource, Location.resourceQuestions]
  cases location.resourcePath? with
  | none => exact searches_none rfl rfl
  | some name => exact searches_openResource name

theorem searches_openAsFile (location : Location) :
    l.Searches (l.openAsFile location) location.fileQuestions := by
  rw [openAsFile, Location.fileQuestions]
  cases location.filePath? with
  | none => exact searches_none rfl rfl
  | some p =>
    refine searches_question ?_ fun a => by cases a <;> rfl
    rw [found?, file?]
    cases l.loader.openFile p <;> rfl

theorem searches_openAsUrl (location : Location) :
    l.Searches (l.openAsUrl location) location.urlQuestions := by
  cases location with
  | path text => exact searches_none rfl rfl
  | resource name => exact searches_none rfl rfl
  | url u =>
    simp only [openAsUrl, Location.urlQuestions]
    split
    · exact searches_none rfl rfl
    · refine searches_question ?_ fun a => by cases a <;> rfl
      rw [found?, url?]
      cases l.loader.openUrl u <;> rfl

theorem searches_openLiteralUrl (raw : String) :
    l.Searches (l.openLiteralUrl raw) (literalUrlQuestions raw) := by
  rw [openLiteralUrl, literalUrlQuestions]
  cases Url.read raw with
  | error e => exact searches_none rfl rfl
  | ok u =>
    by_cases hlong : 1 < u.scheme.length
    · simp only [if_pos hlong]
      refine searches_question ?_ fun a => by cases a <;> rfl
      rw [found?, url?]
      cases l.loader.openUrl u <;> rfl
    · simp only [if_neg hlong]
      exact searches_none rfl rfl

theorem searches_openLiteralFile (raw : String) :
    l.Searches (l.openLiteralFile raw) [.file (.ofText raw)] := by
  refine searches_question ?_ fun a => by cases a <;> rfl
  rw [found?, file?]
  cases l.loader.openFile (FilePath.ofText raw) <;> rfl

/-- Opening a location is a search that begins with the file. -/
theorem searches_openLocation (location : Location) :
    l.Searches (l.openLocation location) location.fileFirst :=
  .firstSome (.cons (searches_openAsFile location)
    (.cons (searches_openAsResource location) (.cons (searches_openAsUrl location) .nil)))

/-- Preferring the loading context is a search that begins with the resource. -/
theorem searches_openPreferringContext (location : Location) :
    l.Searches (l.openPreferringContext location) location.resourceFirst :=
  .firstSome (.cons (searches_openAsResource location)
    (.cons (searches_openAsFile location) (.cons (searches_openAsUrl location) .nil)))

theorem searches_openParsed (raw : String) :
    l.Searches (l.openParsed raw) (parsedQuestions raw) := by
  rw [openParsed, parsedQuestions]
  cases Location.parse raw with
  | error e => exact searches_none rfl rfl
  | ok location => exact searches_openLocation location

/-- Opening a location as it was written is a search. -/
theorem searches_openText (raw : String) : l.Searches (l.openText raw) (textQuestions raw) :=
  .firstSome (.cons (searches_openParsed raw) (.cons (searches_openLiteralUrl raw)
    (.cons (searches_openResource raw) (.cons (searches_openLiteralFile raw) .nil))))

/-! ### Either order -/

/-- The file that a location denotes, if there is one that can be read. -/
def fileAt? (l : Locator) (location : Location) : Option Source :=
  location.filePath?.bind l.file?

/-- The resource that a location names, if there is one that can be loaded. -/
def resourceAt? (l : Locator) (location : Location) : Option Source :=
  location.resourcePath?.bind l.resource?

theorem findSome?_fileQuestions (l : Locator) (location : Location) :
    location.fileQuestions.findSome? l.found? = l.fileAt? location := by
  rw [Location.fileQuestions, fileAt?]
  cases location.filePath? <;> simp [found?]

theorem findSome?_resourceQuestions (l : Locator) (location : Location) :
    location.resourceQuestions.findSome? l.found? = l.resourceAt? location := by
  rw [Location.resourceQuestions, resourceAt?]
  cases location.resourcePath? <;> simp [found?]

theorem value_openLocation (l : Locator) (location : Location) :
    (l.openLocation location).value =
      (l.fileAt? location).or ((l.resourceAt? location).or
        (location.urlQuestions.findSome? l.found?)) := by
  rw [(searches_openLocation location).value, Location.fileFirst]
  simp only [List.flatten_cons, List.flatten_nil, List.append_nil, List.findSome?_append,
    findSome?_fileQuestions, findSome?_resourceQuestions]

theorem value_openPreferringContext (l : Locator) (location : Location) :
    (l.openPreferringContext location).value =
      (l.resourceAt? location).or ((l.fileAt? location).or
        (location.urlQuestions.findSome? l.found?)) := by
  rw [(searches_openPreferringContext location).value, Location.resourceFirst]
  simp only [List.flatten_cons, List.flatten_nil, List.append_nil, List.findSome?_append,
    findSome?_fileQuestions, findSome?_resourceQuestions]

/-- The last way to open a location tells that it found nothing. -/
theorem error_of_openAsUrl {location : Location} (h : (l.openAsUrl location).value = none) :
    ∃ text, Event.status ⟨.error, text⟩ ∈ (l.openAsUrl location).events := by
  cases location with
  | path text => exact ⟨_, List.mem_cons_self⟩
  | resource name => exact ⟨_, List.mem_cons_self⟩
  | url u =>
    by_cases hfile : u.isFile = true
    · simp only [openAsUrl, if_pos hfile]
      exact ⟨_, List.mem_cons_self⟩
    · simp only [openAsUrl, if_neg hfile, openUrl, Traced.value_bind, Traced.events_bind,
        Traced.value_settle] at h ⊢
      cases hopen : l.loader.openUrl u with
      | ok source =>
        rw [hopen] at h
        cases h
      | error e => exact ⟨_, List.mem_append_right _ List.mem_cons_self⟩

/-- A search that comes to the last way tells an error when it finds nothing. -/
theorem error_of_firstSome {location : Location}
    {ways : List (Locator → Location → Traced (Option Source))} (hlast : openAsUrl ∈ ways)
    (h : (Traced.firstSome (fun way => way l location) ways).value = none) :
    ∃ text, Event.status ⟨.error, text⟩ ∈
      (Traced.firstSome (fun way => way l location) ways).events := by
  obtain ⟨hurl, hsubset⟩ := Traced.events_subset_firstSome h hlast
  obtain ⟨text, htext⟩ := error_of_openAsUrl hurl
  exact ⟨text, hsubset htext⟩

/-- A file that cannot be opened does not keep the resource from being looked up. -/
theorem resource_mem_lookupsOf_openLocation {location : Location} {p : FilePath} {name : String}
    {e : LoadError} (hpath : location.filePath? = some p) (hopen : l.loader.openFile p = .error e)
    (hname : location.resourcePath? = some name) :
    .resource name ∈ lookupsOf l.context.loader (l.openLocation location).events := by
  have hfile : (l.found? (.file p)).isSome = false := by rw [found?, file?, hopen]; rfl
  rw [(searches_openLocation location).lookups, Location.fileFirst, Location.fileQuestions,
    Location.resourceQuestions, hpath, hname]
  exact mem_upTo_cons.mpr (.inr ⟨hfile, mem_upTo_cons.mpr (.inl rfl)⟩)

/-- The resource is looked up first where the loading context is preferred. -/
theorem resource_mem_lookupsOf_openPreferringContext {location : Location} {name : String}
    (hname : location.resourcePath? = some name) :
    .resource name ∈ lookupsOf l.context.loader (l.openPreferringContext location).events := by
  rw [(searches_openPreferringContext location).lookups, Location.resourceFirst,
    Location.resourceQuestions, hname]
  exact mem_upTo_cons.mpr (.inl rfl)

/-- Either order of opening finds something where the other does. What they find differs only where
there are both a file and a resource, of which each order finds the one that it looks for first. An
order that finds nothing has told an error, and an error of the file does not keep either of them
from looking for the resource. -/
theorem orders_agree (l : Locator) (location : Location) :
    (l.openLocation location).value.isSome = (l.openPreferringContext location).value.isSome ∧
    (∀ file resource, l.fileAt? location = some file → l.resourceAt? location = some resource →
      (l.openLocation location).value = some file ∧
      (l.openPreferringContext location).value = some resource) ∧
    (l.fileAt? location = none ∨ l.resourceAt? location = none →
      (l.openLocation location).value = (l.openPreferringContext location).value) ∧
    ((l.openLocation location).value = none →
      ∃ text, Event.status ⟨.error, text⟩ ∈ (l.openLocation location).events) ∧
    ((l.openPreferringContext location).value = none →
      ∃ text, Event.status ⟨.error, text⟩ ∈ (l.openPreferringContext location).events) ∧
    ∀ p e name, location.filePath? = some p → l.loader.openFile p = .error e →
      location.resourcePath? = some name →
      .resource name ∈ lookupsOf l.context.loader (l.openLocation location).events ∧
      .resource name ∈ lookupsOf l.context.loader (l.openPreferringContext location).events := by
  refine ⟨?_, ?_, ?_, error_of_firstSome (by simp), error_of_firstSome (by simp), ?_⟩
  · rw [value_openLocation, value_openPreferringContext]
    cases l.fileAt? location <;> cases l.resourceAt? location <;> rfl
  · intro file resource hfile hresource
    rw [value_openLocation, value_openPreferringContext, hfile, hresource]
    exact ⟨rfl, rfl⟩
  · intro hone
    rw [value_openLocation, value_openPreferringContext]
    rcases hone with hnone | hnone <;> rw [hnone, Option.none_or, Option.none_or]
  · intro p e name hpath hopen hname
    exact ⟨resource_mem_lookupsOf_openLocation hpath hopen hname,
      resource_mem_lookupsOf_openPreferringContext hname⟩

/-- A loader that holds `app.xml` as a resource and as a file. -/
def doubled : Locator :=
  ⟨⟨"main", 0⟩, (MemoryLoader.empty.addResource "app.xml" (.data [1])).addFile
    (.ofText "app.xml") [2] |>.loader⟩

/-- A loader that holds the resource `app.xml` and fails on every file. -/
def locked : Locator :=
  ⟨⟨"main", 0⟩,
    { (TableLoader.mk [("app.xml", .data [1])]).loader (.empty []) with
      openFile := fun p => .error (.io p.display (.other "permission denied")) }⟩

/-- Of a file and a resource under one name each order prefers another one. A file that fails leaves
the resource to both orders, and a location without a resource is told by both. -/
theorem doubled_and_locked_open :
    ((doubled.openLocation (.path "app.xml")).value.map Source.data = some [2] ∧
      (doubled.openPreferringContext (.path "app.xml")).value.map Source.data = some [1]) ∧
    ((locked.openLocation (.path "app.xml")).value =
        (locked.openPreferringContext (.path "app.xml")).value ∧
      Lookup.resource "app.xml" ∈ lookupsOf 0 (locked.openLocation (.path "app.xml")).events ∧
      Lookup.resource "app.xml" ∈
        lookupsOf 0 (locked.openPreferringContext (.path "app.xml")).events) ∧
    (∃ text, Event.status ⟨.error, text⟩ ∈ (locked.openLocation (.path "b.xml")).events) ∧
    ∃ text,
      Event.status ⟨.error, text⟩ ∈ (locked.openPreferringContext (.path "b.xml")).events := by
  obtain ⟨-, hboth, -⟩ := orders_agree doubled (.path "app.xml")
  obtain ⟨hfile, hresource⟩ := hboth _ _ rfl rfl
  obtain ⟨-, -, hone, -, -, hfailed⟩ := orders_agree locked (.path "app.xml")
  obtain ⟨-, -, -, hlocation, hpreferring, -⟩ := orders_agree locked (.path "b.xml")
  refine ⟨⟨?_, ?_⟩, ⟨hone (.inl rfl), hfailed _ _ _ rfl rfl rfl⟩, hlocation rfl, hpreferring rfl⟩
  · rw [hfile]
    rfl
  · rw [hresource]
    rfl

/-! ### A location as it was written -/

/-- What the URL denotes that a text literally is. A scheme of one letter is none. -/
def literalUrl? (l : Locator) (raw : String) : Option Source :=
  match Url.read raw with
  | .error _ => none
  | .ok u => if 1 < u.scheme.length then l.url? u else none

/-- What the parsed form of a location opens to. -/
def parsed? (l : Locator) (raw : String) : Option Source :=
  match Location.parse raw with
  | .ok location => (l.openLocation location).value
  | .error _ => none

theorem findSome?_parsedQuestions (l : Locator) (raw : String) :
    (parsedQuestions raw).findSome? l.found? = l.parsed? raw := by
  rw [parsedQuestions, parsed?]
  cases Location.parse raw with
  | error e => rfl
  | ok location => exact (searches_openLocation location).value.symm

theorem findSome?_literalUrlQuestions (l : Locator) (raw : String) :
    (literalUrlQuestions raw).findSome? l.found? = l.literalUrl? raw := by
  rw [literalUrlQuestions, literalUrl?]
  cases Url.read raw with
  | error e => rfl
  | ok u => by_cases hlong : 1 < u.scheme.length <;> simp [hlong, found?]

theorem value_openText (l : Locator) (raw : String) :
    (l.openText raw).value =
      (l.parsed? raw).or
        ([l.literalUrl? raw, l.resource? raw, l.file? (.ofText raw)].findSome? id) := by
  rw [(searches_openText raw).value, textQuestions]
  simp only [List.flatten_cons, List.flatten_nil, List.append_nil, List.findSome?_append,
    findSome?_parsedQuestions, findSome?_literalUrlQuestions, List.findSome?_singleton, found?]
  cases l.literalUrl? raw <;> cases l.resource? raw <;> cases l.file? (.ofText raw) <;> rfl

theorem parsed?_eq_none_iff {raw : String} :
    l.parsed? raw = none ↔
      ∀ location, Location.parse raw = .ok location → (l.openLocation location).value = none := by
  rw [parsed?]
  cases Location.parse raw with
  | error e => simp
  | ok location => simp

theorem value_openText_eq_none_iff {raw : String} :
    (l.openText raw).value = none ↔
      (∀ location, Location.parse raw = .ok location → (l.openLocation location).value = none) ∧
      l.literalUrl? raw = none ∧ l.resource? raw = none ∧ l.file? (.ofText raw) = none := by
  rw [value_openText, ← parsed?_eq_none_iff, Option.or_eq_none_iff, List.findSome?_eq_none_iff]
  simp

/-- A location as it was written is what its parsed form opens to. Only when that is nothing, it is
the first of what it literally is: a URL, a resource, a file. Whatever went wrong before, the last
two are found where they are there. -/
theorem openText_falls_back (l : Locator) (raw : String) :
    (∀ location s, Location.parse raw = .ok location → (l.openLocation location).value = some s →
      (l.openText raw).value = some s) ∧
    ((∀ location, Location.parse raw = .ok location → (l.openLocation location).value = none) →
      (l.openText raw).value =
        [l.literalUrl? raw, l.resource? raw, l.file? (.ofText raw)].findSome? id) ∧
    ((l.openText raw).value = none ↔
      (∀ location, Location.parse raw = .ok location → (l.openLocation location).value = none) ∧
      l.literalUrl? raw = none ∧ l.resource? raw = none ∧ l.file? (.ofText raw) = none) ∧
    (∀ s, l.loader.loadResource raw = .ok (some s) → (l.openText raw).value.isSome = true) ∧
    ∀ s, l.loader.openFile (.ofText raw) = .ok (some s) → (l.openText raw).value.isSome = true := by
  refine ⟨?_, ?_, value_openText_eq_none_iff, ?_, ?_⟩
  · intro location s hparse hopen
    have hparsed : l.parsed? raw = some s := by rw [parsed?, hparse]; exact hopen
    rw [value_openText, hparsed, Option.some_or]
  · intro hnone
    rw [value_openText, parsed?_eq_none_iff.mpr hnone, Option.none_or]
  · intro s hload
    have hresource : l.resource? raw = some s := by rw [resource?, hload]
    by_contra hnone
    rw [Option.not_isSome_iff_eq_none, value_openText_eq_none_iff] at hnone
    rw [hnone.2.2.1] at hresource
    cases hresource
  · intro s hopen
    have hfile : l.file? (.ofText raw) = some s := by rw [file?, hopen]
    by_contra hnone
    rw [Option.not_isSome_iff_eq_none, value_openText_eq_none_iff] at hnone
    rw [hnone.2.2.2] at hfile
    cases hfile

/-- A loader whose names are those of locations only when they are taken literally, one of them
apart. -/
def literals : Locator :=
  ⟨⟨"main", 0⟩, (TableLoader.mk [("app.xml", .data [1]), (" app.json", .data [2])]).loader
    ((FileTree.empty []).addFile [Utf8.encode "http:", Utf8.encode "["] [3])⟩

/-- The parsed form counts where it opens. Otherwise the literal text does, also where the parsed
form is another name and where there is none. -/
theorem literals_open :
    (literals.openText "app.xml").value = some (.ofBytes [1]) ∧
    (Location.parse " app.json" = .ok (.path "app.json") ∧
      (literals.openText " app.json").value = some (.ofBytes [2]) ∧
      (literals.openText " app.json").value.isSome = true) ∧
    (Location.parse "http://[").toOption = none ∧
    (literals.openText "http://[").value.isSome = true := by
  have hparse : Location.parse " app.json" = .ok (.path "app.json") := rfl
  obtain ⟨hopens, -⟩ := openText_falls_back literals "app.xml"
  obtain ⟨-, hfirst, -, hloads, -⟩ := openText_falls_back literals " app.json"
  obtain ⟨-, -, -, -, hfile⟩ := openText_falls_back literals "http://["
  refine ⟨hopens (.path "app.xml") _ rfl rfl, ⟨hparse, ?_, hloads _ rfl⟩, by decide +kernel,
    hfile _ rfl⟩
  rw [hfirst fun location hlocation => ?_]
  · rfl
  · rw [hparse] at hlocation
    cases hlocation
    rfl

end Locator

end LogSetup
