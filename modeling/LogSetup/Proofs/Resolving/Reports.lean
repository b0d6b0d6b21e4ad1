import LogSetup.Proofs.Catalog.Builds
import LogSetup.Proofs.Events.Reports
import LogSetup.Proofs.Loader.Openings
import LogSetup.Proofs.Resolving.Composite
import LogSetup.Resolving.Catalog

/-!
# What goes wrong in the stages is reported

Opening a location, handing a source to factories, asking them, and building them: each of these
catches the errors that it meets, and reports each of them before it goes on.

## Main statements

- `Locator.reports_openLocation`, `Locator.reports_openText` : opening a location
- `Resolution.reports_resolve` : the stages of resolution
- `reports_discoverFactories` : discovery of factories
-/

namespace LogSetup

open Traced

/-! ### Opening -/

namespace Locator

variable {c : Callees}

theorem catches_report {β : Type} {f : Failure} (level : Level) (front : String) (b : β) :
    Catches f (report level (front ++ f.message) >>= fun _ => pure b) :=
  ⟨level, _, b, Failure.isIn_append level front rfl, rfl⟩

theorem catches_message {β : Type} {f : Failure} (level : Level) (b : β) :
    Catches f (report level f.message >>= fun _ => pure b) :=
  ⟨level, _, b, Failure.isIn_self level rfl, rfl⟩

theorem reports_openResource (name : String) : (c.locator.openResource name).Reports c := by
  refine reports_question (.resource name) (fun a ha => ?_) fun e he => ?_
  · rw [ha]
    exact reports_pure _
  · rw [he]
    exact catches_report (f := .load e) .debug _ none

theorem reports_openAsResource (location : Location) :
    (c.locator.openAsResource location).Reports c := by
  rw [openAsResource]
  split
  · exact reports_openResource _
  · exact reports_pure _

theorem reports_openAsFile (location : Location) :
    (c.locator.openAsFile location).Reports c := by
  rw [openAsFile]
  split
  · exact reports_pure _
  · refine reports_question (.file _) (fun a ha => ?_) fun e he => ?_
    · rw [ha]
      exact reports_pure _
    · rw [he]
      exact catches_report (f := .load e) .error _ none

theorem reports_openAsUrl (location : Location) : (c.locator.openAsUrl location).Reports c := by
  have missing : ∀ text, (report .error text >>= fun _ => pure (none : Option Source)).Reports c :=
    fun text => (reports_report .error text).bind (reports_pure _)
  cases location with
  | path text => exact missing _
  | resource name => exact missing _
  | url u =>
    simp only [openAsUrl]
    split
    · exact missing _
    · refine reports_question (.url u) (fun a ha => ?_) fun e he => ?_
      · rw [ha]
        exact reports_pure _
      · rw [he]
        exact catches_report (f := .load e) .error _ none

/-- Whatever goes wrong when a location is opened is reported. -/
theorem reports_openLocation (location : Location) :
    (c.locator.openLocation location).Reports c := by
  refine Reports.firstSome fun way hway => ?_
  simp only [List.mem_cons, List.not_mem_nil, or_false] at hway
  rcases hway with rfl | rfl | rfl
  · exact reports_openAsFile location
  · exact reports_openAsResource location
  · exact reports_openAsUrl location

theorem reports_openPreferringContext (location : Location) :
    (c.locator.openPreferringContext location).Reports c := by
  refine Reports.firstSome fun way hway => ?_
  simp only [List.mem_cons, List.not_mem_nil, or_false] at hway
  rcases hway with rfl | rfl | rfl
  · exact reports_openAsResource location
  · exact reports_openAsFile location
  · exact reports_openAsUrl location

theorem reports_openParsed (raw : String) : (c.locator.openParsed raw).Reports c := by
  refine reports_settle (fun location h => ?_) (fun e he => .location he) fun e he => ?_
  · rw [h]
    exact reports_openLocation location
  · rw [he]
    exact catches_message (f := .load e) .debug none

theorem reports_openLiteralUrl (raw : String) : (c.locator.openLiteralUrl raw).Reports c := by
  rw [openLiteralUrl]
  split
  · exact reports_pure _
  · split
    · refine reports_question (.url _) (fun a ha => ?_) fun e he => ?_
      · rw [ha]
        exact reports_pure _
      · rw [he]
        exact catches_report (f := .load e) .debug _ none
    · exact reports_pure _

theorem reports_openLiteralFile (raw : String) : (c.locator.openLiteralFile raw).Reports c := by
  refine reports_question (.file _) (fun a ha => ?_) fun e he => ?_
  · rw [ha]
    exact reports_pure _
  · rw [he]
    exact catches_report (f := .load e) .debug _ none

/-- Whatever goes wrong when a location is opened as it was written is reported. -/
theorem reports_openText (raw : String) : (c.locator.openText raw).Reports c := by
  refine Reports.firstSome fun way hway => ?_
  simp only [List.mem_cons, List.not_mem_nil, or_false] at hway
  rcases hway with rfl | rfl | rfl | rfl
  · exact reports_openParsed raw
  · exact reports_openLiteralUrl raw
  · exact reports_openResource raw
  · exact reports_openLiteralFile raw

end Locator

/-! ### Factories -/

namespace Resolution

open Locator

variable {c : Callees} {d : Descriptor}

theorem reports_complaint_of_parsed {s : Source} (hd : d ∈ c.listed) :
    AllReported c (.parsed d.factory.id s :: complaint (d.factory.parse s)) := by
  have hanswer : c.Answers (.parsed d.factory.id s) (failureOf .factory (d.factory.parse s)) :=
    .parsed s hd
  cases ha : d.factory.parse s with
  | ok configuration =>
    rw [ha] at hanswer
    exact .answered hanswer .nil
  | error e =>
    rw [ha] at hanswer
    exact .failed hanswer (Failure.isIn_self .error rfl) .nil

theorem reports_parseWith (s : Source) (hd : d ∈ c.listed) : (parseWith s d).Reports c := by
  rw [Reports, events_parseWith]
  split
  · exact reports_complaint_of_parsed hd
  · exact .nil

theorem reports_openAndParse (hd : d ∈ c.listed) :
    AllReported c ((d.factory.openAndParse c.request).events ++
      complaint (d.factory.openAndParse c.request).value) := by
  rw [Factory.openAndParse]
  split
  · rename_i location _ _
    rw [events_bind, value_bind, List.append_assoc]
    refine (reports_openPreferringContext (c := c) location).append ?_
    cases (c.request.locator.openPreferringContext location).value with
    | none => exact .nil
    | some s => exact reports_complaint_of_parsed hd
  · exact .nil

/-- An error of a factory that is asked is reported once, be it an answer of its own or passed on
from parsing what it opened. -/
theorem reports_configurationFor (hd : d ∈ c.listed) :
    (reported (d.configurationFor c.request)).Reports c := by
  rw [Reports, events_reported, Descriptor.configurationFor]
  split
  · have hanswer : c.Answers (.asked d.factory.id) _ := .asked hd
    cases hown : d.factory.own c.request with
    | some answer =>
      simp only [Factory.configurationFor, hown]
      rw [hown] at hanswer
      cases answer with
      | ok configuration => exact .answered hanswer .nil
      | error e => exact .failed hanswer (Failure.isIn_self .error rfl) .nil
    | none =>
      simp only [Factory.configurationFor, hown]
      rw [hown] at hanswer
      exact .answered hanswer (reports_openAndParse hd)
  · exact .nil

theorem reports_firstAccepting (s : Source) (location : String) :
    (firstAccepting c.listed s location).Reports c :=
  Reports.firstSome fun _ hd => reports_parseWith s (List.mem_filter.mp hd).1

theorem reports_dispatch (s : Source) : (dispatch c.listed s).Reports c := by
  rw [dispatch]
  cases hfind : c.listed.find? (eligibleFor s) with
  | none => exact (reports_report _ _).bind (reports_pure _)
  | some d =>
    refine (reports_parseWith s (List.mem_of_find?_eq_some hfind)).bind ?_
    cases (parseWith s d).value with
    | none => exact (reports_report _ _).bind (reports_pure _)
    | some configuration => exact (reports_report _ _).bind (reports_pure _)

/-! ### Stages -/

theorem reports_explicit (location : Location) :
    (explicit c.listed c.locator location).Reports c := by
  refine Reports.firstSome fun way hway => ?_
  simp only [List.mem_cons, List.not_mem_nil, or_false] at hway
  rcases hway with rfl | rfl
  · refine (reports_openAsResource location).bind ?_
    cases (c.locator.openAsResource location).value with
    | none => exact reports_pure _
    | some s => exact reports_dispatch s
  · refine (reports_openLocation location).bind ?_
    cases (c.locator.openLocation location).value with
    | none => exact reports_pure _
    | some s => exact reports_firstAccepting s _

theorem reports_single (seg : String) : (single c.listed c.locator seg).Reports c := by
  refine (reports_openText seg).bind ?_
  cases (c.locator.openText seg).value with
  | none => exact reports_pure _
  | some s => exact reports_firstAccepting s seg

theorem reports_only (seg : String) : (only c.listed c.locator seg).Reports c := by
  rw [Reports, events_only]
  exact reports_single seg

theorem reports_all (segs : List String) : (all c.listed c.locator segs).Reports c := by
  induction segs with
  | nil => exact reports_pure _
  | cons seg rest ih =>
    refine (reports_single seg).bind ?_
    cases (single c.listed c.locator seg).value with
    | none => exact (reports_report _ _).bind (reports_pure _)
    | some configuration =>
      refine ih.bind ?_
      cases (all c.listed c.locator rest).value with
      | ok configurations => exact reports_pure _
      | error e => exact reports_pure _

theorem reports_override (raw : String) : (override c.listed c.locator raw).Reports c := by
  rw [override]
  split
  · exact reports_only _
  · exact reports_only _
  · refine (reports_all _).bind ?_
    split
    · exact reports_pure _
    · exact reports_pure _

theorem reports_askWildcards : (askWildcards c.listed c.request).Reports c :=
  Reports.firstSome fun _ hd => reports_configurationFor (List.mem_filter.mp hd).1

theorem reports_probePass {names : List (Descriptor × String)}
    (h : ∀ entry ∈ names, entry.1 ∈ c.listed) : (probePass c.locator names).Reports c := by
  induction names with
  | nil => exact reports_pure _
  | cons entry rest ih =>
    have hrest := ih fun e he => h e (List.mem_cons_of_mem entry he)
    refine (reports_openResource entry.2).bind ?_
    cases (c.locator.openResource entry.2).value with
    | none => exact hrest
    | some s =>
      exact (reports_report _ _).bind (reports_parseWith s (h entry List.mem_cons_self))

theorem reports_probe (name : Option String) : (probe c.listed c.locator name).Reports c := by
  refine Reports.firstSome fun stem _ => reports_probePass fun entry hentry => ?_
  obtain ⟨d, hd, hname⟩ := List.mem_flatMap.mp hentry
  obtain ⟨_, _, rfl⟩ := List.mem_map.mp hname
  exact (List.mem_filter.mp hd).1

theorem reports_orFallback {stages : List (Traced (Option Configuration))}
    (h : ∀ stage ∈ stages, stage.Reports c) : (orFallback stages).Reports c := by
  refine (Reports.firstSome h).bind ?_
  split
  · exact reports_pure _
  · exact (reports_report _ _).bind (reports_pure _)

/-- Whatever goes wrong in the stages of resolution is reported. -/
theorem reports_resolve (settings : Settings) :
    (resolve c.listed settings c.request).Reports c := by
  have hprobe := reports_probe (c := c) (probeName c.request)
  rw [resolve]
  split
  · rename_i location _
    refine reports_orFallback fun stage hstage => ?_
    simp only [List.mem_cons, List.not_mem_nil, or_false] at hstage
    rcases hstage with rfl | rfl
    · exact reports_explicit location
    · exact hprobe
  · split
    · exact reports_override _
    · refine reports_orFallback fun stage hstage => ?_
      simp only [List.mem_cons, List.not_mem_nil, or_false] at hstage
      rcases hstage with rfl | rfl
      · exact reports_askWildcards
      · exact hprobe

end Resolution

/-! ### Discovery -/

section Discovery

open Locator

variable {c : Callees} {k : Candidate Factory}

theorem reports_buildDescriptor (hk : k ∈ c.plugins.candidates factoryCategory) :
    (buildDescriptor k).Reports c := by
  refine reports_question (.built hk) (fun f hf => ?_) fun e he => ?_
  · rw [hf]
    exact reports_pure _
  · rw [he]
    exact catches_report (f := .plugin e) .error _ []

theorem reports_buildAll {ks : List (Candidate Factory)}
    (h : ∀ k ∈ ks, k ∈ c.plugins.candidates factoryCategory) : (buildAll ks).Reports c := by
  induction ks with
  | nil => exact reports_pure _
  | cons k rest ih =>
    have hrest := ih fun j hj => h j (List.mem_cons_of_mem k hj)
    exact (reports_buildDescriptor (h k List.mem_cons_self)).bind (hrest.bind (reports_pure _))

theorem reports_factoryNamed (name : Option String) : (factoryNamed c.plugins name).Reports c := by
  cases name with
  | none => exact reports_pure _
  | some name =>
    refine reports_settle (fun k hk => ?_) (fun e he => .plugin he) fun e he => ?_
    · rw [hk]
      refine reports_buildDescriptor ?_
      rw [PluginTable.find] at hk
      split at hk
      · cases hk
        exact List.mem_of_find?_eq_some ‹_›
      · cases hk
    · rw [he]
      exact catches_report (f := .plugin e) .error _ []

/-- Whatever goes wrong in discovery is reported. -/
theorem reports_discoverFactories (settings : Settings) :
    (discoverFactories c.plugins settings).Reports c := by
  refine (reports_factoryNamed _).bind ((reports_buildAll fun k hk => ?_).bind ?_)
  · exact (perm_byRank _).mem_iff.mp hk
  · exact (reports_report _ _).bind (reports_pure _)

end Discovery

end LogSetup
