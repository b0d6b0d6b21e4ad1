import LogSetup.Loader.Opening
import LogSetup.Proofs.Events.Runs

/-!
# What opening a location leaves behind

Opening a location asks loaders and reports what went wrong; it never reaches a factory.

## Main definitions

- `Locator.resource?` : what a loader holds under a name, where an error counts as nothing

## Main statements

- `Locator.only_openLocation`, `Locator.only_openText` : the events of opening a location
-/

namespace LogSetup.Locator

open Traced

variable (l : Locator)

/-- What the loader holds under a name; a resource that cannot be read counts as none. -/
def resource? (name : String) : Option Source :=
  match l.loader.loadResource name with
  | .ok source => source
  | .error _ => none

theorem value_openResource (name : String) : (l.openResource name).value = l.resource? name := by
  simp only [openResource, loadResource, resource?, value_bind, value_settle]
  cases l.loader.loadResource name <;> rfl

/-! ### The questions to a loader -/

theorem only_loadResource (name : String) : (l.loadResource name).Only Event.IsOpening :=
  (only_emit trivial).bind (only_settle fun _ => trivial)

theorem only_openFile (p : FilePath) : (l.openFile p).Only Event.IsOpening :=
  (only_emit trivial).bind (only_settle fun _ => trivial)

theorem only_openUrl (u : Url) : (l.openUrl u).Only Event.IsOpening :=
  (only_emit trivial).bind (only_settle fun _ => trivial)

/-! ### The ways to open a location -/

theorem only_openResource (name : String) : (l.openResource name).Only Event.IsOpening := by
  refine (l.only_loadResource name).bind ?_
  split
  · exact only_pure _
  · exact (only_report fun _ => trivial).bind (only_pure _)

theorem only_openAsResource (location : Location) :
    (l.openAsResource location).Only Event.IsOpening := by
  rw [openAsResource]
  split
  · exact l.only_openResource _
  · exact only_pure _

theorem only_openAsFile (location : Location) : (l.openAsFile location).Only Event.IsOpening := by
  rw [openAsFile]
  split
  · exact only_pure _
  · refine (l.only_openFile _).bind ?_
    split
    · exact only_pure _
    · exact (only_report fun _ => trivial).bind (only_pure _)

theorem only_openAsUrl (location : Location) : (l.openAsUrl location).Only Event.IsOpening := by
  have missing : ∀ text, (report .error text >>= fun _ => pure (none : Option Source)).Only
      Event.IsOpening := fun _ => (only_report fun _ => trivial).bind (only_pure _)
  cases location with
  | path text => exact missing _
  | resource name => exact missing _
  | url u =>
    simp only [openAsUrl]
    split
    · exact missing _
    · refine (l.only_openUrl u).bind ?_
      split
      · exact only_pure _
      · exact missing _

/-- Opening a location asks loaders and reports; it does nothing else. -/
theorem only_openLocation (location : Location) :
    (l.openLocation location).Only Event.IsOpening := by
  refine Only.firstSome fun way hway => ?_
  simp only [List.mem_cons, List.not_mem_nil, or_false] at hway
  rcases hway with rfl | rfl | rfl
  · exact l.only_openAsFile location
  · exact l.only_openAsResource location
  · exact l.only_openAsUrl location

theorem only_openParsed (raw : String) : (l.openParsed raw).Only Event.IsOpening := by
  refine (only_settle fun _ => trivial).bind ?_
  split
  · exact l.only_openLocation _
  · exact (only_report fun _ => trivial).bind (only_pure _)

theorem only_openLiteralUrl (raw : String) : (l.openLiteralUrl raw).Only Event.IsOpening := by
  rw [openLiteralUrl]
  split
  · exact only_pure _
  · split
    · refine (l.only_openUrl _).bind ?_
      split
      · exact only_pure _
      · exact (only_report fun _ => trivial).bind (only_pure _)
    · exact only_pure _

theorem only_openLiteralFile (raw : String) : (l.openLiteralFile raw).Only Event.IsOpening := by
  refine (l.only_openFile _).bind ?_
  split
  · exact only_pure _
  · exact (only_report fun _ => trivial).bind (only_pure _)

/-- Opening a location as it was written asks loaders and reports; it does nothing else. -/
theorem only_openText (raw : String) : (l.openText raw).Only Event.IsOpening := by
  refine Only.firstSome fun way hway => ?_
  simp only [List.mem_cons, List.not_mem_nil, or_false] at hway
  rcases hway with rfl | rfl | rfl | rfl
  · exact l.only_openParsed raw
  · exact l.only_openLiteralUrl raw
  · exact l.only_openResource raw
  · exact l.only_openLiteralFile raw

end LogSetup.Locator
