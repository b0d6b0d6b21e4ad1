import LogSetup.Proofs.Events.Runs
import LogSetup.Resolving.Pipeline

/-!
# What factories make of a source

One statement for each way to find a factory for a source: which configuration comes out, and which
factories are handed the source.

## Main definitions

- `configurationIn` : the configuration in an answer
- `Descriptor.result` : what a factory of the list makes of a source
- `Descriptor.direct` : what it answers when it is asked

## Main statements

- `Resolution.value_firstAccepting`, `Resolution.handed_firstAccepting` : all factories eligible
  for a location, in order
- `Resolution.value_dispatch`, `Resolution.handed_dispatch` : the first one eligible for a source
-/

namespace LogSetup

/-- The configuration in an answer. A refusal and an error hold none. -/
def configurationIn : Answer → Option Configuration
  | .ok configuration => configuration
  | .error _ => none

/-- The events by which an error of a factory is noted. -/
def complaint : Answer → List Event
  | .ok _ => []
  | .error e => [.failed (.factory e), .status ⟨.error, e.message⟩]

@[simp] theorem handed_complaint (a : Answer) : handed (complaint a) = [] := by cases a <;> rfl

namespace Descriptor

/-- What a factory of the list makes of a source. An inactive one makes nothing of it. -/
def result (d : Descriptor) (s : Source) : Option Configuration :=
  if d.isActive then configurationIn (d.factory.parse s) else none

/-- What a factory of the list answers when it is asked for a configuration. -/
def direct (d : Descriptor) (r : Request) : Option Configuration :=
  if d.isActive then configurationIn (d.factory.configurationFor r).value else none

theorem isActive_of_result {d : Descriptor} {s : Source} {c : Configuration}
    (h : d.result s = some c) : d.isActive = true := by
  by_cases hd : d.isActive = true
  · exact hd
  · rw [result, if_neg hd] at h
    cases h

theorem parse_of_result {d : Descriptor} {s : Source} {c : Configuration}
    (h : d.result s = some c) : d.factory.parse s = .ok (some c) := by
  rw [result, if_pos (isActive_of_result h)] at h
  cases ha : d.factory.parse s with
  | ok answer => rw [ha] at h; exact congrArg Except.ok h
  | error e => rw [ha] at h; cases h

end Descriptor

namespace Resolution

/-! ### One factory -/

theorem value_reported (x : Traced Answer) : (reported x).value = configurationIn x.value := by
  simp only [reported, Traced.answered, Traced.value_bind, Traced.value_settle]
  cases x.value <;> rfl

theorem events_reported (x : Traced Answer) :
    (reported x).events = x.events ++ complaint x.value := by
  simp only [reported, Traced.answered, Traced.events_bind, Traced.value_bind, Traced.settle]
  cases x.value <;> simp [complaint]

/-- What a factory makes of a source. -/
theorem value_parseWith (s : Source) (d : Descriptor) : (parseWith s d).value = d.result s := by
  rw [parseWith, value_reported, Descriptor.parse, Descriptor.result]
  split <;> rfl

/-- A factory is handed the source if it is active. -/
theorem events_parseWith (s : Source) (d : Descriptor) :
    (parseWith s d).events =
      if d.isActive then .parsed d.factory.id s :: complaint (d.factory.parse s) else [] := by
  rw [parseWith, events_reported, Descriptor.parse]
  split <;> rfl

theorem handed_parseWith (s : Source) (d : Descriptor) :
    handed (parseWith s d).events = if d.isActive then [(d.factory.id, s)] else [] := by
  rw [events_parseWith]
  split
  · exact congrArg _ (handed_complaint _)
  · rfl

theorem only_parseWith (s : Source) (d : Descriptor) :
    (parseWith s d).Only Event.IsParsing := by
  intro e he
  rw [events_parseWith] at he
  split at he
  · rcases List.mem_cons.mp he with rfl | he
    · trivial
    · cases ha : d.factory.parse s with
      | ok c => rw [ha] at he; cases he
      | error cause =>
        rw [ha] at he
        simp only [complaint, List.mem_cons, List.not_mem_nil, or_false] at he
        rcases he with rfl | rfl <;> trivial
  · cases he

/-! ### All factories eligible for a location -/

/-- The first eligible factory that makes a configuration of the source gives the result. -/
theorem value_firstAccepting (ds : List Descriptor) (s : Source) (location : String) :
    (firstAccepting ds s location).value =
      (ds.filter fun d => d.eligible location).findSome? fun d => d.result s := by
  simp only [firstAccepting, Traced.value_firstSome, value_parseWith]

/-- The eligible factories are handed the source in order, through the first that makes a
configuration of it. Inactive ones are passed over. -/
theorem handed_firstAccepting (ds : List Descriptor) (s : Source) (location : String) :
    handed (firstAccepting ds s location).events =
      (upTo (fun d => (d.result s).isSome) (ds.filter fun d => d.eligible location)).flatMap
        fun d => if d.isActive then [(d.factory.id, s)] else [] := by
  simp only [firstAccepting, Traced.events_firstSome, value_parseWith, handed_flatMap,
    handed_parseWith]

theorem only_firstAccepting (ds : List Descriptor) (s : Source) (location : String) :
    (firstAccepting ds s location).Only Event.IsParsing :=
  Traced.Only.firstSome fun d _ => only_parseWith s d

/-! ### The first factory eligible for a source -/

/-- Only the first factory that is eligible for the source can give the result. -/
theorem value_dispatch (ds : List Descriptor) (s : Source) :
    (dispatch ds s).value = (ds.find? (eligibleFor s)).bind fun d => d.result s := by
  rw [dispatch]
  cases ds.find? (eligibleFor s) with
  | none => rfl
  | some d =>
    simp only [Traced.value_bind, value_parseWith, Option.bind_some]
    cases d.result s <;> rfl

/-- Only the first factory that is eligible for the source is handed it. -/
theorem handed_dispatch (ds : List Descriptor) (s : Source) :
    handed (dispatch ds s).events =
      (ds.find? (eligibleFor s)).toList.flatMap
        fun d => if d.isActive then [(d.factory.id, s)] else [] := by
  rw [dispatch]
  cases ds.find? (eligibleFor s) with
  | none => rfl
  | some d =>
    simp only [Traced.events_bind, handed_append, handed_parseWith, value_parseWith]
    cases d.result s <;> simp [handed]

end Resolution

end LogSetup
