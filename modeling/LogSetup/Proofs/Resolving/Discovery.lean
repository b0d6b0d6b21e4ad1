import LogSetup.Proofs.Events.Runs
import LogSetup.Resolving.Catalog

/-!
# What discovery does

Discovery builds plug-ins and reports, and nothing else. Of the settings it reads only the one that
names a factory.

## Main statements

- `only_discoverFactories`, `Catalog.only_factories` : the events of discovery
- `discoverFactories_congr` : settings that matter to it
-/

namespace LogSetup

open Traced

theorem only_buildDescriptor (c : Candidate Factory) :
    (buildDescriptor c).Only Event.IsBuilding := by
  have hbuild : c.instantiate.Only Event.IsBuilding :=
    (only_emit trivial).bind (only_settle fun _ => trivial)
  refine hbuild.bind ?_
  cases c.instantiate.value with
  | ok f => exact only_pure _
  | error e => exact (only_report fun _ => trivial).bind (only_pure _)

theorem only_buildAll (cs : List (Candidate Factory)) : (buildAll cs).Only Event.IsBuilding := by
  induction cs with
  | nil => exact only_pure _
  | cons c rest ih => exact (only_buildDescriptor c).bind (ih.bind (only_pure _))

theorem only_namedFactory (plugins : PluginTable Factory) (settings : Settings) :
    (namedFactory plugins settings).Only Event.IsBuilding := by
  rw [namedFactory]
  cases settings.get? factorySetting with
  | none => exact only_pure _
  | some name =>
    refine Only.bind (only_settle fun _ => trivial) ?_
    cases (plugins.lookup factoryCategory name).value with
    | ok c => exact only_buildDescriptor c
    | error e => exact (only_report fun _ => trivial).bind (only_pure _)

/-- Discovery builds plug-ins and reports; it does nothing else. -/
theorem only_discoverFactories (plugins : PluginTable Factory) (settings : Settings) :
    (discoverFactories plugins settings).Only Event.IsBuilding := by
  refine (only_namedFactory plugins settings).bind ((only_buildAll _).bind ?_)
  exact (only_report fun _ => trivial).bind (only_pure _)

/-- Discovery reads only the setting that names a factory. -/
theorem discoverFactories_congr (plugins : PluginTable Factory) {s t : Settings}
    (h : s.get? factorySetting = t.get? factorySetting) :
    discoverFactories plugins s = discoverFactories plugins t := by
  rw [discoverFactories, discoverFactories, namedFactory, namedFactory, h]

theorem Catalog.only_factories {kind : Event → Prop} {discovery : Traced (List Descriptor)}
    (h : discovery.Only kind) (c : Catalog) : (c.factories discovery).Only kind := by
  rw [factories]
  split
  · exact only_pure _
  · exact h.bind (only_pure _)

end LogSetup
