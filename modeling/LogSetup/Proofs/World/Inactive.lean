import LogSetup.Proofs.Resolving.Inactive
import LogSetup.Proofs.World.Restoring

/-!
# Asking for a configuration past inactive factories

A call that goes through the stages of resolution comes to the same answer whether inactive factories
are listed or not, and hands the same sources to the active ones. What an inactive factory bars is the
exception: a resource that an explicit location names, or a source that is given to the stages
directly, goes to no factory at all when the first one that is eligible for it is inactive.

## Main definitions

- `World.requestOf` : the request that a call sends through the stages
- `World.passOn` : what a call makes of the answer of the stages
- `World.listing` : the state with a given list of factories

## Main statements

- `World.inactive_factories_invisible` : what inactive factories can change, and what not
- `World.not_forall_inactive_invisible` : an inactive factory sends a call from a resource to a file
-/

namespace LogSetup.World

open Resolution

variable {w : World} {me : ThreadId} {name raw : Option String} {ds : List Descriptor}

/-! ### Calls that go through the stages -/

/-- The request that a call sends through the stages. -/
def requestOf (w : World) (me : ThreadId) (name raw : Option String) : Request :=
  ⟨givenName name, locationIn raw, w.locatorFor me⟩

/-- What a call makes of the answer of the stages, which depends on how they are reached. -/
def passOn (w : World) (answer : Except ResolveError Configuration) :
    Except ResolveError Configuration :=
  match w.active with
  | none => answer
  | some _ => asFactory answer

theorem passOn_ok (w : World) (configuration : Configuration) :
    w.passOn (.ok configuration) = .ok configuration := by
  rw [passOn]
  cases w.active <;> rfl

theorem active_of_currentActive (h : w.currentActive = .resolving) :
    w.active = none ∨ w.active = some .resolving := by
  rw [currentActive] at h
  cases hactive : w.active with
  | none => exact .inl rfl
  | some f =>
    rw [hactive] at h
    exact .inr (congrArg some h)

theorem value_getConfiguration_of_resolving (hactive : w.currentActive = .resolving) :
    (w.getConfiguration me name raw).value.1 =
      w.passOn (Resolution.resolve w.listed w.settings (w.requestOf me name raw)).value := by
  rw [getConfiguration, Traced.value_bind, value_readLocation, passOn]
  rcases active_of_currentActive hactive with hnone | hset
  · rw [value_getConfigurationIn_of_none hnone, hnone]
    rfl
  · rw [value_getConfigurationIn_of_resolving hset, hset]
    rfl

theorem handed_resolveAsFactory (w : World) (r : Request) :
    handed (w.resolveAsFactory r).events = handed (w.resolve r).events := by
  rw [resolveAsFactory, Traced.events_bind, handed_append]
  rcases (w.resolve r).value with ⟨answer, after⟩
  cases answer with
  | ok configuration => exact List.append_nil _
  | error e => cases e <;> exact List.append_nil _

theorem handed_resolve (w : World) (r : Request) :
    handed (w.resolve r).events = handed (Resolution.resolve w.listed w.settings r).events := by
  have hfactories : handed w.factories.events = [] :=
    (only_factories w).handed_eq_nil fun _ _ => id
  simp only [resolve, Traced.events_bind, Traced.events_pure, List.append_nil, handed_append,
    hfactories, List.nil_append]
  rfl

theorem handed_getConfiguration_of_resolving (hactive : w.currentActive = .resolving) :
    handed (w.getConfiguration me name raw).events =
      handed (Resolution.resolve w.listed w.settings (w.requestOf me name raw)).events := by
  have hread : handed (readLocation raw).events = [] :=
    (only_readLocation raw).handed_eq_nil fun _ _ => id
  rw [getConfiguration, Traced.events_bind, handed_append, hread, List.nil_append,
    value_readLocation, getConfigurationIn]
  rcases active_of_currentActive hactive with hnone | hset
  · rw [hnone]
    exact handed_resolve w _
  · rw [hset]
    simp only [Traced.events_bind, handed_append, configurationFor, handed_resolveAsFactory,
      handed_resolve]
    rcases (w.resolveAsFactory _).value with ⟨answer, after⟩
    rcases answer with e | _ | configuration <;> exact List.append_nil _

/-! ### Lists with inactive factories -/

/-- The state in which this is the list of factories. -/
def listing (w : World) (ds : List Descriptor) : World :=
  { w with catalog := { w.catalog with isInitialized := true, list := ds } }

theorem value_parse_listing (w : World) (ds : List Descriptor) (s : Source) :
    ((w.listing ds).parse .resolving s).value.1 = .ok (dispatch ds s).value := rfl

theorem handed_parse_listing (w : World) (ds : List Descriptor) (s : Source) :
    handed ((w.listing ds).parse .resolving s).events = handed (dispatch ds s).events := by
  have hevents : ((w.listing ds).parse .resolving s).events = (dispatch ds s).events ++ [] := rfl
  rw [hevents, List.append_nil]

theorem alike_parse_listing {ds' : List Descriptor} {s : Source}
    (h : (dispatch ds s).Alike (dispatch ds' s)) :
    ((w.listing ds).parse .resolving s).value.1 = ((w.listing ds').parse .resolving s).value.1 ∧
      handed ((w.listing ds).parse .resolving s).events =
        handed ((w.listing ds').parse .resolving s).events := by
  rw [value_parse_listing, value_parse_listing, handed_parse_listing, handed_parse_listing]
  exact ⟨congrArg Except.ok h.value, h.handed⟩

/-- With the stages of resolution as the active factory, a call has the same outcome and hands the
same sources to the active factories as if the inactive ones were not listed. The exception is a
location whose resource is barred: the resource is handed to nobody, and the call goes on with the
location as it is written, and then with probing. In the same way a source that is given to the
stages directly goes to nobody when it is barred, and else as if the inactive factories were not
listed. -/
theorem inactive_factories_invisible (w : World) (ds : List Descriptor)
    (hactive : w.currentActive = .resolving) :
    (∀ me name raw, ¬ (w.requestOf me name raw).IsBarred ds →
      ((w.listing ds).getConfiguration me name raw).value.1 =
          ((w.listing (actives ds)).getConfiguration me name raw).value.1 ∧
        handed ((w.listing ds).getConfiguration me name raw).events =
          handed ((w.listing (actives ds)).getConfiguration me name raw).events) ∧
    (∀ me name raw location s, locationIn raw = some location →
      ((w.locatorFor me).openAsResource location).value = some s → IsBarred ds s →
      ((w.listing ds).getConfiguration me name raw).value.1 =
          .ok (((fromLocation (actives ds) (w.locatorFor me) location).value.or
            (probe (actives ds) (w.locatorFor me) (givenName name)).value).getD .default) ∧
        handed ((w.listing ds).getConfiguration me name raw).events =
          handed (orFallback [fromLocation (actives ds) (w.locatorFor me) location,
            probe (actives ds) (w.locatorFor me) (givenName name)]).events) ∧
    (∀ s, ¬ IsBarred ds s →
      ((w.listing ds).parse .resolving s).value.1 =
          ((w.listing (actives ds)).parse .resolving s).value.1 ∧
        handed ((w.listing ds).parse .resolving s).events =
          handed ((w.listing (actives ds)).parse .resolving s).events) ∧
    ∀ s, IsBarred ds s → ((w.listing ds).parse .resolving s).value.1 = .ok none ∧
      handed ((w.listing ds).parse .resolving s).events = [] := by
  have hvalue : ∀ ds me name raw, ((w.listing ds).getConfiguration me name raw).value.1 =
      w.passOn (Resolution.resolve ds w.settings (w.requestOf me name raw)).value :=
    fun ds me name raw => value_getConfiguration_of_resolving (w := w.listing ds) hactive
  have hhanded : ∀ ds me name raw, handed ((w.listing ds).getConfiguration me name raw).events =
      handed (Resolution.resolve ds w.settings (w.requestOf me name raw)).events :=
    fun ds me name raw => handed_getConfiguration_of_resolving (w := w.listing ds) hactive
  refine ⟨?_, ?_, ?_, ?_⟩
  · intro me name raw h
    have halike := resolve_actives w.settings h
    rw [hvalue, hvalue, hhanded, hhanded, halike.value, halike.handed]
    exact ⟨rfl, rfl⟩
  · intro me name raw location s hlocation hs hbarred
    have halike : (Resolution.resolve ds w.settings (w.requestOf me name raw)).Alike _ :=
      resolve_of_isBarred w.settings hlocation hs hbarred
    rw [hvalue, hhanded, halike.value, halike.handed, value_orFallback, passOn_ok, requestOf,
      probeName_givenName]
    exact ⟨rfl, rfl⟩
  · intro s h
    exact alike_parse_listing (dispatch_actives h)
  · intro s h
    obtain ⟨hnone, hnobody⟩ := dispatch_of_isBarred h
    rw [value_parse_listing, handed_parse_listing, hnone, hnobody]
    exact ⟨rfl, rfl⟩

/-- A process in which `app.xml` is a resource and a file. -/
def twoCopies : World :=
  { disk := .empty []
    stores := [.memory ⟨[("app.xml", [.data [0x72]])], [(FilePath.ofText "app.xml", [0x66])], []⟩]
    settings := .memory []
    plugins := .empty
    catalog := .initial
    active := none
    context := ⟨"main", 0⟩
    manifestName := ""
    registry := .initial
    scopes := fun _ => .none }

def switchedOff : Descriptor :=
  .ofFactory "off" 1 (Canned.factory ⟨0, "off", [".xml"], .accept, false, none⟩)

def switchedOn : Descriptor :=
  .ofFactory "on" 2 (Canned.factory ⟨1, "on", [".xml"], .accept, true, none⟩)

theorem isBarred_twoCopies :
    IsBarred [switchedOff, switchedOn] ⟨[0x72], MemoryLoader.originOf "app.xml" 0⟩ := by
  have heligible : ∀ d ∈ [switchedOff, switchedOn],
      eligibleFor ⟨[0x72], MemoryLoader.originOf "app.xml" 0⟩ d = true := by decide +kernel
  have hoff := heligible switchedOff List.mem_cons_self
  have hon := heligible switchedOn (List.mem_cons_of_mem _ List.mem_cons_self)
  exact ⟨switchedOff, List.find?_cons_of_pos hoff, rfl, switchedOn, List.mem_cons_self, hon⟩

/-- The inactive factory bars the resource, so the file is read instead. -/
theorem file_counts_when_resource_is_barred :
    twoCopies.currentActive = .resolving ∧
      ∃ c, ((twoCopies.listing [switchedOff, switchedOn]).getConfiguration 0 none
        (some "app.xml")).value.1 = .ok c ∧ c.location = some "app.xml" := by
  have hactive : twoCopies.currentActive = .resolving := rfl
  obtain ⟨-, hbarred, -⟩ :=
    inactive_factories_invisible twoCopies [switchedOff, switchedOn] hactive
  obtain ⟨hanswer, -⟩ := hbarred 0 none (some "app.xml") (.path "app.xml") _ rfl rfl
    isBarred_twoCopies
  exact ⟨hactive, _, hanswer, by decide +kernel⟩

/-- An inactive factory can change the outcome of a call, and what becomes of a source. -/
theorem not_forall_inactive_invisible :
    (¬ ∀ (w : World) (ds : List Descriptor) (me : ThreadId) (name raw : Option String),
      w.currentActive = .resolving →
      ((w.listing ds).getConfiguration me name raw).value.1 =
        ((w.listing (actives ds)).getConfiguration me name raw).value.1) ∧
    ¬ ∀ (w : World) (ds : List Descriptor) (s : Source),
      ((w.listing ds).parse .resolving s).value.1 =
        ((w.listing (actives ds)).parse .resolving s).value.1 := by
  constructor
  · intro h
    -- the file without the inactive factory's refusal would be the resource
    have hsame := congrArg (fun answer => answer.toOption.bind Configuration.location)
      (h twoCopies [switchedOff, switchedOn] 0 none (some "app.xml") rfl)
    revert hsame
    decide +kernel
  · intro h
    have hsame := congrArg (fun answer => (configurationIn answer).bind Configuration.location)
      (h twoCopies [switchedOff, switchedOn] ⟨[0x66], .file (FilePath.ofText "app.xml")⟩)
    revert hsame
    decide +kernel

end LogSetup.World
