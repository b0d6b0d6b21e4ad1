import LogSetup.Factories.Canned
import LogSetup.Proofs.Resolving.Discovery
import LogSetup.Proofs.Resolving.Override
import LogSetup.World.Resolver

/-!
# The ordered choice of a configuration

Where no factory was set, a request is answered by one ordered choice between the stages. Which
stage comes first depends only on whether the request has a location and whether the settings have
one. A stage that yields nothing leaves no trace in the answer of the next.

## Main definitions

- `World.listed`, `World.locatorFor`, `locationIn`, `givenName` : what a request is resolved with
- `Resolution.wildcardAnswer` : the direct answer of the first factory that has one
- `World.IsOverridden` : the answer comes from the settings alone

## Main statements

- `World.getConfiguration_ordered_choice` : the answer, in every case
-/

namespace LogSetup

/-! ### What a request is resolved with -/

/-- The location that a text stands for. A text that stands for none counts as no text. -/
def locationIn (raw : Option String) : Option Location :=
  raw.bind fun text => (Location.parse text).toOption

/-- The name in a request. An empty name counts as none. -/
def givenName (name : Option String) : Option String := name.filter fun n => n != ""

namespace Resolution

/-- The direct answer of the first active factory that takes any location and answers with a
configuration. -/
def wildcardAnswer (ds : List Descriptor) (r : Request) : Option Configuration :=
  (ds.filter fun d => d.isActive && d.acceptsAll).findSome? fun d =>
    configurationIn (d.factory.configurationFor r).value

theorem value_configurationFor (d : Descriptor) (r : Request) :
    (reported (d.configurationFor r)).value = d.direct r := by
  rw [value_reported, Descriptor.configurationFor, Descriptor.direct]
  split <;> rfl

theorem value_askWildcards (ds : List Descriptor) (r : Request) :
    (askWildcards ds r).value = wildcardAnswer ds r := by
  rw [askWildcards, Traced.value_firstSome, wildcardAnswer]
  simp only [value_configurationFor]
  -- an inactive factory answers nothing, so the search may leave it out
  induction ds with
  | nil => rfl
  | cons d rest ih =>
    by_cases hall : d.acceptsAll = true
    · rw [List.filter_cons_of_pos hall, List.findSome?_cons, Descriptor.direct]
      by_cases hd : d.isActive = true
      · rw [if_pos hd, List.filter_cons_of_pos (by simp [hd, hall]), List.findSome?_cons, ih]
      · rw [if_neg hd, List.filter_cons_of_neg (by simp [hd]), ih]
    · rw [List.filter_cons_of_neg hall, List.filter_cons_of_neg (by simp [hall]), ih]

/-- The name of a request is the one that takes part in conventional names. -/
theorem probeName_givenName (name : Option String) (location : Option Location) (l : Locator) :
    probeName ⟨givenName name, location, l⟩ = givenName name := by
  cases name with
  | none => rfl
  | some n => by_cases hn : n = "" <;> simp [probeName, givenName, Option.filter, hn]

/-- Of two stages the first that has an answer counts, and the fallback after both. -/
theorem value_orFallback (x y : Traced (Option Configuration)) :
    (orFallback [x, y]).value = .ok ((x.value.or y.value).getD .default) := by
  rw [orFallback, Traced.value_bind, Traced.value_firstSome]
  simp only [List.findSome?_cons, List.findSome?_nil]
  cases hx : x.value <;> cases hy : y.value <;> simp [hx, hy, fallback]

end Resolution

namespace World

open Resolution

variable {w : World} {me : ThreadId} {name raw : Option String}

/-- The factories that a request is resolved with. -/
def listed (w : World) : List Descriptor := w.factories.value.1

/-- The locator that a request of a thread is resolved with. -/
def locatorFor (w : World) (me : ThreadId) : Locator := w.locator (w.findContext me)

theorem value_readLocation (raw : Option String) : (readLocation raw).value = locationIn raw := by
  cases raw with
  | none => rfl
  | some text =>
    rw [readLocation, Traced.value_bind, Traced.value_settle, locationIn, Option.bind_some]
    cases Location.parse text <;> rfl

theorem only_readLocation (raw : Option String) : (readLocation raw).Only Event.IsBuilding := by
  cases raw with
  | none => exact Traced.only_pure _
  | some text =>
    refine (Traced.only_settle fun _ => trivial).bind ?_
    split
    · exact Traced.only_pure _
    · exact (Traced.only_report fun _ => trivial).bind (Traced.only_pure _)

theorem only_factories (w : World) : w.factories.Only Event.IsBuilding :=
  (Catalog.only_factories (only_discoverFactories _ _) _).bind (Traced.only_pure _)

/-- Where no factory was set, a request is resolved in stages. -/
theorem value_getConfiguration (hactive : w.active = none) :
    (w.getConfiguration me name raw).value.1 =
      (Resolution.resolve w.listed w.settings
        ⟨givenName name, locationIn raw, w.locatorFor me⟩).value := by
  rw [getConfiguration, Traced.value_bind, value_readLocation, getConfigurationIn, hactive]
  rfl

theorem events_getConfiguration (hactive : w.active = none) :
    (w.getConfiguration me name raw).events =
      (readLocation raw).events ++ (w.factories.events ++
        (Resolution.resolve w.listed w.settings
          ⟨givenName name, locationIn raw, w.locatorFor me⟩).events) := by
  rw [getConfiguration, Traced.events_bind, value_readLocation, getConfigurationIn, hactive]
  simp only [resolve, Traced.events_bind, Traced.events_pure, List.append_nil]
  rfl

/-- Of the state, a call changes at most the list of factories. -/
theorem state_getConfiguration (hactive : w.active = none) :
    (w.getConfiguration me name raw).value.2 = w.factories.value.2 := by
  rw [getConfiguration, Traced.value_bind, getConfigurationIn, hactive]
  rfl

/-- The answer of a call comes from the locations in the settings, and from nothing else. -/
structure IsOverridden (w : World) (me : ThreadId) (name raw : Option String) (text : String) :
    Prop where
  /-- The answer is that of the override. -/
  answer : (w.getConfiguration me name raw).value.1 =
    (override w.listed (w.locatorFor me) text).value
  /-- After the location is read and the factories are listed, nothing happens but the override. -/
  events : (w.getConfiguration me name raw).events =
    (readLocation raw).events ++ (w.factories.events ++
      (override w.listed (w.locatorFor me) text).events)
  /-- The name of the request does not matter. -/
  anyName : ∀ name', w.getConfiguration me name' raw = w.getConfiguration me name raw
  /-- Lookups are made only to open a location in the settings. -/
  lookups : ∀ loader q, .lookup loader q ∈ (w.getConfiguration me name raw).events →
    ∃ seg ∈ locationsOf text, .lookup loader q ∈ ((w.locatorFor me).openText seg).events
  /-- No factory is asked for a configuration. -/
  asks : asksOf (w.getConfiguration me name raw).events = []
  /-- An error names one of the locations. -/
  error : ∀ e, (w.getConfiguration me name raw).value.1 = .error e →
    ∃ seg ∈ locationsOf text, e = .compositeAborted seg ∨ e = .overrideUnresolved seg
  /-- A configuration was made by factories. -/
  made : ∀ c, (w.getConfiguration me name raw).value.1 = .ok c →
    MadeBy w.listed c ∨ ∃ cs, c = .composite cs ∧ ∀ child ∈ cs, MadeBy w.listed child
  /-- Unless a factory makes it itself, the fallback is not the answer. -/
  noFallback : ¬ MadeBy w.listed .default → (w.getConfiguration me name raw).value.1 ≠ .ok .default

/-- Without a location of its own, a call is answered from the settings when they have one. -/
theorem isOverridden (hactive : w.active = none) (hraw : locationIn raw = none) {text : String}
    (htext : w.settings.get? fileSetting = some text) : IsOverridden w me name raw text := by
  have hresolve : ∀ name, Resolution.resolve w.listed w.settings
      ⟨givenName name, locationIn raw, w.locatorFor me⟩ =
        override w.listed (w.locatorFor me) text := by
    intro name
    rw [Resolution.resolve, hraw, htext]
  have hanswer : ∀ name, (w.getConfiguration me name raw).value.1 =
      (override w.listed (w.locatorFor me) text).value := by
    intro name
    rw [value_getConfiguration hactive, hresolve]
  have hevents : ∀ name, (w.getConfiguration me name raw).events =
      (readLocation raw).events ++ (w.factories.events ++
        (override w.listed (w.locatorFor me) text).events) := by
    intro name
    rw [events_getConfiguration hactive, hresolve]
  have hmade : ∀ c, (w.getConfiguration me name raw).value.1 = .ok c →
      MadeBy w.listed c ∨ ∃ cs, c = .composite cs ∧ ∀ child ∈ cs, MadeBy w.listed child := by
    intro c hc
    rw [hanswer] at hc
    exact madeBy_of_override hc
  refine ⟨hanswer name, hevents name, ?_, ?_, ?_, ?_, hmade, ?_⟩
  · -- neither the answer nor the events mention the name
    intro name'
    ext1
    · refine Prod.ext ((hanswer name').trans (hanswer name).symm) ?_
      rw [state_getConfiguration hactive, state_getConfiguration hactive]
    · rw [hevents name', hevents name]
  · intro loader q hq
    rw [hevents, List.mem_append, List.mem_append] at hq
    rcases hq with hq | hq | hq
    · exact (only_readLocation raw _ hq).elim
    · exact (only_factories w _ hq).elim
    · exact lookup_mem_override hq
  · rw [hevents, asksOf_append, asksOf_append, (only_readLocation raw).asksOf_eq_nil fun _ => id,
      (only_factories w).asksOf_eq_nil fun _ => id, asksOf_override]
    rfl
  · intro e he
    rw [hanswer] at he
    exact error_of_override he
  · intro hdefault hc
    rcases hmade _ hc with hc | ⟨cs, hc, -⟩
    · exact hdefault hc
    · cases hc

/-! ### The other settings -/

/-- Settings that differ in the locations only list the same factories. -/
theorem factories_withSettings {settings : Settings}
    (h : ∀ key, key ≠ fileSetting → settings.get? key = w.settings.get? key) :
    ({ w with settings } : World).listed = w.listed ∧
      ({ w with settings } : World).factories.events = w.factories.events := by
  have hdiscovery : discoverFactories w.plugins settings = discoverFactories w.plugins w.settings :=
    discoverFactories_congr w.plugins (h factorySetting (by decide))
  constructor
  · show (w.catalog.factories (discoverFactories w.plugins settings)).value.1 = _
    rw [hdiscovery]
    rfl
  · show (w.catalog.factories (discoverFactories w.plugins settings)).events ++ [] = _
    rw [hdiscovery]
    rfl

/-- With a location of its own, a call does not look at the locations in the settings. -/
theorem getConfiguration_withSettings (hactive : w.active = none) {location : Location}
    (hraw : locationIn raw = some location) {settings : Settings}
    (h : ∀ key, key ≠ fileSetting → settings.get? key = w.settings.get? key) :
    (({ w with settings } : World).getConfiguration me name raw).value.1 =
        (w.getConfiguration me name raw).value.1 ∧
      (({ w with settings } : World).getConfiguration me name raw).events =
        (w.getConfiguration me name raw).events := by
  obtain ⟨hlisted, hfactories⟩ := factories_withSettings h
  have hactive' : ({ w with settings } : World).active = none := hactive
  have hresolve : Resolution.resolve ({ w with settings } : World).listed settings
      ⟨givenName name, locationIn raw, w.locatorFor me⟩ =
        Resolution.resolve w.listed w.settings
          ⟨givenName name, locationIn raw, w.locatorFor me⟩ := by
    rw [hlisted, Resolution.resolve, Resolution.resolve, hraw]
  constructor
  · rw [value_getConfiguration hactive', value_getConfiguration hactive]
    exact congrArg Traced.value hresolve
  · rw [events_getConfiguration hactive', events_getConfiguration hactive, hfactories]
    exact congrArg (fun x => (readLocation raw).events ++ (w.factories.events ++ x))
      (congrArg Traced.events hresolve)

/-! ### The choice -/

/-- Where no factory was set, a request is answered by one ordered choice. A location of its own
comes first, whatever the settings say about locations; then the locations in the settings, which
alone may fail; then the factories that take any location. The conventional names and the fallback
come last, but never after the settings. -/
theorem getConfiguration_ordered_choice (w : World) (me : ThreadId) (name raw : Option String)
    (hactive : w.active = none) :
    (∀ location, locationIn raw = some location →
      (w.getConfiguration me name raw).value.1 =
          .ok (((explicit w.listed (w.locatorFor me) location).value.or
            (probe w.listed (w.locatorFor me) (givenName name)).value).getD .default) ∧
        ∀ settings : Settings,
          (∀ key, key ≠ fileSetting → settings.get? key = w.settings.get? key) →
          (({ w with settings } : World).getConfiguration me name raw).value.1 =
              (w.getConfiguration me name raw).value.1 ∧
            (({ w with settings } : World).getConfiguration me name raw).events =
              (w.getConfiguration me name raw).events) ∧
    (locationIn raw = none → ∀ text, w.settings.get? fileSetting = some text →
      IsOverridden w me name raw text) ∧
    (locationIn raw = none → w.settings.get? fileSetting = none →
      (w.getConfiguration me name raw).value.1 =
        .ok (((wildcardAnswer w.listed ⟨givenName name, none, w.locatorFor me⟩).or
          (probe w.listed (w.locatorFor me) (givenName name)).value).getD .default)) := by
  refine ⟨?_, ?_, ?_⟩
  · intro location hraw
    refine ⟨?_, fun settings h => getConfiguration_withSettings hactive hraw h⟩
    rw [value_getConfiguration hactive, Resolution.resolve, hraw]
    simp only [value_orFallback, probeName_givenName]
  · intro hraw text htext
    exact isOverridden hactive hraw htext
  · intro hraw hnone
    rw [value_getConfiguration hactive, Resolution.resolve, hraw, hnone]
    simp only [value_orFallback, value_askWildcards, probeName_givenName]

/-- A blank location counts as none, so the locations in the settings decide. The resource with a
conventional name does not count. -/
theorem getConfiguration_blank_location :
    let w : World :=
      { disk := .empty []
        stores := [.table ⟨[("app.xml", .data []), ("log4j2.xml", .data [0x21])]⟩]
        settings := .memory [(fileSetting, " app.xml ")]
        plugins := .empty
        catalog := ⟨none, true,
          [.ofFactory "f" 0 (Canned.factory ⟨0, "f", [".xml"], .accept, true, none⟩)]⟩
        active := none
        context := ⟨"main", 0⟩
        manifestName := ""
        registry := .initial
        scopes := fun _ => .none }
    w.active = none ∧ IsOverridden w 0 (some "n") (some " ") "app.xml" ∧
      (w.getConfiguration 0 (some "n") (some " ")).value.1 =
        .ok (.document "f" none (.text (Utf8.decodeLossy []))) := by
  intro w
  have hactive : w.active = none := rfl
  obtain ⟨-, hsettings, -⟩ := getConfiguration_ordered_choice w 0 (some "n") (some " ") hactive
  have hover := hsettings rfl "app.xml" rfl
  refine ⟨hactive, hover, ?_⟩
  rw [hover.answer]
  rfl

end World

end LogSetup
