import LogSetup.Factories.Canned
import LogSetup.Loader.Table
import LogSetup.Proofs.Resolving.Answers
import LogSetup.Proofs.Text.Pieces
import Mathlib.Data.List.Forall2

/-!
# Several locations in the settings

The locations in the settings form a composite only together: each of them has to resolve by itself,
and the first that does not ends the run. Everything about a run over several locations is therefore
known from the runs over each of them alone.

## Main definitions

- `Resolution.configurationAt` : what a single location of the settings holds
- `Resolution.AllOrNothing` : a run over several locations in terms of runs over each alone

## Main statements

- `Resolution.segments_joinTexts` : the locations in joined pieces
- `Resolution.override_all_or_nothing` : runs over any number of locations
-/

namespace LogSetup

/-- Related elements can be chosen for a whole list when they can be for each of its elements. -/
theorem exists_forall₂_iff {α β : Type} {r : α → β → Prop} {as : List α} :
    (∃ bs, List.Forall₂ r as bs) ↔ ∀ a ∈ as, ∃ b, r a b := by
  induction as with
  | nil => simp
  | cons a rest ih =>
    simp only [List.forall₂_cons_left_iff, List.forall_mem_cons, ← ih]
    constructor
    · rintro ⟨_, b, bs, hb, hbs, rfl⟩
      exact ⟨⟨b, hb⟩, bs, hbs⟩
    · rintro ⟨⟨b, hb⟩, bs, hbs⟩
      exact ⟨b :: bs, b, bs, hb, hbs, rfl⟩

namespace Resolution

variable {ds : List Descriptor} {l : Locator} {raw seg : String}

/-! ### The locations in a text -/

/-- Of joined pieces, the locations are those that are not blank, trimmed. Hence further commas and
blanks around pieces never matter. -/
theorem segments_joinTexts {pieces : List String} (h : ∀ piece ∈ pieces, ',' ∉ piece.toList) :
    segments (Text.joinTexts "," pieces) = pieces.filterMap Text.nonBlank? := by
  have htrim : ∀ pieces : List String,
      ((pieces.map fun piece => Text.trim piece).filter fun piece => piece != "") =
        pieces.filterMap Text.nonBlank? := by
    intro pieces
    induction pieces with
    | nil => rfl
    | cons piece rest ih =>
      by_cases hpiece : Text.trim piece = ""
      · simp [Text.nonBlank?, hpiece, ← ih]
      · simp [Text.nonBlank?, hpiece, ← ih]
  -- without pieces there is nothing to split back: the joined text is empty
  by_cases hne : pieces = []
  · subst hne
    rfl
  · have hmap : pieces.map String.toList ≠ [] := by simpa using hne
    have hcommas : ∀ piece ∈ pieces.map String.toList, ',' ∉ piece := by simpa using h
    have hsplit := Text.splitOn_joinWith hmap hcommas
    rw [segments, Text.joinTexts, String.toList_ofList]
    show ((Text.splitOn ',' (Text.joinWith [','] _)).map _).filter _ = _
    rw [hsplit, List.map_map]
    exact htrim pieces

example : segments " a.xml ,, b.xml," = ["a.xml", "b.xml"] := by decide

/-- Each of the locations is the only one in its own text. -/
theorem segments_of_mem (h : seg ∈ segments raw) : segments seg = [seg] := by
  obtain ⟨hmem, hne⟩ := List.mem_filter.mp h
  obtain ⟨piece, hpiece, rfl⟩ := List.mem_map.mp hmem
  have hcomma : ',' ∉ Text.trimChars piece :=
    fun hc => Text.not_mem_of_mem_splitOn hpiece (Text.mem_of_mem_trimChars hc)
  rw [segments, String.toList_ofList, Text.splitOn_eq_singleton hcomma, List.map_singleton,
    Text.trimChars_trimChars]
  exact List.filter_eq_self.mpr fun s hs => List.mem_singleton.mp hs ▸ hne

/-! ### One location -/

/-- What a single location of the settings holds: what the first factory that is eligible for it
and does not decline makes of the source that it opens to. -/
def configurationAt (ds : List Descriptor) (l : Locator) (seg : String) : Option Configuration :=
  (l.openText seg).value.bind fun s =>
    (ds.filter fun d => d.eligible seg).findSome? fun d => d.result s

theorem value_single (ds : List Descriptor) (l : Locator) (seg : String) :
    (single ds l seg).value = configurationAt ds l seg := by
  rw [single, Traced.value_bind, configurationAt]
  cases (l.openText seg).value with
  | none => rfl
  | some s => exact value_firstAccepting ds s seg

theorem override_of_segments_eq (h : segments raw = [seg]) :
    override ds l raw = only ds l seg := by
  rw [override, h]

/-- One location yields what it holds, unwrapped. -/
theorem value_only (ds : List Descriptor) (l : Locator) (seg : String) :
    (only ds l seg).value =
      match configurationAt ds l seg with
      | some c => .ok c
      | none => .error (.overrideUnresolved seg) := by
  rw [only, Traced.value_bind, value_single]
  cases configurationAt ds l seg <;> rfl

theorem events_only (ds : List Descriptor) (l : Locator) (seg : String) :
    (only ds l seg).events = (single ds l seg).events := by
  rw [only, Traced.events_bind]
  cases (single ds l seg).value <;> exact List.append_nil _

theorem value_only_eq_ok_iff {c : Configuration} :
    (only ds l seg).value = .ok c ↔ (single ds l seg).value = some c := by
  rw [value_only, value_single]
  cases configurationAt ds l seg <;> simp

theorem single_eq_none_of_only (h : ∀ c, (only ds l seg).value ≠ .ok c) :
    (single ds l seg).value = none := by
  refine Option.eq_none_iff_forall_ne_some.mpr fun c hc => h c ?_
  exact value_only_eq_ok_iff.mpr hc

/-! ### Several locations -/

theorem all_cons_eq_ok_iff {segs : List String} {cs : List Configuration} :
    (all ds l (seg :: segs)).value = .ok cs ↔
      ∃ c rest, (only ds l seg).value = .ok c ∧ (all ds l segs).value = .ok rest ∧
        cs = c :: rest := by
  simp only [all, Traced.value_bind, value_only_eq_ok_iff]
  cases (single ds l seg).value with
  | none =>
    constructor
    · intro h
      cases h
    · rintro ⟨c, rest, hc, _⟩
      cases hc
  | some c =>
    simp only [Traced.value_bind]
    cases (all ds l segs).value with
    | ok rest =>
      constructor
      · intro h
        cases h
        exact ⟨c, rest, rfl, rfl, rfl⟩
      · rintro ⟨c', rest', hc, hrest, rfl⟩
        cases hc
        cases hrest
        rfl
    | error e =>
      constructor
      · intro h
        cases h
      · rintro ⟨c', rest', _, hrest, _⟩
        cases hrest

/-- All locations yield configurations exactly when each alone does. They are then those of the
locations, in order. -/
theorem all_eq_ok_iff {segs : List String} {cs : List Configuration} :
    (all ds l segs).value = .ok cs ↔
      List.Forall₂ (fun seg c => (only ds l seg).value = .ok c) segs cs := by
  induction segs generalizing cs with
  | nil =>
    rw [List.forall₂_nil_left_iff]
    constructor
    · intro h
      cases h
      rfl
    · rintro rfl
      rfl
  | cons seg segs ih => simp only [all_cons_eq_ok_iff, ih, List.forall₂_cons_left_iff]

/-- When all locations yield configurations, each is run once, in order. -/
theorem events_all_of_ok {segs : List String}
    (h : ∀ seg ∈ segs, ∃ c, (only ds l seg).value = .ok c) :
    (all ds l segs).events = segs.flatMap fun seg => (only ds l seg).events := by
  induction segs with
  | nil => rfl
  | cons seg segs ih =>
    obtain ⟨c, hc⟩ := h seg List.mem_cons_self
    have hrest := ih fun s hs => h s (List.mem_cons_of_mem seg hs)
    rw [all, Traced.events_bind, value_only_eq_ok_iff.mp hc, List.flatMap_cons, events_only,
      Traced.events_bind, hrest]
    cases (all ds l segs).value <;> simp

/-- The first location that yields nothing ends the run. -/
theorem all_abort {before : List String} (after : List String)
    (hbefore : ∀ b ∈ before, ∃ c, (only ds l b).value = .ok c)
    (hseg : ∀ c, (only ds l seg).value ≠ .ok c) :
    all ds l (before ++ seg :: after) =
      ⟨.error (.compositeAborted seg),
        (before.flatMap fun b => (only ds l b).events) ++ (only ds l seg).events ++
          [.status ⟨.error, "Failed to create configuration at " ++ seg⟩]⟩ := by
  -- the run passes over each location before, keeping its events
  induction before with
  | nil =>
    rw [List.nil_append, all]
    ext1
    · rw [Traced.value_bind, single_eq_none_of_only hseg]
      rfl
    · rw [Traced.events_bind, single_eq_none_of_only hseg, events_only, List.flatMap_nil,
        List.nil_append, Traced.events_bind, Traced.events_report, Traced.events_pure,
        List.append_nil]
  | cons b before ih =>
    obtain ⟨c, hc⟩ := hbefore b List.mem_cons_self
    have hrest := ih fun s hs => hbefore s (List.mem_cons_of_mem b hs)
    rw [List.cons_append, all]
    ext1
    · rw [Traced.value_bind, value_only_eq_ok_iff.mp hc, Traced.value_bind, hrest]
      rfl
    · rw [Traced.events_bind, value_only_eq_ok_iff.mp hc, Traced.events_bind, hrest, events_only]
      simp [events_only]

/-- Several locations make a composite of what they all yield. -/
theorem override_of_two_le (h : 2 ≤ (segments raw).length) :
    override ds l raw =
      (do
        match ← all ds l (segments raw) with
        | .ok cs => pure (.ok (.composite cs))
        | .error e => pure (.error e)) := by
  rw [override]
  split
  · next hnil =>
    rw [hnil] at h
    exact absurd h (Nat.not_succ_le_zero 1)
  · next hone =>
    rw [hone] at h
    exact absurd h (Nat.not_succ_le_self 1)
  · rfl

/-- A run over several locations in terms of the runs over each of them alone. -/
structure AllOrNothing (ds : List Descriptor) (l : Locator) (raw : String) : Prop where
  /-- The run yields a configuration exactly when each location alone does. -/
  isOk_iff : (∃ c, (override ds l raw).value = .ok c) ↔
    ∀ seg ∈ segments raw, ∃ c, (override ds l seg).value = .ok c
  /-- It then yields a composite with one child for each location, in order: what the location
  alone yields. -/
  children : ∀ c, (override ds l raw).value = .ok c →
    ∃ cs, c = .composite cs ∧
      List.Forall₂ (fun seg child => (override ds l seg).value = .ok child) (segments raw) cs ∧
      (override ds l raw).events = (segments raw).flatMap fun seg => (override ds l seg).events
  /-- Otherwise the first location that alone yields none is named. Nothing happens after its run
  but that it is reported; the locations after it take no part. -/
  aborted : ∀ before seg after, segments raw = before ++ seg :: after →
    (∀ b ∈ before, ∃ c, (override ds l b).value = .ok c) →
    (∀ c, (override ds l seg).value ≠ .ok c) →
    (override ds l raw).value = .error (.compositeAborted seg) ∧
      (override ds l raw).events =
        (before.flatMap fun b => (override ds l b).events) ++ (override ds l seg).events ++
          [.status ⟨.error, "Failed to create configuration at " ++ seg⟩]

/-- A location of a list yields alone in the list what it yields as the only one. -/
theorem override_eq_only (h : seg ∈ segments raw) : override ds l seg = only ds l seg :=
  override_of_segments_eq (segments_of_mem h)

/-- Several locations yield exactly the composite of what they all yield. -/
theorem override_eq_ok_iff (h : 2 ≤ (segments raw).length) {c : Configuration} :
    (override ds l raw).value = .ok c ↔
      ∃ cs, (all ds l (segments raw)).value = .ok cs ∧ c = .composite cs := by
  rw [override_of_two_le h, Traced.value_bind]
  cases (all ds l (segments raw)).value with
  | ok cs => simp [eq_comm]
  | error e => simp

theorem events_override_of_two_le (h : 2 ≤ (segments raw).length) :
    (override ds l raw).events = (all ds l (segments raw)).events := by
  rw [override_of_two_le h, Traced.events_bind]
  cases (all ds l (segments raw)).value <;> exact List.append_nil _

theorem exists_all_eq_ok_iff :
    (∃ cs, (all ds l (segments raw)).value = .ok cs) ↔
      ∀ seg ∈ segments raw, ∃ c, (override ds l seg).value = .ok c := by
  simp only [all_eq_ok_iff, exists_forall₂_iff]
  exact forall₂_congr fun seg hseg => by rw [override_eq_only hseg]

theorem exists_override_eq_ok_iff (h : 2 ≤ (segments raw).length) :
    (∃ c, (override ds l raw).value = .ok c) ↔
      ∀ seg ∈ segments raw, ∃ c, (override ds l seg).value = .ok c := by
  rw [← exists_all_eq_ok_iff]
  constructor
  · rintro ⟨c, hc⟩
    obtain ⟨cs, hcs, -⟩ := (override_eq_ok_iff h).mp hc
    exact ⟨cs, hcs⟩
  · rintro ⟨cs, hcs⟩
    exact ⟨.composite cs, (override_eq_ok_iff h).mpr ⟨cs, hcs, rfl⟩⟩

theorem children_of_override_eq_ok (h : 2 ≤ (segments raw).length) {c : Configuration}
    (hc : (override ds l raw).value = .ok c) :
    ∃ cs, c = .composite cs ∧
      List.Forall₂ (fun seg child => (override ds l seg).value = .ok child) (segments raw) cs ∧
      (override ds l raw).events =
        (segments raw).flatMap fun seg => (override ds l seg).events := by
  obtain ⟨cs, hcs, rfl⟩ := (override_eq_ok_iff h).mp hc
  refine ⟨cs, rfl, ?_, ?_⟩
  · have hmem := (List.forall₂_and_left _ _).mpr ⟨fun _ hseg => hseg, all_eq_ok_iff.mp hcs⟩
    refine hmem.imp fun seg child hchild => ?_
    rw [override_eq_only hchild.1]
    exact hchild.2
  · rw [events_override_of_two_le h, events_all_of_ok]
    · exact List.flatMap_congr fun seg hseg => by rw [override_eq_only hseg]
    · intro seg hseg
      rw [← override_eq_only hseg]
      exact exists_all_eq_ok_iff.mp ⟨cs, hcs⟩ seg hseg

theorem override_abort (h : 2 ≤ (segments raw).length) {before after : List String}
    (hsegs : segments raw = before ++ seg :: after)
    (hbefore : ∀ b ∈ before, ∃ c, (override ds l b).value = .ok c)
    (hseg : ∀ c, (override ds l seg).value ≠ .ok c) :
    (override ds l raw).value = .error (.compositeAborted seg) ∧
      (override ds l raw).events =
        (before.flatMap fun b => (override ds l b).events) ++ (override ds l seg).events ++
          [.status ⟨.error, "Failed to create configuration at " ++ seg⟩] := by
  -- what the run does at a location is what the override of that location alone does
  have hfront : ∀ b ∈ before, override ds l b = only ds l b := fun b hb =>
    override_eq_only (hsegs ▸ List.mem_append_left _ hb)
  have hlast : override ds l seg = only ds l seg :=
    override_eq_only (hsegs ▸ List.mem_append_right _ List.mem_cons_self)
  have habort := all_abort after (fun b hb => hfront b hb ▸ hbefore b hb)
    (hlast ▸ hseg)
  rw [← hsegs] at habort
  constructor
  · rw [override_of_two_le h, Traced.value_bind, habort]
    rfl
  · rw [events_override_of_two_le h, habort, hlast, List.append_assoc, List.append_assoc,
      List.append_left_inj]
    exact List.flatMap_congr fun b hb => by rw [hfront b hb]

/-- Overrides are all or nothing. Only the locations count, not how they are written down. One
location yields what it holds, or the error that names it. -/
theorem override_all_or_nothing (ds : List Descriptor) (l : Locator) (raw : String)
    (h : segments raw ≠ []) :
    (∀ raw', segments raw' = segments raw → override ds l raw' = override ds l raw) ∧
    (∀ pieces : List String, (∀ piece ∈ pieces, ',' ∉ piece.toList) →
      pieces.filterMap Text.nonBlank? = segments raw →
      override ds l (Text.joinTexts "," pieces) = override ds l raw) ∧
    (∀ seg, segments raw = [seg] →
      (override ds l raw).value =
        match configurationAt ds l seg with
        | some c => .ok c
        | none => .error (.overrideUnresolved seg)) ∧
    (2 ≤ (segments raw).length → AllOrNothing ds l raw) := by
  have hsame : ∀ raw', segments raw' = segments raw → override ds l raw' = override ds l raw := by
    intro raw' hraw'
    cases hsegs : segments raw with
    | nil => exact absurd hsegs h
    | cons seg rest =>
      rw [hsegs] at hraw'
      rw [override, override, hraw', hsegs]
      cases rest <;> rfl
  refine ⟨hsame, ?_, ?_, ?_⟩
  · intro pieces hpieces hsegs
    exact hsame _ ((segments_joinTexts hpieces).trans hsegs)
  · intro seg hseg
    rw [override_of_segments_eq hseg]
    exact value_only ds l seg
  · intro htwo
    exact
      { isOk_iff := exists_override_eq_ok_iff htwo
        children := fun c hc => children_of_override_eq_ok htwo hc
        aborted := fun before seg after hsegs hbefore hseg =>
          override_abort htwo hsegs hbefore hseg }

/-- A location that is listed twice makes two children; commas without a location make none. -/
theorem override_listed_twice :
    let ds := [Descriptor.ofFactory "f" 0 (Canned.factory ⟨0, "f", [".xml"], .accept, true, none⟩)]
    let l : Locator :=
      ⟨⟨"main", 0⟩, (TableLoader.mk [("app.xml", .data [])]).loader (.empty [])⟩
    let child := Configuration.document "f" none (.text (Utf8.decodeLossy []))
    segments " app.xml ,, app.xml," ≠ [] ∧ AllOrNothing ds l " app.xml ,, app.xml," ∧
      (override ds l " app.xml ,, app.xml,").value = .ok (.composite [child, child]) := by
  intro ds l child
  have hne : segments " app.xml ,, app.xml," ≠ [] := by decide
  obtain ⟨-, -, -, hseveral⟩ := override_all_or_nothing ds l " app.xml ,, app.xml," hne
  exact ⟨hne, hseveral (by decide), rfl⟩

end Resolution

end LogSetup
