import LogSetup.Factories.Canned
import LogSetup.Proofs.Catalog.Builds
import LogSetup.Proofs.Plugins.Table
import Mathlib.Data.List.Sort

/-!
# What discovery lists

Discovery tries candidates one after another: the one that the settings name, and then all of the
category by ascending rank, the named one among them once more. Each that can be built is listed
under its name and rank, and each that cannot is told. Between the two readings of the table other
threads may change it, and what failed at first may go well the second time.

## Main definitions

- `IsRanking` : candidates by ascending rank, those of one rank in their order
- `Candidate.entry?`, `Candidate.attempt` : what trying a candidate lists, and what happens
- `PluginTable.named?` : the candidate that a name stands for
- `discoverAcross` : discovery that reads two tables

## Main statements

- `isRanking_byRank` : discovery ranks candidates
- `discoverAcross_lists` : what is listed, and what is told
-/

namespace LogSetup

/-! ### Ranking -/

section Ranking

variable {α : Type} {cs cs' ranked : List (Candidate α)}

/-- Candidates by ascending rank, where those of one rank keep their order. -/
structure IsRanking (cs ranked : List (Candidate α)) : Prop where
  perm : ranked.Perm cs
  ascending : ranked.Pairwise fun c d => c.rank ≤ d.rank
  stable : ∀ rank, (ranked.filter fun c => c.rank == rank) = cs.filter fun c => c.rank == rank

theorem byRank_eq_insertionSort (cs : List (Candidate α)) :
    byRank cs = cs.insertionSort fun c d => c.rank ≤ d.rank := by
  have hinsert : ∀ (c : Candidate α) (cs : List (Candidate α)),
      insertByRank c cs = cs.orderedInsert (fun c d => c.rank ≤ d.rank) c := by
    intro c cs
    induction cs with
    | nil => rfl
    | cons d rest ih => rw [insertByRank, List.orderedInsert_cons, ih]
  induction cs with
  | nil => rfl
  | cons c rest ih => rw [byRank, List.insertionSort_cons, hinsert, ih]

theorem pairwise_byRank (cs : List (Candidate α)) :
    (byRank cs).Pairwise fun c d => c.rank ≤ d.rank := by
  have : Std.Total fun c d : Candidate α => c.rank ≤ d.rank := ⟨fun c d => Int.le_total _ _⟩
  have : IsTrans (Candidate α) fun c d => c.rank ≤ d.rank := ⟨fun _ _ _ => Int.le_trans⟩
  rw [byRank_eq_insertionSort]
  exact List.pairwise_insertionSort _ _

/-- Candidates of one rank are in order already, so ranking keeps them as they are. -/
theorem filter_byRank (cs : List (Candidate α)) (rank : Int) :
    ((byRank cs).filter fun c => c.rank == rank) = cs.filter fun c => c.rank == rank := by
  have hrank : (cs.filter fun c => c.rank == rank).Pairwise fun c d => c.rank ≤ d.rank := by
    refine List.pairwise_of_forall_mem_list fun c hc d hd => ?_
    have hc' : c.rank = rank := by simpa using (List.mem_filter.mp hc).2
    have hd' : d.rank = rank := by simpa using (List.mem_filter.mp hd).2
    omega
  have hsub : (cs.filter fun c => c.rank == rank).Sublist (byRank cs) := by
    rw [byRank_eq_insertionSort]
    exact List.sublist_insertionSort hrank List.filter_sublist
  have hfilter := hsub.filter fun c => c.rank == rank
  rw [List.filter_filter] at hfilter
  simp only [Bool.and_self] at hfilter
  refine (hfilter.eq_of_length ?_).symm
  exact (((perm_byRank cs).filter _).length_eq).symm

theorem isRanking_byRank (cs : List (Candidate α)) : IsRanking cs (byRank cs) :=
  ⟨perm_byRank cs, pairwise_byRank cs, filter_byRank cs⟩

/-- Distinct ranks leave one order only. -/
theorem byRank_congr (h : cs.Perm cs') (hranks : (cs.map Candidate.rank).Nodup) :
    byRank cs = byRank cs' := by
  have hperm : (byRank cs).Perm (byRank cs') :=
    (perm_byRank cs).trans (h.trans (perm_byRank cs').symm)
  refine hperm.eq_of_pairwise (fun c d hc hd hcd hdc => ?_) (pairwise_byRank cs)
    (pairwise_byRank cs')
  have hc' : c ∈ cs := (perm_byRank cs).mem_iff.mp hc
  have hd' : d ∈ cs := h.mem_iff.mpr ((perm_byRank cs').mem_iff.mp hd)
  exact List.inj_on_of_nodup_map hranks hc' hd' (Int.le_antisymm hcd hdc)

end Ranking

/-! ### Trying candidates -/

namespace Candidate

/-- The entry of a candidate in the list, if it can be built. -/
def entry? (c : Candidate Factory) : Option Descriptor :=
  match c.outcome with
  | .ok f => some (.ofFactory c.name c.rank f)
  | .error _ => none

/-- What happens when a candidate is built for the list. -/
def attempt (c : Candidate Factory) : List Event :=
  .built c.id :: match c.outcome with
    | .ok _ => []
    | .error e => [.failed (.plugin e),
        .status ⟨.error, "Unable to create instance of " ++ c.name ++ ": " ++ e.message⟩]

end Candidate

open Candidate

theorem buildDescriptor_eq (c : Candidate Factory) :
    buildDescriptor c = ⟨c.entry?.toList, c.attempt⟩ := by
  obtain ⟨name, rank, id, outcome⟩ := c
  cases outcome <;> rfl

theorem buildAll_eq (cs : List (Candidate Factory)) :
    buildAll cs = ⟨cs.filterMap entry?, cs.flatMap attempt⟩ := by
  induction cs with
  | nil => rfl
  | cons c rest ih =>
    rw [buildAll, buildDescriptor_eq, ih]
    ext1
    · show c.entry?.toList ++ rest.filterMap entry? = _
      cases hc : c.entry? <;> simp [hc]
    · show c.attempt ++ (rest.flatMap attempt ++ []) = _
      rw [List.append_nil, List.flatMap_cons]

/-- The candidate of the category that a name stands for. -/
def PluginTable.named? (plugins : PluginTable Factory) : Option String → Option (Candidate Factory)
  | none => none
  | some name => (plugins.candidates factoryCategory).find? fun c => c.name == name

/-- What happens when the name of a factory stands for no candidate. -/
def PluginTable.missing (plugins : PluginTable Factory) : Option String → List Event
  | none => []
  | some name =>
    if plugins.contains factoryCategory name then []
    else
      [.failed (.plugin (.unknown factoryCategory name)),
        .status ⟨.error, "Unable to load factory " ++ name ++ ": " ++
          (PluginError.unknown factoryCategory name).message⟩]

theorem factoryNamed_eq (plugins : PluginTable Factory) (name : Option String) :
    factoryNamed plugins name =
      ⟨(plugins.named? name).toList.filterMap entry?,
        plugins.missing name ++ (plugins.named? name).toList.flatMap attempt⟩ := by
  cases name with
  | none => rfl
  | some name =>
    rw [factoryNamed, PluginTable.lookup, PluginTable.find, PluginTable.named?, PluginTable.missing]
    cases hfind : (plugins.candidates factoryCategory).find? fun c => c.name == name with
    | none =>
      have hcontains : plugins.contains factoryCategory name = false := by
        rw [PluginTable.contains, List.any_eq_false]
        exact List.find?_eq_none.mp hfind
      rw [hcontains]
      rfl
    | some c =>
      have hcontains : plugins.contains factoryCategory name = true := by
        rw [PluginTable.contains, List.any_eq_true]
        exact ⟨c, List.mem_of_find?_eq_some hfind, by simpa using List.find?_some hfind⟩
      rw [hcontains]
      ext1
      · show (buildDescriptor c).value = _
        rw [buildDescriptor_eq]
        cases hc : c.entry? <;> simp [hc]
      · show [] ++ (buildDescriptor c).events = _
        rw [buildDescriptor_eq]
        simp

/-- The message in which discovery tells its list. -/
def listing (list : List Descriptor) : Event :=
  .status ⟨.debug, "Configuration factories: [" ++
    Text.joinTexts ", " (list.map Descriptor.name) ++ "]"⟩

theorem rankFactories_eq (plugins : PluginTable Factory) (named : List Descriptor) :
    rankFactories plugins named =
      let ranked := byRank (plugins.candidates factoryCategory)
      ⟨named ++ ranked.filterMap entry?,
        ranked.flatMap attempt ++ [listing (named ++ ranked.filterMap entry?)]⟩ := by
  rw [rankFactories, buildAll_eq]
  rfl

/-! ### Discovery -/

/-- Discovery by a thread between whose steps others change the table: it finds the named factory
in one table, and all factories in another. -/
def discoverAcross (first later : PluginTable Factory) (settings : Settings) :
    Traced (List Descriptor) := do
  let named ← namedFactory first settings
  rankFactories later named

theorem discoverAcross_self (plugins : PluginTable Factory) (settings : Settings) :
    discoverAcross plugins plugins settings = discoverFactories plugins settings := rfl

theorem discoverAcross_eq (first later : PluginTable Factory) (settings : Settings) :
    discoverAcross first later settings =
      let name := settings.get? factorySetting
      let tried := (first.named? name).toList ++ byRank (later.candidates factoryCategory)
      ⟨tried.filterMap entry?,
        first.missing name ++ tried.flatMap attempt ++ [listing (tried.filterMap entry?)]⟩ := by
  rw [discoverAcross, namedFactory, factoryNamed_eq]
  simp only [List.filterMap_append, List.flatMap_append]
  ext1
  · show (rankFactories later _).value = _
    rw [rankFactories_eq]
  · show _ ++ (rankFactories later _).events = _
    rw [rankFactories_eq]
    simp only [List.append_assoc]

/-- Permuted candidates make the same list when their ranks are distinct. -/
theorem discoverAcross_congr {first first' later later' : PluginTable Factory} (settings : Settings)
    (hfirst : (first.candidates factoryCategory).Perm (first'.candidates factoryCategory))
    (hnames : ((first.candidates factoryCategory).map Candidate.name).Nodup)
    (hlater : (later.candidates factoryCategory).Perm (later'.candidates factoryCategory))
    (hranks : ((later.candidates factoryCategory).map Candidate.rank).Nodup) :
    discoverAcross first later settings = discoverAcross first' later' settings := by
  have hnamed : ∀ name, first.named? name = first'.named? name := by
    intro name
    cases name with
    | none => rfl
    | some name => exact PluginTable.find?_name_congr hfirst hnames name
  have hmissing : ∀ name, first.missing name = first'.missing name := by
    intro name
    cases name with
    | none => rfl
    | some name =>
      have hcontains : first.contains factoryCategory name = first'.contains factoryCategory name :=
        hfirst.any_eq
      rw [PluginTable.missing, PluginTable.missing, hcontains]
  simp only [discoverAcross_eq, hnamed, hmissing, byRank_congr hlater hranks]

/-- Discovery lists the candidate that the settings name, if there is one, and then all candidates
by rank, except for those that cannot be built. In this order it tells a name without a candidate
and each time that a candidate cannot be built. When all ranks are distinct, only the candidates
matter and not the changes to the table by which they came. -/
theorem discoverAcross_lists (first later : PluginTable Factory) (settings : Settings) :
    discoverAcross first first settings = discoverFactories first settings ∧
    (∃ ranked, IsRanking (later.candidates factoryCategory) ranked ∧
      (first = later → ∀ c, first.named? (settings.get? factorySetting) = some c → c ∈ ranked) ∧
      (discoverAcross first later settings).value =
        ((first.named? (settings.get? factorySetting)).toList ++ ranked).filterMap entry? ∧
      (discoverAcross first later settings).events =
        first.missing (settings.get? factorySetting) ++
          ((first.named? (settings.get? factorySetting)).toList ++ ranked).flatMap attempt ++
          [listing (discoverAcross first later settings).value]) ∧
    ∀ early early' late late' : List (PluginTable.Change Factory),
      ((PluginTable.after early).candidates factoryCategory).Perm
        ((PluginTable.after early').candidates factoryCategory) →
      ((PluginTable.after late).candidates factoryCategory).Perm
        ((PluginTable.after late').candidates factoryCategory) →
      (((PluginTable.after late).candidates factoryCategory).map Candidate.rank).Nodup →
      discoverAcross (.after early) (.after late) settings =
        discoverAcross (.after early') (.after late') settings := by
  refine ⟨discoverAcross_self first settings,
    ⟨byRank (later.candidates factoryCategory), isRanking_byRank _, ?_, ?_, ?_⟩, ?_⟩
  · rintro rfl c hc
    cases hname : settings.get? factorySetting with
    | none => rw [hname] at hc; cases hc
    | some name =>
      rw [hname] at hc
      exact (perm_byRank _).mem_iff.mpr (List.mem_of_find?_eq_some hc)
  · rw [discoverAcross_eq]
  · rw [discoverAcross_eq]
  · intro early early' late late' hearly hlate hranks
    exact discoverAcross_congr settings hearly (PluginTable.nodup_names_after early _) hlate hranks

/-- Three candidates, of which one cannot be built. -/
def threeFactories : List (PluginTable.Change Factory) :=
  let json := Canned.factory ⟨0, "json", [".json"], .accept, true, none⟩
  let xml := Canned.factory ⟨1, "xml", [".xml"], .accept, true, none⟩
  [.register factoryCategory ⟨"json", 6, 0, .ok json⟩,
    .register factoryCategory ⟨"broken", -1, 1, .error (.instantiation "broken" "no parser")⟩,
    .register factoryCategory ⟨"xml", 5, 2, .ok xml⟩]

theorem three_factories_either_way :
    let settings := Settings.memory [(factorySetting, " json ")]
    discoverFactories (.after threeFactories) settings =
      discoverFactories (.after threeFactories.reverse) settings ∧
    (∃ ranked, IsRanking ((PluginTable.after threeFactories).candidates factoryCategory) ranked ∧
      ∃ c ∈ ranked, c.name = "json") ∧
    (discoverFactories (.after threeFactories) settings).value.map Descriptor.name =
      ["json", "xml", "json"] := by
  intro settings
  obtain ⟨-, ⟨ranked, hranking, hnamed, -, -⟩, horder⟩ :=
    discoverAcross_lists (.after threeFactories) (.after threeFactories) settings
  have hperm : ((PluginTable.after threeFactories).candidates factoryCategory).Perm
      ((PluginTable.after threeFactories.reverse).candidates factoryCategory) :=
    (List.reverse_perm _).symm
  have hranks : (((PluginTable.after threeFactories).candidates factoryCategory).map
      Candidate.rank).Nodup := by decide
  exact ⟨horder _ _ _ _ hperm hperm hranks, ⟨ranked, hranking, _, hnamed rfl _ rfl, rfl⟩, rfl⟩

end LogSetup
