import LogSetup.Proofs.Loader.Listings

/-!
# Removing resources

Resources are added and looked up under their names without leading slashes, but removed under names
as they stand. So a removal takes out what was added, however the name was spelled there, unless the
name to be removed has a slash in front: then nothing is removed, even where a lookup under the same
name finds something.

## Main definitions

- `MemoryLoader.Finds` : a lookup finds something under a name
- `MemoryLoader.TakesOut` : a removal tells what it found and leaves nothing

## Main statements

- `MemoryLoader.removal_takesOut_iff` : which removals undo the additions before them
-/

namespace LogSetup.MemoryLoader

/-- There is something under a name, be it a source or a resource that cannot be read. -/
def Finds (m : MemoryLoader) (name : String) : Prop := m.loader.loadResource name ≠ .ok none

/-- A removal tells whether there was something under the name, and leaves nothing there. -/
structure TakesOut (m : MemoryLoader) (name : String) (found : Bool) (m' : MemoryLoader) :
    Prop where
  told : found = true ↔ m.Finds name
  gone : ¬ m'.Finds name
  unlisted : m'.loader.findResources name = []

/-- Every name that is kept has an addition. -/
def IsInhabited (m : MemoryLoader) : Prop := ∀ r ∈ m.resources, r.2 ≠ []

variable {m m' : MemoryLoader} {ls : List Label} {l : Label} {name other : String} {found : Bool}

/-! ### Names -/

theorem key_eq_self_iff : key name = name ↔ name.toList.head? ≠ some '/' := by
  rw [← String.toList_inj, key, Text.dropLeading, String.toList_ofList,
    List.dropWhile_eq_self_iff]
  cases name.toList with
  | nil => simp
  | cons c rest => simp

/-! ### What is kept -/

theorem ne_nil_of_mem_deposit {k : String} {d : Deposit} {rs : List (String × List Deposit)}
    (hrs : ∀ r ∈ rs, r.2 ≠ []) : ∀ r ∈ deposit k d rs, r.2 ≠ [] := by
  induction rs with
  | nil =>
    intro r hr
    rw [List.mem_singleton.mp hr]
    exact List.cons_ne_nil d []
  | cons r' rest ih =>
    obtain ⟨hr', hrest⟩ := List.forall_mem_cons.mp hrs
    rw [deposit]
    split
    · exact List.forall_mem_cons.mpr ⟨List.append_ne_nil_of_left_ne_nil hr' [d], hrest⟩
    · exact List.forall_mem_cons.mpr ⟨hr', ih hrest⟩

theorem IsInhabited.of_step (h : m.IsInhabited) (hstep : Step m l m') : m'.IsInhabited := by
  cases hstep with
  | add name d => exact ne_nil_of_mem_deposit h
  | remove name => exact fun r hr => h r (List.mem_filter.mp hr).1
  | file p data => exact h
  | url text data => exact h

theorem isInhabited_of_run (h : Run Step .empty ls m) : m.IsInhabited :=
  h.preserves (fun _ hr => absurd hr List.not_mem_nil) fun _ _ _ _ hstep hm => hm.of_step hstep

theorem hasKey_iff (h : m.IsInhabited) (k : String) : m.hasKey k = true ↔ m.deposits k ≠ [] := by
  constructor
  · intro hkey
    obtain ⟨r, hr⟩ := Option.isSome_iff_exists.mp
      (List.find?_isSome.mpr (List.any_eq_true.mp hkey))
    rw [deposits, hr]
    exact h r (List.mem_of_find?_eq_some hr)
  · intro hne
    by_contra hkey
    exact hne (deposits_of_hasKey_eq_false (Bool.eq_false_iff.mpr hkey))

theorem findResources_eq_nil_iff : m.loader.findResources name = [] ↔ m.deposits (key name) = [] :=
  List.mapIdx_eq_nil_iff

theorem not_finds_iff : ¬ m.Finds name ↔ m.deposits (key name) = [] := by
  rw [Finds, not_not, (m.loadsHead name).1, findResources_eq_nil_iff]

/-! ### Removals -/

theorem removeResource_of_not_hasKey (h : m.hasKey name = false) : m.removeResource name = m := by
  rw [hasKey, List.any_eq_false] at h
  have hkept : (m.resources.filter fun r => r.1 != name) = m.resources :=
    List.filter_eq_self.mpr fun r hr => by simpa using h r hr
  rw [removeResource, hkept]

/-- Other names keep what is found under them. -/
theorem answers_removeResource (h : key other ≠ key name) :
    (m.removeResource name).loader.loadResource other = m.loader.loadResource other ∧
      (m.removeResource name).loader.findResources other = m.loader.findResources other := by
  have hkept : (m.removeResource name).deposits (key other) = m.deposits (key other) := by
    rw [deposits_removeResource, if_neg]
    rintro rfl
    exact h (key_key other).symm
  constructor
  · show loadResource _ other = loadResource _ other
    rw [loadResource, loadResource, hkept]
  · show findResources _ other = findResources _ other
    rw [findResources, findResources, hkept]

theorem takesOut_of_key_eq (h : m.IsInhabited) (hname : key name = name) :
    TakesOut m name (m.hasKey name) (m.removeResource name) := by
  have hnone : (m.removeResource name).deposits (key name) = [] := by
    rw [hname, deposits_removeResource, if_pos rfl]
  refine ⟨?_, not_finds_iff.mpr hnone, findResources_eq_nil_iff.mpr hnone⟩
  rw [hasKey_iff h, ← not_iff_not, not_finds_iff, hname, not_not]

/-- A removal undoes the additions before it, whatever happened, unless the name has a slash in
front and there is something under it. In any case other names keep what is found under them, and
with a slash in front nothing is removed at all. -/
theorem removal_takesOut_iff (hrun : Run Step .empty ls m)
    (hstep : Step m (.removed name found) m') :
    (TakesOut m name found m' ↔ (name.toList.head? = some '/' → ¬ m.Finds name)) ∧
    (∀ other, key other ≠ key name →
      m'.loader.loadResource other = m.loader.loadResource other ∧
      m'.loader.findResources other = m.loader.findResources other) ∧
    (name.toList.head? = some '/' → found = false ∧ m' = m) := by
  cases hstep
  have hslash : name.toList.head? = some '/' →
      m.hasKey name = false ∧ m.removeResource name = m := by
    intro hhead
    have hkey : m.hasKey name = false := by
      by_contra hkey
      rw [Bool.not_eq_false] at hkey
      exact key_eq_self_iff.mp ((isKeyed_of_run hrun).key_of_hasKey hkey) hhead
    exact ⟨hkey, removeResource_of_not_hasKey hkey⟩
  refine ⟨?_, fun other => answers_removeResource, hslash⟩
  by_cases hhead : name.toList.head? = some '/'
  · obtain ⟨hkey, hsame⟩ := hslash hhead
    rw [hkey, hsame]
    constructor
    · exact fun h _ => h.gone
    · intro h
      have hnot : ¬ m.Finds name := h hhead
      refine ⟨iff_of_false Bool.false_ne_true hnot, hnot, ?_⟩
      exact findResources_eq_nil_iff.mpr (not_finds_iff.mp hnot)
  · refine iff_of_true ?_ fun h => absurd h hhead
    exact takesOut_of_key_eq (isInhabited_of_run hrun) (key_eq_self_iff.mpr hhead)

/-- Two resources were added, the first of them under a name with a slash in front. -/
def shelved : MemoryLoader :=
  (empty.addResource "/a" (.data [1])).addResource "b" (.broken "denied")

theorem run_shelved :
    Run Step .empty [.added "/a" (.data [1]), .added "b" (.broken "denied")] shelved :=
  (Run.single (.add _ _ _)).snoc (.add _ _ _)

/-- Without the slash the first one is removed, and the second one stays. -/
theorem slashed_addition_is_removed : ∃ m',
    Run Step .empty [.added "/a" (.data [1]), .added "b" (.broken "denied")] shelved ∧
    Step shelved (.removed "a" true) m' ∧ TakesOut shelved "a" true m' ∧
    m'.loader.findResources "b" = shelved.loader.findResources "b" := by
  have hstep : Step shelved (.removed "a" true) (shelved.removeResource "a") := by
    have hkey : shelved.hasKey "a" = true := by decide +kernel
    rw [← hkey]
    exact .remove _ _
  obtain ⟨hiff, hothers, -⟩ := removal_takesOut_iff run_shelved hstep
  refine ⟨_, run_shelved, hstep, hiff.mpr fun h => absurd h (by decide), ?_⟩
  exact (hothers "b" (by decide +kernel)).2

/-- With the slash, under which it was added and is found, it is not. -/
theorem not_forall_takesOut :
    ¬ ∀ ls m m' name found, Run Step .empty ls m → Step m (.removed name found) m' →
      TakesOut m name found m' := by
  intro hall
  have hremoval := hall _ _ _ "/a" _ run_shelved (.remove _ _)
  have hfound : shelved.Finds "/a" := by
    have hdeposits : shelved.deposits (key "/a") = [.data [1]] := by decide +kernel
    by_contra hnone
    rw [not_finds_iff, hdeposits] at hnone
    exact nomatch hnone
  exact absurd (hremoval.told.mpr hfound) (by decide +kernel)

end LogSetup.MemoryLoader
