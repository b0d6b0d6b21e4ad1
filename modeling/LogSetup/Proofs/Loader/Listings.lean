import LogSetup.Loader.Folders
import LogSetup.Loader.Memory
import LogSetup.Loader.Table
import LogSetup.Proofs.Threads.Runs
import Mathlib.Data.List.DropRight

/-!
# The first resource and all of them

The first resource of a name is the head of the list of all resources of that name, for every kind
of loader, and its error is the error at the head of that list. What a loader that holds its content
lists under a name can be told from the history of its content: the additions under that name,
however it was spelled, since it was removed for the last time.

## Main definitions

- `Loader.LoadsHead` : the first resource of a name is the head of all of them
- `MemoryLoader.Step`, `MemoryLoader.Label` : changes of the content and what they did
- `MemoryLoader.additions` : what a history added under a name since it was removed

## Main statements

- `MemoryLoader.deposits_of_run` : the content under a name after a history
- `Loader.load_is_head_of_find` : the head of the list, its entries, and spellings of the name
-/

namespace LogSetup

/-! ### The head of the list -/

namespace Loader

/-- The first resource of a name is absent when there is none in the list of all, and otherwise it
is the first of the list, be it a source or an error. -/
def LoadsHead (l : Loader) : Prop :=
  ∀ name, (l.loadResource name = .ok none ↔ l.findResources name = []) ∧
    ∀ first rest, l.findResources name = first :: rest → l.loadResource name = first.map some

theorem map_some_ne_ok_none {first : Except LoadError Source} : first.map some ≠ .ok none := by
  cases first with
  | ok s => exact nofun
  | error e => exact nofun

theorem loadsHead_of_nil_of_cons {l : Loader}
    (hnil : ∀ name, l.findResources name = [] → l.loadResource name = .ok none)
    (hcons : ∀ name first rest, l.findResources name = first :: rest →
      l.loadResource name = first.map some) : l.LoadsHead := by
  intro name
  refine ⟨⟨fun hload => ?_, hnil name⟩, hcons name⟩
  cases hfind : l.findResources name with
  | nil => rfl
  | cons first rest =>
    rw [hcons name first rest hfind] at hload
    exact absurd hload map_some_ne_ok_none

/-- A loader that knows of one resource of a name at most. -/
theorem loadsHead_of_allOf {l : Loader}
    (h : ∀ name, l.findResources name = allOf (l.loadResource name)) : l.LoadsHead := by
  apply loadsHead_of_nil_of_cons
  · intro name hfind
    rw [h] at hfind
    cases hload : l.loadResource name with
    | error e => simp [hload, allOf] at hfind
    | ok answer =>
      cases answer with
      | none => rfl
      | some s => simp [hload, allOf] at hfind
  · intro name first rest hfind
    rw [h] at hfind
    cases hload : l.loadResource name with
    | error e =>
      rw [hload] at hfind
      obtain ⟨rfl, -⟩ := List.cons.inj hfind
      rfl
    | ok answer =>
      rw [hload] at hfind
      cases answer with
      | none => cases hfind
      | some s =>
        obtain ⟨rfl, -⟩ := List.cons.inj hfind
        rfl

end Loader

theorem FolderLoader.loadsHead (l : FolderLoader) (disk : FileTree) :
    (l.loader disk).LoadsHead := by
  apply Loader.loadsHead_of_nil_of_cons
  · intro name hfind
    show l.loadResource disk name = _
    rw [loadResource, List.map_eq_nil_iff.mp hfind]
  · intro name first rest hfind
    obtain ⟨p, ps, hcandidates, rfl, -⟩ := List.map_eq_cons_iff.mp hfind
    show l.loadResource disk name = _
    rw [loadResource, hcandidates]

namespace MemoryLoader

theorem loadsHead (m : MemoryLoader) : m.loader.LoadsHead := by
  apply Loader.loadsHead_of_nil_of_cons
  · intro name hfind
    show m.loadResource name = _
    rw [loadResource, List.mapIdx_eq_nil_iff.mp hfind]
  · intro name first rest hfind
    change m.findResources name = first :: rest at hfind
    show m.loadResource name = _
    rw [findResources] at hfind
    rw [loadResource]
    cases hdeposits : m.deposits (key name) with
    | nil =>
      rw [hdeposits] at hfind
      cases hfind
    | cons d ds =>
      rw [hdeposits, List.mapIdx_cons] at hfind
      obtain ⟨rfl, -⟩ := List.cons.inj hfind
      rfl

/-! ### Spellings of a name -/

/-- A name with further slashes in front. -/
def slashed (slashes : Nat) (name : String) : String :=
  String.ofList (List.replicate slashes '/') ++ name

theorem dropLeading_slashed (slashes : Nat) (name : String) :
    Text.dropLeading '/' (slashed slashes name) = Text.dropLeading '/' name := by
  rw [Text.dropLeading, Text.dropLeading, slashed, String.toList_append, String.toList_ofList]
  rw [List.dropWhile_append_of_pos]
  intro c hc
  rw [List.eq_of_mem_replicate hc]
  rfl

theorem key_key (name : String) : key (key name) = key name := by
  show Text.dropLeading '/' (Text.dropLeading '/' name) = Text.dropLeading '/' name
  rw [Text.dropLeading, Text.dropLeading, String.toList_ofList, List.dropWhile_idempotent]

theorem key_slashed (slashes : Nat) (name : String) : key (slashed slashes name) = key name :=
  dropLeading_slashed slashes name

/-! ### Histories of the content -/

/-- What a change of the content did. -/
inductive Label where
  | added (name : String) (d : Deposit)
  /-- The resource was to be removed, and was found or not. -/
  | removed (name : String) (found : Bool)
  /-- Something else than a resource was added. -/
  | filed
  deriving DecidableEq, Repr

/-- A change of the content. -/
inductive Step : MemoryLoader → Label → MemoryLoader → Prop
  | add (m : MemoryLoader) (name : String) (d : Deposit) :
      Step m (.added name d) (m.addResource name d)
  | remove (m : MemoryLoader) (name : String) :
      Step m (.removed name (m.hasKey name)) (m.removeResource name)
  | file (m : MemoryLoader) (p : FilePath) (data : Bytes) : Step m .filed (m.addFile p data)
  | url (m : MemoryLoader) (text : String) (data : Bytes) : Step m .filed (m.addUrl text data)

namespace Label

/-- The resource of a name was removed, under whatever spelling of the name. -/
def takesOut (name : String) : Label → Bool
  | removed other found => found && key other == key name
  | _ => false

/-- What was added under a name, in whatever spelling. -/
def addition? (name : String) : Label → Option Deposit
  | added other d => if key other = key name then some d else none
  | _ => none

end Label

/-- What was added under a name since it was removed for the last time, in order. -/
def additions (name : String) (ls : List Label) : List Deposit :=
  (ls.rtakeWhile fun l => !l.takesOut name).filterMap (Label.addition? name)

variable {m m' : MemoryLoader} {ls : List Label} {l : Label} {name : String}

theorem additions_of_takesOut (h : l.takesOut name = true) : additions name (ls ++ [l]) = [] := by
  rw [additions, List.rtakeWhile_concat_neg _ _ _ (by simp [h])]
  rfl

theorem additions_snoc (h : l.takesOut name = false) :
    additions name (ls ++ [l]) = additions name ls ++ (l.addition? name).toList := by
  rw [additions, List.rtakeWhile_concat_pos _ _ _ (by simp [h]), List.filterMap_append, additions]
  cases hl : l.addition? name with
  | none => rw [List.filterMap_cons_none hl, List.filterMap_nil, Option.toList]
  | some d => rw [List.filterMap_cons_some hl, List.filterMap_nil, Option.toList]

theorem additions_snoc_of_other (h : l.takesOut name = false) (hnone : l.addition? name = none) :
    additions name (ls ++ [l]) = additions name ls := by
  rw [additions_snoc h, hnone, Option.toList, List.append_nil]

/-! ### What is kept under a key -/

section Deposits

variable {rs : List (String × List Deposit)} {files : List (FilePath × Bytes)}
  {urls : List (String × Bytes)}

theorem deposits_cons (r : String × List Deposit) (k : String) :
    deposits ⟨r :: rs, files, urls⟩ k = if r.1 = k then r.2 else deposits ⟨rs, files, urls⟩ k := by
  by_cases hr : r.1 = k
  · simp [deposits, hr]
  · simp [deposits, hr]

theorem deposits_deposit (k : String) (d : Deposit) (k' : String) :
    deposits ⟨deposit k d rs, files, urls⟩ k' =
      if k = k' then deposits ⟨rs, files, urls⟩ k' ++ [d]
      else deposits ⟨rs, files, urls⟩ k' := by
  induction rs with
  | nil =>
    rw [deposit, deposits_cons]
    rfl
  | cons r rest ih =>
    by_cases hr : r.1 = k
    · rw [deposit, if_pos hr, deposits_cons, deposits_cons, hr]
      split <;> rfl
    · rw [deposit, if_neg hr, deposits_cons, deposits_cons, ih]
      by_cases hk : k = k'
      · rw [if_pos hk, if_neg (fun h => hr (h.trans hk.symm)), if_pos hk,
          if_neg (fun h => hr (h.trans hk.symm))]
      · rw [if_neg hk, if_neg hk]

end Deposits

theorem deposits_addResource (m : MemoryLoader) (name : String) (d : Deposit) (k : String) :
    (m.addResource name d).deposits k =
      if key name = k then m.deposits k ++ [d] else m.deposits k :=
  deposits_deposit (key name) d k

theorem deposits_removeResource (m : MemoryLoader) (name k : String) :
    (m.removeResource name).deposits k = if name = k then [] else m.deposits k := by
  obtain ⟨rs, files, urls⟩ := m
  rw [removeResource]
  induction rs with
  | nil => exact (ite_self _).symm
  | cons r rest ih =>
    by_cases hr : r.1 = name
    · rw [List.filter_cons_of_neg (by simp [hr])]
      rw [ih, deposits_cons, hr]
      split <;> rfl
    · rw [List.filter_cons_of_pos (by simp [hr]), deposits_cons, deposits_cons, ih]
      by_cases hk : name = k
      · rw [if_pos hk, if_pos hk, if_neg (fun h => hr (h.trans hk.symm))]
      · rw [if_neg hk, if_neg hk]

theorem deposits_of_hasKey_eq_false {k : String} (h : m.hasKey k = false) : m.deposits k = [] := by
  rw [hasKey, List.any_eq_false] at h
  rw [deposits, List.find?_eq_none.mpr h]
  rfl

/-- Resources are kept by names without leading slashes. -/
def IsKeyed (m : MemoryLoader) : Prop := ∀ r ∈ m.resources, key r.1 = r.1

theorem IsKeyed.key_of_hasKey (h : m.IsKeyed) (hname : m.hasKey name = true) : key name = name := by
  obtain ⟨r, hr, hsame⟩ := List.any_eq_true.mp hname
  rw [← eq_of_beq hsame]
  exact h r hr

theorem mem_deposit {k : String} {d : Deposit} {rs : List (String × List Deposit)}
    {r : String × List Deposit} (h : r ∈ deposit k d rs) : r.1 = k ∨ ∃ r' ∈ rs, r'.1 = r.1 := by
  induction rs with
  | nil => exact .inl (congrArg Prod.fst (List.mem_singleton.mp h))
  | cons r' rest ih =>
    by_cases hr' : r'.1 = k
    · rw [deposit, if_pos hr', List.mem_cons] at h
      rcases h with rfl | h
      · exact .inl hr'
      · exact .inr ⟨r, .tail _ h, rfl⟩
    · rw [deposit, if_neg hr', List.mem_cons] at h
      rcases h with rfl | h
      · exact .inr ⟨r, .head _, rfl⟩
      · refine (ih h).imp_right ?_
        rintro ⟨s, hs, hsame⟩
        exact ⟨s, .tail _ hs, hsame⟩

theorem IsKeyed.of_step (h : m.IsKeyed) (hstep : Step m l m') : m'.IsKeyed := by
  cases hstep with
  | add name d =>
    intro r hr
    rcases mem_deposit hr with hr | ⟨r', hr', hsame⟩
    · rw [hr, key_key]
    · rw [← hsame]
      exact h r' hr'
  | remove name => exact fun r hr => h r (List.mem_filter.mp hr).1
  | file p data => exact h
  | url text data => exact h

theorem isKeyed_of_run (h : Run Step .empty ls m) : m.IsKeyed :=
  h.preserves (fun _ hr => absurd hr List.not_mem_nil) fun _ _ _ _ hstep hm => hm.of_step hstep

theorem deposits_of_run (h : Run Step .empty ls m) (name : String) :
    m.deposits (key name) = additions name ls := by
  induction h with
  | nil => rfl
  | @snoc ls l a b hrun hstep ih =>
    cases hstep with
    | add other d =>
      rw [deposits_addResource, ih, additions_snoc rfl, Label.addition?]
      split
      · rfl
      · rw [Option.toList, List.append_nil]
    | remove other =>
      rw [deposits_removeResource]
      cases hfound : (Label.removed other (a.hasKey other)).takesOut name with
      | true =>
        rw [Label.takesOut, Bool.and_eq_true, beq_iff_eq] at hfound
        have hkey : other = key name :=
          ((isKeyed_of_run hrun).key_of_hasKey hfound.1).symm.trans hfound.2
        rw [if_pos hkey, additions_of_takesOut (by simp [Label.takesOut, hfound])]
      | false =>
        rw [additions_snoc_of_other hfound rfl, ← ih]
        by_cases hkey : other = key name
        · have hnone : a.hasKey other = false := by
            simpa [Label.takesOut, hkey, key_key] using hfound
          rw [if_pos hkey, ← hkey, deposits_of_hasKey_eq_false hnone]
        · rw [if_neg hkey]
    | file p data =>
      rw [additions_snoc_of_other rfl rfl]
      exact ih
    | url text data =>
      rw [additions_snoc_of_other rfl rfl]
      exact ih

end MemoryLoader

namespace Loader

open MemoryLoader in
/-- The first resource of a name is the head of the list of all, for every kind of loader. A loader
that holds its content lists what was added under the name since it was removed, and slashes in
front of the name make no difference to it, nor to a loader that searches folders. -/
theorem load_is_head_of_find :
    ((∀ m : MemoryLoader, m.loader.LoadsHead) ∧
      (∀ (l : FolderLoader) (disk : FileTree), (l.loader disk).LoadsHead) ∧
      ∀ l : Loader, (∀ name, l.findResources name = allOf (l.loadResource name)) → l.LoadsHead) ∧
    (∀ ls m, Run Step .empty ls m → ∀ name, m.loader.findResources name =
      (additions name ls).mapIdx fun number d => sourceOf (key name) number d) ∧
    ∀ slashes name,
      (∀ m : MemoryLoader,
        m.loader.loadResource (slashed slashes name) = m.loader.loadResource name ∧
        m.loader.findResources (slashed slashes name) = m.loader.findResources name) ∧
      ∀ (l : FolderLoader) (disk : FileTree),
        (l.loader disk).loadResource (slashed slashes name) =
          (l.loader disk).loadResource name ∧
        (l.loader disk).findResources (slashed slashes name) =
          (l.loader disk).findResources name := by
  refine ⟨⟨MemoryLoader.loadsHead, FolderLoader.loadsHead, fun _ => loadsHead_of_allOf⟩,
    fun ls m h name => ?_, fun slashes name => ⟨fun m => ?_, fun l disk => ?_⟩⟩
  · show m.findResources name = _
    rw [MemoryLoader.findResources, deposits_of_run h]
  · have hkey := key_slashed slashes name
    constructor
    · show m.loadResource _ = m.loadResource _
      rw [MemoryLoader.loadResource, MemoryLoader.loadResource, hkey]
    · show m.findResources _ = m.findResources _
      rw [MemoryLoader.findResources, MemoryLoader.findResources, hkey]
  · have hcandidates : l.candidates disk (slashed slashes name) = l.candidates disk name := by
      rw [FolderLoader.candidates, FolderLoader.candidates, FolderLoader.paths,
        FolderLoader.paths, dropLeading_slashed]
    constructor
    · show l.loadResource disk _ = l.loadResource disk _
      rw [FolderLoader.loadResource, FolderLoader.loadResource, hcandidates]
    · show l.findResources disk _ = l.findResources disk _
      rw [FolderLoader.findResources, FolderLoader.findResources, hcandidates]

/-- A resource is added and removed, and then added twice anew. To remove it under a name with a
slash in front finds nothing. -/
def renewal : List MemoryLoader.Label :=
  [.added "a" (.data [1]), .removed "a" true, .added "/a" (.data [2]),
    .added "a" (.broken "denied"), .removed "/a" false]

open MemoryLoader in
/-- What is listed are the two additions after the removal, and the first of them is loaded. -/
theorem resource_added_anew_is_listed : ∃ m, Run Step .empty renewal m ∧
    m.loader.findResources "a" = [sourceOf "a" 0 (.data [2]), sourceOf "a" 1 (.broken "denied")] ∧
    m.loader.loadResource "//a" = (sourceOf "a" 0 (.data [2])).map some ∧
    ∀ disk, ((⟨[("a", .failure (.notFound "a"))]⟩ : TableLoader).loader disk).LoadsHead := by
  obtain ⟨⟨hmemory, -, hdefault⟩, hlisted, hslashes⟩ := load_is_head_of_find
  have hrun : Run Step .empty renewal _ := ((((Run.single (Step.add .empty "a" (.data [1]))).snoc
    (.remove _ "a")).snoc (.add _ "/a" (.data [2]))).snoc
    (.add _ "a" (.broken "denied"))).snoc (.remove _ "/a")
  have hadditions : additions "a" renewal = [.data [2], .broken "denied"] := by decide +kernel
  have hkey : key "a" = "a" := by decide +kernel
  have hfind := hlisted renewal _ hrun "a"
  rw [hadditions, hkey] at hfind
  refine ⟨_, hrun, hfind, ?_, fun disk => hdefault _ fun _ => rfl⟩
  have hspelling : slashed 2 "a" = "//a" := by decide +kernel
  rw [← hspelling, ((hslashes 2 "a").1 _).1]
  exact (hmemory _ "a").2 _ _ hfind

end Loader

end LogSetup
