import LogSetup.Loader.Folders
import LogSetup.Proofs.Disk.Spots
import LogSetup.Proofs.Text.Visible

/-!
# Files that a search of folders reads

A loader that searches folders reads files below its roots: each of them stands at the path that the
name spells below one of the roots. That path need not lead below the root. It does whenever the
name never goes further up than it has come down, and otherwise only when the name comes back through
the folders of the root that it has left.

## Main definitions

- `FolderLoader.Reads` : a file that is read, and the root in which it is searched

## Main statements

- `FolderLoader.reads_within_iff` : which files that are read lie within the root
- `FolderLoader.not_forall_reads_within` : one that does not
-/

namespace LogSetup

namespace FilePath

theorem isAbsolute_ofText_eq_false {s : String} (h : s.toList.head? ≠ some '/') :
    (ofText s).isAbsolute = false := by
  have hbytes : (ofText s).bytes = s.toList.flatMap String.utf8EncodeChar := rfl
  rw [isAbsolute, beq_eq_false_iff_ne, hbytes]
  intro hslash
  cases hs : s.toList with
  | nil =>
    rw [hs] at hslash
    cases hslash
  | cons c rest =>
    rw [hs, List.flatMap_cons,
      List.head?_append_of_ne_nil _ String.utf8EncodeChar_ne_nil] at hslash
    have hc : c.toNat = slash.toNat :=
      Text.toNat_of_mem_utf8EncodeChar (List.mem_of_head? hslash) (by decide)
    rw [hs] at h
    exact h (congrArg some (Char.toNat_inj.mp hc))

end FilePath

namespace FolderLoader

variable {l : FolderLoader} {disk : FileTree} {name : String} {root p : FilePath}

/-- The path that a name spells below a root. -/
def named (name : String) : FilePath := .ofText (Text.dropLeading '/' name)

theorem isAbsolute_named (name : String) : (named name).isAbsolute = false := by
  apply FilePath.isAbsolute_ofText_eq_false
  rw [Text.dropLeading, String.toList_ofList]
  intro hhead
  have hnot := List.head?_dropWhile_not (· == '/') name.toList
  rw [hhead] at hnot
  cases hnot

/-- In a search for a name the file at a path is read as that of a root. -/
def Reads (l : FolderLoader) (disk : FileTree) (name : String) (root p : FilePath) : Prop :=
  root ∈ l.roots ∧ p = root.join (named name) ∧ disk.isFile p = true

theorem mem_candidates_iff : p ∈ l.candidates disk name ↔ ∃ root, l.Reads disk name root p := by
  rw [candidates, List.mem_filter, paths, List.mem_map]
  constructor
  · rintro ⟨⟨root, hroot, rfl⟩, hfile⟩
    exact ⟨root, hroot, rfl, hfile⟩
  · rintro ⟨root, hroot, rfl, hfile⟩
    exact ⟨⟨root, hroot, rfl⟩, hfile⟩

/-- The name never goes further up than it has come down, wherever it is broken off. -/
def StaysBelow (name : String) : Prop :=
  ∀ front, front <+: (named name).components →
    front.count .parent ≤ front.countP FilePath.Component.isName

theorem ups_named_eq_zero_iff : (named name).spot.ups = 0 ↔ StaysBelow name := by
  have hroot := FilePath.root_not_mem_components (isAbsolute_named name)
  refine (Spot.ups_follow_eq_iff Spot.start hroot rfl).trans (forall₂_congr fun front _ => ?_)
  rw [Spot.start, List.length_nil, Nat.zero_add]

/-- The name comes back through the names of the root that it has left. -/
def ComesBack (root : FilePath) (name : String) : Prop :=
  ((named name).spot.ups ≤ root.spot.names.length ∨ root.isAbsolute = true) ∧
    root.spot.names.drop (root.spot.names.length - (named name).spot.ups) <+:
      (named name).spot.names

theorem Reads.isWithin_iff (h : l.Reads disk name root p) :
    p.spot.IsWithin root.spot ↔ ComesBack root name := by
  obtain ⟨-, rfl, -⟩ := h
  have habsolute := isAbsolute_named name
  rw [FilePath.spot_join habsolute,
    Spot.isWithin_follow_iff _ (FilePath.root_not_mem_components habsolute), root.rooted_spot]
  exact Iff.rfl

theorem comesBack_of_staysBelow (h : StaysBelow name) (root : FilePath) : ComesBack root name := by
  rw [ComesBack, ups_named_eq_zero_iff.mpr h, Nat.sub_zero, List.drop_length]
  exact ⟨.inl (Nat.zero_le _), List.nil_prefix⟩

/-- What a search for a name finds are the files at the path that the name spells below the roots.
Such a file lies within its root exactly when the name comes back through the names of the root that
it has left. That holds for every root when the name stays below where it starts. -/
theorem reads_within_iff (l : FolderLoader) (disk : FileTree) (name : String) :
    (∀ answer, answer ∈ l.findResources disk name ↔
      ∃ root p, l.Reads disk name root p ∧ answer = Source.ofFile disk p) ∧
    (l.loadResource disk name = .ok none ∨
      ∃ root p, l.Reads disk name root p ∧
        l.loadResource disk name = (Source.ofFile disk p).map some) ∧
    (∀ root p, l.Reads disk name root p → (p.spot.IsWithin root.spot ↔ ComesBack root name)) ∧
    (StaysBelow name → ∀ root p, l.Reads disk name root p → p.spot.IsWithin root.spot) := by
  refine ⟨fun answer => ?_, ?_, fun root p h => h.isWithin_iff,
    fun hstays root p h => h.isWithin_iff.mpr (comesBack_of_staysBelow hstays root)⟩
  · rw [findResources, List.mem_map]
    constructor
    · rintro ⟨p, hp, rfl⟩
      obtain ⟨root, h⟩ := mem_candidates_iff.mp hp
      exact ⟨root, p, h, rfl⟩
    · rintro ⟨root, p, h, rfl⟩
      exact ⟨p, mem_candidates_iff.mpr ⟨root, h⟩, rfl⟩
  · rw [loadResource]
    cases hcandidates : l.candidates disk name with
    | nil => exact .inl rfl
    | cons p rest =>
      have hp : p ∈ l.candidates disk name := hcandidates ▸ List.mem_cons_self
      obtain ⟨root, h⟩ := mem_candidates_iff.mp hp
      exact .inr ⟨root, p, h, rfl⟩

/-- A file in a folder `r`, and another one beside that folder. -/
def twoFiles : FileTree :=
  ((FileTree.empty []).addFile [Utf8.encode "r", Utf8.encode "a"] [1]).addFile
    [Utf8.encode "b"] [2]

/-- A name that leaves the root and comes back to it is read within the root. -/
theorem name_comes_back : ∃ p,
    (⟨[.ofText "/r"]⟩ : FolderLoader).Reads twoFiles "../r/a" (.ofText "/r") p ∧
      p.spot.IsWithin (FilePath.ofText "/r").spot ∧
      .ok ⟨[1], .file p⟩ ∈ (⟨[.ofText "/r"]⟩ : FolderLoader).findResources twoFiles "../r/a" := by
  obtain ⟨hfound, -, hwithin, -⟩ := reads_within_iff ⟨[.ofText "/r"]⟩ twoFiles "../r/a"
  have hreads : (⟨[.ofText "/r"]⟩ : FolderLoader).Reads twoFiles "../r/a" (.ofText "/r")
      ((FilePath.ofText "/r").join (named "../r/a")) := ⟨.head _, rfl, by decide +kernel⟩
  have hback : ComesBack (.ofText "/r") "../r/a" :=
    ⟨.inl (by decide +kernel), by decide +kernel⟩
  exact ⟨_, hreads, (hwithin _ _ hreads).mpr hback,
    (hfound _).mpr ⟨_, _, hreads, by decide +kernel⟩⟩

/-- A name that begins with two dots is read outside of the root. -/
theorem not_forall_reads_within :
    ¬ ∀ (l : FolderLoader) disk name root p, l.Reads disk name root p →
      p.spot.IsWithin root.spot := by
  intro hall
  have hreads : (⟨[.ofText "/r"]⟩ : FolderLoader).Reads twoFiles "../b" (.ofText "/r")
      ((FilePath.ofText "/r").join (named "../b")) := ⟨.head _, rfl, by decide +kernel⟩
  exact absurd (hall _ _ _ _ _ hreads) (by decide +kernel)

end FolderLoader

end LogSetup
