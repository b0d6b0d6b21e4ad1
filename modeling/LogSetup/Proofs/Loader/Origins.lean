import LogSetup.Loader.Folders
import LogSetup.Loader.Memory
import LogSetup.Loader.Table
import Mathlib.Control.Monad.Basic

/-!
# Where opened URLs come from

Whether a URL denotes a file is decided in three places: for its origin, by a loader that holds its
content, and by a loader that opens URLs of files only. They decide alike. What a URL opens to has
the origin that the URL stands for, whichever loader opens it, and the URL of a file opens to what
the file does. A loader that holds its content opens the URL of a file on another host as it opens
URLs that are not files.

## Main definitions

- `Loader.FollowsUrls` : URLs open to sources with the origins that they stand for

## Main statements

- `Loader.urls_open_to_their_origins` : every kind of loader does so
-/

namespace LogSetup

variable {u v : Url} {p : FilePath} {s : Source} {disk : FileTree}

/-! ### The origin of a URL -/

theorem Origin.ofUrl_eq_file_iff :
    Origin.ofUrl u = .file p ↔ u.isFile = true ∧ u.localPath? = some p := by
  rw [ofUrl]
  by_cases hfile : u.isFile = true
  · rw [if_pos hfile]
    cases u.localPath? <;> simp [hfile]
  · simp [hfile]

theorem Origin.ofUrl_eq_url_iff :
    Origin.ofUrl u = .url v ↔ u = v ∧ ∀ p, Origin.ofUrl u ≠ .file p := by
  rw [ofUrl]
  cases (if u.isFile then u.localPath? else none) <;> simp

/-! ### Files -/

namespace Loader

/-- What is found at a path comes from that path. -/
theorem origin_of_openDiskFile (h : openDiskFile disk p = .ok (some s)) : s.origin = .file p := by
  rw [openDiskFile] at h
  split at h
  · rw [Source.ofFile] at h
    cases hread : disk.read p with
    | ok data =>
      rw [hread] at h
      cases h
      rfl
    | error e =>
      rw [hread] at h
      cases h
  · cases h

end Loader

theorem MemoryLoader.origin_of_openFile {m : MemoryLoader} (h : m.openFile p = .ok (some s)) :
    s.origin = .file p := by
  obtain ⟨f, -, rfl⟩ := Option.map_eq_some_iff.mp (Except.ok.inj h)
  rfl

/-! ### URLs -/

namespace Loader

/-- What a URL opens to has the origin that the URL stands for, and where the URL stands for a file,
it opens exactly when the file does, and to the same source. -/
structure FollowsUrls (l : Loader) : Prop where
  origin_eq : ∀ u s, l.openUrl u = .ok s → s.origin = Origin.ofUrl u
  opens_iff : ∀ u p s, Origin.ofUrl u = .file p →
    (l.openUrl u = .ok s ↔ l.openFile p = .ok (some s))

theorem openFileUrl_eq_ok_iff {openFile : FilePath → Except LoadError (Option Source)} :
    openFileUrl openFile u = .ok s ↔
      ∃ p, Origin.ofUrl u = .file p ∧ openFile p = .ok (some s) := by
  simp only [Origin.ofUrl_eq_file_iff, openFileUrl]
  cases hfile : u.isFile with
  | false => simp
  | true =>
    cases hpath : u.localPath? with
    | none => simp
    | some p =>
      cases hopen : openFile p with
      | error e => simp [hopen]
      | ok source => cases source <;> simp [hopen]

/-- A loader that opens URLs of files only follows them when its files come from their paths. -/
theorem followsUrls_of_openFileUrl {l : Loader} (hurl : l.openUrl = openFileUrl l.openFile)
    (horigin : ∀ p s, l.openFile p = .ok (some s) → s.origin = .file p) : l.FollowsUrls := by
  constructor
  · intro u s hopen
    rw [hurl, openFileUrl_eq_ok_iff] at hopen
    obtain ⟨p, hp, hfile⟩ := hopen
    rw [hp, horigin p s hfile]
  · intro u p s hp
    rw [hurl, openFileUrl_eq_ok_iff]
    constructor
    · rintro ⟨q, hq, hfile⟩
      rw [hp] at hq
      cases hq
      exact hfile
    · exact fun hfile => ⟨p, hp, hfile⟩

theorem followsUrls_of_default {l : Loader} (hfile : l.openFile = openDiskFile disk)
    (hurl : l.openUrl = openFileUrl l.openFile) : l.FollowsUrls :=
  followsUrls_of_openFileUrl hurl fun _ _ h => origin_of_openDiskFile (by rwa [hfile] at h)

end Loader

namespace MemoryLoader

variable {m : MemoryLoader}

/-- The test for files agrees with the origin of the URL where that is a file. -/
theorem openUrl_eq_ok_iff_of_file (h : Origin.ofUrl u = .file p) :
    m.openUrl u = .ok s ↔ m.openFile p = .ok (some s) := by
  obtain ⟨hfile, hpath⟩ := Origin.ofUrl_eq_file_iff.mp h
  rw [openUrl, if_pos hfile, hpath]
  cases hopen : m.openFile p with
  | error e => simp [hopen]
  | ok source => cases source <;> simp [hopen]

/-- The test for files agrees with the origin of the URL where that is no file. -/
theorem openUrl_eq_openAdded (h : ∀ p, Origin.ofUrl u ≠ .file p) :
    m.openUrl u = m.openAdded u := by
  rw [openUrl]
  by_cases hfile : u.isFile = true
  · rw [if_pos hfile]
    cases hpath : u.localPath? with
    | none => rfl
    | some p => exact absurd (Origin.ofUrl_eq_file_iff.mpr ⟨hfile, hpath⟩) (h p)
  · rw [if_neg hfile]

theorem openUrl_eq_ok_iff_of_url (h : ∀ p, Origin.ofUrl u ≠ .file p) :
    m.openUrl u = .ok s ↔
      ∃ e, (m.urls.find? fun e => e.1 == u.text) = some e ∧ s = ⟨e.2, .url u⟩ := by
  rw [openUrl_eq_openAdded h, openAdded]
  cases m.urls.find? fun e => e.1 == u.text with
  | none => simp
  | some e => simp [eq_comm]

theorem followsUrls (m : MemoryLoader) : m.loader.FollowsUrls := by
  constructor
  · intro u s hopen
    change m.openUrl u = .ok s at hopen
    by_cases hfile : ∃ p, Origin.ofUrl u = .file p
    · obtain ⟨p, hp⟩ := hfile
      rw [hp, origin_of_openFile ((openUrl_eq_ok_iff_of_file hp).mp hopen)]
    · rw [not_exists] at hfile
      obtain ⟨e, -, rfl⟩ := (openUrl_eq_ok_iff_of_url hfile).mp hopen
      exact (Origin.ofUrl_eq_url_iff.mpr ⟨rfl, hfile⟩).symm
  · exact fun u p s hp => openUrl_eq_ok_iff_of_file hp

end MemoryLoader

namespace Loader

/-- Every kind of loader opens a URL to a source with the origin that the URL stands for, which is
the file where the URL denotes one, and else the URL itself; and it opens the URL of a file exactly
as it opens the file. -/
theorem urls_open_to_their_origins :
    (∀ m : MemoryLoader, m.loader.FollowsUrls) ∧
    (∀ (l : FolderLoader) (disk : FileTree), (l.loader disk).FollowsUrls) ∧
    (∀ (l : Loader) (disk : FileTree), l.openFile = openDiskFile disk →
      l.openUrl = openFileUrl l.openFile → l.FollowsUrls) ∧
    ∀ u : Url,
      (∀ p, Origin.ofUrl u = .file p ↔ u.isFile = true ∧ u.localPath? = some p) ∧
      ((∀ p, ¬ (u.isFile = true ∧ u.localPath? = some p)) → Origin.ofUrl u = .url u) := by
  refine ⟨MemoryLoader.followsUrls, fun l disk => followsUrls_of_default rfl rfl,
    fun l disk => followsUrls_of_default, fun u => ⟨fun p => Origin.ofUrl_eq_file_iff, ?_⟩⟩
  intro hno
  refine Origin.ofUrl_eq_url_iff.mpr ⟨rfl, fun p hp => ?_⟩
  exact hno p (Origin.ofUrl_eq_file_iff.mp hp)

/-- A loader that holds a file, and something under the URL of a file on another host. -/
def mounted : MemoryLoader :=
  (MemoryLoader.empty.addFile (.ofText "/a.xml") [1]).addUrl "file://host/a.xml" [2]

/-- The URL `file:///a.xml`. -/
def near : Url :=
  ⟨Url.fileScheme, some (Url.hostOnly (.domain [])), "/a.xml".toList, none, none⟩

/-- The URL `file://host/a.xml`. -/
def far : Url :=
  ⟨Url.fileScheme, some (Url.hostOnly (.domain "host".toList)), "/a.xml".toList, none, none⟩

/-- The URL of the file opens to the file. The one on another host opens to what was added under it,
with the URL as its origin. -/
theorem file_on_other_host_is_no_file :
    (Url.read "file:///a.xml" = .ok near ∧ Url.read "file://host/a.xml" = .ok far) ∧
    mounted.loader.openUrl near = .ok ⟨[1], .file (.ofText "/a.xml")⟩ ∧
    (∃ s, mounted.loader.openUrl far = .ok s ∧ s.data = [2] ∧ s.origin = .url far) ∧
    ((TableLoader.mk []).loader (.empty [])).FollowsUrls := by
  obtain ⟨hmemory, -, hdefault, horigin⟩ := urls_open_to_their_origins
  have hnear : Origin.ofUrl near = .file (.ofText "/a.xml") :=
    ((horigin near).1 _).mpr ⟨rfl, by decide +kernel⟩
  have hfar : Origin.ofUrl far = .url far := (horigin far).2 fun p hp => absurd hp.2 nofun
  have hopen : mounted.loader.openUrl far = .ok ⟨[2], .url far⟩ := by decide +kernel
  have hread : Url.read "file:///a.xml" = .ok near ∧ Url.read "file://host/a.xml" = .ok far := by
    decide +kernel
  refine ⟨hread, ((hmemory mounted).opens_iff _ _ _ hnear).mpr rfl, ⟨_, hopen, rfl, ?_⟩,
    hdefault _ (.empty []) rfl rfl⟩
  rw [(hmemory mounted).origin_eq _ _ hopen, hfar]

end Loader

end LogSetup
