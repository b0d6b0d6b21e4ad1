import LogSetup.Proofs.Providers.Priorities
import LogSetup.Text.Utf8

/-!
# The validation of manifests

The fields of a manifest are checked in a fixed order: first that there is a version, then that it
is compatible, then that the priority, if there is one, is a whole number of 32 bits. The first
check that fails decides the error, whatever the other fields hold.

## Main definitions

- `Provider.Validates` : the answer that the fields of a manifest deserve

## Main statements

- `Provider.ofManifest_eq_iff` : that answer is given
- `Provider.validation_exact` : and so it is for the data of a manifest
-/

namespace LogSetup

namespace Provider

open Text

/-- A version starts with a compatible one. -/
def StartsCompatibly (version : String) : Prop :=
  ∃ front ∈ compatibleVersions, front.toList <+: version.toList

/-- The version of a manifest starts with a compatible one. -/
def IsCompatible (m : Manifest) : Prop :=
  ∃ v, m.version = some v ∧ StartsCompatibly (trim v.asText)

/-- Data announces a provider with a priority. -/
def Announces (s : Source) (context : LoadingContext) (i : Int) : Prop :=
  ∃ p, ofSource s context = .ok p ∧ p.priority = i

/-- The answer that the fields of a manifest deserve. -/
inductive Validates (origin : Origin) (context : LoadingContext) (m : Manifest) :
    Except ProviderError Provider → Prop
  /-- There is no version, or only blanks in its place. -/
  | missing (h : ∀ v, m.version = some v → isBlankText v.asText = true) :
    Validates origin context m (.error (.missingVersion origin.display))
  /-- The version is not compatible. -/
  | incompatible {v : ManifestValue} (hv : m.version = some v)
    (written : isBlankText v.asText = false) (h : ¬ StartsCompatibly (trim v.asText)) :
    Validates origin context m (.error (.incompatibleVersion origin.display (trim v.asText)))
  /-- The version is compatible, and the priority is no whole number of 32 bits. -/
  | priority {v w : ManifestValue} (hv : m.version = some v)
    (compatible : StartsCompatibly (trim v.asText)) (hw : m.priority = some w)
    (h : ¬ ∃ i, IsNumeral (trimChars w.asText.toList) i ∧ IsInt32 i) :
    Validates origin context m (.error (.priority origin.display w.asText))
  /-- The version is compatible, and there is no priority. -/
  | plain {v : ManifestValue} (hv : m.version = some v)
    (compatible : StartsCompatibly (trim v.asText)) (hw : m.priority = none) :
    Validates origin context m
      (.ok ⟨trim v.asText, -1, m.factory, m.contextMap, origin, context⟩)
  /-- The version is compatible, and the priority is a whole number of 32 bits. -/
  | ranked {v w : ManifestValue} {i : Int} (hv : m.version = some v)
    (compatible : StartsCompatibly (trim v.asText)) (hw : m.priority = some w)
    (numeral : IsNumeral (trimChars w.asText.toList) i) (range : IsInt32 i) :
    Validates origin context m
      (.ok ⟨trim v.asText, i, m.factory, m.contextMap, origin, context⟩)

variable {origin : Origin} {context : LoadingContext} {m : Manifest}
  {answer : Except ProviderError Provider}

/-! ### The version -/

theorem isCompatibleVersion_iff {version : String} :
    isCompatibleVersion version = true ↔ StartsCompatibly version := by
  simp only [isCompatibleVersion, List.any_eq_true, startsWith, List.isPrefixOf_iff_prefix,
    StartsCompatibly]

theorem version?_eq_none_iff :
    version? m = none ↔ ∀ v, m.version = some v → isBlankText v.asText = true := by
  rw [version?, Option.bind_eq_none_iff]
  exact forall₂_congr fun v _ => nonBlank?_eq_none_iff

theorem version?_eq_some_iff {version : String} : version? m = some version ↔
    ∃ v, m.version = some v ∧ isBlankText v.asText = false ∧ version = trim v.asText := by
  rw [version?, Option.bind_eq_some_iff]
  exact exists_congr fun v => and_congr_right fun _ => nonBlank?_eq_some_iff

/-- A version that starts with a compatible one is not blank. -/
theorem not_blank_of_startsCompatibly {text : String} (h : StartsCompatibly (trim text)) :
    isBlankText text = false := by
  rw [← Bool.not_eq_true, ← trim_eq_empty_iff]
  intro hempty
  obtain ⟨front, hmem, hfront⟩ := h
  rw [hempty, List.mem_singleton.mp hmem] at hfront
  exact absurd hfront (by decide)

/-! ### The answer -/

theorem validates_ofManifest (origin : Origin) (context : LoadingContext) (m : Manifest) :
    Validates origin context m (ofManifest origin context m) := by
  rw [ofManifest]
  cases hversion : version? m with
  | none => exact .missing (version?_eq_none_iff.mp hversion)
  | some version =>
    obtain ⟨v, hv, hwritten, rfl⟩ := version?_eq_some_iff.mp hversion
    dsimp only
    split
    · next hcompatible =>
      rw [isCompatibleVersion_iff] at hcompatible
      cases hpriority : priorityOf m with
      | error text =>
        obtain ⟨w, hw, rfl, hnone⟩ := priorityOf_eq_error_iff.mp hpriority
        exact .priority hv hcompatible hw hnone
      | ok i =>
        obtain ⟨hw, rfl⟩ | ⟨w, hw, hnumeral, hrange⟩ := priorityOf_eq_ok_iff.mp hpriority
        · exact .plain hv hcompatible hw
        · exact .ranked hv hcompatible hw hnumeral hrange
    · next hincompatible =>
      rw [isCompatibleVersion_iff] at hincompatible
      exact .incompatible hv hwritten hincompatible

/-- With a compatible version the priority decides. -/
theorem ofManifest_of_startsCompatibly {v : ManifestValue} (hv : m.version = some v)
    (h : StartsCompatibly (trim v.asText)) :
    ofManifest origin context m =
      ((priorityOf m).map fun i =>
        ⟨trim v.asText, i, m.factory, m.contextMap, origin, context⟩).mapError
          (.priority origin.display) := by
  have hversion := version?_eq_some_iff.mpr ⟨v, hv, not_blank_of_startsCompatibly h, rfl⟩
  rw [ofManifest, hversion]
  dsimp only
  rw [if_pos (isCompatibleVersion_iff.mpr h)]
  cases priorityOf m <;> rfl

/-- The fields of a manifest deserve one answer. -/
theorem Validates.eq_ofManifest (h : Validates origin context m answer) :
    ofManifest origin context m = answer := by
  cases h with
  | missing h => rw [ofManifest, version?_eq_none_iff.mpr h]
  | incompatible hv hwritten h =>
    rw [ofManifest, version?_eq_some_iff.mpr ⟨_, hv, hwritten, rfl⟩]
    exact if_neg fun hcompatible => h (isCompatibleVersion_iff.mp hcompatible)
  | priority hv hcompatible hw h =>
    rw [ofManifest_of_startsCompatibly hv hcompatible,
      priorityOf_eq_error_iff.mpr ⟨_, hw, rfl, h⟩]
    rfl
  | plain hv hcompatible hw =>
    rw [ofManifest_of_startsCompatibly hv hcompatible,
      priorityOf_eq_ok_iff.mpr (.inl ⟨hw, rfl⟩)]
    rfl
  | ranked hv hcompatible hw hnumeral hrange =>
    rw [ofManifest_of_startsCompatibly hv hcompatible,
      priorityOf_eq_ok_iff.mpr (.inr ⟨_, hw, hnumeral, hrange⟩)]
    rfl

theorem ofManifest_eq_iff :
    ofManifest origin context m = answer ↔ Validates origin context m answer :=
  ⟨fun h => h ▸ validates_ofManifest origin context m, Validates.eq_ofManifest⟩

theorem ofSource_of_decode? {s : Source} (context : LoadingContext)
    (hm : Manifest.decode? s.data = some m) :
    ofSource s context = ofManifest s.origin context m := by
  rw [ofSource, hm]

/-- A provider is announced exactly by a compatible version and a priority. -/
theorem announces_iff {s : Source} {i : Int} (hm : Manifest.decode? s.data = some m) :
    Announces s context i ↔ IsCompatible m ∧ priorityOf m = .ok i := by
  rw [Announces]
  simp only [ofSource_of_decode? context hm, ofManifest_eq_iff]
  constructor
  · rintro ⟨p, hp, rfl⟩
    cases hp with
    | plain hv hcompatible hw =>
      exact ⟨⟨_, hv, hcompatible⟩, priorityOf_eq_ok_iff.mpr (.inl ⟨hw, rfl⟩)⟩
    | ranked hv hcompatible hw hnumeral hrange =>
      exact ⟨⟨_, hv, hcompatible⟩, priorityOf_eq_ok_iff.mpr (.inr ⟨_, hw, hnumeral, hrange⟩)⟩
  · rintro ⟨⟨v, hv, hcompatible⟩, hpriority⟩
    obtain ⟨hw, rfl⟩ | ⟨w, hw, hnumeral, hrange⟩ := priorityOf_eq_ok_iff.mp hpriority
    · exact ⟨_, .plain hv hcompatible hw, rfl⟩
    · exact ⟨_, .ranked hv hcompatible hw hnumeral hrange, rfl⟩

/-- What data announces that holds a manifest is the answer that its fields deserve. In particular,
an integer of any size is the priority exactly when it is one of 32 bits, a text denotes a priority
exactly when it is, up to blanks around it, an optional sign and ASCII digits with a value in that
range, and the priority is -1 when there is none. -/
theorem validation_exact {s : Source} (context : LoadingContext) {m : Manifest}
    (hm : Manifest.decode? s.data = some m) :
    (∀ answer, ofSource s context = answer ↔ Validates s.origin context m answer) ∧
    (∀ n w i, m.priority = some w → ManifestValue.ofPlain? (.integer n) = some w →
      (Announces s context i ↔ IsCompatible m ∧ i = n ∧ -2 ^ 31 ≤ n ∧ n < 2 ^ 31)) ∧
    (∀ t i, m.priority = some (.text t) →
      (Announces s context i ↔
        IsCompatible m ∧ IsNumeral (trimChars t.toList) i ∧ -2 ^ 31 ≤ i ∧ i < 2 ^ 31)) ∧
    ∀ i, m.priority = none → (Announces s context i ↔ IsCompatible m ∧ i = -1) := by
  refine ⟨fun answer => ?_, fun n w i hw hn => ?_, fun t i ht => ?_, fun i hnone => ?_⟩
  · rw [ofSource_of_decode? context hm, ofManifest_eq_iff]
  · rw [announces_iff hm, priorityOf_eq_ok_iff, hw]
    simp only [reduceCtorEq, false_and, false_or, Option.some.injEq, exists_eq_left']
    rw [ManifestValue.denotes_ofPlain?_integer_iff hn, IsInt32]
  · rw [announces_iff hm, priorityOf_eq_ok_iff, ht]
    simp only [reduceCtorEq, false_and, false_or, Option.some.injEq, exists_eq_left']
    exact Iff.rfl
  · rw [announces_iff hm, priorityOf_eq_ok_iff, hnone]
    simp

/-- The bytes of a manifest whose version stands between blanks, and whose priority is the greatest
one. -/
def paddedManifest : Source :=
  .ofBytes (Utf8.encode "Log4jAPIVersion: ' 2.6.0-rc1 '\nFactoryPriority: 2147483647\n")

/-- It announces a provider with that priority. -/
theorem padded_version_is_trimmed :
    ∃ m p, Manifest.decode? paddedManifest.data = some m ∧
      ofSource paddedManifest ⟨"main", 0⟩ = .ok p ∧ p.version = "2.6.0-rc1" ∧
      p.priority = 2147483647 := by
  let m : Manifest := ⟨some (.text " 2.6.0-rc1 "), some (.integer 2147483647), none, none⟩
  have hm : Manifest.decode? paddedManifest.data = some m := by decide +kernel
  obtain ⟨hanswer, hinteger, -⟩ := validation_exact ⟨"main", 0⟩ hm
  have hcompatible : StartsCompatibly (trim (ManifestValue.text " 2.6.0-rc1 ").asText) :=
    ⟨"2.6.0", List.mem_singleton_self _, by decide⟩
  obtain ⟨p, hp, hpriority⟩ := (hinteger 2147483647 (.integer 2147483647) 2147483647 rfl rfl).mpr
    ⟨⟨_, rfl, hcompatible⟩, rfl, by decide, by decide⟩
  refine ⟨m, p, hm, hp, ?_, hpriority⟩
  cases (hanswer _).mp hp with
  | plain hv _ hw => cases hw
  | ranked hv =>
    cases hv
    show trim " 2.6.0-rc1 " = "2.6.0-rc1"
    decide

end Provider

end LogSetup
