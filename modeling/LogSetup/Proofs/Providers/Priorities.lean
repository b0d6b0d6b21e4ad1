import LogSetup.Proofs.Binary64.Text
import LogSetup.Providers.Provider

/-!
# Priorities

The text of a field denotes a priority when it is a numeral for a 32-bit number, up to blanks around
it. A field that holds an integer denotes that integer or nothing, and one that holds a number with
a fraction part or an exponent denotes its value if that is a whole number.

## Main definitions

- `ManifestValue.Denotes` : the priority that a field denotes

## Main statements

- `Provider.priorityOf_eq_ok_iff` : the priority of a manifest
- `ManifestValue.denotes_ofPlain?_integer_iff` : integers of any size
- `ManifestValue.denotes_float_iff` : numbers that are not written as integers
-/

namespace LogSetup

namespace ManifestValue

open Text

/-- The text of a field is a numeral for a 32-bit number, up to blanks around it. -/
def Denotes (v : ManifestValue) (i : Int) : Prop :=
  IsNumeral (trimChars v.asText.toList) i ∧ IsInt32 i

variable {v : ManifestValue} {x : Binary64} {i n : Int}

theorem readInt32?_eq_some_iff :
    readInt32? (trimChars v.asText.toList) = some i ↔ v.Denotes i := Text.readInt32?_eq_some_iff

theorem Denotes.unique {j : Int} (hi : v.Denotes i) (hj : v.Denotes j) : i = j := hi.1.unique hj.1

/-- An integer denotes itself: it is neither wrapped nor cut. -/
theorem denotes_integer_iff : (integer n).Denotes i ↔ i = n ∧ IsInt32 n := by
  have hn := isNumeral_decimalInt n
  rw [Denotes, asText, hn.trimChars_eq]
  constructor
  · rintro ⟨hi, hrange⟩
    obtain rfl := hi.unique hn
    exact ⟨rfl, hrange⟩
  · rintro ⟨rfl, hrange⟩
    exact ⟨hn, hrange⟩

theorem not_isNumeral_of_readSigned? {cs : List Char} (h : readSigned? 10 cs = none) :
    ¬ IsNumeral cs i := by
  rw [← readSigned?_eq_some_iff, h]
  exact nofun

theorem trimChars_text_finite (negative : Bool) (m : Nat) (e : Int) :
    trimChars (layout.text (.finite negative m e)).toList =
      (layout.text (.finite negative m e)).toList := by
  have hmagnitude : ∀ c ∈ layout.magnitude m e, isBlank c = false := by
    intro c hc
    rcases Binary64.isDigit_or_point_of_mem_magnitude (l := layout) rfl rfl hc with hdigit | rfl
    · exact not_isBlank_of_isDigit hdigit
    · decide
  refine trimChars_of_not_blank fun c hc => ?_
  rw [Binary64.Layout.text, String.toList_ofList] at hc
  split at hc
  · rcases List.mem_cons.mp hc with rfl | hc
    · decide
    · exact hmagnitude c hc
  · exact hmagnitude c hc

/-- A number that is not written as an integer denotes its value if that is a whole number. -/
theorem denotes_float_iff (h : x.IsCanonical) :
    (float x).Denotes i ↔ x.value? = some (i : ℚ) ∧ IsInt32 i := by
  cases x with
  | nan => exact ⟨fun h => absurd h.1 (not_isNumeral_of_readSigned? (by decide)), nofun⟩
  | infinite negative =>
    refine ⟨fun h => absurd h.1 (not_isNumeral_of_readSigned? ?_), nofun⟩
    cases negative <;> decide
  | finite negative m e =>
    rw [Denotes, asText, trimChars_text_finite]
    refine and_congr_left fun hrange => ?_
    refine Binary64.isNumeral_text_iff rfl rfl h ?_
    rw [IsInt32] at hrange
    omega

/-- Integers of any size, those included that are too large for a sign and are rounded. -/
theorem denotes_ofPlain?_integer_iff (h : ofPlain? (.integer n) = some v) :
    v.Denotes i ↔ i = n ∧ IsInt32 n := by
  rw [ofPlain?, Option.some.injEq] at h
  subst h
  split
  · exact denotes_integer_iff
  · next hlarge =>
    rw [denotes_float_iff (Binary64.isCanonical_ofNat _)]
    refine ⟨fun ⟨hvalue, hrange⟩ => ?_, fun ⟨_, hrange⟩ => ?_⟩
    · rw [IsInt32] at hrange
      exact absurd hvalue (Binary64.value?_ofNat_ne (by omega) (by omega))
    · rw [IsInt32] at hrange
      omega

end ManifestValue

namespace Provider

variable {m : Manifest} {i : Int} {text : String}

/-- A manifest without a priority has the default one, and otherwise the one that the field
denotes. -/
theorem priorityOf_eq_ok_iff : priorityOf m = .ok i ↔
    m.priority = none ∧ i = -1 ∨ ∃ v, m.priority = some v ∧ v.Denotes i := by
  rw [priorityOf]
  cases m.priority with
  | none => simp [defaultPriority, eq_comm]
  | some v =>
    simp only [← ManifestValue.readInt32?_eq_some_iff]
    cases hread : Text.readInt32? (Text.trimChars v.asText.toList) <;> simp [hread]

/-- A field that denotes no priority is an error that shows its text. -/
theorem priorityOf_eq_error_iff : priorityOf m = .error text ↔
    ∃ v, m.priority = some v ∧ text = v.asText ∧ ¬ ∃ i, v.Denotes i := by
  rw [priorityOf]
  cases m.priority with
  | none => simp
  | some v =>
    simp only [← ManifestValue.readInt32?_eq_some_iff]
    cases hread : Text.readInt32? (Text.trimChars v.asText.toList) <;> simp [hread, eq_comm]

end Provider

end LogSetup
