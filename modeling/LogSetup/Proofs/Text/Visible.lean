import LogSetup.Proofs.Text.Numerals
import LogSetup.Proofs.Text.Pieces

/-!
# Characters that show

Numerals are written in characters of ASCII that show, and a text between such characters is not
changed by trimming. A character of ASCII is known from its number, and from its one byte.

## Main definitions

- `Text.IsVisible` : a character of ASCII that shows
- `Text.AllVisible`, `Text.EndsVisibly` : texts of such characters, and texts that end in one

## Main statements

- `Text.trimChars_eq_self` : when trimming changes nothing
- `Text.toNat_of_mem_utf8EncodeChar` : bytes of ASCII
-/

namespace LogSetup

namespace Text

/-- A character of ASCII that shows, as control characters and blanks do not. -/
def IsVisible (c : Char) : Prop := 0x20 < c.toNat ∧ c.toNat < 0x7F

instance (c : Char) : Decidable (IsVisible c) := inferInstanceAs (Decidable (_ ∧ _))

/-- Every character shows. -/
def AllVisible (cs : List Char) : Prop := ∀ c ∈ cs, IsVisible c

instance (cs : List Char) : Decidable (AllVisible cs) := List.decidableBAll IsVisible cs

/-- If there is a last character, it shows. -/
def EndsVisibly (cs : List Char) : Prop := ∀ c, cs.getLast? = some c → IsVisible c

variable {c : Char} {cs ds : List Char} {sep : List Char} {pieces : List (List Char)}

theorem IsVisible.not_isBlank (h : IsVisible c) : isBlank c = false := by
  obtain ⟨hlow, hhigh⟩ := h
  simp only [isBlank, Bool.or_eq_false_iff, Bool.and_eq_false_iff, decide_eq_false_iff_not,
    beq_eq_false_iff_ne]
  omega

theorem forall_ascii {P : Char → Prop} (h : ∀ n < 0x80, P (Char.ofNat n)) (hc : c.toNat < 0x80) :
    P c := by
  rw [← Char.ofNat_toNat c]
  exact h _ hc

theorem lt_of_isAlphanum {c : Char} (h : c.isAlphanum = true) : c.toNat < 0x80 := by
  obtain hletter | hdigit := Bool.or_eq_true_iff.mp h
  · obtain hupper | hlower := Bool.or_eq_true_iff.mp hletter
    · have hle : c.toNat ≤ 'Z'.toNat := (of_decide_eq_true hupper).2
      exact Nat.lt_of_le_of_lt hle (by decide)
    · have hle : c.toNat ≤ 'z'.toNat := of_decide_eq_true (Bool.and_eq_true_iff.mp hlower).2
      exact Nat.lt_of_le_of_lt hle (by decide)
  · have hle := (isDigit_iff.mp hdigit).2
    omega

theorem utf8EncodeChar_of_lt (h : c.toNat < 0x80) :
    String.utf8EncodeChar c = [UInt8.ofNat c.toNat] :=
  if_pos (Nat.le_of_lt_succ h)

/-- A byte of ASCII in the form of a character is that character. -/
theorem toNat_of_mem_utf8EncodeChar {c : Char} {b : UInt8} (h : b ∈ String.utf8EncodeChar c)
    (hb : b.toNat < 0x80) : c.toNat = b.toNat := by
  have hlong : ∀ n k : Nat, 0x80 ≤ k → n + k < 0x100 → b ≠ UInt8.ofNat (n + k) := by
    rintro n k hk hn rfl
    rw [UInt8.toNat_ofNat', Nat.mod_eq_of_lt hn] at hb
    omega
  rw [String.utf8EncodeChar] at h
  by_cases hshort : c.val.toNat ≤ 0x7F
  · rw [if_pos hshort, List.mem_singleton] at h
    rw [h, UInt8.toNat_ofNat', Nat.mod_eq_of_lt (by omega)]
    rfl
  · -- every byte of a longer form has its highest bit set
    rw [if_neg hshort] at h
    exfalso
    split at h
    · rcases List.mem_pair.mp h with h | h
      · exact hlong _ _ (by decide) (by omega) h
      · exact hlong _ _ (by decide) (by omega) h
    · split at h
      all_goals
        simp only [List.mem_cons, List.not_mem_nil, or_false] at h
      · rcases h with h | h | h
        all_goals exact hlong _ _ (by decide) (by omega) h
      · rcases h with h | h | h | h
        all_goals exact hlong _ _ (by decide) (by omega) h

theorem AllVisible.append (hcs : AllVisible cs) (hds : AllVisible ds) : AllVisible (cs ++ ds) :=
  List.forall_mem_append.mpr ⟨hcs, hds⟩

theorem AllVisible.cons (hc : IsVisible c) (hcs : AllVisible cs) : AllVisible (c :: cs) :=
  List.forall_mem_cons.mpr ⟨hc, hcs⟩

theorem allVisible_nil : AllVisible [] := nofun

theorem AllVisible.endsVisibly (h : AllVisible cs) : EndsVisibly cs :=
  fun c hc => h c (List.mem_of_getLast? hc)

theorem EndsVisibly.append (hds : EndsVisibly ds) (hcs : ds = [] → EndsVisibly cs) :
    EndsVisibly (cs ++ ds) := by
  intro c hc
  rw [List.getLast?_append] at hc
  cases hlast : ds.getLast? with
  | none =>
    rw [hlast] at hc
    exact hcs (List.getLast?_eq_none_iff.mp hlast) c hc
  | some d =>
    rw [hlast] at hc
    cases hc
    exact hds c hlast

theorem EndsVisibly.append_cons (h : EndsVisibly (c :: ds)) (cs : List Char) :
    EndsVisibly (cs ++ c :: ds) :=
  h.append fun hnil => nomatch hnil

theorem EndsVisibly.cons (hc : IsVisible c) (hcs : EndsVisibly cs) : EndsVisibly (c :: cs) :=
  hcs.append fun _ => (AllVisible.cons hc allVisible_nil).endsVisibly

theorem allVisible_joinWith (hsep : AllVisible sep) (h : ∀ piece ∈ pieces, AllVisible piece) :
    AllVisible (joinWith sep pieces) := by
  induction pieces with
  | nil => exact allVisible_nil
  | cons piece rest ih =>
    have hpiece := h piece List.mem_cons_self
    cases rest with
    | nil => exact hpiece
    | cons next others =>
      exact (hpiece.append hsep).append (ih fun p hp => h p (List.mem_cons_of_mem _ hp))

theorem allVisible_decimalDigits (n : Nat) : AllVisible (decimalDigits n) := by
  intro c hc
  obtain ⟨hlow, hhigh⟩ := isDigit_iff.mp ((isDigits_decimalDigits n).2 c hc)
  exact ⟨by omega, by omega⟩

theorem isVisible_hexDigit : ∀ n < 16, IsVisible (hexDigit n) := by decide

/-- A text between characters that are not blank is not changed by trimming. -/
theorem trimChars_eq_self (hfirst : ∀ c, cs.head? = some c → isBlank c = false)
    (hlast : ∀ c, cs.getLast? = some c → isBlank c = false) : trimChars cs = cs := by
  have hfront : ∀ ds : List Char, (∀ c, ds.head? = some c → isBlank c = false) →
      trimFront ds = ds := by
    intro ds hds
    cases ds with
    | nil => rfl
    | cons c rest => exact List.dropWhile_cons_of_neg (by simp [hds c rfl])
  rw [trimChars, hfront cs hfirst, trimBack, hfront, List.reverse_reverse]
  intro c hc
  rw [List.head?_reverse] at hc
  exact hlast c hc

end Text

end LogSetup
