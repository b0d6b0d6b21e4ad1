import LogSetup.Text.Blank
import LogSetup.Text.Split
import Mathlib.Data.List.DropRight

/-!
# Pieces of a text

Splitting at a separator and joining with it are inverse to one another on pieces that do not hold
the separator, and trimming a second time changes nothing.

## Main statements

- `Text.splitOn_joinWith` : joined pieces are split into the same pieces
- `Text.cut?_append_cons`, `Text.eq_append_of_cut?` : the sides of the first separator
- `Text.trimChars_trimChars` : trimmed text stays as it is
-/

namespace LogSetup.Text

/-! ### Splitting -/

section Split

variable {α : Type} [DecidableEq α] {sep : α}

theorem splitOn_ne_nil (sep : α) (cs : List α) : splitOn sep cs ≠ [] := by
  induction cs with
  | nil => exact List.cons_ne_nil _ _
  | cons c rest ih =>
    rw [splitOn]
    split
    · exact List.cons_ne_nil _ _
    · split <;> exact List.cons_ne_nil _ _

/-- A text without separators is one piece. -/
theorem splitOn_eq_singleton {cs : List α} (h : sep ∉ cs) : splitOn sep cs = [cs] := by
  induction cs with
  | nil => rfl
  | cons c rest ih =>
    have hc : c ≠ sep := fun hc => h (hc ▸ List.mem_cons_self)
    have hrest : sep ∉ rest := fun hrest => h (List.mem_cons_of_mem c hrest)
    rw [splitOn, if_neg hc, ih hrest]

/-- The first separator ends the first piece. -/
theorem splitOn_append_cons {front : List α} (h : sep ∉ front) (back : List α) :
    splitOn sep (front ++ sep :: back) = front :: splitOn sep back := by
  induction front with
  | nil => rw [List.nil_append, splitOn, if_pos rfl]
  | cons c rest ih =>
    have hc : c ≠ sep := fun hc => h (hc ▸ List.mem_cons_self)
    have hrest : sep ∉ rest := fun hrest => h (List.mem_cons_of_mem c hrest)
    rw [List.cons_append, splitOn, if_neg hc, ih hrest]

theorem splitOn_append_sep (front back : List α) :
    splitOn sep (front ++ sep :: back) = splitOn sep front ++ splitOn sep back := by
  induction front with
  | nil => simp [splitOn]
  | cons c rest ih =>
    by_cases hc : c = sep
    · rw [List.cons_append, splitOn, if_pos hc, ih, splitOn, if_pos hc, List.cons_append]
    · rw [List.cons_append, splitOn, if_neg hc, ih, splitOn, if_neg hc]
      cases hrest : splitOn sep rest with
      | nil => exact absurd hrest (splitOn_ne_nil sep rest)
      | cons piece pieces => rfl

/-- Joined pieces are split into the same pieces. -/
theorem splitOn_joinWith {pieces : List (List α)} (hne : pieces ≠ [])
    (h : ∀ piece ∈ pieces, sep ∉ piece) : splitOn sep (joinWith [sep] pieces) = pieces := by
  induction pieces with
  | nil => exact absurd rfl hne
  | cons piece rest ih =>
    have hpiece : sep ∉ piece := h piece List.mem_cons_self
    cases rest with
    | nil => exact splitOn_eq_singleton hpiece
    | cons next others =>
      have hrest : ∀ p ∈ next :: others, sep ∉ p := fun p hp => h p (List.mem_cons_of_mem piece hp)
      show splitOn sep (piece ++ [sep] ++ joinWith [sep] (next :: others)) = piece :: next :: others
      rw [List.append_assoc, List.singleton_append, splitOn_append_cons hpiece,
        ih (List.cons_ne_nil _ _) hrest]

/-- No piece holds the separator. -/
theorem not_mem_of_mem_splitOn {cs piece : List α} (h : piece ∈ splitOn sep cs) : sep ∉ piece := by
  induction cs generalizing piece with
  | nil =>
    rw [List.mem_singleton.mp h]
    exact List.not_mem_nil
  | cons c rest ih =>
    rw [splitOn] at h
    by_cases hc : c = sep
    · rw [if_pos hc, List.mem_cons] at h
      rcases h with rfl | h
      · exact List.not_mem_nil
      · exact ih h
    · rw [if_neg hc] at h
      cases hs : splitOn sep rest with
      | nil => exact absurd hs (splitOn_ne_nil sep rest)
      | cons front others =>
        rw [hs] at h ih
        rcases List.mem_cons.mp h with rfl | h
        · -- the first piece has grown by a character that is no separator
          intro hmem
          rcases List.mem_cons.mp hmem with rfl | hmem
          · exact hc rfl
          · exact ih List.mem_cons_self hmem
        · exact ih (List.mem_cons_of_mem front h)

end Split

/-! ### Cutting -/

section Cut

variable {sep : Char} {cs front back : List Char}

theorem cut?_append_cons (h : sep ∉ front) (back : List Char) :
    cut? sep (front ++ sep :: back) = some (front, back) := by
  induction front with
  | nil => rw [List.nil_append, cut?, if_pos rfl]
  | cons c rest ih =>
    have hc : c ≠ sep := fun hc => h (hc ▸ List.mem_cons_self)
    have hrest : sep ∉ rest := fun hrest => h (List.mem_cons_of_mem c hrest)
    rw [List.cons_append, cut?, if_neg hc, ih hrest]
    rfl

/-- The two sides of the separator, put together again. -/
theorem eq_append_of_cut? (h : cut? sep cs = some (front, back)) : cs = front ++ sep :: back := by
  induction cs generalizing front with
  | nil => exact nomatch h
  | cons c rest ih =>
    rw [cut?] at h
    by_cases hc : c = sep
    · rw [if_pos hc] at h
      cases h
      rw [hc, List.nil_append]
    · rw [if_neg hc] at h
      obtain ⟨⟨start, tail⟩, hrest, hcut⟩ := Option.map_eq_some_iff.mp h
      cases hcut
      rw [ih hrest, List.cons_append]

end Cut

/-! ### Trimming -/

theorem mem_of_mem_trimChars {cs : List Char} {c : Char} (h : c ∈ trimChars cs) : c ∈ cs := by
  have hfront : ∀ {ds : List Char}, c ∈ trimFront ds → c ∈ ds :=
    fun hd => (List.dropWhile_sublist isBlank).subset hd
  rw [trimChars, trimBack, List.mem_reverse] at h
  exact hfront (List.mem_reverse.mp (hfront h))

/-- Characters that are not blank stay. -/
theorem mem_trimChars {cs : List Char} {c : Char} (h : c ∈ cs) (hc : isBlank c = false) :
    c ∈ trimChars cs := by
  have hfront : ∀ {ds : List Char}, c ∈ ds → c ∈ trimFront ds := by
    intro ds hd
    rw [← List.takeWhile_append_dropWhile (p := isBlank) (l := ds), List.mem_append] at hd
    exact hd.resolve_left fun hd =>
      Bool.false_ne_true (hc.symm.trans (List.mem_takeWhile_imp hd))
  rw [trimChars, trimBack, List.mem_reverse]
  exact hfront (List.mem_reverse.mpr (hfront h))

theorem isBlank_head?_trimFront {cs : List Char} {c : Char} (h : (trimFront cs).head? = some c) :
    isBlank c = false := by
  have hhead := List.head?_dropWhile_not isBlank cs
  rwa [← trimFront, h] at hhead

/-- Trimmed text does not begin with a blank: trimming at the back keeps its beginning. -/
theorem trimFront_trimChars (cs : List Char) : trimFront (trimChars cs) = trimChars cs := by
  obtain ⟨blanks, hback⟩ : trimChars cs <+: trimFront cs :=
    List.rdropWhile_prefix isBlank _
  -- what is left begins like the text trimmed at the front, that is, with no blank
  cases htrim : trimChars cs with
  | nil => rfl
  | cons c rest =>
    rw [htrim, List.cons_append] at hback
    have hc : isBlank c = false := isBlank_head?_trimFront (by rw [← hback]; rfl)
    rw [trimFront, List.dropWhile_cons_of_neg (by rw [hc]; exact Bool.false_ne_true)]

/-- Trimmed text stays as it is. -/
theorem trimChars_trimChars (cs : List Char) : trimChars (trimChars cs) = trimChars cs := by
  show trimBack (trimFront (trimChars cs)) = trimChars cs
  rw [trimFront_trimChars]
  exact List.rdropWhile_idempotent isBlank (trimFront cs)

theorem trim_trim (s : String) : trim (trim s) = trim s := by
  rw [trim, trim, String.toList_ofList, trimChars_trimChars]

/-- Trimmed text does not end in a blank. -/
theorem isBlank_getLast?_trimChars {cs : List Char} {c : Char}
    (h : (trimChars cs).getLast? = some c) : isBlank c = false := by
  rw [trimChars, trimBack, List.getLast?_reverse] at h
  exact isBlank_head?_trimFront h

theorem trimChars_eq_nil_iff {cs : List Char} : trimChars cs = [] ↔ ∀ c ∈ cs, isBlank c = true := by
  have hback : trimChars cs = [] ↔ ∀ c ∈ trimFront cs, isBlank c = true :=
    List.rdropWhile_eq_nil_iff
  rw [hback]
  constructor
  · intro h c hc
    rw [← List.takeWhile_append_dropWhile (p := isBlank) (l := cs), List.mem_append] at hc
    rcases hc with hc | hc
    · exact List.mem_takeWhile_imp hc
    · exact h c hc
  · intro h c hc
    exact h c ((List.dropWhile_sublist isBlank).subset hc)

theorem trim_eq_empty_iff {s : String} : trim s = "" ↔ isBlankText s = true := by
  rw [trim, String.ofList_eq_empty_iff, trimChars_eq_nil_iff, isBlankText, List.all_eq_true]

theorem nonBlank?_eq_some_iff {s value : String} :
    nonBlank? s = some value ↔ isBlankText s = false ∧ value = trim s := by
  rw [nonBlank?, ← Bool.not_eq_true, ← trim_eq_empty_iff]
  by_cases hs : trim s = ""
  · rw [if_pos hs]
    exact ⟨nofun, fun h => absurd hs h.1⟩
  · rw [if_neg hs, Option.some.injEq]
    exact ⟨fun h => ⟨hs, h.symm⟩, fun h => h.2.symm⟩

theorem nonBlank?_eq_none_iff {s : String} : nonBlank? s = none ↔ isBlankText s = true := by
  rw [nonBlank?, ← trim_eq_empty_iff]
  split <;> simp [*]

/-- What a written value stands for is trimmed and not blank. -/
theorem trim_of_nonBlank? {s value : String} (h : nonBlank? s = some value) :
    trim value = value ∧ isBlankText value = false := by
  obtain ⟨hs, rfl⟩ := nonBlank?_eq_some_iff.mp h
  refine ⟨trim_trim s, ?_⟩
  rwa [← Bool.not_eq_true, ← trim_eq_empty_iff, trim_trim, trim_eq_empty_iff, Bool.not_eq_true]

end LogSetup.Text
