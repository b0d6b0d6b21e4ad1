import LogSetup.Proofs.Text.Pieces
import LogSetup.Settings.Basic

/-!
# Chains of settings

A chain asks its sources in order, and its sources may be chains. However deep they are nested, the
first text that is not blank counts, among those that the sources at the leaves have for a name.

## Main definitions

- `Settings.leaves` : the sources of a tree that are no chains, from left to right
- `Settings.written?` : the text that a leaf has for a name, blank or not
- `Settings.Flattens` : a chain inside a chain gives way to its sources

## Main statements

- `Settings.get?_eq_findSome?_leaves` : a tree has the value of its first leaf that has one
- `Settings.first_written_counts` : which value a tree has, and which source of a chain provides it
-/

namespace LogSetup

/-- The text of a variable, blank or not. -/
def Environment.raw? (env : Environment) (name : String) : Option String :=
  (env.value? name).bind Utf8.decode?

namespace Settings

variable {s t : Settings} {key : String}

/-! ### Leaves -/

mutual

/-- The sources of a tree that are no chains, from left to right. -/
def leaves : Settings → List Settings
  | .memory es => [.memory es]
  | .file p es => [.file p es]
  | .environment env => [.environment env]
  | .chain sources => leavesOfAll sources

/-- The leaves of several trees. -/
def leavesOfAll : List Settings → List Settings
  | [] => []
  | s :: rest => leaves s ++ leavesOfAll rest

end

/-- The text that a leaf has for a name, blank or not. The environment has that of the conventional
variable where that of the very name is blank. -/
def written? (key : String) : Settings → Option String
  | .memory es | .file _ es => es.find key
  | .environment env =>
    if (env.text? key).isSome then env.raw? key else env.raw? (variableName key)
  | .chain _ => none

/-- A leaf has no text for a name, or a blank one. -/
def IsSilent (leaf : Settings) (key : String) : Prop :=
  ∀ text, leaf.written? key = some text → Text.isBlankText text = true

theorem leavesOfAll_append (ss ts : List Settings) :
    leavesOfAll (ss ++ ts) = leavesOfAll ss ++ leavesOfAll ts := by
  induction ss with
  | nil => rfl
  | cons s rest ih => rw [List.cons_append, leavesOfAll, leavesOfAll, ih, List.append_assoc]

mutual

theorem get?_eq_findSome?_leaves (key : String) :
    ∀ s : Settings, s.get? key = s.leaves.findSome? (get? key)
  | .memory es => by rw [leaves, List.findSome?_singleton]
  | .file p es => by rw [leaves, List.findSome?_singleton]
  | .environment env => by rw [leaves, List.findSome?_singleton]
  | .chain sources => by rw [get?, leaves, first?_eq_findSome?_leaves]

theorem first?_eq_findSome?_leaves (key : String) :
    ∀ ss : List Settings, first? key ss = (leavesOfAll ss).findSome? (get? key)
  | [] => rfl
  | s :: rest => by
    rw [first?, leavesOfAll, List.findSome?_append, ← get?_eq_findSome?_leaves key s,
      ← first?_eq_findSome?_leaves key rest]
    cases get? key s <;> rfl

end

mutual

theorem not_chain_of_mem_leaves {leaf : Settings} (ss : List Settings) :
    ∀ s : Settings, leaf ∈ s.leaves → leaf ≠ .chain ss
  | .memory es, h | .file p es, h | .environment env, h => by
    rw [leaves, List.mem_singleton] at h
    rw [h]
    exact Settings.noConfusion
  | .chain sources, h => by
    rw [leaves] at h
    exact not_chain_of_mem_leavesOfAll ss sources h

theorem not_chain_of_mem_leavesOfAll {leaf : Settings} (ss : List Settings) :
    ∀ ts : List Settings, leaf ∈ leavesOfAll ts → leaf ≠ .chain ss
  | [], h => absurd h List.not_mem_nil
  | t :: rest, h => by
    rw [leavesOfAll, List.mem_append] at h
    exact h.elim (not_chain_of_mem_leaves ss t) (not_chain_of_mem_leavesOfAll ss rest)

end

/-- The value of a setting in the environment comes from one variable. -/
theorem setting?_eq_bind_written? (env : Environment) (key : String) :
    env.setting? key = ((Settings.environment env).written? key).bind Text.nonBlank? := by
  rw [Environment.setting?, written?]
  cases hkey : env.text? key with
  | some value => exact hkey.symm
  | none =>
    show _ = env.text? (variableName key)
    -- where both variables are one, its text is blank
    by_cases hname : variableName key = key
    · simp only [hname, if_true, hkey]
    · simp only [hname, if_false]

theorem get?_of_mem_leaves {leaf : Settings} (h : leaf ∈ s.leaves) :
    leaf.get? key = (leaf.written? key).bind Text.nonBlank? := by
  cases leaf with
  | memory es => rw [get?, written?]
  | file p es => rw [get?, written?]
  | environment env => rw [get?, setting?_eq_bind_written?]
  | chain sources => exact absurd rfl (not_chain_of_mem_leaves sources s h)

theorem get?_eq_some_of_mem_leaves {leaf : Settings} {value : String} (h : leaf ∈ s.leaves) :
    leaf.get? key = some value ↔ ∃ text, leaf.written? key = some text ∧
      Text.isBlankText text = false ∧ value = Text.trim text := by
  simp only [get?_of_mem_leaves h, Option.bind_eq_some_iff, Text.nonBlank?_eq_some_iff]

theorem get?_eq_none_of_mem_leaves {leaf : Settings} (h : leaf ∈ s.leaves) :
    leaf.get? key = none ↔ leaf.IsSilent key := by
  simp only [get?_of_mem_leaves h, Option.bind_eq_none_iff, Text.nonBlank?_eq_none_iff, IsSilent]

/-! ### Which value counts -/

theorem get?_eq_some_iff {value : String} :
    s.get? key = some value ↔ ∃ before leaf after text, s.leaves = before ++ leaf :: after ∧
      (∀ other ∈ before, other.IsSilent key) ∧ leaf.written? key = some text ∧
      Text.isBlankText text = false ∧ value = Text.trim text := by
  rw [get?_eq_findSome?_leaves, List.findSome?_eq_some_iff]
  constructor
  · rintro ⟨before, leaf, after, hleaves, hvalue, hbefore⟩
    have hleaf : leaf ∈ s.leaves := by simp [hleaves]
    obtain ⟨text, hwritten⟩ := (get?_eq_some_of_mem_leaves hleaf).mp hvalue
    refine ⟨before, leaf, after, text, hleaves, fun other hother => ?_, hwritten⟩
    have hmem : other ∈ s.leaves := by simp [hleaves, hother]
    exact (get?_eq_none_of_mem_leaves hmem).mp (hbefore other hother)
  · rintro ⟨before, leaf, after, text, hleaves, hbefore, hwritten⟩
    have hleaf : leaf ∈ s.leaves := by simp [hleaves]
    refine ⟨before, leaf, after, hleaves,
      (get?_eq_some_of_mem_leaves hleaf).mpr ⟨text, hwritten⟩, fun other hother => ?_⟩
    have hmem : other ∈ s.leaves := by simp [hleaves, hother]
    exact (get?_eq_none_of_mem_leaves hmem).mpr (hbefore other hother)

theorem get?_eq_none_iff : s.get? key = none ↔ ∀ leaf ∈ s.leaves, leaf.IsSilent key := by
  rw [get?_eq_findSome?_leaves, List.findSome?_eq_none_iff]
  exact forall₂_congr fun leaf hleaf => get?_eq_none_of_mem_leaves hleaf

/-- A value is trimmed and not blank, as it is that of a leaf. -/
theorem trim_of_get? {value : String} (h : s.get? key = some value) :
    Text.trim value = value ∧ Text.isBlankText value = false := by
  obtain ⟨_, _, _, text, -, -, -, htext⟩ := get?_eq_some_iff.mp h
  exact Text.trim_of_nonBlank? (Text.nonBlank?_eq_some_iff.mpr htext)

/-! ### Flattening -/

/-- Somewhere in a tree, a chain inside a chain gives way to its sources. -/
inductive Flattens : Settings → Settings → Prop
  | here (before inner after : List Settings) :
      Flattens (.chain (before ++ .chain inner :: after)) (.chain (before ++ inner ++ after))
  | inside {s t : Settings} (before after : List Settings) (h : Flattens s t) :
      Flattens (.chain (before ++ s :: after)) (.chain (before ++ t :: after))

theorem Flattens.leaves_eq (h : Flattens s t) : t.leaves = s.leaves := by
  induction h with
  | here before inner after =>
    simp only [leaves, leavesOfAll, leavesOfAll_append, List.append_assoc]
  | inside before after _ ih =>
    simp only [leaves, leavesOfAll, leavesOfAll_append, ih]

theorem get?_eq_of_leaves_eq (h : t.leaves = s.leaves) : t.get? key = s.get? key := by
  rw [get?_eq_findSome?_leaves, get?_eq_findSome?_leaves, h]

mutual

/-- Leaves are their own leaves. -/
theorem leavesOfAll_leaves : ∀ s : Settings, leavesOfAll s.leaves = s.leaves
  | .memory es | .file p es | .environment env => rfl
  | .chain sources => by rw [leaves, leavesOfAll_leavesOfAll sources]

theorem leavesOfAll_leavesOfAll :
    ∀ ss : List Settings, leavesOfAll (leavesOfAll ss) = leavesOfAll ss
  | [] => rfl
  | s :: rest => by
    rw [leavesOfAll, leavesOfAll_append, leavesOfAll_leaves s, leavesOfAll_leavesOfAll rest]

end

/-! ### The source that provides a value -/

theorem first?_eq_findSome? (key : String) (ss : List Settings) :
    first? key ss = ss.findSome? (get? key) := by
  induction ss with
  | nil => rfl
  | cons s rest ih =>
    rw [first?, List.findSome?_cons, ih]
    cases get? key s <;> rfl

theorem provider?_eq_some_iff {ss : List Settings} :
    (chain ss).provider? key = some t ↔ ∃ before after, ss = before ++ t :: after ∧
      (∀ other ∈ before, other.get? key = none) ∧ (t.get? key).isSome = true := by
  rw [provider?, sources, List.find?_eq_some_iff_append]
  simp only [has, Bool.not_eq_true', Option.isSome_eq_false_iff, Option.isNone_iff_eq_none]
  constructor
  · rintro ⟨ht, before, after, hss, hbefore⟩
    exact ⟨before, after, hss, hbefore, ht⟩
  · rintro ⟨before, after, hss, hbefore, ht⟩
    exact ⟨ht, before, after, hss, hbefore⟩

/-- The source that provides a value has the value of the chain. -/
theorem get?_of_provider? {ss : List Settings} (h : (chain ss).provider? key = some t) :
    t.get? key = (chain ss).get? key := by
  obtain ⟨before, after, rfl, hbefore, ht⟩ := provider?_eq_some_iff.mp h
  have hnone : before.findSome? (get? key) = none := List.findSome?_eq_none_iff.mpr hbefore
  obtain ⟨value, hvalue⟩ := Option.isSome_iff_exists.mp ht
  rw [get?, first?_eq_findSome?, List.findSome?_append, hnone, Option.none_or,
    List.findSome?_cons, hvalue]

theorem provider?_eq_none_iff {ss : List Settings} :
    (chain ss).provider? key = none ↔ (chain ss).get? key = none := by
  rw [provider?, sources, List.find?_eq_none, get?, first?_eq_findSome?,
    List.findSome?_eq_none_iff]
  simp only [has, Option.not_isSome_iff_eq_none]

/-- The first written text that is not blank counts: a tree has its trimmed text, and no value when
all leaves are silent. Flattening changes no value. A value is trimmed and not blank. Each node of a
tree says that it has a setting when it has a value for it, and a chain says that the first of its
sources provides it that has one, which has the value of the chain. -/
theorem first_written_counts (s : Settings) (key : String) :
    (∀ value, s.get? key = some value ↔
      ∃ before leaf after text, s.leaves = before ++ leaf :: after ∧
        (∀ other ∈ before, other.IsSilent key) ∧ leaf.written? key = some text ∧
        Text.isBlankText text = false ∧ value = Text.trim text) ∧
    (s.get? key = none ↔ ∀ leaf ∈ s.leaves, leaf.IsSilent key) ∧
    (∀ t, Flattens s t → t.get? key = s.get? key) ∧
    (chain s.leaves).get? key = s.get? key ∧
    (∀ value, s.get? key = some value →
      Text.trim value = value ∧ Text.isBlankText value = false) ∧
    (s.has key = true ↔ ∃ value, s.get? key = some value) ∧
    ∀ ss, s = chain ss →
      (s.provider? key = none ↔ s.get? key = none) ∧
      ∀ t, s.provider? key = some t →
        t.get? key = s.get? key ∧ ∃ before after, ss = before ++ t :: after ∧
          (∀ other ∈ before, other.get? key = none) ∧ (t.get? key).isSome = true := by
  refine ⟨fun value => get?_eq_some_iff, get?_eq_none_iff, ?_, ?_, fun value => trim_of_get?,
    Option.isSome_iff_exists, ?_⟩
  · intro t h
    exact get?_eq_of_leaves_eq h.leaves_eq
  · refine get?_eq_of_leaves_eq ?_
    rw [leaves, leavesOfAll_leaves]
  · rintro ss rfl
    exact ⟨provider?_eq_none_iff, fun t h => ⟨get?_of_provider? h, provider?_eq_some_iff.mp h⟩⟩

/-- Blank texts at every level are passed over. -/
def blankLevels : Settings :=
  .chain [.memory [("name", " ")],
    .chain [.chain [], .file ⟨[]⟩ [("name", "\t"), ("other", "x")],
      .chain [.memory [("other", "y")], .memory [("name", " inner ")]]],
    .memory [("name", "outer")]]

theorem inner_value_counts :
    ∃ t, blankLevels.provider? "name" = some t ∧ t.get? "name" = some "inner" ∧
      blankLevels.get? "name" = some "inner" ∧ Text.trim "inner" = "inner" ∧
      (chain blankLevels.leaves).get? "name" = some "inner" := by
  obtain ⟨-, -, -, hflat, htrim, -, hchain⟩ := first_written_counts blankLevels "name"
  have hvalue : blankLevels.get? "name" = some "inner" := by decide +kernel
  obtain ⟨hnone, hsome⟩ := hchain _ rfl
  cases hprovider : blankLevels.provider? "name" with
  | none =>
    rw [hnone.mp hprovider] at hvalue
    cases hvalue
  | some t =>
    obtain ⟨ht, -⟩ := hsome t hprovider
    exact ⟨t, rfl, ht.trans hvalue, hvalue, (htrim _ hvalue).1, hflat.trans hvalue⟩

end Settings

end LogSetup
