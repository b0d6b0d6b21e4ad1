import LogSetup.Proofs.Events.Runs
import LogSetup.Resolving.Catalog

/-!
# How often discovery builds plug-ins

Discovery builds every candidate of the category once, and the one that the settings name once
more.

## Main statements

- `perm_byRank` : ranking keeps the candidates
- `buildsOf_rankFactories`, `buildsOf_factoryNamed` : how often a candidate is built
-/

namespace LogSetup

@[simp] theorem buildsOf_nil (id : Nat) : buildsOf id [] = 0 := rfl

@[simp] theorem buildsOf_append (id : Nat) (es fs : List Event) :
    buildsOf id (es ++ fs) = buildsOf id es + buildsOf id fs :=
  List.countP_append

theorem perm_insertByRank {α : Type} (c : Candidate α) (cs : List (Candidate α)) :
    List.Perm (insertByRank c cs) (c :: cs) := by
  induction cs with
  | nil => exact List.Perm.refl _
  | cons d rest ih =>
    rw [insertByRank]
    split
    · exact List.Perm.refl _
    · exact (ih.cons d).trans (List.Perm.swap c d rest)

/-- Ranking neither loses nor repeats candidates. -/
theorem perm_byRank {α : Type} (cs : List (Candidate α)) : List.Perm (byRank cs) cs := by
  induction cs with
  | nil => exact List.Perm.refl _
  | cons c rest ih => exact (perm_insertByRank c (byRank rest)).trans (ih.cons c)

theorem buildsOf_buildDescriptor (c : Candidate Factory) (id : Nat) :
    buildsOf id (buildDescriptor c).events = if c.id = id then 1 else 0 := by
  have hbuilt : buildsOf id (buildDescriptor c).events = buildsOf id [.built c.id] := by
    obtain ⟨name, rank, own, outcome⟩ := c
    cases outcome <;> rfl
  rw [hbuilt, buildsOf, List.countP_singleton]
  by_cases hid : c.id = id <;> simp [hid]

theorem buildsOf_buildAll (cs : List (Candidate Factory)) (id : Nat) :
    buildsOf id (buildAll cs).events = cs.countP fun c => c.id == id := by
  induction cs with
  | nil => rfl
  | cons c rest ih =>
    rw [buildAll, Traced.events_bind, Traced.events_bind, buildsOf_append, buildsOf_append, ih,
      buildsOf_buildDescriptor, List.countP_cons, Traced.events_pure, buildsOf_nil]
    by_cases hid : c.id = id <;> simp [hid, Nat.add_comm]

/-- When the list is made, every candidate of the category is built once. -/
theorem buildsOf_rankFactories (plugins : PluginTable Factory) (named : List Descriptor)
    (id : Nat) :
    buildsOf id (rankFactories plugins named).events =
      (plugins.candidates factoryCategory).countP fun c => c.id == id := by
  have hranked : buildsOf id (rankFactories plugins named).events =
      buildsOf id (buildAll (byRank (plugins.candidates factoryCategory))).events + 0 := by
    rw [rankFactories, Traced.events_bind, buildsOf_append]
    rfl
  rw [hranked, buildsOf_buildAll]
  exact (perm_byRank _).countP_eq _

/-- A name stands for a candidate of the category. -/
def Names (plugins : PluginTable Factory) (name : Option String) (id : Nat) : Prop :=
  ∃ n c, name = some n ∧ plugins.find factoryCategory n = .ok c ∧ c.id = id

/-- Of all candidates at most the named one is built, and that once. -/
theorem buildsOf_factoryNamed (plugins : PluginTable Factory) (name : Option String) (id : Nat) :
    buildsOf id (factoryNamed plugins name).events ≤ 1 ∧
      (¬ Names plugins name id → buildsOf id (factoryNamed plugins name).events = 0) := by
  cases name with
  | none => exact ⟨Nat.zero_le 1, fun _ => rfl⟩
  | some n =>
    cases hfind : plugins.find factoryCategory n with
    | ok c =>
      have hevents : (factoryNamed plugins (some n)).events = (buildDescriptor c).events := by
        simp only [factoryNamed, PluginTable.lookup, hfind]
        rfl
      rw [hevents, buildsOf_buildDescriptor]
      by_cases hid : c.id = id
      · exact ⟨by simp [hid], fun hnames => absurd ⟨n, c, rfl, hfind, hid⟩ hnames⟩
      · simp [hid]
    | error e =>
      have hevents : buildsOf id (factoryNamed plugins (some n)).events = 0 := by
        simp only [factoryNamed, PluginTable.lookup, hfind]
        rfl
      exact ⟨hevents ▸ Nat.zero_le 1, fun _ => hevents⟩

end LogSetup
