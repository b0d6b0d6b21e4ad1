import LogSetup.Plugins.Table
import Mathlib.Data.List.Nodup

/-!
# What a table of plug-ins holds

The candidates of a category are known from the changes that were made to the table. Whatever these
were, a category has no two candidates of one name, so that a name stands for the same candidate in
whichever order the candidates come.

## Main definitions

- `PluginTable.Change` : one change to a table
- `PluginTable.after` : a table after changes

## Main statements

- `PluginTable.candidates_register`, `candidates_unregister` : the candidates after a change
- `PluginTable.unregister_eq_contains` : a removal tells whether the name was there
- `PluginTable.nodup_names_after` : the names in a category are distinct
- `PluginTable.find?_name_congr` : a name stands for one candidate
-/

namespace LogSetup.PluginTable

variable {α : Type} {cs cs' : List (Candidate α)} {c : Candidate α} {t : PluginTable α}

/-! ### Names in a category -/

/-- A new name comes last, a known one stays where it is. -/
theorem names_place (c : Candidate α) (cs : List (Candidate α)) :
    (place c cs).map Candidate.name =
      if c.name ∈ cs.map Candidate.name then cs.map Candidate.name
      else cs.map Candidate.name ++ [c.name] := by
  induction cs with
  | nil => rfl
  | cons d rest ih =>
    by_cases hd : d.name = c.name
    · simp [place, hd]
    · have hc : ¬ c.name = d.name := fun h => hd h.symm
      rw [place, if_neg hd, List.map_cons, List.map_cons, ih]
      by_cases hrest : c.name ∈ rest.map Candidate.name
      · rw [if_pos hrest, if_pos (List.mem_cons_of_mem _ hrest)]
      · rw [if_neg hrest, if_neg (by simpa [hc] using hrest), List.cons_append]

theorem nodup_names_place (h : (cs.map Candidate.name).Nodup) :
    ((place c cs).map Candidate.name).Nodup := by
  rw [names_place]
  by_cases hc : c.name ∈ cs.map Candidate.name
  · rwa [if_pos hc]
  · rw [if_neg hc, List.nodup_append]
    refine ⟨h, List.nodup_singleton _, fun name hname new hnew hsame => hc ?_⟩
    rw [← List.mem_singleton.mp hnew, ← hsame]
    exact hname

theorem find?_name_eq_some_iff {name : String} (h : (cs.map Candidate.name).Nodup) :
    cs.find? (fun d => d.name == name) = some c ↔ c ∈ cs ∧ c.name = name := by
  constructor
  · intro hfind
    exact ⟨List.mem_of_find?_eq_some hfind, by simpa using List.find?_some hfind⟩
  · rintro ⟨hc, rfl⟩
    obtain ⟨d, hfind⟩ : ∃ d, cs.find? (fun d => d.name == c.name) = some d :=
      Option.isSome_iff_exists.mp (List.find?_isSome.mpr ⟨c, hc, beq_self_eq_true _⟩)
    have hname : d.name = c.name := by simpa using List.find?_some hfind
    rw [hfind, List.inj_on_of_nodup_map h (List.mem_of_find?_eq_some hfind) hc hname]

theorem find?_name_congr (h : cs.Perm cs') (hnodup : (cs.map Candidate.name).Nodup)
    (name : String) :
    cs.find? (fun d => d.name == name) = cs'.find? (fun d => d.name == name) := by
  have hnodup' : (cs'.map Candidate.name).Nodup := (h.map _).nodup_iff.mp hnodup
  ext c
  rw [find?_name_eq_some_iff hnodup, find?_name_eq_some_iff hnodup', h.mem_iff]

/-! ### Candidates after a change -/

theorem candidates_cons (e : String × List (Candidate α)) (es : List (String × List (Candidate α)))
    (category : String) :
    candidates ⟨e :: es⟩ category = if e.1 = category then e.2 else candidates ⟨es⟩ category := by
  by_cases he : e.1 = category
  · simp [candidates, he]
  · simp [candidates, he]

theorem candidates_change {category : String} {f : List (Candidate α) → List (Candidate α)}
    (es : List (String × List (Candidate α))) (category' : String) :
    candidates ⟨change category f es⟩ category' =
      if category = category' then f (candidates ⟨es⟩ category')
      else candidates ⟨es⟩ category' := by
  induction es with
  | nil => exact candidates_cons _ _ _
  | cons e rest ih =>
    by_cases he : e.1 = category
    · rw [change, if_pos he, candidates_cons, candidates_cons, he]
      split <;> rfl
    · rw [change, if_neg he, candidates_cons, candidates_cons, ih]
      by_cases hcategory : category = category'
      · have he' : ¬ e.1 = category' := fun h => he (h.trans hcategory.symm)
        rw [if_neg he', if_neg he']
      · rw [if_neg hcategory, if_neg hcategory]

theorem candidates_register (t : PluginTable α) (category : String) (c : Candidate α)
    (category' : String) :
    (t.register category c).candidates category' =
      if category = category' then place c (t.candidates category') else t.candidates category' :=
  candidates_change t.categories category'

theorem candidates_without (t : PluginTable α) (category name : String) (category' : String) :
    (t.without category name).candidates category' =
      if category = category' then (t.candidates category').filter fun c => c.name != name
      else t.candidates category' := by
  obtain ⟨es⟩ := t
  induction es with
  | nil => exact (ite_self _).symm
  | cons e rest ih =>
    have hrest : candidates ⟨rest.map fun e =>
        if e.1 = category then (e.1, e.2.filter fun c => c.name != name) else e⟩ category' = _ := ih
    rw [without, List.map_cons, candidates_cons, candidates_cons, hrest]
    by_cases he : e.1 = category
    · rw [if_pos he, he]
      split <;> rfl
    · rw [if_neg he]
      by_cases hcategory : category = category'
      · have he' : ¬ e.1 = category' := fun h => he (h.trans hcategory.symm)
        rw [if_neg he', if_neg he']
      · rw [if_neg hcategory, if_neg hcategory]

theorem candidates_unregister (t : PluginTable α) (category name : String) (category' : String) :
    (t.unregister category name).1.candidates category' =
      if category = category' then (t.candidates category').filter fun c => c.name != name
      else t.candidates category' :=
  candidates_without t category name category'

/-- A category becomes shorter exactly when the name was registered. -/
theorem unregister_eq_contains (t : PluginTable α) (category name : String) :
    (t.unregister category name).2 = t.contains category name := by
  have hlength : (t.candidates category).length =
      ((t.candidates category).filter fun c => c.name != name).length ↔
        ∀ c ∈ t.candidates category, c.name ≠ name := by
    rw [eq_comm, List.length_filter_eq_length_iff]
    exact forall₂_congr fun c _ => bne_iff_ne
  rw [unregister, candidates_without, if_pos rfl, Bool.eq_iff_iff, bne_iff_ne, ne_eq, hlength,
    contains, List.any_eq_true]
  simp

/-! ### Tables that come about by changes -/

/-- One change to a table. -/
inductive Change (α : Type) where
  | register (category : String) (c : Candidate α)
  | unregister (category name : String)
  | clear

/-- Make a change. -/
def Change.apply (t : PluginTable α) : Change α → PluginTable α
  | .register category c => t.register category c
  | .unregister category name => (t.unregister category name).1
  | .clear => t.clear

/-- The table after changes to the empty one. -/
def after (changes : List (Change α)) : PluginTable α := changes.foldl Change.apply empty

/-- A change keeps the names in every category distinct. -/
theorem nodup_names_apply (h : ∀ category, ((t.candidates category).map Candidate.name).Nodup)
    (change : Change α) (category : String) :
    (((change.apply t).candidates category).map Candidate.name).Nodup := by
  cases change with
  | register category' c =>
    rw [Change.apply, candidates_register]
    split
    · exact nodup_names_place (h category)
    · exact h category
  | unregister category' name =>
    rw [Change.apply, candidates_unregister]
    split
    · exact (h category).sublist (List.filter_sublist.map _)
    · exact h category
  | clear => exact List.nodup_nil

theorem nodup_names_after (changes : List (Change α)) (category : String) :
    (((after changes).candidates category).map Candidate.name).Nodup := by
  have hrun : ∀ t : PluginTable α,
      (∀ category, ((t.candidates category).map Candidate.name).Nodup) →
      (((changes.foldl Change.apply t).candidates category).map Candidate.name).Nodup := by
    induction changes with
    | nil => exact fun t h => h category
    | cons change rest ih => exact fun t h => ih _ (nodup_names_apply h change)
  exact hrun empty fun _ => List.nodup_nil

end LogSetup.PluginTable
