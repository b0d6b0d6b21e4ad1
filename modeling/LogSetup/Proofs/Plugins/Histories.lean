import LogSetup.Proofs.Plugins.Table
import Mathlib.Data.List.Induction

/-!
# A table of plug-ins and its history

What a table lists in a category can be told from the changes that were made to it. A name is listed
when it was registered and not removed since. The names come in the order in which each of them was
registered for the first time since its last removal, and each stands for the candidate of its
latest registration.

## Main definitions

- `Since` : something happened, and since then something else has held
- `PluginTable.IsRegistered`, `EnteredAt`, `IsLatest` : what a history says about a name
- `PluginTable.Lists` : the candidates that a category has after a history

## Main statements

- `PluginTable.lists_after` : the candidates after any history
- `PluginTable.insertion_ordered` : these, and what the questions to a table answer
-/

namespace LogSetup

/-! ### Since -/

section Since

variable {β : Type} {P : List β → β → Prop} {Q : β → Prop} {history : List β} {b : β}

/-- Something happened in a history, and `Q` has held of everything since. What happened is known
from what came before it. -/
def Since (P : List β → β → Prop) (Q : β → Prop) (history : List β) : Prop :=
  ∃ front b back, history = front ++ b :: back ∧ P front b ∧ ∀ later ∈ back, Q later

theorem not_since_nil : ¬ Since P Q [] := by
  rintro ⟨front, b, back, hsplit, -⟩
  simp at hsplit

theorem since_snoc : Since P Q (history ++ [b]) ↔ P history b ∨ Since P Q history ∧ Q b := by
  constructor
  · rintro ⟨front, c, back, hsplit, hc, hback⟩
    rcases List.eq_nil_or_concat back with rfl | ⟨back, d, rfl⟩
    · obtain ⟨rfl, hb⟩ := List.append_inj' hsplit rfl
      cases hb
      exact .inl hc
    · rw [List.concat_eq_append, ← List.cons_append, ← List.append_assoc] at hsplit
      obtain ⟨rfl, hb⟩ := List.append_inj' hsplit rfl
      cases hb
      exact .inr ⟨⟨front, c, back, rfl, hc, fun later hlater => hback later (by simp [hlater])⟩,
        hback b (by simp)⟩
  · rintro (hb | ⟨⟨front, c, back, rfl, hc, hback⟩, hb⟩)
    · exact ⟨history, b, [], rfl, hb, by simp⟩
    · refine ⟨front, c, back ++ [b], by simp, hc, fun later hlater => ?_⟩
      rcases List.mem_append.mp hlater with hlater | hlater
      · exact hback later hlater
      · rwa [List.mem_singleton.mp hlater]

end Since

namespace PluginTable

variable {α : Type} {changes : List (Change α)} {change : Change α} {category name : String}
  {c d : Candidate α} {cs : List (Candidate α)} {t : PluginTable α} {i j : Nat}

/-! ### What a history says about a name -/

/-- The change registers the name in the category. -/
def Change.Registers (category name : String) : Change α → Prop
  | .register category' c => category' = category ∧ c.name = name
  | .unregister _ _ => False
  | .clear => False

/-- The change takes the name out of the category. -/
def Change.Removes (category name : String) : Change α → Prop
  | .register _ _ => False
  | .unregister category' name' => category' = category ∧ name' = name
  | .clear => True

/-- The change is made to the category. Only `clear` is made to more than one. -/
def Change.Concerns (category : String) : Change α → Prop
  | .register category' _ => category' = category
  | .unregister category' _ => category' = category
  | .clear => True

theorem Change.Registers.concerns (h : change.Registers category name) :
    change.Concerns category := by
  cases change with
  | register category' c => exact h.1
  | unregister => exact h.elim
  | clear => exact h.elim

theorem Change.Removes.concerns (h : change.Removes category name) : change.Concerns category := by
  cases change with
  | register => exact h.elim
  | unregister category' name' => exact h.1
  | clear => trivial

/-- The name was registered in the category, and has not been removed since. -/
def IsRegistered (changes : List (Change α)) (category name : String) : Prop :=
  Since (fun _ change => change.Registers category name)
    (fun later => ¬ later.Removes category name) changes

/-- The change with this number registered the name for the first time since its last removal. -/
def EnteredAt (changes : List (Change α)) (category name : String) (i : Nat) : Prop :=
  Since (fun front change => front.length = i ∧ change.Registers category name ∧
      ¬ IsRegistered front category name)
    (fun later => ¬ later.Removes category name) changes

/-- The candidate is that of the latest registration of its name, which has not been removed
since. -/
def IsLatest (changes : List (Change α)) (category : String) (c : Candidate α) : Prop :=
  Since (fun _ change => change = .register category c)
    (fun later => ¬ later.Registers category c.name ∧ ¬ later.Removes category c.name) changes

theorem isRegistered_snoc : IsRegistered (changes ++ [change]) category name ↔
    change.Registers category name ∨
      IsRegistered changes category name ∧ ¬ change.Removes category name :=
  since_snoc

theorem enteredAt_snoc : EnteredAt (changes ++ [change]) category name i ↔
    (changes.length = i ∧ change.Registers category name ∧ ¬ IsRegistered changes category name) ∨
      EnteredAt changes category name i ∧ ¬ change.Removes category name :=
  since_snoc

theorem isLatest_snoc : IsLatest (changes ++ [change]) category c ↔
    change = .register category c ∨ IsLatest changes category c ∧
      ¬ change.Registers category c.name ∧ ¬ change.Removes category c.name :=
  since_snoc

theorem EnteredAt.lt (h : EnteredAt changes category name i) : i < changes.length := by
  obtain ⟨front, change, back, rfl, ⟨rfl, -⟩, -⟩ := h
  simp

theorem EnteredAt.isRegistered (h : EnteredAt changes category name i) :
    IsRegistered changes category name := by
  obtain ⟨front, change, back, hsplit, ⟨-, hchange, -⟩, hback⟩ := h
  exact ⟨front, change, back, hsplit, hchange, hback⟩

/-- What is registered was registered for the first time at some point. -/
theorem isRegistered_iff_exists_enteredAt :
    IsRegistered changes category name ↔ ∃ i, EnteredAt changes category name i := by
  refine ⟨fun h => ?_, fun ⟨i, hi⟩ => hi.isRegistered⟩
  induction changes using List.reverseRecOn with
  | nil => exact (not_since_nil h).elim
  | append_singleton changes change ih =>
    by_cases hbefore : IsRegistered changes category name ∧ ¬ change.Removes category name
    · obtain ⟨i, hi⟩ := ih hbefore.1
      exact ⟨i, enteredAt_snoc.mpr (.inr ⟨hi, hbefore.2⟩)⟩
    · have hnow : change.Registers category name := (isRegistered_snoc.mp h).resolve_right hbefore
      have hkeeps : ¬ change.Removes category name := by
        cases change with
        | register => exact id
        | unregister => exact hnow.elim
        | clear => exact hnow.elim
      exact ⟨changes.length,
        enteredAt_snoc.mpr (.inl ⟨rfl, hnow, fun hold => hbefore ⟨hold, hkeeps⟩⟩)⟩

theorem EnteredAt.unique (hi : EnteredAt changes category name i)
    (hj : EnteredAt changes category name j) : i = j := by
  induction changes using List.reverseRecOn with
  | nil => exact (not_since_nil hi).elim
  | append_singleton changes change ih =>
    rcases enteredAt_snoc.mp hi with ⟨hi, -, hnew⟩ | ⟨hi, -⟩
    · rcases enteredAt_snoc.mp hj with ⟨hj, -, -⟩ | ⟨hj, -⟩
      · omega
      · exact absurd hj.isRegistered hnew
    · rcases enteredAt_snoc.mp hj with ⟨-, -, hnew⟩ | ⟨hj, -⟩
      · exact absurd hi.isRegistered hnew
      · exact ih hi hj

/-- A name that was registered before the last change entered before it. -/
theorem EnteredAt.of_snoc (h : EnteredAt (changes ++ [change]) category name i)
    (hbefore : IsRegistered changes category name) : EnteredAt changes category name i := by
  rcases enteredAt_snoc.mp h with ⟨-, -, hnew⟩ | ⟨h, -⟩
  · exact absurd hbefore hnew
  · exact h

/-! ### What a category has after a history -/

/-- The candidates that a category has after a history. -/
structure Lists (changes : List (Change α)) (category : String) (cs : List (Candidate α)) :
    Prop where
  distinct : (cs.map Candidate.name).Nodup
  registered : ∀ name, name ∈ cs.map Candidate.name ↔ IsRegistered changes category name
  ordered : (cs.map Candidate.name).Pairwise fun name later =>
    ∀ i j, EnteredAt changes category name i → EnteredAt changes category later j → i < j
  latest : ∀ c, c ∈ cs ↔ IsLatest changes category c

theorem mem_place (h : (cs.map Candidate.name).Nodup) :
    c ∈ place d cs ↔ c = d ∨ c ∈ cs ∧ c.name ≠ d.name := by
  induction cs with
  | nil => simp [place]
  | cons e rest ih =>
    obtain ⟨he, hrest⟩ := List.nodup_cons.mp h
    by_cases hname : e.name = d.name
    · rw [place, if_pos hname, List.mem_cons, List.mem_cons]
      refine or_congr_right ⟨fun hc => ⟨.inr hc, fun hsame => he ?_⟩, ?_⟩
      · rw [hname, ← hsame]
        exact List.mem_map_of_mem hc
      · rintro ⟨rfl | hc, hne⟩
        · exact absurd hname hne
        · exact hc
    · rw [place, if_neg hname, List.mem_cons, ih hrest, List.mem_cons]
      constructor
      · rintro (rfl | rfl | ⟨hc, hne⟩)
        · exact .inr ⟨.inl rfl, hname⟩
        · exact .inl rfl
        · exact .inr ⟨.inr hc, hne⟩
      · rintro (rfl | ⟨rfl | hc, hne⟩)
        · exact .inr (.inl rfl)
        · exact .inl rfl
        · exact .inr (.inr ⟨hc, hne⟩)

/-- A change leaves the categories alone that it is not made to. -/
theorem candidates_apply_of_not_concerns (h : ¬ change.Concerns category) :
    (change.apply t).candidates category = t.candidates category := by
  cases change with
  | register category' c =>
    rw [Change.apply, candidates_register]
    exact if_neg h
  | unregister category' name =>
    rw [Change.apply, candidates_unregister]
    exact if_neg h
  | clear => exact absurd trivial h

namespace Lists

theorem nil (category : String) : Lists (α := α) [] category [] where
  distinct := List.nodup_nil
  registered name := by simp [IsRegistered, not_since_nil]
  ordered := .nil
  latest c := by simp [IsLatest, not_since_nil]

/-- A longer history keeps the order of names that were registered before. -/
theorem ordered_snoc (h : Lists changes category cs) (change : Change α) :
    (cs.map Candidate.name).Pairwise fun name later => ∀ i j,
      EnteredAt (changes ++ [change]) category name i →
      EnteredAt (changes ++ [change]) category later j → i < j :=
  h.ordered.imp_of_mem fun hname hlater horder i j hi hj =>
    horder i j (hi.of_snoc ((h.registered _).mp hname)) (hj.of_snoc ((h.registered _).mp hlater))

theorem elsewhere (h : Lists changes category cs) (hchange : ¬ change.Concerns category) :
    Lists (changes ++ [change]) category cs := by
  have hregisters : ∀ name, ¬ change.Registers category name := fun _ h' => hchange h'.concerns
  have hremoves : ∀ name, ¬ change.Removes category name := fun _ h' => hchange h'.concerns
  refine ⟨h.distinct, fun name => ?_, h.ordered_snoc change, fun c => ?_⟩
  · rw [h.registered, isRegistered_snoc]
    exact ⟨fun hname => .inr ⟨hname, hremoves name⟩,
      fun hname => (hname.resolve_left (hregisters name)).1⟩
  · rw [h.latest, isLatest_snoc]
    refine ⟨fun hc => .inr ⟨hc, hregisters _, hremoves _⟩, ?_⟩
    rintro (rfl | ⟨hc, -⟩)
    · exact absurd ⟨rfl, rfl⟩ (hregisters c.name)
    · exact hc

theorem register (h : Lists changes category cs) (c : Candidate α) :
    Lists (changes ++ [.register category c]) category (place c cs) := by
  have hnames := names_place c cs
  refine ⟨nodup_names_place h.distinct, fun name => ?_, ?_, fun d => ?_⟩
  · have hname : name ∈ (place c cs).map Candidate.name ↔
        c.name = name ∨ name ∈ cs.map Candidate.name := by
      rw [hnames]
      by_cases hc : c.name ∈ cs.map Candidate.name
      · rw [if_pos hc]
        exact ⟨.inr, fun hname => hname.elim (fun hsame => hsame ▸ hc) id⟩
      · rw [if_neg hc, List.mem_append, List.mem_singleton, or_comm, eq_comm]
    rw [hname, h.registered, isRegistered_snoc]
    simp [Change.Registers, Change.Removes]
  · rw [hnames]
    by_cases hc : c.name ∈ cs.map Candidate.name
    · rw [if_pos hc]
      exact h.ordered_snoc _
    · rw [if_neg hc, List.pairwise_append]
      refine ⟨h.ordered_snoc _, List.pairwise_singleton _ _,
        fun name hname new hnew i j hi hj => ?_⟩
      rw [List.mem_singleton.mp hnew] at hj
      -- the new name enters with this change, every other one entered before it
      have hlt : i < changes.length := (hi.of_snoc ((h.registered name).mp hname)).lt
      rcases enteredAt_snoc.mp hj with ⟨hj, -⟩ | ⟨hj, -⟩
      · omega
      · exact absurd ((h.registered _).mpr hj.isRegistered) hc
  · rw [mem_place h.distinct, h.latest, isLatest_snoc]
    simp [Change.Registers, Change.Removes, eq_comm]

theorem unregister (h : Lists changes category cs) (name : String) :
    Lists (changes ++ [.unregister category name]) category
      (cs.filter fun c => c.name != name) := by
  have hsublist : ((cs.filter fun c => c.name != name).map Candidate.name).Sublist
      (cs.map Candidate.name) := List.filter_sublist.map _
  refine ⟨h.distinct.sublist hsublist, fun other => ?_, (h.ordered_snoc _).sublist hsublist,
    fun c => ?_⟩
  · have hother : other ∈ (cs.filter fun c => c.name != name).map Candidate.name ↔
        other ∈ cs.map Candidate.name ∧ other ≠ name := by
      constructor
      · intro hmem
        obtain ⟨c, hc, rfl⟩ := List.mem_map.mp hmem
        obtain ⟨hc, hne⟩ := List.mem_filter.mp hc
        exact ⟨List.mem_map_of_mem hc, by simpa using hne⟩
      · rintro ⟨hmem, hne⟩
        obtain ⟨c, hc, rfl⟩ := List.mem_map.mp hmem
        exact List.mem_map_of_mem (List.mem_filter.mpr ⟨hc, by simpa using hne⟩)
    rw [hother, h.registered, isRegistered_snoc]
    simp [Change.Registers, Change.Removes, eq_comm]
  · rw [List.mem_filter, h.latest, isLatest_snoc]
    simp [Change.Registers, Change.Removes, eq_comm (a := name)]

theorem clear (changes : List (Change α)) (category : String) :
    Lists (changes ++ [.clear]) category [] where
  distinct := List.nodup_nil
  registered name := by simp [isRegistered_snoc, Change.Registers, Change.Removes]
  ordered := .nil
  latest c := by simp [isLatest_snoc, Change.Registers, Change.Removes]

/-- A change keeps what a history says about a category. -/
theorem apply (h : Lists changes category (t.candidates category)) (change : Change α) :
    Lists (changes ++ [change]) category ((change.apply t).candidates category) := by
  by_cases hconcerns : change.Concerns category
  · cases change with
    | register category' c =>
      obtain rfl : category' = category := hconcerns
      rw [Change.apply, candidates_register, if_pos rfl]
      exact h.register c
    | unregister category' name =>
      obtain rfl : category' = category := hconcerns
      rw [Change.apply, candidates_unregister, if_pos rfl]
      exact h.unregister name
    | clear => exact clear changes category
  · rw [candidates_apply_of_not_concerns hconcerns]
    exact h.elsewhere hconcerns

end Lists

theorem lists_after (changes : List (Change α)) (category : String) :
    Lists changes category ((after changes).candidates category) := by
  induction changes using List.reverseRecOn with
  | nil => exact .nil category
  | append_singleton changes change ih =>
    rw [after, List.foldl_append]
    exact ih.apply change

/-! ### What the questions to a table answer -/

theorem contains_iff {name : String} :
    t.contains category name = true ↔ name ∈ (t.candidates category).map Candidate.name := by
  rw [contains, List.any_eq_true, List.mem_map]
  exact exists_congr fun c => and_congr_right fun _ => beq_iff_eq

theorem value_lookup_eq_ok_iff (h : ((t.candidates category).map Candidate.name).Nodup) :
    (t.lookup category name).value = .ok c ↔ c ∈ t.candidates category ∧ c.name = name := by
  rw [← find?_name_eq_some_iff h]
  show t.find category name = .ok c ↔ _
  rw [find]
  cases (t.candidates category).find? fun d => d.name == name with
  | none => simp
  | some d => simp

theorem value_lookup_of_not_contains (h : t.contains category name = false) :
    (t.lookup category name).value = .error (.unknown category name) := by
  have hnone : (t.candidates category).find? (fun d => d.name == name) = none := by
    rw [List.find?_eq_none]
    intro d hd hname
    have hcontains : t.contains category name = true := List.any_eq_true.mpr ⟨d, hd, hname⟩
    rw [h] at hcontains
    cases hcontains
  show t.find category name = _
  rw [find, hnone]

/-- After any changes, what a category lists is told by the history of these changes, in which every
listed name entered at one point; the questions to the table agree with the list, and a change that
is not made to the category leaves it alone. -/
theorem insertion_ordered (changes : List (Change α)) (category : String) :
    let t := after changes
    let cs := t.candidates category
    Lists changes category cs ∧
    (∀ name ∈ cs.map Candidate.name, ∃! i, EnteredAt changes category name i) ∧
    (∀ name,
      (t.contains category name = true ↔ name ∈ cs.map Candidate.name) ∧
      (t.contains category name = true ↔ ∃ c, (t.lookup category name).value = .ok c) ∧
      (∀ c, (t.lookup category name).value = .ok c ↔ c ∈ cs ∧ c.name = name) ∧
      (t.contains category name = false →
        (t.lookup category name).value = .error (.unknown category name)) ∧
      ((t.unregister category name).2 = true ↔ name ∈ cs.map Candidate.name) ∧
      (t.unregister category name).1.candidates category = cs.filter fun c => c.name != name) ∧
    ∀ change : Change α, ¬ change.Concerns category →
      (change.apply t).candidates category = cs ∧
      ∀ name, (change.apply t).contains category name = t.contains category name ∧
        (change.apply t).lookup category name = t.lookup category name := by
  intro t cs
  have hlists : Lists changes category cs := lists_after changes category
  refine ⟨hlists, fun name hname => ?_, fun name => ?_, fun change hchange => ?_⟩
  · obtain ⟨i, hi⟩ := isRegistered_iff_exists_enteredAt.mp ((hlists.registered name).mp hname)
    exact ⟨i, hi, fun j hj => hj.unique hi⟩
  · have hfound : ∀ c, (t.lookup category name).value = .ok c ↔ c ∈ cs ∧ c.name = name :=
      fun c => value_lookup_eq_ok_iff hlists.distinct
    refine ⟨contains_iff, ?_, hfound, value_lookup_of_not_contains, ?_, ?_⟩
    · rw [contains_iff, List.mem_map]
      exact exists_congr fun c => (hfound c).symm
    · rw [unregister_eq_contains, contains_iff]
    · rw [candidates_unregister, if_pos rfl]
  · have hsame : (change.apply t).candidates category = cs :=
      candidates_apply_of_not_concerns hchange
    refine ⟨hsame, fun name => ⟨?_, ?_⟩⟩
    · rw [contains, contains, hsame]
    · rw [lookup, lookup, find, find, hsame]

/-- A candidate of some name and rank. -/
def ranked (name : String) (rank : Int) : Candidate Unit := ⟨name, rank, 0, .ok ()⟩

/-- Two names are registered, and the first of them is removed and registered again; another
category has one of these names, too. -/
def renewal : List (Change Unit) :=
  [.register "Codec" (ranked "xml" 5), .register "Codec" (ranked "json" 6),
    .register "Other" (ranked "xml" 1), .unregister "Codec" "xml",
    .register "Codec" (ranked "xml" 7), .register "Codec" (ranked "json" 8)]

/-- A name that is registered again after its removal comes last. One that was not removed keeps its
place and stands for its new candidate. -/
theorem renewed_name_comes_last :
    (after renewal).candidates "Codec" = [ranked "json" 8, ranked "xml" 7] ∧
      IsLatest renewal "Codec" (ranked "xml" 7) ∧
      ((after renewal).lookup "Codec" "json").value = .ok (ranked "json" 8) ∧
      ((after renewal).lookup "Codec" "yaml").value = .error (.unknown "Codec" "yaml") ∧
      ((after renewal).unregister "Other" "xml").1.candidates "Codec" =
        [ranked "json" 8, ranked "xml" 7] ∧
      ∀ i j, EnteredAt renewal "Codec" "json" i → EnteredAt renewal "Codec" "xml" j → i < j := by
  have hcandidates : (after renewal).candidates "Codec" = [ranked "json" 8, ranked "xml" 7] := rfl
  obtain ⟨hlists, -, hquestions, helsewhere⟩ := insertion_ordered renewal "Codec"
  obtain ⟨-, -, hjson, -⟩ := hquestions "json"
  obtain ⟨-, -, -, hyaml, -⟩ := hquestions "yaml"
  have hother : ¬ (Change.unregister "Other" "xml" : Change Unit).Concerns "Codec" := by
    show ¬ "Other" = "Codec"
    decide
  refine ⟨hcandidates, (hlists.latest _).mp ?_, (hjson _).mpr ⟨?_, rfl⟩, hyaml rfl, ?_, ?_⟩
  · rw [hcandidates]
    exact .tail _ (.head _)
  · rw [hcandidates]
    exact .head _
  · exact (helsewhere _ hother).1.trans hcandidates
  · have hordered := hlists.ordered
    rw [hcandidates] at hordered
    exact (List.pairwise_cons.mp hordered).1 "xml" (.head _)

end PluginTable

end LogSetup
