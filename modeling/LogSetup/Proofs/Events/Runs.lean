import LogSetup.Events.Traced

/-!
# Calls in sequence

Calls form a lawful monad: how a sequence of calls is bracketed does not matter. A search for the
first answer makes its calls in order through the first that answers, so both its answer and its
events are known from the single calls.

## Main definitions

- `upTo` : the front of a list through the first element that meets a condition
- `Traced.Only` : all events of a call are of a kind
- `handed` : the sources handed to factories, each with the factory

## Main statements

- `mem_upTo_iff` : the front of an ordered list
- `Traced.value_firstSome`, `Traced.events_firstSome` : the answer and the events of a search
-/

namespace LogSetup

/-! ### The front of a list -/

section UpTo

variable {α β : Type} {p : α → Bool}

/-- The front of a list through the first element that meets a condition. It is the whole list when
none does. -/
def upTo (p : α → Bool) : List α → List α
  | [] => []
  | a :: rest => if p a then [a] else a :: upTo p rest

theorem upTo_append_cons {before after : List α} {a : α} (h : ∀ b ∈ before, p b = false)
    (ha : p a = true) : upTo p (before ++ a :: after) = before ++ [a] := by
  induction before with
  | nil => simp [upTo, ha]
  | cons b rest ih =>
    have hb : p b = false := h b List.mem_cons_self
    have hrest : ∀ c ∈ rest, p c = false := fun c hc => h c (List.mem_cons_of_mem b hc)
    simp [upTo, hb, ih hrest]

theorem upTo_sublist (p : α → Bool) (as : List α) : (upTo p as).Sublist as := by
  induction as with
  | nil => exact List.Sublist.refl _
  | cons a rest ih =>
    by_cases ha : p a = true
    · rw [upTo, if_pos ha]
      exact (List.nil_sublist rest).cons_cons a
    · rw [upTo, if_neg ha]
      exact ih.cons_cons a

theorem mem_of_mem_upTo {as : List α} {a : α} (h : a ∈ upTo p as) : a ∈ as :=
  (upTo_sublist p as).subset h

theorem upTo_eq_self {as : List α} (h : ∀ a ∈ as, p a = false) : upTo p as = as := by
  induction as with
  | nil => rfl
  | cons a rest ih =>
    have ha : p a = false := h a List.mem_cons_self
    have hrest : ∀ b ∈ rest, p b = false := fun b hb => h b (List.mem_cons_of_mem a hb)
    simp [upTo, ha, ih hrest]

/-- The front goes on into a second list only when no element of the first meets the condition. -/
theorem upTo_append (p : α → Bool) (as bs : List α) :
    upTo p (as ++ bs) = if as.any p then upTo p as else as ++ upTo p bs := by
  induction as with
  | nil => rfl
  | cons a rest ih =>
    by_cases ha : p a = true
    · simp [upTo, ha]
    · simp only [List.cons_append, upTo, ha, List.any_cons, ih]
      by_cases hrest : rest.any p = true <;> simp [hrest]

theorem mem_upTo_cons {as : List α} {a b : α} :
    a ∈ upTo p (b :: as) ↔ a = b ∨ p b = false ∧ a ∈ upTo p as := by
  by_cases hb : p b = true
  · simp [upTo, hb]
  · simp [upTo, hb]

/-- The front of an ordered list holds the elements before which none meets the condition. -/
theorem mem_upTo_iff {r : α → α → Prop} {as : List α} {a : α} (hr : ∀ x y, r x y → ¬ r y x)
    (hordered : as.Pairwise r) : a ∈ upTo p as ↔ a ∈ as ∧ ∀ b ∈ as, r b a → p b = false := by
  induction as with
  | nil => simp [upTo]
  | cons b rest ih =>
    obtain ⟨hbefore, hrest⟩ := List.pairwise_cons.mp hordered
    rw [mem_upTo_cons, ih hrest]
    constructor
    · rintro (rfl | ⟨hb, ha, hnone⟩)
      · -- nothing comes before the first element
        refine ⟨List.mem_cons_self, fun c hc hca => ?_⟩
        rcases List.mem_cons.mp hc with rfl | hc
        · exact absurd hca (hr _ _ hca)
        · exact absurd hca (hr _ _ (hbefore c hc))
      · refine ⟨List.mem_cons_of_mem b ha, fun c hc hca => ?_⟩
        rcases List.mem_cons.mp hc with rfl | hc
        · exact hb
        · exact hnone c hc hca
    · rintro ⟨ha, hnone⟩
      rcases List.mem_cons.mp ha with rfl | ha
      · exact .inl rfl
      · refine .inr ⟨hnone b List.mem_cons_self (hbefore a ha), ha, fun c hc hca => ?_⟩
        exact hnone c (List.mem_cons_of_mem b hc) hca

/-- The first answer is that of the element at which the front ends. -/
theorem findSome?_eq_some_iff_upTo {f : α → Option β} {as : List α} {b : β} :
    as.findSome? f = some b ↔ ∃ a ∈ upTo (fun a => (f a).isSome) as, f a = some b := by
  induction as with
  | nil => simp [upTo]
  | cons a rest ih =>
    cases ha : f a with
    | none => simp [upTo, ha, ih]
    | some c => simp [upTo, ha]

theorem upTo_map (p : β → Bool) (f : α → β) (as : List α) :
    upTo p (as.map f) = (upTo (fun a => p (f a)) as).map f := by
  induction as with
  | nil => rfl
  | cons a rest ih =>
    by_cases ha : p (f a) = true
    · simp [upTo, ha]
    · simp [upTo, ha, ih]

end UpTo

/-! ### Kinds of events -/

/-- Events of a search in loaders. -/
def Event.IsOpening : Event → Prop
  | .status _ | .failed _ | .lookup _ _ => True
  | _ => False

/-- Events of handing sources to factories. -/
def Event.IsParsing : Event → Prop
  | .status _ | .failed _ | .parsed _ _ => True
  | _ => False

/-- Events of building plug-ins. -/
def Event.IsBuilding : Event → Prop
  | .status _ | .failed _ | .built _ => True
  | _ => False

/-- The sources that were handed to factories, each with the factory, in order. -/
def handed (es : List Event) : List (Nat × Source) :=
  es.filterMap fun
    | .parsed f s => some (f, s)
    | _ => none

theorem handed_nil : handed [] = [] := rfl

@[simp] theorem handed_append (es fs : List Event) : handed (es ++ fs) = handed es ++ handed fs :=
  List.filterMap_append

theorem handed_flatMap {α : Type} (as : List α) (f : α → List Event) :
    handed (as.flatMap f) = as.flatMap fun a => handed (f a) := by
  induction as with
  | nil => rfl
  | cons a rest ih => simp [List.flatMap_cons, ih]

@[simp] theorem asksOf_append (es fs : List Event) : asksOf (es ++ fs) = asksOf es ++ asksOf fs :=
  List.filterMap_append

@[simp] theorem lookupsOf_append (loader : Nat) (es fs : List Event) :
    lookupsOf loader (es ++ fs) = lookupsOf loader es ++ lookupsOf loader fs :=
  List.filterMap_append

namespace Traced

variable {α β : Type}

/-! ### Laws of sequencing -/

instance : LawfulMonad Traced :=
  LawfulMonad.mk' Traced
    (fun x => by ext1 <;> simp [Functor.map, Traced.bind, Traced.pure])
    (fun _ _ => rfl)
    (fun _ _ _ => by ext1 <;> simp)

@[simp] theorem value_map (f : α → β) (x : Traced α) : (f <$> x).value = f x.value := rfl

@[simp] theorem events_map (f : α → β) (x : Traced α) : (f <$> x).events = x.events :=
  List.append_nil x.events

@[simp] theorem events_report (level : Level) (text : String) :
    (report level text).events = [.status ⟨level, text⟩] := rfl

@[simp] theorem value_settle {ε : Type} (failure : ε → Failure) (answer : Except ε α) :
    (settle failure answer).value = answer := rfl

/-- The answer of a search is that of the first call that has one. -/
theorem value_firstSome (call : α → Traced (Option β)) (as : List α) :
    (firstSome call as).value = as.findSome? fun a => (call a).value := by
  induction as with
  | nil => rfl
  | cons a rest ih =>
    simp only [firstSome, value_bind, List.findSome?_cons]
    cases (call a).value with
    | none => exact ih
    | some b => rfl

/-- The calls of a search are made in order through the first that has an answer. -/
theorem events_firstSome (call : α → Traced (Option β)) (as : List α) :
    (firstSome call as).events =
      (upTo (fun a => (call a).value.isSome) as).flatMap fun a => (call a).events := by
  induction as with
  | nil => rfl
  | cons a rest ih =>
    -- the first call that has an answer is the last that is made
    by_cases ha : (call a).value.isSome = true
    · obtain ⟨b, hb⟩ := Option.isSome_iff_exists.mp ha
      simp [firstSome, upTo, hb]
    · have hn : (call a).value = none := by simpa using ha
      simp [firstSome, upTo, hn, ih]

/-- A search without an answer makes all its calls. -/
theorem events_subset_firstSome {call : α → Traced (Option β)} {as : List α} {a : α}
    (h : (firstSome call as).value = none) (ha : a ∈ as) :
    (call a).value = none ∧ (call a).events ⊆ (firstSome call as).events := by
  rw [value_firstSome, List.findSome?_eq_none_iff] at h
  refine ⟨h a ha, fun e he => ?_⟩
  rw [events_firstSome, upTo_eq_self fun b hb => by rw [h b hb]; rfl]
  exact List.mem_flatMap.mpr ⟨a, ha, he⟩

/-! ### Calls whose events are of one kind -/

/-- Every event of a call is of a kind. -/
def Only (kind : Event → Prop) (x : Traced α) : Prop := ∀ e ∈ x.events, kind e

variable {kind : Event → Prop}

theorem only_pure (a : α) : (pure a : Traced α).Only kind := by
  intro e he
  cases he

theorem Only.bind {x : Traced α} {f : α → Traced β} (hx : x.Only kind)
    (hf : (f x.value).Only kind) : (x >>= f).Only kind := by
  intro e he
  rw [events_bind, List.mem_append] at he
  rcases he with he | he
  · exact hx e he
  · exact hf e he

theorem only_emit {e : Event} (h : kind e) : (emit e).Only kind := by
  intro e' he'
  rw [events_emit, List.mem_singleton] at he'
  exact he' ▸ h

theorem only_report {level : Level} {text : String} (h : ∀ m, kind (.status m)) :
    (report level text).Only kind :=
  only_emit (h _)

theorem only_settle {ε : Type} {failure : ε → Failure} {answer : Except ε α}
    (h : ∀ f, kind (.failed f)) : (settle failure answer).Only kind := by
  intro e he
  cases answer with
  | ok a => cases he
  | error cause =>
    rw [List.mem_singleton.mp he]
    exact h _

theorem Only.firstSome {call : α → Traced (Option β)} {as : List α}
    (h : ∀ a ∈ as, (call a).Only kind) : (firstSome call as).Only kind := by
  intro e he
  rw [events_firstSome, List.mem_flatMap] at he
  obtain ⟨a, ha, he⟩ := he
  exact h a (mem_of_mem_upTo ha) e he

theorem Only.imp {kind' : Event → Prop} {x : Traced α} (hx : x.Only kind)
    (h : ∀ e, kind e → kind' e) : x.Only kind' :=
  fun e he => h e (hx e he)

/-- A call that hands no source to a factory. -/
theorem Only.handed_eq_nil {x : Traced α} (hx : x.Only kind)
    (h : ∀ f s, ¬ kind (.parsed f s)) : handed x.events = [] := by
  refine List.filterMap_eq_nil_iff.mpr fun e he => ?_
  have hk := hx e he
  cases e with
  | parsed f s => exact absurd hk (h f s)
  | status _ | lookup _ _ | built _ | asked _ | failed _ => rfl

/-- A call that asks no factory for a configuration. -/
theorem Only.asksOf_eq_nil {x : Traced α} (hx : x.Only kind) (h : ∀ f, ¬ kind (.asked f)) :
    asksOf x.events = [] := by
  refine List.filterMap_eq_nil_iff.mpr fun e he => ?_
  have hk := hx e he
  cases e with
  | asked f => exact absurd hk (h f)
  | status _ | lookup _ _ | built _ | parsed _ _ | failed _ => rfl

end Traced

end LogSetup
