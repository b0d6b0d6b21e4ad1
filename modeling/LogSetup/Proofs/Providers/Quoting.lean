import LogSetup.Proofs.Providers.Validation
import LogSetup.Proofs.Yaml.Plain

/-!
# Priorities written bare and in quotes

A priority may be written bare or in quotes. The bare form is read as a number and printed again,
the form in quotes is taken as it stands. Both come to the same, except for whole numbers of 32 bits
that are written in another way than by decimal digits: with a radix mark, with a point or with an
exponent. These are accepted when they are bare and refused when they stand in quotes.

## Main definitions

- `Provider.WrittenBothWays` : two manifests that differ in the quotes around the priority
- `Provider.Alike` : both are accepted with one priority, or both are refused as malformed
- `Provider.IsUnusualWhole` : a scalar is a whole number that is not written by decimal digits

## Main statements

- `Manifest.ofDocument?_plain` : the fields of the manifest with the bare form
- `Provider.alike_iff` : when the two forms come to the same
-/

namespace LogSetup

namespace Manifest

open Yaml

/-! ### One entry of a mapping -/

section Entry

variable {d : Document} {tag : Option (List Char)} {before after : List (Node × Node)}
  {key n : Node} {links : Nat} {name : String} {front back : List (String × Node)}

/-- The document with a mapping as its root. -/
def withEntries (d : Document) (tag : Option (List Char)) (entries : List (Node × Node)) :
    Document :=
  { d with root := .mapping tag entries }

theorem fields?_append_cons (hkey : d.text? 0 key = some (name, links)) :
    fields? d (before ++ (key, n) :: after) =
      (fields? d before).bind fun front =>
        (fields? d after).map fun back => front ++ (name, n) :: back := by
  simp only [fields?, List.mapM_append, List.mapM_cons, hkey, Option.map_some]
  cases List.mapM (fun e => Option.map (fun k => (k.1, e.2)) (d.text? 0 e.1)) before <;>
    cases List.mapM (fun e => Option.map (fun k => (k.1, e.2)) (d.text? 0 e.1)) after <;> rfl

/-- A field of another name does not matter. -/
theorem field?_append_cons_of_ne {other : String} (h : name ≠ other) :
    field? (front ++ (name, n) :: back) other = field? (front ++ back) other := by
  simp only [field?, List.filter_append, List.filter_cons, beq_iff_eq, if_neg h]

/-- A field that is found is the only one of its name, so another node in its place is found
too. -/
theorem field?_append_cons_self {found : Option Node}
    (h : field? (front ++ (name, n) :: back) name = some found) (n' : Node) :
    field? (front ++ (name, n') :: back) name = some (some n') := by
  simp only [field?, List.filter_append, List.filter_cons, beq_self_eq_true, if_true] at h ⊢
  cases hfront : front.filter fun f => f.1 == name with
  | nil =>
    cases hback : back.filter fun f => f.1 == name with
    | nil => rfl
    | cons => simp [hfront, hback] at h
  | cons f rest =>
    rw [hfront] at h
    cases rest <;> simp at h

theorem fieldValue?_append_cons_of_ne {α : Type} {other : String} (h : name ≠ other) (n' : Node)
    (read? : Option (List Char) → Style → List Char → Option α) :
    fieldValue? d (front ++ (name, n) :: back) other read? =
      fieldValue? d (front ++ (name, n') :: back) other read? := by
  rw [fieldValue?, fieldValue?, field?_append_cons_of_ne h, field?_append_cons_of_ne h]

theorem fieldValue?_append_cons_self {α : Type} {value : Option α}
    {read? : Option (List Char) → Style → List Char → Option α}
    (h : fieldValue? d (front ++ (name, n) :: back) name read? = some value) (n' : Node) :
    fieldValue? d (front ++ (name, n') :: back) name read? = optional? d n' read? := by
  cases hfound : field? (front ++ (name, n) :: back) name with
  | none => simp [fieldValue?, hfound] at h
  | some found => rw [fieldValue?, field?_append_cons_self hfound n']

theorem ofDocument?_withEntries (d : Document) (tag : Option (List Char))
    (entries : List (Node × Node)) :
    ofDocument? (some (withEntries d tag entries)) = do
      let fields ← fields? d entries
      let version ← fieldValue? d fields versionField readValue?
      let priority ← fieldValue? d fields priorityField readValue?
      let factory ← fieldValue? d fields factoryField readText?
      let contextMap ← fieldValue? d fields contextMapField readText?
      return { version, priority, factory, contextMap } := rfl

theorem of_ofDocument? {m : Manifest} {entries : List (Node × Node)}
    (h : ofDocument? (some (withEntries d tag entries)) = some m) :
    ∃ fields, fields? d entries = some fields ∧
      fieldValue? d fields versionField readValue? = some m.version ∧
      fieldValue? d fields priorityField readValue? = some m.priority ∧
      fieldValue? d fields factoryField readText? = some m.factory ∧
      fieldValue? d fields contextMapField readText? = some m.contextMap := by
  rw [ofDocument?_withEntries] at h
  obtain ⟨fields, hfields, h⟩ := Option.bind_eq_some_iff.mp h
  obtain ⟨version, hversion, h⟩ := Option.bind_eq_some_iff.mp h
  obtain ⟨priority, hpriority, h⟩ := Option.bind_eq_some_iff.mp h
  obtain ⟨factory, hfactory, h⟩ := Option.bind_eq_some_iff.mp h
  obtain ⟨contextMap, hcontextMap, h⟩ := Option.bind_eq_some_iff.mp h
  cases h
  exact ⟨fields, hfields, hversion, hpriority, hfactory, hcontextMap⟩

end Entry

/-! ### The priority bare and in quotes -/

section Priority

variable {d : Document} {t : List Char}

theorem optional?_marked : optional? d (.scalar none .marked t) readValue? =
    some (some (.text (String.ofList t))) := rfl

theorem optional?_plain (h : Plain.of t ≠ .null) :
    optional? d (.scalar none .plain t) readValue? =
      (ManifestValue.ofPlain? (Plain.of t)).map some := by
  have habsent : isAbsent? none .plain t = some false := by
    rw [isAbsent?, if_neg (by decide)]
    simp [Plain.not_isNullWord_of_ne_null h]
  simp only [optional?, Document.follow?, habsent]
  rfl

/-- The manifest with the bare form has the other fields of the one with the form in quotes. -/
theorem ofDocument?_plain {tag : Option (List Char)} {before after : List (Node × Node)}
    {key : Node} {links : Nat} {m : Manifest} (hkey : d.text? 0 key = some (priorityField, links))
    (hnull : Plain.of t ≠ .null)
    (h : ofDocument? (some (withEntries d tag (before ++ (key, .scalar none .marked t) :: after))) =
      some m) :
    m.priority = some (.text (String.ofList t)) ∧
      ofDocument? (some (withEntries d tag (before ++ (key, .scalar none .plain t) :: after))) =
        (ManifestValue.ofPlain? (Plain.of t)).map fun w => { m with priority := some w } := by
  obtain ⟨fields, hfields, hversion, hpriority, hfactory, hcontextMap⟩ := of_ofDocument? h
  rw [fields?_append_cons hkey] at hfields
  obtain ⟨front, hfront, hfields⟩ := Option.bind_eq_some_iff.mp hfields
  obtain ⟨back, hback, rfl⟩ := Option.map_eq_some_iff.mp hfields
  have hothers : priorityField ≠ versionField ∧ priorityField ≠ factoryField ∧
      priorityField ≠ contextMapField := by decide
  constructor
  · rw [fieldValue?_append_cons_self hpriority, optional?_marked] at hpriority
    exact (Option.some.inj hpriority).symm
  · rw [fieldValue?_append_cons_of_ne hothers.1 (.scalar none .plain t)] at hversion
    rw [fieldValue?_append_cons_of_ne hothers.2.1 (.scalar none .plain t)] at hfactory
    rw [fieldValue?_append_cons_of_ne hothers.2.2 (.scalar none .plain t)] at hcontextMap
    rw [ofDocument?_withEntries, fields?_append_cons hkey, hfront, hback]
    simp only [Option.bind_some, Option.map_some, Option.bind_eq_bind, hversion, hfactory,
      hcontextMap, fieldValue?_append_cons_self hpriority, optional?_plain hnull]
    cases ManifestValue.ofPlain? (Plain.of t) <;> rfl

end Priority

end Manifest

namespace Provider

open Text Yaml

/-! ### Two manifests -/

/-- Data that is not blank holds a document. -/
structure Holds (s : Source) (d : Document) : Prop where
  written : s.data.all Manifest.isBlankByte = false
  read : Document.read? s.data = some (some d)

/-- Two manifests that are the same, except that the priority stands bare in one of them and in
quotes in the other. -/
def WrittenBothWays (t : List Char) (bare quoted : Source) : Prop :=
  ∃ d tag before key links after, d.text? 0 key = some (Manifest.priorityField, links) ∧
    Holds bare (Manifest.withEntries d tag (before ++ (key, .scalar none .plain t) :: after)) ∧
    Holds quoted (Manifest.withEntries d tag (before ++ (key, .scalar none .marked t) :: after))

/-- Data is refused as malformed. -/
def IsMalformed (s : Source) (context : LoadingContext) : Prop :=
  ofSource s context = .error (.malformed s.origin.display) ∨
    ∃ text, ofSource s context = .error (.priority s.origin.display text)

/-- Both are accepted with one priority, or both are refused as malformed. -/
def Alike (a b : Source) (context : LoadingContext) : Prop :=
  (∃ i, Announces a context i ∧ Announces b context i) ∨
    IsMalformed a context ∧ IsMalformed b context

/-- A scalar is a whole number of 32 bits that has a radix mark, a point or an exponent. -/
def IsUnusualWhole (t : List Char) : Prop :=
  (∃ i, Plain.of t = .integer i ∧ IsInt32 i ∧ HasRadixMark t) ∨
    ∃ x i, Plain.of t = .float x ∧ x.value? = some ((i : Int) : ℚ) ∧ IsInt32 i

section Quoting

variable {t : List Char} {bare quoted : Source} {context : LoadingContext} {m : Manifest} {i : Int}

theorem decode?_of_holds {s : Source} {d : Document} (h : Holds s d) :
    Manifest.decode? s.data = Manifest.ofDocument? (some d) := by
  rw [Manifest.decode?, h.written, h.read]
  rfl

/-- The fields of the manifest with the bare form. -/
theorem WrittenBothWays.decode? (h : WrittenBothWays t bare quoted)
    (hm : Manifest.decode? quoted.data = some m) (hnull : Plain.of t ≠ .null) :
    m.priority = some (.text (String.ofList t)) ∧
      Manifest.decode? bare.data =
        (ManifestValue.ofPlain? (Plain.of t)).map fun w => { m with priority := some w } := by
  obtain ⟨d, tag, before, key, links, after, hkey, hbare, hquoted⟩ := h
  rw [decode?_of_holds hquoted] at hm
  rw [decode?_of_holds hbare]
  exact Manifest.ofDocument?_plain hkey hnull hm

theorem announces_iff_denotes {s : Source} {w : ManifestValue}
    (hm : Manifest.decode? s.data = some m) (hcompatible : IsCompatible m)
    (hw : m.priority = some w) : Announces s context i ↔ w.Denotes i := by
  rw [announces_iff hm, and_iff_right hcompatible, priorityOf_eq_ok_iff, hw]
  simp

theorem isMalformed_iff_not_denotes {s : Source} {w : ManifestValue}
    (hm : Manifest.decode? s.data = some m) (hcompatible : IsCompatible m)
    (hw : m.priority = some w) : IsMalformed s context ↔ ¬ ∃ i, w.Denotes i := by
  simp only [IsMalformed, ofSource_of_decode? context hm, ofManifest_eq_iff]
  constructor
  · rintro (h | ⟨text, h⟩)
    · cases h
    · cases h with
      | priority _ _ hw' h =>
        cases hw.symm.trans hw'
        exact h
  · intro h
    obtain ⟨v, hv, hstarts⟩ := hcompatible
    exact .inr ⟨_, .priority hv hstarts hw h⟩

/-- What the bare form denotes. -/
def BareDenotes (t : List Char) (i : Int) : Prop :=
  ∃ w, ManifestValue.ofPlain? (Plain.of t) = some w ∧ w.Denotes i

/-- What the form in quotes denotes. -/
def QuotedDenotes (t : List Char) (i : Int) : Prop := IsNumeral (trimChars t) i ∧ IsInt32 i

theorem denotes_text_iff :
    (ManifestValue.text (String.ofList t)).Denotes i ↔ QuotedDenotes t i := by
  rw [ManifestValue.Denotes, ManifestValue.asText, String.toList_ofList, QuotedDenotes]

theorem WrittenBothWays.bare_iff (h : WrittenBothWays t bare quoted)
    (hm : Manifest.decode? quoted.data = some m) (hcompatible : IsCompatible m)
    (hnull : Plain.of t ≠ .null) (context : LoadingContext) :
    (∀ i, Announces bare context i ↔ BareDenotes t i) ∧
      (IsMalformed bare context ↔ ¬ ∃ i, BareDenotes t i) := by
  have hdecode := (h.decode? hm hnull).2
  cases hplain : ManifestValue.ofPlain? (Plain.of t) with
  | none =>
    rw [hplain] at hdecode
    have hanswer : ofSource bare context = .error (.malformed bare.origin.display) := by
      rw [ofSource, hdecode]
      rfl
    simp [Announces, IsMalformed, BareDenotes, hplain, hanswer]
  | some w =>
    rw [hplain] at hdecode
    -- the version is the one of the manifest with the form in quotes
    have hcompatible' : IsCompatible { m with priority := some w } := hcompatible
    refine ⟨fun i => ?_, ?_⟩
    · rw [announces_iff_denotes hdecode hcompatible' rfl, BareDenotes, hplain]
      simp
    · rw [isMalformed_iff_not_denotes hdecode hcompatible' rfl]
      simp [BareDenotes, hplain]

theorem BareDenotes.unique {j : Int} (hi : BareDenotes t i) (hj : BareDenotes t j) : i = j := by
  obtain ⟨w, hw, hi⟩ := hi
  obtain ⟨w', hw', hj⟩ := hj
  cases hw.symm.trans hw'
  exact hi.unique hj

theorem alike_iff_denotes (h : WrittenBothWays t bare quoted)
    (hm : Manifest.decode? quoted.data = some m) (hcompatible : IsCompatible m)
    (hnull : Plain.of t ≠ .null) :
    Alike bare quoted context ↔ ∀ i, BareDenotes t i ↔ QuotedDenotes t i := by
  have htext := (h.decode? hm hnull).1
  obtain ⟨hannounces, hmalformed⟩ := h.bare_iff hm hcompatible hnull context
  simp only [Alike, hannounces, hmalformed, announces_iff_denotes hm hcompatible htext,
    isMalformed_iff_not_denotes hm hcompatible htext, denotes_text_iff]
  constructor
  · rintro (⟨j, hbare, hquoted⟩ | ⟨hbare, hquoted⟩) i
    · constructor
      · intro hi
        rwa [hi.unique hbare]
      · intro hi
        rwa [hi.1.unique hquoted.1]
    · exact ⟨fun hi => absurd ⟨i, hi⟩ hbare, fun hi => absurd ⟨i, hi⟩ hquoted⟩
  · intro hsame
    by_cases hquoted : ∃ i, QuotedDenotes t i
    · obtain ⟨i, hi⟩ := hquoted
      exact .inl ⟨i, (hsame i).mpr hi, hi⟩
    · exact .inr ⟨fun ⟨i, hi⟩ => hquoted ⟨i, (hsame i).mp hi⟩, hquoted⟩

theorem bareDenotes_iff {w : ManifestValue} (hw : ManifestValue.ofPlain? (Plain.of t) = some w) :
    BareDenotes t i ↔ w.Denotes i := by
  rw [BareDenotes, hw]
  simp

theorem bareDenotes_integer_iff {n : Int} (h : Plain.of t = .integer n) :
    BareDenotes t i ↔ i = n ∧ IsInt32 n := by
  obtain ⟨w, hw⟩ : ∃ w, ManifestValue.ofPlain? (.integer n) = some w := ⟨_, rfl⟩
  rw [bareDenotes_iff (h ▸ hw), ManifestValue.denotes_ofPlain?_integer_iff hw]

theorem not_bareDenotes_wide {n : Int} (h : Plain.of t = .wide n) : ¬ BareDenotes t i := by
  rintro ⟨w, hw, -⟩
  rw [h] at hw
  cases hw

theorem bareDenotes_float_iff {x : Binary64} (h : Plain.of t = .float x) (hx : x.IsCanonical) :
    BareDenotes t i ↔ x.value? = some (i : ℚ) ∧ IsInt32 i := by
  rw [bareDenotes_iff (w := .float x) (by rw [h]; rfl), ManifestValue.denotes_float_iff hx]

theorem bareDenotes_text_iff (h : Plain.of t = .text (String.ofList t)) :
    BareDenotes t i ↔ QuotedDenotes t i := by
  rw [bareDenotes_iff (w := .text (String.ofList t)) (by rw [h]; rfl), denotes_text_iff]

/-- The two forms denote the same, unless the scalar is a whole number in an unusual form. -/
theorem denotes_alike_iff (hnull : Plain.of t ≠ .null) (hbool : ∀ b, Plain.of t ≠ .bool b) :
    (∀ i, BareDenotes t i ↔ QuotedDenotes t i) ↔ ¬ IsUnusualWhole t := by
  rcases Plain.of_cases hnull hbool with
    ⟨n, p, hread, hsize, hplain⟩ | ⟨x, hinteger, hpadded, hfloat, hplain⟩ | hplain
  · have hquoted : ∀ i, QuotedDenotes t i ↔ ¬ HasRadixMark t ∧ i = n ∧ IsInt32 i := fun i => by
      rw [QuotedDenotes, Plain.isNumeral_iff_of_readInteger? hread, and_assoc]
    rcases Plain.of_ofInteger? hsize with rfl | ⟨rfl, hrange⟩
    · simp only [bareDenotes_integer_iff hplain, hquoted, IsUnusualWhole, hplain]
      constructor
      · rintro hsame (⟨j, hj, hrange, hmark⟩ | ⟨x, j, hx, -⟩)
        · cases hj
          exact ((hsame n).mp ⟨rfl, hrange⟩).1 hmark
        · cases hx
      · intro hnone i
        constructor
        · rintro ⟨rfl, hrange⟩
          exact ⟨fun hmark => hnone (.inl ⟨i, rfl, hrange, hmark⟩), rfl, hrange⟩
        · rintro ⟨-, rfl, hrange⟩
          exact ⟨rfl, hrange⟩
    · -- an integer of more than 64 bits is refused bare and too large in quotes
      have hsame : ∀ i, BareDenotes t i ↔ QuotedDenotes t i := by
        intro i
        rw [hquoted]
        refine ⟨fun hbare => absurd hbare (not_bareDenotes_wide hplain), ?_⟩
        rintro ⟨-, rfl, hi⟩
        exact absurd hi hrange
      refine ⟨fun _ => ?_, fun _ => hsame⟩
      rintro (⟨j, hj, -⟩ | ⟨x, j, hx, -⟩)
      · cases hplain.symm.trans hj
      · cases hplain.symm.trans hx
  · have hquoted : ∀ i, ¬ QuotedDenotes t i := fun i =>
      Plain.not_isNumeral_of_readFloat? hinteger hpadded hfloat
    simp only [bareDenotes_float_iff hplain (of_readFloat? hfloat).2, hquoted, iff_false,
      IsUnusualWhole, hplain]
    constructor
    · rintro hnone (⟨j, hj, -⟩ | ⟨y, j, hy, hvalue, hrange⟩)
      · cases hj
      · cases hy
        exact hnone j ⟨hvalue, hrange⟩
    · rintro hnone i ⟨hvalue, hrange⟩
      exact hnone (.inr ⟨x, i, rfl, hvalue, hrange⟩)
  · refine ⟨fun _ => ?_, fun _ i => bareDenotes_text_iff hplain⟩
    rintro (⟨j, hj, -⟩ | ⟨x, j, hx, -⟩)
    · cases hplain.symm.trans hj
    · cases hplain.symm.trans hx

/-- A manifest with a compatible version is read alike with its priority bare and in quotes, unless
the priority is a whole number of 32 bits that has a radix mark, a point or an exponent. -/
theorem alike_iff (h : WrittenBothWays t bare quoted) (hnull : Plain.of t ≠ .null)
    (hbool : ∀ b, Plain.of t ≠ .bool b) (hm : Manifest.decode? quoted.data = some m)
    (hcompatible : IsCompatible m) (context : LoadingContext) :
    Alike bare quoted context ↔ ¬ IsUnusualWhole t := by
  rw [alike_iff_denotes h hm hcompatible hnull, denotes_alike_iff hnull hbool]

end Quoting

/-! ### Manifests of two lines -/

/-- The bytes of a manifest with a compatible version and a priority in a given form. -/
def manifestWith (form : String) : Source :=
  .ofBytes (Utf8.encode ("Log4jAPIVersion: 2.6.0\nFactoryPriority: " ++ form ++ "\n"))

/-- Its tokens. -/
def manifestTokens (style : Style) (t : List Char) : List Token :=
  [.blockMappingStart, .key, .scalar .plain Manifest.versionField.toList, .value,
    .scalar .plain "2.6.0".toList, .key, .scalar .plain Manifest.priorityField.toList, .value,
    .scalar style t, .blockEnd]

/-- Its entries in front of the priority. -/
def versionEntry : Node × Node :=
  (.scalar none .plain Manifest.versionField.toList, .scalar none .plain "2.6.0".toList)

theorem read?_of_tokens {bs : Bytes} {style : Style} {t : List Char}
    (h : (Yaml.decode? bs).bind tokens? = some (manifestTokens style t)) :
    Document.read? bs = some (some (Manifest.withEntries ⟨.mapping none [], [], 6⟩ none
      ([versionEntry] ++
        (.scalar none .plain Manifest.priorityField.toList, .scalar none style t) :: []))) := by
  rw [Document.read?, h]
  simp [manifestTokens, versionEntry, Manifest.withEntries, readContent?, Composer.node?,
    Composer.properties, Composer.name, Composer.keep, Composer.count, Composer.blockEntries?,
    Composer.nodeUnless?, Composer.blockValue?, Composer.nextIn, Composer.peek, isOver]

theorem writtenBothWays_of_tokens {bare quoted : Source} {t : List Char}
    (hbare : bare.data.all Manifest.isBlankByte = false ∧
      (Yaml.decode? bare.data).bind tokens? = some (manifestTokens .plain t))
    (hquoted : quoted.data.all Manifest.isBlankByte = false ∧
      (Yaml.decode? quoted.data).bind tokens? = some (manifestTokens .marked t)) :
    WrittenBothWays t bare quoted :=
  ⟨_, none, [versionEntry], .scalar none .plain Manifest.priorityField.toList, 0, [], rfl,
    ⟨hbare.1, read?_of_tokens hbare.2⟩, ⟨hquoted.1, read?_of_tokens hquoted.2⟩⟩

theorem compatible_of_version {m : Manifest} (h : m.version = some (.text "2.6.0")) :
    IsCompatible m :=
  ⟨_, h, "2.6.0", List.mem_singleton_self _, by decide⟩

/-- A priority in decimal digits is read alike in both forms. -/
theorem decimal_priority_is_alike :
    Alike (manifestWith "10") (manifestWith "\x2210\x22") ⟨"main", 0⟩ ∧
      Announces (manifestWith "10") ⟨"main", 0⟩ 10 := by
  let t := "10".toList
  have hwritten : WrittenBothWays t (manifestWith "10") (manifestWith "\x2210\x22") :=
    writtenBothWays_of_tokens (by decide +kernel) (by decide +kernel)
  have hplain : Plain.of t = .integer 10 := by decide +kernel
  have hnull : Plain.of t ≠ .null := by rw [hplain]; exact nofun
  have hbool : ∀ b, Plain.of t ≠ .bool b := by rw [hplain]; exact nofun
  have hm : Manifest.decode? (manifestWith "\x2210\x22").data =
      some ⟨some (.text "2.6.0"), some (.text "10"), none, none⟩ := by decide +kernel
  have hcompatible := compatible_of_version (m := ⟨_, some (.text "10"), none, none⟩) rfl
  have husual : ¬ IsUnusualWhole t := by
    rintro (⟨i, -, -, hmark⟩ | ⟨x, i, hx, -⟩)
    · exact absurd hmark (by decide)
    · cases hplain.symm.trans hx
  exact ⟨(alike_iff hwritten hnull hbool hm hcompatible _).mpr husual,
    ((hwritten.bare_iff hm hcompatible hnull _).1 10).mpr
      ((bareDenotes_integer_iff hplain).mpr ⟨rfl, by decide⟩)⟩

/-- A hexadecimal priority is accepted bare and refused in quotes. -/
theorem not_forall_alike :
    ¬ ∀ t bare quoted m context, WrittenBothWays t bare quoted → Plain.of t ≠ .null →
      (∀ b, Plain.of t ≠ .bool b) → Manifest.decode? quoted.data = some m → IsCompatible m →
      Alike bare quoted context := by
  intro h
  let t := "0x10".toList
  have hwritten : WrittenBothWays t (manifestWith "0x10") (manifestWith "\x220x10\x22") :=
    writtenBothWays_of_tokens (by decide +kernel) (by decide +kernel)
  have hplain : Plain.of t = .integer 16 := by decide +kernel
  have hnull : Plain.of t ≠ .null := by rw [hplain]; exact nofun
  have hbool : ∀ b, Plain.of t ≠ .bool b := by rw [hplain]; exact nofun
  have hm : Manifest.decode? (manifestWith "\x220x10\x22").data =
      some ⟨some (.text "2.6.0"), some (.text "0x10"), none, none⟩ := by decide +kernel
  have halike := h t _ _ _ ⟨"main", 0⟩ hwritten hnull hbool hm (compatible_of_version rfl)
  rw [alike_iff_denotes hwritten hm (compatible_of_version rfl) hnull,
    denotes_alike_iff hnull hbool] at halike
  exact halike (.inl ⟨16, hplain, by decide, by decide⟩)

end Provider

end LogSetup
