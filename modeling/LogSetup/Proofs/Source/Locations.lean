import LogSetup.Proofs.Url.Written
import LogSetup.Source.Location

/-!
# Locations and their written form

A location that is written and read again is the same location, where the written form of its URL is
read as that URL, unless the URL has the scheme of resources. Such a URL comes from a text in which
characters that URLs drop hide the scheme; its written form shows the scheme, and names a resource.

## Main definitions

- `Location.IsResourceScheme` : a scheme of resources
- `Url.IsReread` : the written form of a URL is read as that URL
- `Location.Reappears` : the written form of a location is read as that location

## Main statements

- `Location.reappears_iff` : which of the locations that are read reappear
-/

namespace LogSetup

open Text

/-- The written form is read as a URL that is written the same way. -/
def Url.IsReread (u : Url) : Prop := ∃ v, Url.read u.text = .ok v ∧ v.text = u.text

namespace Location

/-- The two schemes of resources. -/
def IsResourceScheme (scheme : List Char) : Prop :=
  scheme = resourceScheme.toList ∨ scheme = otherResourceScheme.toList

/-- The written form is read as an equal location. -/
def Reappears (loc : Location) : Prop :=
  ∃ again, parse loc.display = .ok again ∧ loc.same again = true

variable {raw text name : String} {cs scheme rest : List Char} {loc : Location} {u : Url}

/-! ### Reading -/

theorem afterResourceScheme?_of_cut? (hcut : cut? ':' cs = some (scheme, rest)) :
    (IsResourceScheme (lowerAscii scheme) → afterResourceScheme? cs = some rest) ∧
      (¬ IsResourceScheme (lowerAscii scheme) → afterResourceScheme? cs = none) := by
  unfold afterResourceScheme?
  rw [hcut]
  exact ⟨fun h => if_pos h, fun h => if_neg h⟩

theorem eq_append_of_afterResourceScheme? (h : afterResourceScheme? cs = some rest) :
    ∃ front, cs = front ++ ':' :: rest := by
  unfold afterResourceScheme? at h
  split at h
  · exact nomatch h
  next front back hcut =>
  extract_lets scheme at h
  split at h
  · cases h
    exact ⟨front, eq_append_of_cut? hcut⟩
  · exact nomatch h

theorem parse_trim (raw : String) : parse (trim raw) = parse raw := by
  simp only [parse, trim_trim]

theorem parse_of_resource (h : afterResourceScheme? (trim raw).toList = some rest) :
    parse raw = .ok (.resource (dropLeading '/' (String.ofList rest))) := by
  have hne : trim raw ≠ "" := fun hempty => by
    rw [hempty] at h
    exact nomatch h
  unfold parse
  rw [if_neg hne, h]

theorem parse_of_plain (hne : trim raw ≠ "") (h : afterResourceScheme? (trim raw).toList = none) :
    parse raw = ofPlain (trim raw) := by
  unfold parse
  rw [if_neg hne, h]

theorem cases_of_parse (h : parse raw = .ok loc) :
    (∃ rest, afterResourceScheme? (trim raw).toList = some rest ∧
      loc = .resource (dropLeading '/' (String.ofList rest))) ∨
    (afterResourceScheme? (trim raw).toList = none ∧ ofPlain (trim raw) = .ok loc) := by
  cases hrest : afterResourceScheme? (trim raw).toList with
  | some rest =>
    rw [parse_of_resource hrest] at h
    exact .inl ⟨rest, rfl, (Except.ok.inj h).symm⟩
  | none =>
    have hne : trim raw ≠ "" := fun hempty => by
      rw [parse, if_pos hempty] at h
      exact nomatch h
    rw [parse_of_plain hne hrest] at h
    exact .inr ⟨rfl, h⟩

theorem cases_of_ofPlain (h : ofPlain text = .ok loc) :
    loc = .path text ∨ ∃ u, loc = .url u ∧ Url.read text = .ok u ∧ 1 < u.scheme.length := by
  unfold ofPlain at h
  split at h
  · next u hu =>
    cases h
    by_cases hlength : 1 < u.scheme.length
    · exact .inr ⟨u, if_pos hlength, hu, hlength⟩
    · exact .inl (if_neg hlength)
  · cases h
    exact .inl rfl
  · exact nomatch h

theorem ofPlain_of_read (h : Url.read text = .ok u) (hlength : 1 < u.scheme.length) :
    ofPlain text = .ok (.url u) := by
  rw [ofPlain, h]
  exact congrArg Except.ok (if_pos hlength)

/-! ### Writing and reading again -/

theorem same_refl (loc : Location) : loc.same loc = true := by
  cases loc with
  | path text => exact beq_self_eq_true _
  | resource name => exact beq_self_eq_true _
  | url u => exact beq_self_eq_true _

/-- Paths are written as they are read. -/
theorem reappears_path (h : parse raw = .ok (.path (trim raw))) : Reappears (.path (trim raw)) :=
  ⟨_, (parse_trim raw).trans h, same_refl _⟩

theorem toList_dropLeading (c : Char) (cs : List Char) :
    (dropLeading c (String.ofList cs)).toList = cs.dropWhile (· == c) := by
  rw [dropLeading, String.toList_ofList, String.toList_ofList]

theorem toList_display_resource (name : String) :
    (display (.resource name)).toList = resourceScheme.toList ++ ':' :: name.toList := by
  rw [display, String.toList_append, String.toList_append, List.append_assoc]
  rfl

/-- The name of a resource ends as the text does. -/
theorem trim_display_resource (h : afterResourceScheme? (trim raw).toList = some rest) :
    trim (display (.resource (dropLeading '/' (String.ofList rest)))) =
      display (.resource (dropLeading '/' (String.ofList rest))) := by
  obtain ⟨front, heq⟩ := eq_append_of_afterResourceScheme? h
  rw [trim, String.toList_ofList] at heq
  have hdisplay := toList_display_resource (dropLeading '/' (String.ofList rest))
  rw [toList_dropLeading] at hdisplay
  rw [trim, hdisplay, trimChars_eq_self, ← hdisplay, String.ofList_toList]
  · intro c hc
    cases hc
    decide
  · intro c hc
    by_cases hname : rest.dropWhile (· == '/') = []
    · rw [hname] at hc
      cases hc
      decide
    · have hrest := List.takeWhile_append_dropWhile (p := (· == '/')) (l := rest)
      rw [List.append_cons, List.getLast?_append_of_ne_nil _ hname] at hc
      have hlast : (trimChars raw.toList).getLast? = some c := by
        rw [heq, ← hrest, ← List.cons_append, ← List.append_assoc,
          List.getLast?_append_of_ne_nil _ hname, hc]
      exact isBlank_getLast?_trimChars hlast

/-- The name of a resource begins with no slash. -/
theorem reappears_resource (h : afterResourceScheme? (trim raw).toList = some rest) :
    Reappears (.resource (dropLeading '/' (String.ofList rest))) := by
  have hscheme : afterResourceScheme? (trim (display (.resource (dropLeading '/'
      (String.ofList rest))))).toList = some (rest.dropWhile (· == '/')) := by
    rw [trim_display_resource h, toList_display_resource, toList_dropLeading]
    exact (afterResourceScheme?_of_cut? (cut?_append_cons (by decide) _)).1 (.inl (by decide))
  refine ⟨_, parse_of_resource hscheme, ?_⟩
  have hname : dropLeading '/' (String.ofList (rest.dropWhile (· == '/'))) =
      dropLeading '/' (String.ofList rest) := by
    rw [← String.toList_inj, toList_dropLeading, toList_dropLeading, List.dropWhile_idempotent]
  rw [hname]
  exact same_refl _

/-! ### URLs -/

theorem afterResourceScheme?_text (h : Url.read text = .ok u) :
    (IsResourceScheme u.scheme → ∃ rest, afterResourceScheme? (trim u.text).toList = some rest) ∧
      (¬ IsResourceScheme u.scheme → afterResourceScheme? (trim u.text).toList = none) := by
  obtain ⟨rest, hcut⟩ := Url.cut?_chars_of_read h
  have hafter := afterResourceScheme?_of_cut? hcut
  rw [(Url.isScheme_of_read h).small] at hafter
  rw [Url.trim_text_of_read h, Url.text, String.toList_ofList]
  exact ⟨fun hscheme => ⟨rest, hafter.1 hscheme⟩, hafter.2⟩

theorem trim_text_ne_empty (h : Url.read text = .ok u) : trim u.text ≠ "" := by
  rw [Url.trim_text_of_read h, Url.text]
  intro hempty
  have hchars := String.ofList_eq_empty_iff.mp hempty
  simp [Url.chars] at hchars

theorem scheme_eq_of_text_eq {v : Url} {other : String} (hu : Url.read text = .ok u)
    (hv : Url.read other = .ok v) (htext : v.text = u.text) : v.scheme = u.scheme := by
  obtain ⟨rest, hcutu⟩ := Url.cut?_chars_of_read hu
  obtain ⟨back, hcutv⟩ := Url.cut?_chars_of_read hv
  have hchars : v.chars = u.chars := String.ofList_injective htext
  rw [hchars, hcutu] at hcutv
  exact (congrArg Prod.fst (Option.some.inj hcutv)).symm

/-- A URL with the scheme of resources is written as a resource is. -/
theorem reappears_url_iff (h : Url.read text = .ok u) (hlength : 1 < u.scheme.length)
    (hreread : u.IsReread) : Reappears (.url u) ↔ ¬ IsResourceScheme u.scheme := by
  constructor
  · rintro ⟨again, hparse, hsame⟩ hscheme
    obtain ⟨rest, hrest⟩ := (afterResourceScheme?_text h).1 hscheme
    rw [display, parse_of_resource hrest] at hparse
    cases hparse
    exact nomatch hsame
  · intro hscheme
    obtain ⟨v, hv, htext⟩ := hreread
    have hplain := parse_of_plain (trim_text_ne_empty h) ((afterResourceScheme?_text h).2 hscheme)
    rw [Url.trim_text_of_read h] at hplain
    refine ⟨.url v, ?_, beq_iff_eq.mpr htext.symm⟩
    rw [display, hplain]
    exact ofPlain_of_read hv (by rwa [scheme_eq_of_text_eq h hv htext])

/-- Nothing hides the scheme of resources in a text without control characters. -/
theorem not_isResourceScheme_of_control (hcontrol : ∀ c ∈ raw.toList, 0x20 ≤ c.toNat)
    (hrest : afterResourceScheme? (trim raw).toList = none) (h : Url.read (trim raw) = .ok u) :
    ¬ IsResourceScheme u.scheme := by
  intro hscheme
  obtain ⟨rest, hcut⟩ := Url.cutScheme?_of_read h
  rw [trim, String.toList_ofList] at hcut hrest
  rw [Url.clean_eq_self (trimChars_trimChars _) fun c hc => hcontrol c (mem_of_mem_trimChars hc)]
    at hcut
  obtain ⟨c, front, heq, hlower, -, hchars⟩ := Url.eq_of_cutScheme? hcut
  have hcolon : ':' ∉ c :: front := fun hmem => absurd (hchars ':' hmem) (by decide)
  rw [heq, (afterResourceScheme?_of_cut? (cut?_append_cons hcolon rest)).1 (hlower ▸ hscheme)]
    at hrest
  exact Option.some_ne_none rest hrest

/-- A location that is read reappears unless it is a URL with the scheme of resources, and every one
read from a text without control characters does. -/
theorem reappears_iff (h : parse raw = .ok loc) (hreread : ∀ u, loc = .url u → u.IsReread) :
    (Reappears loc ↔ ∀ u, loc = .url u → ¬ IsResourceScheme u.scheme) ∧
      ((∀ c ∈ raw.toList, 0x20 ≤ c.toNat) → Reappears loc) := by
  obtain ⟨rest, hrest, rfl⟩ | ⟨hrest, hplain⟩ := cases_of_parse h
  · have hre := reappears_resource hrest
    exact ⟨iff_of_true hre (fun _ hu => nomatch hu), fun _ => hre⟩
  · obtain rfl | ⟨u, rfl, hu, hlength⟩ := cases_of_ofPlain hplain
    · have hre := reappears_path h
      exact ⟨iff_of_true hre (fun _ hu => nomatch hu), fun _ => hre⟩
    · have hiff := reappears_url_iff hu hlength (hreread u rfl)
      refine ⟨hiff.trans ⟨?_, fun hall => hall u rfl⟩, fun hcontrol =>
        hiff.mpr (not_isResourceScheme_of_control hcontrol hrest hu)⟩
      rintro hscheme _ ⟨⟩
      exact hscheme

/-- The URL written `https://h/`. -/
def webPage : Url :=
  ⟨"https".toList, some ⟨[], none, .domain "h".toList, none⟩, "/".toList, none, none⟩

theorem web_page_reappears :
    parse " HTTPS://H" = .ok (.url webPage) ∧ webPage.IsReread ∧ Reappears (.url webPage) := by
  have hparse : parse " HTTPS://H" = .ok (.url webPage) := by decide +kernel
  have hreread : webPage.IsReread := ⟨webPage, by decide +kernel, rfl⟩
  refine ⟨hparse, hreread, (reappears_iff hparse ?_).1.mpr ?_⟩
  · rintro _ ⟨⟩
    exact hreread
  · rintro _ ⟨⟩ (h | h) <;> exact absurd h (by decide)

/-- The URL written `classpath:log4j2.xml`. -/
def hiddenResource : Url := ⟨"classpath".toList, none, "log4j2.xml".toList, none, none⟩

/-- A tab hides the scheme of resources from the test for it, but not from the URL. -/
theorem not_forall_reappears :
    ¬ ∀ raw loc, parse raw = .ok loc → (∀ u, loc = .url u → u.IsReread) → Reappears loc := by
  intro hall
  have hparse : parse "class\tpath:log4j2.xml" = .ok (.url hiddenResource) := by decide +kernel
  have hreread : hiddenResource.IsReread := ⟨hiddenResource, by decide +kernel, rfl⟩
  have hresource : parse (display (.url hiddenResource)) = .ok (.resource "log4j2.xml") := by
    decide +kernel
  obtain ⟨again, hagain, hsame⟩ := hall _ _ hparse (by rintro _ ⟨⟩; exact hreread)
  rw [hresource] at hagain
  cases hagain
  exact nomatch hsame

end Location

end LogSetup
