import LogSetup.Proofs.Text.Visible
import LogSetup.Url.Reading

/-!
# How URLs are written

The written form of a URL begins with its scheme and ends in a character that shows. Every part that
may come last is escaped or has a last character of its own that shows; only the path of a URL
without slashes may hold spaces, and these never come last, because the ends of the text that is
read are dropped.

## Main definitions

- `Url.AreVisible` : segments of a path in characters that show
- `Url.IsWritten` : a URL with a given scheme and no blank at the end of its written form
- `Url.IsScheme` : the form of a scheme

## Main statements

- `Url.isScheme_of_read` : every URL that is read has such a scheme
- `Url.cut?_chars_of_read` : the scheme is what stands before the first colon of the written URL
- `Url.trim_text_of_read` : no blanks at the ends of a written URL
-/

namespace LogSetup

open Text

/-! ### Escapes -/

namespace Percent

variable {set : Char → Bool} {c : Char} {cs : List Char}

theorem isVisible_of_controlSet (h : controlSet c = false) (hspace : c ≠ ' ') : IsVisible c := by
  obtain ⟨hlow, hhigh⟩ : 0x20 ≤ c.toNat ∧ c.toNat < 0x7F := by simpa [controlSet] using h
  have hne : c.toNat ≠ 0x20 := fun hc => hspace (by rw [← Char.ofNat_toNat c, hc])
  exact ⟨by omega, hhigh⟩

theorem isVisible_of_fragmentSet (h : fragmentSet c = false) : IsVisible c := by
  simp only [fragmentSet, Bool.or_eq_false_iff, beq_eq_false_iff_ne] at h
  obtain ⟨⟨⟨⟨⟨hcontrol, hspace⟩, -⟩, -⟩, -⟩, -⟩ := h
  exact isVisible_of_controlSet hcontrol hspace

theorem isVisible_of_querySet (h : querySet c = false) : IsVisible c := by
  simp only [querySet, Bool.or_eq_false_iff, beq_eq_false_iff_ne] at h
  obtain ⟨⟨⟨⟨⟨hcontrol, hspace⟩, -⟩, -⟩, -⟩, -⟩ := h
  exact isVisible_of_controlSet hcontrol hspace

theorem isVisible_of_specialQuerySet (h : specialQuerySet c = false) : IsVisible c :=
  isVisible_of_querySet (Bool.or_eq_false_iff.mp h).1

theorem isVisible_of_pathSet (h : pathSet c = false) : IsVisible c := by
  simp only [pathSet, Bool.or_eq_false_iff] at h
  exact isVisible_of_fragmentSet h.1.1.1.1

theorem allVisible_escape (b : UInt8) : AllVisible (escape b) := by
  have hb := b.toNat_lt
  refine .cons (by decide) (.cons (isVisible_hexDigit _ ?_) (.cons (isVisible_hexDigit _ ?_)
    allVisible_nil))
  · omega
  · exact Nat.mod_lt _ (by decide)

theorem allVisible_encodeChar (h : set c = false → IsVisible c) :
    AllVisible (encodeChar set c) := by
  rw [encodeChar]
  by_cases hc : set c = true
  · rw [if_pos hc]
    intro d hd
    obtain ⟨b, -, hb⟩ := List.mem_flatMap.mp hd
    exact allVisible_escape b d hb
  · rw [if_neg hc]
    exact .cons (h (Bool.eq_false_iff.mpr hc)) allVisible_nil

theorem allVisible_encode (h : ∀ c ∈ cs, set c = false → IsVisible c) :
    AllVisible (encode set cs) := by
  intro d hd
  obtain ⟨c, hc, hd⟩ := List.mem_flatMap.mp hd
  exact allVisible_encodeChar (h c hc) d hd

theorem encodeChar_ne_nil : encodeChar set c ≠ [] := by
  rw [encodeChar]
  split
  · intro h
    cases hbytes : String.utf8EncodeChar c with
    | nil => exact String.utf8EncodeChar_ne_nil hbytes
    | cons b rest =>
      rw [hbytes] at h
      exact nomatch h
  · exact List.cons_ne_nil _ _

/-- Spaces stay as they are, so the last character must not be one. -/
theorem endsVisibly_encode_controlSet (h : cs.getLast? ≠ some ' ') :
    EndsVisibly (encode controlSet cs) := by
  cases cs using List.reverseRecOn with
  | nil => exact allVisible_nil.endsVisibly
  | append_singleton front c =>
    have hc : c ≠ ' ' := fun hc => h (by rw [hc, List.getLast?_concat])
    rw [encode, List.flatMap_append, List.flatMap_singleton]
    exact .append (allVisible_encodeChar fun hset => isVisible_of_controlSet hset hc).endsVisibly
      fun hnil => absurd hnil encodeChar_ne_nil

end Percent

/-! ### Hosts and authorities -/

/-- A result that was mapped comes from a result. -/
theorem exists_of_map_eq_ok {α β : Type} {x : Except UrlError α} {f : α → β} {b : β}
    (h : x.map f = .ok b) : ∃ a, b = f a := by
  cases x with
  | error e => exact nomatch h
  | ok a =>
    cases h
    exact ⟨a, rfl⟩

namespace Host

variable {cs name : List Char} {host : Host}

theorem allVisible_of_readDomain (h : readDomain cs = .ok name) : AllVisible name := by
  have hlower : ∀ n < 0x80, IsVisible (Char.ofNat n) → IsVisible (Char.ofNat n).toLower := by
    decide +kernel
  rw [readDomain] at h
  split at h
  · exact nomatch h
  · next decoded _ =>
    by_cases hforbidden : decoded.toList.any isForbiddenInDomain = true
    · rw [if_pos hforbidden] at h
      exact nomatch h
    · rw [if_neg hforbidden] at h
      split at h
      · exact nomatch h
      · cases h
        intro d hd
        obtain ⟨c, hc, rfl⟩ := List.mem_map.mp hd
        have hallowed : isForbiddenInDomain c = false := by
          by_contra hcon
          exact hforbidden (List.any_eq_true.mpr ⟨c, hc, by simpa using hcon⟩)
        simp only [isForbiddenInDomain, Bool.or_eq_false_iff, decide_eq_false_iff_not] at hallowed
        obtain ⟨⟨hlow, hhigh⟩, -⟩ := hallowed
        exact forall_ascii (P := fun c => IsVisible c → IsVisible c.toLower) hlower (by omega)
          ⟨by omega, by omega⟩

theorem endsVisibly_text_ipv6 (pieces : List Nat) : EndsVisibly (text (.ipv6 pieces)) := by
  show EndsVisibly (['['] ++ ipv6Text pieces ++ [']'])
  exact EndsVisibly.append_cons (AllVisible.endsVisibly (by decide)) _

theorem allVisible_text_ipv4 (n : Nat) : AllVisible (text (.ipv4 n)) := by
  refine allVisible_joinWith (by decide) fun piece hpiece => ?_
  obtain ⟨byte, -, rfl⟩ := List.mem_map.mp hpiece
  exact allVisible_decimalDigits byte

theorem endsVisibly_text_of_read (h : read cs = .ok host) : EndsVisibly host.text := by
  rw [read] at h
  split at h
  · next inner _ =>
    obtain ⟨pieces, rfl⟩ := exists_of_map_eq_ok h
    exact endsVisibly_text_ipv6 pieces
  · exact nomatch h
  · split at h
    · exact nomatch h
    · next name hname =>
      by_cases hnumber : endsInNumber name = true
      · rw [if_pos hnumber] at h
        obtain ⟨n, rfl⟩ := exists_of_map_eq_ok h
        exact (allVisible_text_ipv4 n).endsVisibly
      · rw [if_neg hnumber] at h
        cases h
        exact (allVisible_of_readDomain hname).endsVisibly

theorem endsVisibly_text_of_readPlain (h : readPlain cs = .ok host) : EndsVisibly host.text := by
  rw [readPlain] at h
  split at h
  · next inner _ =>
    obtain ⟨pieces, rfl⟩ := exists_of_map_eq_ok h
    exact endsVisibly_text_ipv6 pieces
  · exact nomatch h
  · by_cases hforbidden : cs.any isForbiddenInPlain = true
    · rw [if_pos hforbidden] at h
      exact nomatch h
    · rw [if_neg hforbidden] at h
      cases h
      have hspace : ' ' ∉ cs := fun hmem =>
        hforbidden (List.any_eq_true.mpr ⟨' ', hmem, by decide⟩)
      exact AllVisible.endsVisibly <| Percent.allVisible_encode fun c hc hset =>
        Percent.isVisible_of_controlSet hset fun heq => hspace (heq ▸ hc)

end Host

namespace Authority

theorem endsVisibly_credentials (a : Authority) : EndsVisibly a.credentials := by
  have hat : EndsVisibly ['@'] := AllVisible.endsVisibly (by decide)
  rw [credentials]
  split
  · next password _ =>
    rw [← List.cons_append, ← List.append_assoc]
    exact hat.append_cons _
  · split
    · exact allVisible_nil.endsVisibly
    · exact hat.append_cons _

theorem endsVisibly_text {a : Authority} (h : EndsVisibly a.host.text) : EndsVisibly a.text := by
  refine .append ?_ fun _ => h.append fun _ => a.endsVisibly_credentials
  split
  · next n _ =>
    exact (AllVisible.cons (by decide) (allVisible_decimalDigits n)).endsVisibly
  · exact allVisible_nil.endsVisibly

end Authority

namespace Url

variable {kind : SchemeKind} {s drive rest scheme cs path : List Char}
  {done segments : List (List Char)} {authority : Option Authority} {parts : Parts} {u : Url}

/-- The host is read by one of the two ways to read one. -/
theorem endsVisibly_of_readAuthority {a : Authority} {left : List Char} {atEnd : Bool}
    (h : readAuthority kind scheme cs atEnd = .ok (a, left)) : EndsVisibly a.text := by
  unfold readAuthority at h
  extract_lets credentials? rest at h
  split at h
  next user password _ =>
  split at h
  next hostText afterColon _ =>
  extract_lets portText back at h
  split at h
  · exact nomatch h
  split at h
  · exact nomatch h
  split at h
  · exact nomatch h
  next host hhost =>
  split at h
  · exact nomatch h
  split at h
  · exact nomatch h
  extract_lets b at h
  split at h
  · exact nomatch h
  have ha : b = a := congrArg Prod.fst (Except.ok.inj h)
  rw [← ha]
  apply Authority.endsVisibly_text
  show EndsVisibly host.text
  by_cases hkind : kind = .special
  · rw [if_pos hkind] at hhost
    exact Host.endsVisibly_text_of_read hhost
  · rw [if_neg hkind] at hhost
    exact Host.endsVisibly_text_of_readPlain hhost

/-! ### Paths -/

theorem allVisible_settleDrive (h : AllVisible s) : AllVisible (settleDrive kind s) := by
  unfold settleDrive
  split
  · next c mark =>
    split
    · exact .cons (h c List.mem_cons_self) (by decide)
    · exact h
  · exact h

theorem mem_of_mem_dropLast (h : s ∈ dropLast done) : s ∈ done := by
  rw [dropLast] at h
  split at h
  · split at h
    · exact h
    · exact done.dropLast_subset h
  · exact nomatch h

theorem eq_append_of_cutDrive? (h : cutDrive? kind done s = some (drive, rest)) :
    s = drive ++ rest := by
  unfold cutDrive? at h
  split at h
  · split at h
    · cases h
      rfl
    · exact nomatch h
  · exact nomatch h

/-- Segments of characters that show. -/
def AreVisible (segments : List (List Char)) : Prop := ∀ s ∈ segments, AllVisible s

theorem AreVisible.append {more : List (List Char)} (h : AreVisible segments)
    (hmore : AreVisible more) : AreVisible (segments ++ more) :=
  List.forall_mem_append.mpr ⟨h, hmore⟩

theorem AreVisible.append_singleton (h : AreVisible segments) (hs : AllVisible s) :
    AreVisible (segments ++ [s]) :=
  h.append (List.forall_mem_singleton.mpr hs)

theorem AreVisible.dropLast (h : AreVisible done) : AreVisible (Url.dropLast done) :=
  fun s hs => h s (mem_of_mem_dropLast hs)

theorem AreVisible.append_drive (h : AreVisible done)
    (hcut : cutDrive? kind done s = some (drive, rest)) (hs : AllVisible s) :
    AreVisible (done ++ [drive, rest]) := by
  rw [eq_append_of_cutDrive? hcut] at hs
  obtain ⟨hdrive, hrest⟩ := List.forall_mem_append.mp hs
  exact h.append (List.forall_mem_cons.mpr ⟨hdrive, List.forall_mem_singleton.mpr hrest⟩)

/-- Resolving adds no character but colons after drives. -/
theorem areVisible_resolveSegments (hdone : AreVisible done) (h : AreVisible segments) :
    AreVisible (resolveSegments kind done segments) := by
  -- the induction is on the recursion of the function; what is done stays visible
  induction done, segments using resolveSegments.induct kind with
  | case1 done => exact hdone
  | case2 done last drive rest hcut =>
    rw [resolveSegments, hcut]
    exact hdone.append_drive hcut (h last List.mem_cons_self)
  | case3 done last hcut hdouble =>
    rw [resolveSegments, hcut]
    simp only [if_pos hdouble]
    exact hdone.dropLast.append_singleton allVisible_nil
  | case4 done last hcut hdouble hdot =>
    rw [resolveSegments, hcut]
    simp only [if_neg hdouble, if_pos hdot]
    exact hdone.append_singleton allVisible_nil
  | case5 done last hcut hdouble hdot =>
    rw [resolveSegments, hcut]
    simp only [if_neg hdouble, if_neg hdot]
    exact hdone.append_singleton (allVisible_settleDrive (h last List.mem_cons_self))
  | case6 done s rest hrest drive more hcut ih =>
    obtain ⟨hs, hsegments⟩ := List.forall_mem_cons.mp h
    rw [resolveSegments.eq_3 _ _ _ _ hrest, hcut]
    exact ih (hdone.append_drive hcut hs) hsegments
  | case7 done s rest hrest hcut hdouble ih =>
    rw [resolveSegments.eq_3 _ _ _ _ hrest, hcut]
    simp only [if_pos hdouble]
    exact ih hdone.dropLast (List.forall_mem_cons.mp h).2
  | case8 done s rest hrest hcut hdouble hdot ih =>
    rw [resolveSegments.eq_3 _ _ _ _ hrest, hcut]
    simp only [if_neg hdouble, if_pos hdot]
    exact ih hdone (List.forall_mem_cons.mp h).2
  | case9 done s rest hrest hcut hdouble hdot ih =>
    obtain ⟨hs, hsegments⟩ := List.forall_mem_cons.mp h
    rw [resolveSegments.eq_3 _ _ _ _ hrest, hcut]
    simp only [if_neg hdouble, if_neg hdot]
    exact ih (hdone.append_singleton (allVisible_settleDrive hs)) hsegments

theorem areVisible_segmentsOf : AreVisible (segmentsOf kind cs) := by
  intro s hs
  obtain ⟨piece, -, rfl⟩ := List.mem_map.mp hs
  exact Percent.allVisible_encode fun _ _ => Percent.isVisible_of_pathSet

theorem AreVisible.pathOfSegments (h : AreVisible segments) :
    AllVisible (Url.pathOfSegments segments) := by
  intro c hc
  obtain ⟨s, hs, hc⟩ := List.mem_flatMap.mp hc
  exact AllVisible.cons (by decide) (h s hs) c hc

/-- The path of the segments of a text. -/
theorem allVisible_resolved :
    AllVisible (pathOfSegments (resolveSegments kind [] (segmentsOf kind cs))) :=
  (areVisible_resolveSegments (List.forall_mem_nil _) areVisible_segmentsOf).pathOfSegments

theorem allVisible_readPath : AllVisible (readPath kind cs) := by
  unfold readPath
  split
  · exact allVisible_nil
  · exact allVisible_resolved

theorem allVisible_singleSlash (h : AllVisible path) : AllVisible (singleSlash path) :=
  .cons (by decide) fun c hc => h c ((List.dropWhile_sublist _).subset hc)

/-! ### The parts put together -/

theorem endsVisibly_lead (h : ∀ a, u.authority = some a → EndsVisibly a.text) :
    EndsVisibly u.lead := by
  rw [lead]
  split
  · next a ha =>
    show EndsVisibly (['/', '/'] ++ a.text)
    exact (h a ha).append fun _ => AllVisible.endsVisibly (by decide)
  · split
    · exact AllVisible.endsVisibly (by decide)
    · exact allVisible_nil.endsVisibly

/-- What stands last is the last part that is there. -/
theorem endsVisibly_chars (hlead : EndsVisibly u.lead)
    (hpath : u.query = none → u.fragment = none → EndsVisibly u.path)
    (hquery : ∀ q, u.query = some q → EndsVisibly q)
    (hfragment : ∀ f, u.fragment = some f → EndsVisibly f) : EndsVisibly u.chars := by
  refine .append_cons (.cons (by decide) ?_) _
  cases hf : u.fragment with
  | some f => exact .append_cons (.cons (by decide) (hfragment f hf)) _
  | none =>
    refine .append allVisible_nil.endsVisibly fun _ => ?_
    cases hq : u.query with
    | some q => exact .append_cons (.cons (by decide) (hquery q hq)) _
    | none => exact .append allVisible_nil.endsVisibly fun _ => .append (hpath hq hf) fun _ => hlead

theorem endsVisibly_assemble (hauthority : ∀ a, authority = some a → EndsVisibly a.text)
    (hpath : parts.query = none → parts.fragment = none → EndsVisibly path) :
    EndsVisibly (assemble scheme authority path parts).chars := by
  have hset : ∀ c, (if SchemeKind.of scheme = .plain then Percent.querySet
      else Percent.specialQuerySet) c = false → IsVisible c := by
    intro c
    split
    · exact Percent.isVisible_of_querySet
    · exact Percent.isVisible_of_specialQuerySet
  refine endsVisibly_chars (endsVisibly_lead hauthority) ?_ ?_ ?_
  · intro hquery hfragment
    exact hpath (Option.map_eq_none_iff.mp hquery) (Option.map_eq_none_iff.mp hfragment)
  · intro q hq
    obtain ⟨query, -, rfl⟩ := Option.map_eq_some_iff.mp hq
    exact (Percent.allVisible_encode fun c _ => hset c).endsVisibly
  · intro f hf
    obtain ⟨fragment, -, rfl⟩ := Option.map_eq_some_iff.mp hf
    exact (Percent.allVisible_encode fun _ _ => Percent.isVisible_of_fragmentSet).endsVisibly

/-- A URL whose scheme is the given one and which is written without a blank at its end. -/
def IsWritten (scheme : List Char) (u : Url) : Prop := u.scheme = scheme ∧ EndsVisibly u.chars

theorem isWritten_of_readHierarchical (h : readHierarchical kind scheme parts = .ok u) :
    IsWritten scheme u := by
  unfold readHierarchical at h
  split at h
  next authorityText pathText _ =>
  extract_lets atEnd at h
  split at h
  · exact nomatch h
  next a left ha =>
  cases h
  refine ⟨rfl, endsVisibly_assemble ?_ fun _ _ => allVisible_readPath.endsVisibly⟩
  rintro _ ⟨⟩
  exact endsVisibly_of_readAuthority ha

theorem isWritten_fileUrl {host : Host} (h : EndsVisibly host.text) :
    IsWritten fileScheme (fileUrl host path parts) := by
  unfold fileUrl
  extract_lets segments shown
  refine ⟨rfl, endsVisibly_assemble ?_ fun _ _ =>
    (allVisible_singleSlash allVisible_resolved).endsVisibly⟩
  rintro _ ⟨⟩
  apply Authority.endsVisibly_text
  show EndsVisibly shown.text
  by_cases hdrive : holdsDrive segments = true
  · rw [show shown = .domain [] from if_pos hdrive]
    exact allVisible_nil.endsVisibly
  · rwa [show shown = host from if_neg hdrive]

theorem isWritten_of_ofFile (h : ofFile parts = .ok u) : IsWritten fileScheme u := by
  have hnone : EndsVisibly (Host.text (.domain [])) := allVisible_nil.endsVisibly
  unfold ofFile at h
  extract_lets noHost at h
  split at h
  · split at h
    · split at h
      next hostText pathText _ =>
      split at h
      · cases h
        exact isWritten_fileUrl hnone
      · split at h
        · cases h
          exact isWritten_fileUrl hnone
        · split at h
          · exact nomatch h
          next host hhost =>
          split at h
          · cases h
            exact isWritten_fileUrl hnone
          · cases h
            exact isWritten_fileUrl (Host.endsVisibly_text_of_read hhost)
    · cases h
      exact isWritten_fileUrl hnone
  · cases h
    exact isWritten_fileUrl hnone

theorem path_of_parts (hquery : (Parts.of cs).query = none)
    (hfragment : (Parts.of cs).fragment = none) : (Parts.of cs).path = cs := by
  unfold Parts.of at *
  cases hhash : Text.cut? '#' cs with
  | some sides =>
    rw [hhash] at hfragment
    dsimp only at hfragment
    split at hfragment <;> exact nomatch hfragment
  | none =>
    rw [hhash] at hquery
    dsimp only at hquery ⊢
    split at hquery
    · exact nomatch hquery
    · rfl

/-- A path without slashes ends as the text does, which is not in a space. -/
theorem isWritten_of_readPlain (hcs : cs.getLast? ≠ some ' ') (h : readPlain scheme cs = .ok u) :
    IsWritten scheme u := by
  unfold readPlain at h
  split at h
  · exact isWritten_of_readHierarchical h
  · cases h
    exact ⟨rfl, endsVisibly_assemble nofun fun _ _ => allVisible_resolved.endsVisibly⟩
  · cases h
    refine ⟨rfl, endsVisibly_assemble nofun fun hquery hfragment => ?_⟩
    rw [path_of_parts hquery hfragment]
    exact Percent.endsVisibly_encode_controlSet hcs

/-! ### Schemes -/

theorem lt_of_isSchemeChar {c : Char} (h : isSchemeChar c = true) : c.toNat < 0x80 := by
  simp only [isSchemeChar, Bool.or_eq_true, beq_iff_eq] at h
  obtain ((halphanum | rfl) | rfl) | rfl := h
  · exact lt_of_isAlphanum halphanum
  all_goals decide

/-- A letter and further characters of schemes, in small letters. -/
structure IsScheme (scheme : List Char) : Prop where
  letter : ∃ c rest, scheme = c :: rest ∧ c.isAlpha = true
  chars : ∀ c ∈ scheme, isSchemeChar c = true
  small : lowerAscii scheme = scheme

theorem isVisible_of_isSchemeChar {c : Char} (h : isSchemeChar c = true) : IsVisible c :=
  forall_ascii (P := fun c => isSchemeChar c = true → IsVisible c) (by decide +kernel)
    (lt_of_isSchemeChar h) h

/-- Small letters are characters of schemes again, and letters stay letters. -/
theorem toLower_of_isSchemeChar {c : Char} (h : isSchemeChar c = true) :
    isSchemeChar c.toLower = true ∧ c.toLower.toLower = c.toLower ∧
      (c.isAlpha = true → c.toLower.isAlpha = true) := by
  have hall : ∀ n < 0x80, isSchemeChar (Char.ofNat n) = true →
      isSchemeChar (Char.ofNat n).toLower = true ∧
        (Char.ofNat n).toLower.toLower = (Char.ofNat n).toLower ∧
          ((Char.ofNat n).isAlpha = true → (Char.ofNat n).toLower.isAlpha = true) := by
    decide +kernel
  exact forall_ascii (P := fun c => isSchemeChar c = true → isSchemeChar c.toLower = true ∧
    c.toLower.toLower = c.toLower ∧ (c.isAlpha = true → c.toLower.isAlpha = true)) hall
    (lt_of_isSchemeChar h) h

theorem eq_of_cutScheme? (h : cutScheme? cs = some (scheme, rest)) :
    ∃ c front, cs = c :: front ++ ':' :: rest ∧ scheme = lowerAscii (c :: front) ∧
      c.isAlpha = true ∧ ∀ d ∈ c :: front, isSchemeChar d = true := by
  unfold cutScheme? at h
  split at h
  · next c front back hcut =>
    by_cases hfront : c.isAlpha = true ∧ front.all isSchemeChar = true
    · rw [if_pos hfront] at h
      cases h
      have hc : isSchemeChar c = true := by
        simp [isSchemeChar, Char.isAlphanum, hfront.1]
      exact ⟨c, front, eq_append_of_cut? hcut, rfl, hfront.1,
        List.forall_mem_cons.mpr ⟨hc, List.all_eq_true.mp hfront.2⟩⟩
    · rw [if_neg hfront] at h
      exact nomatch h
  · exact nomatch h

theorem isScheme_of_cutScheme? (h : cutScheme? cs = some (scheme, rest)) : IsScheme scheme := by
  obtain ⟨c, front, -, rfl, hletter, hchars⟩ := eq_of_cutScheme? h
  refine ⟨⟨c.toLower, lowerAscii front, rfl, ?_⟩, fun d hd => ?_, ?_⟩
  · exact (toLower_of_isSchemeChar (hchars c List.mem_cons_self)).2.2 hletter
  · obtain ⟨e, he, rfl⟩ := List.mem_map.mp hd
    exact (toLower_of_isSchemeChar (hchars e he)).1
  · show ((c :: front).map Char.toLower).map Char.toLower = (c :: front).map Char.toLower
    rw [List.map_map]
    exact List.map_congr_left fun d hd => (toLower_of_isSchemeChar (hchars d hd)).2.1

/-- Dropping tabs and line breaks keeps a last character that is neither a control character nor a
space. -/
theorem lt_of_getLast?_clean {c : Char} (h : (clean cs).getLast? = some c) : 0x20 < c.toNat := by
  unfold clean at h
  extract_lets ended at h
  cases hback : ended (ended cs).reverse with
  | nil =>
    rw [hback] at h
    exact nomatch h
  | cons d front =>
    have hd : 0x20 < d.toNat := by
      have hhead := List.head?_dropWhile_not (fun c => decide (c.toNat ≤ 0x20)) (ended cs).reverse
      rw [show List.dropWhile _ (ended cs).reverse = d :: front from hback] at hhead
      simpa using hhead
    have hkept : (d != '\t' && d != '\n' && d != '\r') = true := by
      simp only [Bool.and_eq_true, bne_iff_ne]
      refine ⟨⟨?_, ?_⟩, ?_⟩ <;> rintro rfl <;> exact absurd hd (by decide)
    rw [hback, List.reverse_cons, List.filter_append,
      show List.filter _ [d] = [d] from List.filter_cons_of_pos hkept, List.getLast?_concat] at h
    cases h
    exact hd

/-- A trimmed text without control characters loses nothing. -/
theorem clean_eq_self (htrim : trimChars cs = cs) (hcontrol : ∀ c ∈ cs, 0x20 ≤ c.toNat) :
    clean cs = cs := by
  have hlow : ∀ c ∈ cs, isBlank c = false → ¬ c.toNat ≤ 0x20 := by
    intro c hc hblank hle
    have hspace : c.toNat = 0x20 := Nat.le_antisymm hle (hcontrol c hc)
    rw [isBlank, hspace] at hblank
    exact absurd hblank (by decide)
  have hended : ∀ ds ⊆ cs, (∀ c, ds.head? = some c → isBlank c = false) →
      ds.dropWhile (fun c => decide (c.toNat ≤ 0x20)) = ds := by
    intro ds hds hhead
    cases ds with
    | nil => rfl
    | cons c rest =>
      exact List.dropWhile_cons_of_neg
        (by simpa using hlow c (hds List.mem_cons_self) (hhead c rfl))
  have htrimFront : trimFront cs = cs := by rw [← htrim, trimFront_trimChars]
  have hfront := hended cs (List.Subset.refl cs) fun c hc =>
    isBlank_head?_trimFront (by rw [htrimFront, hc])
  have hback := hended cs.reverse (fun c hc => List.mem_reverse.mp hc) fun c hc =>
    isBlank_getLast?_trimChars (by rw [htrim, ← List.head?_reverse, hc])
  unfold clean
  extract_lets ended
  rw [show ended cs = cs from hfront, show ended cs.reverse = cs.reverse from hback,
    List.reverse_reverse, List.filter_eq_self]
  intro c hc
  simp only [Bool.and_eq_true, bne_iff_ne]
  refine ⟨⟨?_, ?_⟩, ?_⟩ <;> rintro rfl <;> exact absurd (hcontrol _ hc) (by decide)

/-- What is cut off the scheme does not end in a space. -/
theorem getLast?_of_cutScheme? (h : cutScheme? (clean cs) = some (scheme, rest)) :
    rest.getLast? ≠ some ' ' := by
  intro hspace
  obtain ⟨c, front, heq, -⟩ := eq_of_cutScheme? h
  have hlast : (clean cs).getLast? = some ' ' := by
    rw [heq, List.getLast?_append, List.getLast?_cons, hspace]
    rfl
  exact absurd (lt_of_getLast?_clean hlast) (by decide)

theorem isWritten_of_readChars (h : readChars cs = .ok u) :
    ∃ scheme rest, cutScheme? (clean cs) = some (scheme, rest) ∧ IsWritten scheme u := by
  unfold readChars at h
  split at h
  · exact nomatch h
  next scheme rest hcut =>
  refine ⟨scheme, rest, hcut, ?_⟩
  split at h
  · next hfile =>
    have hscheme : scheme = fileScheme := by
      by_contra hcon
      rw [SchemeKind.of, if_neg hcon] at hfile
      split at hfile <;> exact nomatch hfile
    rw [hscheme]
    exact isWritten_of_ofFile h
  · exact isWritten_of_readHierarchical h
  · exact isWritten_of_readPlain (getLast?_of_cutScheme? hcut) h

/-- The scheme is the one that was cut off. -/
theorem cutScheme?_of_read {raw : String} (h : read raw = .ok u) :
    ∃ rest, cutScheme? (clean raw.toList) = some (u.scheme, rest) := by
  obtain ⟨scheme, rest, hcut, hscheme, -⟩ := isWritten_of_readChars h
  exact ⟨rest, by rw [hscheme, hcut]⟩

theorem isScheme_of_read {raw : String} (h : read raw = .ok u) : IsScheme u.scheme := by
  obtain ⟨rest, hcut⟩ := cutScheme?_of_read h
  exact isScheme_of_cutScheme? hcut

theorem IsScheme.colon_not_mem (h : IsScheme scheme) : ':' ∉ scheme :=
  fun hmem => absurd (h.chars ':' hmem) (by decide)

/-- The scheme is what stands before the first colon of the written URL. -/
theorem cut?_chars_of_read {raw : String} (h : read raw = .ok u) :
    ∃ rest, cut? ':' u.chars = some (u.scheme, rest) :=
  ⟨_, cut?_append_cons (isScheme_of_read h).colon_not_mem _⟩

/-- A written URL has no blanks at its ends. -/
theorem trim_text_of_read {raw : String} (h : read raw = .ok u) : trim u.text = u.text := by
  obtain ⟨-, -, -, -, hends⟩ := isWritten_of_readChars h
  have hscheme := isScheme_of_read h
  obtain ⟨c, rest, hc, -⟩ := hscheme.letter
  rw [trim, text, String.toList_ofList]
  congr 1
  refine trimChars_eq_self (fun d hd => ?_) fun d hd => (hends d hd).not_isBlank
  rw [chars, hc] at hd
  cases hd
  exact (isVisible_of_isSchemeChar (hscheme.chars c (hc ▸ List.mem_cons_self))).not_isBlank

end Url

end LogSetup
