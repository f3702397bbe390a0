import EventPolicy.Proofs.Redaction.Options

/-!
When the value of a password option does not show. Addresses are masked before
options, so a value can be cut by an address that it stands in, or that starts
in it. A value without `/`, `@` and `:` never is. Any other value is masked as
well where no user and password go on over its start or its end.
-/

namespace EventPolicy.Redaction

variable {text more run name value other rest before : List Char} {c : Char}

/-- The user or the password of an address may go on behind the text: nothing
that ends one follows the `://` of some address in it. -/
def EndsInAddress (text : List Char) : Prop :=
  ∃ before scheme rest, IsScheme scheme ∧ text = before ++ (scheme ++ (slashes ++ rest)) ∧
    ∀ c ∈ rest, isPasswordChar c = true

theorem EndsInAddress.of_suffix (h : EndsInAddress text) (hsuffix : text <:+ more) :
    EndsInAddress more := by
  obtain ⟨before, scheme, rest, hscheme, rfl, hrest⟩ := h
  obtain ⟨left, rfl⟩ := hsuffix
  exact ⟨left ++ before, scheme, rest, hscheme, by simp, hrest⟩

/-- A text without a colon does not end in an address. -/
theorem not_endsInAddress (h : ':' ∉ text) : ¬ EndsInAddress text := by
  rintro ⟨before, scheme, rest, -, rfl, -⟩
  exact h (by simp [slashes])

/-- The user or the password of an address in the first text may go on to a sign
before a host in the second. -/
def Crosses (text more : List Char) : Prop := EndsInAddress text ∧ EndsPassword more

/-- The scheme of an address does not go on into the text. -/
def EndsScheme (text : List Char) : Prop :=
  ∃ run rest, text = run ++ rest ∧ (∀ c ∈ run, isSchemeChar c = true) ∧ Ends isSchemeChar rest ∧
    rest.head? ≠ some ':' ∧ rest.head? ≠ some '/'

theorem endsScheme_of_head (h : Ends isSchemeChar text) (hcolon : text.head? ≠ some ':')
    (hslash : text.head? ≠ some '/') : EndsScheme text :=
  ⟨[], text, rfl, by simp, h, hcolon, hslash⟩

/-- An address in a text of two parts has its `://` in the first part if its
scheme does not go on into the second. -/
theorem address_of_endsScheme {scheme start : List Char} (hmore : EndsScheme more)
    (hscheme : IsScheme scheme) (h : text ++ more = scheme ++ (slashes ++ start)) :
    ∃ rest, text = scheme ++ (slashes ++ rest) ∧ start = rest ++ more := by
  obtain ⟨run, tail, rfl, hrun, htail, hcolon, hslash⟩ := hmore
  rcases address_cases h with hbefore | ⟨part, rfl, hpart⟩ | hhead
  · exact hbefore
  · have hall : ∀ c ∈ part, isSchemeChar c = true :=
      fun c hc => hscheme.all c (List.mem_append_right _ hc)
    obtain ⟨rfl, rfl⟩ := run_unique hrun hall htail (ends_slashes _) hpart
    exact absurd rfl hcolon
  · cases run with
    | nil =>
      rcases hhead with hhead | hhead
      · exact absurd hhead hcolon
      · exact absurd hhead hslash
    | cons c run =>
      have hc := hrun c List.mem_cons_self
      rcases hhead with hhead | hhead
      · exact absurd (Option.some.inj hhead) (ne_of_isSchemeChar hc (by simp))
      · exact absurd (Option.some.inj hhead) (ne_of_isSchemeChar hc (by simp))

theorem find?_userinfo_of_no_address (hmore : EndsScheme more)
    (h : ¬ ∃ scheme rest, IsScheme scheme ∧ text = scheme ++ (slashes ++ rest)) :
    userinfo.find? (text ++ more) = none := by
  apply find?_userinfo_eq_none
  intro scheme start hscheme hsame
  obtain ⟨rest, htext, -⟩ := address_of_endsScheme hmore hscheme hsame
  exact h ⟨scheme, rest, hscheme, htext⟩

/-- No address is found where a scheme is followed by something else than a colon. -/
theorem find?_userinfo_of_run (hrun : ∀ c ∈ run, isSchemeChar c = true)
    (hc : isSchemeChar c = false) (hcolon : c ≠ ':') :
    userinfo.find? (run ++ c :: rest) = none := by
  apply find?_userinfo_eq_none
  intro scheme start hscheme hsame
  obtain ⟨-, hslashes⟩ := run_unique hrun hscheme.all (ends_cons.mpr hc) (ends_slashes _) hsame
  exact hcolon (List.cons.inj hslashes).1

/-- Two parts of a text are masked apart if no address crosses from one to the other. -/
theorem maskUserinfo_append (hmore : EndsScheme more) (h : ¬ Crosses text more) :
    maskUserinfo (text ++ more) = maskUserinfo text ++ maskUserinfo more := by
  rw [maskUserinfo_eq_replace, maskUserinfo_eq_replace, maskUserinfo_eq_replace]
  apply Pattern.replace_append
  intro found _ hfound
  by_cases haddress : ∃ scheme rest, IsScheme scheme ∧ found = scheme ++ (slashes ++ rest)
  · obtain ⟨scheme, rest, hscheme, rfl⟩ := haddress
    by_cases hall : ∀ c ∈ rest, isPasswordChar c = true
    · have htext : EndsInAddress text :=
        EndsInAddress.of_suffix ⟨[], scheme, rest, hscheme, rfl, hall⟩ hfound
      have hpassword : ¬ EndsPassword more := fun hmore => h ⟨htext, hmore⟩
      have hnone : afterUserinfo? (rest ++ []) = none :=
        afterUserinfo?_eq_none hall (not_endsPassword (by simp))
      rw [List.append_nil] at hnone
      rw [List.append_assoc, List.append_assoc, find?_userinfo hscheme, find?_userinfo hscheme,
        afterUserinfo?_eq_none hall hpassword, hnone]
      rfl
    · exact find?_userinfo_append hscheme (by simpa using hall) more
  · have hnone : userinfo.find? found = none :=
      find?_userinfo_eq_none fun scheme rest hscheme hsame =>
        haddress ⟨scheme, rest, hscheme, hsame⟩
    rw [find?_userinfo_of_no_address hmore haddress, hnone, Option.map_none]

theorem endsScheme_option (hname : IsOptionName name) (rest : List Char) :
    EndsScheme (name ++ '=' :: rest) :=
  ⟨name, '=' :: rest, rfl, hname.all, ends_sign rest, by simp, by simp⟩

theorem not_isOptionChar_iff : isOptionChar c = false ↔ c = '&' ∨ Text.isBlank c = true := by
  by_cases hc : c = '&' <;> simp [isOptionChar, hc]

/-- No scheme goes on into what follows the value of an option. -/
theorem endsScheme_rest (h : Ends isOptionChar rest) : EndsScheme rest := by
  cases rest with
  | nil => exact endsScheme_of_head ends_nil (by simp) (by simp)
  | cons c rest =>
    rcases not_isOptionChar_iff.mp (ends_cons.mp h) with rfl | hblank
    · exact endsScheme_of_head (ends_cons.mpr (isSchemeChar_eq_false (by simp))) (by simp) (by simp)
    · refine endsScheme_of_head (ends_cons.mpr (isSchemeChar_of_isBlank hblank)) ?_ ?_
      · rintro hcolon
        obtain rfl := Option.some.inj hcolon
        exact absurd hblank (by decide)
      · rintro hslash
        obtain rfl := Option.some.inj hslash
        exact absurd hblank (by decide)

/-- No address starts in the name of an option. -/
theorem maskUserinfo_option (hname : IsOptionName name) (rest : List Char) :
    maskUserinfo (name ++ '=' :: rest) = name ++ '=' :: maskUserinfo rest := by
  rw [maskUserinfo_eq_replace, maskUserinfo_eq_replace]
  have hkept : userinfo.replace (name ++ ['='] ++ rest) =
      name ++ ['='] ++ userinfo.replace rest := by
    apply Pattern.replace_append_of_none
    intro found hne hfound
    obtain ⟨run, rfl, hrun⟩ := List.suffix_concat_iff.mp hfound |>.resolve_left hne
    rw [List.append_assoc]
    exact find?_userinfo_of_run (fun c hc => hname.all c (hrun.subset hc))
      (isSchemeChar_eq_false (by simp)) (by simp)
  simpa using hkept

/-- Masking the addresses in the value of an option leaves a value. -/
theorem isRun_maskUserinfo (h : IsRun isOptionChar value) :
    IsRun isOptionChar (maskUserinfo value) := by
  obtain ⟨hne, hall⟩ := h
  rw [maskUserinfo_eq_replace]
  constructor
  · intro hnil
    have hhead := Pattern.head?_replace userinfo value
    rw [hnil] at hhead
    exact hne (List.head?_eq_none_iff.mp hhead.symm)
  · clear hne
    induction value using Pattern.byScan userinfo with
    | nil => simp [Pattern.replace_nil]
    | found text shown after hfind ih =>
      obtain ⟨scheme, start, -, rfl, rfl, hafter⟩ := find?_userinfo_eq_some hfind
      obtain ⟨user, password, -, -, rfl⟩ := afterUserinfo?_eq_some_iff.mp hafter
      have hsigns : IsRun isOptionChar (slashes ++ (mask ++ ['@'])) := by decide
      have hshown : ∀ c ∈ maskedAddress scheme, isOptionChar c = true :=
        List.forall_mem_append.mpr ⟨fun c hc => hall c (List.mem_append_left _ hc), hsigns.2⟩
      rw [Pattern.replace_of_found hfind]
      exact List.forall_mem_append.mpr ⟨hshown, ih fun c hc => hall c (by simp [hc])⟩
    | kept c rest hfind ih =>
      obtain ⟨hc, hrest⟩ := List.forall_mem_cons.mp hall
      rw [Pattern.replace_of_kept hfind]
      exact List.forall_mem_cons.mpr ⟨hc, ih hrest⟩

theorem ends_maskUserinfo (h : Ends isOptionChar rest) : Ends isOptionChar (maskUserinfo rest) := by
  rw [maskUserinfo_eq_replace]
  exact userinfo.ends_replace h

/-- Two texts that are equal, or differ in the value of one option at most. -/
inductive SameBesideValue : List Char → List Char → Prop
  | refl (text : List Char) : SameBesideValue text text
  | option (before : List Char) {name value other rest : List Char} (hname : IsOptionName name)
      (hvalue : IsRun isOptionChar value) (hother : IsRun isOptionChar other)
      (hrest : Ends isOptionChar rest) :
      SameBesideValue (before ++ (name ++ '=' :: (value ++ rest)))
        (before ++ (name ++ '=' :: (other ++ rest)))

theorem SameBesideValue.append (h : SameBesideValue text more) (before : List Char) :
    SameBesideValue (before ++ text) (before ++ more) := by
  cases h with
  | refl => exact .refl _
  | option middle hname hvalue hother hrest =>
    have hparts := SameBesideValue.option (before ++ middle) hname hvalue hother hrest
    rwa [List.append_assoc, List.append_assoc] at hparts

theorem SameBesideValue.maskOptions_eq (h : SameBesideValue text more) :
    maskOptions text = maskOptions more := by
  cases h with
  | refl => rfl
  | option before hname hvalue hother hrest =>
    exact maskOptions_congr before hname hvalue hother hrest

/-- The value of an option is masked apart from what follows it if no address
crosses its end. -/
theorem maskUserinfo_value (hname : IsOptionName name) (hrest : Ends isOptionChar rest)
    (h : ¬ Crosses value rest) :
    maskUserinfo (name ++ '=' :: (value ++ rest)) =
      name ++ '=' :: (maskUserinfo value ++ maskUserinfo rest) := by
  rw [maskUserinfo_option hname, maskUserinfo_append (endsScheme_rest hrest) h]

/-- An address that crosses to an option crosses to its value. -/
theorem Crosses.of_option (h : Crosses before (name ++ '=' :: more)) (hname : IsOptionName name) :
    Crosses before more := by
  obtain ⟨hbefore, run, after, hrun, hsame⟩ := h
  have hsign : '@' ∉ name ++ ['='] := by
    intro hmem
    rcases List.mem_append.mp hmem with hmem | hmem
    · exact absurd rfl (ne_of_isSchemeChar (hname.all '@' hmem) (by simp))
    · exact absurd hmem (by decide)
  have hparts : name ++ ['='] ++ more = run ++ '@' :: after := by simpa using hsame
  obtain ⟨left, rfl, rfl⟩ := exists_of_not_mem_left hparts hsign
  exact ⟨hbefore, left, after, fun c hc => hrun c (List.mem_append_right _ hc), rfl⟩

/-- Where no address crosses the start or the end of a value, the option is masked
apart from what stands around it. -/
theorem maskUserinfo_around (hname : IsOptionName name) (hrest : Ends isOptionChar rest)
    (hbefore : ¬ Crosses before (value ++ rest)) (hbehind : ¬ Crosses value rest) :
    maskUserinfo (before ++ (name ++ '=' :: (value ++ rest))) =
      maskUserinfo before ++ (name ++ '=' :: (maskUserinfo value ++ maskUserinfo rest)) := by
  rw [maskUserinfo_append (endsScheme_option hname _) fun h => hbefore (h.of_option hname),
    maskUserinfo_value hname hrest hbehind]

/-- Before an option the same addresses are found, whatever value without `/`,
`@` and `:` it has. -/
theorem sameFind_userinfo_of_plain (hname : IsOptionName name) (hvalue : IsRun isUserChar value)
    (hother : IsRun isUserChar other) :
    userinfo.SameFind (name ++ '=' :: (value ++ rest)) (name ++ '=' :: (other ++ rest)) text := by
  by_cases haddress : ∃ scheme start, IsScheme scheme ∧ text = scheme ++ (slashes ++ start)
  · obtain ⟨scheme, start, hscheme, rfl⟩ := haddress
    by_cases hall : ∀ c ∈ start, isPasswordChar c = true
    · have hrun : ∀ {part : List Char}, IsRun isUserChar part →
          IsRun isUserChar (name ++ '=' :: part) := fun hpart =>
        ⟨by simp, all_option isUserChar_of_isSchemeChar (by decide) hname hpart.2⟩
      have hsame : afterUserinfo? (start ++ (name ++ '=' :: value ++ rest)) =
          afterUserinfo? (start ++ (name ++ '=' :: other ++ rest)) :=
        afterUserinfo?_congr hall (hrun hvalue) (hrun hother)
      simp only [List.append_assoc, List.cons_append] at hsame
      apply Pattern.SameFind.of_eq
      rw [List.append_assoc, List.append_assoc, List.append_assoc, List.append_assoc,
        find?_userinfo hscheme, find?_userinfo hscheme, hsame]
    · exact .of_find (find?_userinfo_append hscheme (by simpa using hall))
  · exact .absent (find?_userinfo_of_no_address (endsScheme_option hname _) haddress)
      (find?_userinfo_of_no_address (endsScheme_option hname _) haddress)

theorem isUserChar_ne_colon (h : isUserChar c = true) : c ≠ ':' := by
  rintro rfl
  exact absurd h (by decide)

/-- Two values without `/`, `@` and `:` leave texts that differ in them at most. -/
theorem maskUserinfo_sameBesideValue_of_plain (before : List Char) (hname : IsOptionName name)
    (hvalue : IsRun isOptionChar value) (hother : IsRun isOptionChar other)
    (hrest : Ends isOptionChar rest) (hplain : IsRun isUserChar value)
    (hplainOther : IsRun isUserChar other) :
    SameBesideValue (maskUserinfo (before ++ (name ++ '=' :: (value ++ rest))))
      (maskUserinfo (before ++ (name ++ '=' :: (other ++ rest)))) := by
  have hcolon : ∀ {part : List Char}, IsRun isUserChar part → ¬ EndsInAddress part :=
    fun hpart => not_endsInAddress fun hmem => isUserChar_ne_colon (hpart.2 _ hmem) rfl
  have hends : SameBesideValue (maskUserinfo (name ++ '=' :: (value ++ rest)))
      (maskUserinfo (name ++ '=' :: (other ++ rest))) := by
    rw [maskUserinfo_value hname hrest fun h => hcolon hplain h.1,
      maskUserinfo_value hname hrest fun h => hcolon hplainOther h.1]
    exact .option [] hname (isRun_maskUserinfo hvalue) (isRun_maskUserinfo hother)
      (ends_maskUserinfo hrest)
  rw [maskUserinfo_eq_replace, maskUserinfo_eq_replace] at hends ⊢
  apply Pattern.replace_append_alike .refl (fun text _ _ h => h.append text) hends
  intro found _ _
  exact sameFind_userinfo_of_plain hname hplain hplainOther

/-- The value of a password option does not show if it has no `/`, `@` and `:`.
Any other value does not show either if no address crosses its start or its end. -/
theorem redactText_option_eq (before name value other rest : String)
    (hname : IsOptionName name.toList) (hvalue : IsRun isOptionChar value.toList)
    (hother : IsRun isOptionChar other.toList) (hrest : Ends isOptionChar rest.toList)
    (h : (IsRun isUserChar value.toList ∧ IsRun isUserChar other.toList) ∨
      ∀ part ∈ [value.toList, other.toList],
        ¬ Crosses before.toList (part ++ rest.toList) ∧ ¬ Crosses part rest.toList) :
    redactText (before ++ name ++ "=" ++ value ++ rest) =
      redactText (before ++ name ++ "=" ++ other ++ rest) := by
  have htext : ∀ value : String, (before ++ name ++ "=" ++ value ++ rest).toList =
      before.toList ++ (name.toList ++ '=' :: (value.toList ++ rest.toList)) := by
    intro value
    simp
  have hsame : SameBesideValue
      (maskUserinfo (before.toList ++ (name.toList ++ '=' :: (value.toList ++ rest.toList))))
      (maskUserinfo (before.toList ++ (name.toList ++ '=' :: (other.toList ++ rest.toList)))) := by
    rcases h with ⟨hplain, hplainOther⟩ | hapart
    · exact maskUserinfo_sameBesideValue_of_plain _ hname hvalue hother hrest hplain hplainOther
    · obtain ⟨hbefore, hbehind⟩ := hapart value.toList (by simp)
      obtain ⟨hbeforeOther, hbehindOther⟩ := hapart other.toList (by simp)
      rw [maskUserinfo_around hname hrest hbefore hbehind,
        maskUserinfo_around hname hrest hbeforeOther hbehindOther]
      exact .option _ hname (isRun_maskUserinfo hvalue) (isRun_maskUserinfo hother)
        (ends_maskUserinfo hrest)
  rw [redactText, redactText, htext, htext, hsame.maskOptions_eq]

/-- A value may have slashes and colons in it behind an address with a port, if no
sign follows. -/
theorem redactText_option_eq_of_port :
    IsOptionName "PassWord".toList ∧ IsRun isOptionChar "t/g:er".toList ∧
      IsRun isOptionChar "x".toList ∧ Ends isOptionChar "&delay=5".toList ∧
        (∀ part ∈ ["t/g:er".toList, "x".toList],
          ¬ Crosses "ftp://host:21?".toList (part ++ "&delay=5".toList) ∧
            ¬ Crosses part "&delay=5".toList) ∧
          redactText ("ftp://host:21?" ++ "PassWord" ++ "=" ++ "t/g:er" ++ "&delay=5") =
            redactText ("ftp://host:21?" ++ "PassWord" ++ "=" ++ "x" ++ "&delay=5") := by
  have hname : IsOptionName "PassWord".toList := by decide +kernel
  have hvalue : IsRun isOptionChar "t/g:er".toList := by decide +kernel
  have hother : IsRun isOptionChar "x".toList := by decide +kernel
  have hrest : Ends isOptionChar "&delay=5".toList := ends_cons.mpr (by decide +kernel)
  have hsigns : ∀ part ∈ ["t/g:er".toList, "x".toList],
      '@' ∉ part ++ "&delay=5".toList ∧ '@' ∉ "&delay=5".toList := by decide +kernel
  have hapart : ∀ part ∈ ["t/g:er".toList, "x".toList],
      ¬ Crosses "ftp://host:21?".toList (part ++ "&delay=5".toList) ∧
        ¬ Crosses part "&delay=5".toList := fun part hpart =>
    ⟨fun h => not_endsPassword (hsigns part hpart).1 h.2,
      fun h => not_endsPassword (hsigns part hpart).2 h.2⟩
  exact ⟨hname, hvalue, hother, hrest, hapart,
    redactText_option_eq "ftp://host:21?" "PassWord" "t/g:er" "x" "&delay=5" hname hvalue hother
      hrest (.inr hapart)⟩

/-- The end of a value shows where the address before its option has a port, since
what follows the port is read as a password up to a sign in the value. -/
theorem not_redactText_option_eq :
    ¬ ∀ before name value other rest : String, IsOptionName name.toList →
      IsRun isOptionChar value.toList → IsRun isOptionChar other.toList →
        Ends isOptionChar rest.toList →
          redactText (before ++ name ++ "=" ++ value ++ rest) =
            redactText (before ++ name ++ "=" ++ other ++ rest) := by
  intro hhidden
  have hsame := hhidden "ftp://host:21?" "password" "p@ss" "x" "" (by decide +kernel)
    (by decide +kernel) (by decide +kernel) ends_nil
  have hshown : redactText ("ftp://host:21?" ++ "password" ++ "=" ++ "p@ss" ++ "") =
      "ftp://[REDACTED]@ss" := by decide +kernel
  have hother : redactText ("ftp://host:21?" ++ "password" ++ "=" ++ "x" ++ "") =
      "ftp://host:21?password=[REDACTED]" := by decide +kernel
  rw [hshown, hother] at hsame
  exact absurd hsame (by decide)

end EventPolicy.Redaction
