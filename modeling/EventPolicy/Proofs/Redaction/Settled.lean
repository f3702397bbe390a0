import EventPolicy.Proofs.Redaction.OptionValues

/-!
What masking leaves in a text. After masking options each has the mask as its
value, and after masking addresses none has a user and a password. What shows
of a name, a scheme or a user behind a masked part was there before it.
-/

namespace EventPolicy.Redaction

variable {text more found shown after run rest scheme name value : List Char} {c : Char}

/-- A text that breaks the name of an option before any `=` starts with none. -/
theorem find?_options_of_break (hbreak : ∃ c ∈ text, isSchemeChar c = false) (hsign : '=' ∉ text)
    (more : List Char) : options.find? (text ++ more) = none := by
  obtain ⟨run, c, rest, rfl, hrun, hc⟩ := exists_break hbreak
  rw [Option.eq_none_iff_forall_ne_some]
  rintro ⟨shown, after⟩ h
  obtain ⟨name, value, hname, -, -, hsame, -⟩ := find?_options_eq_some h
  rw [List.append_assoc] at hsame
  obtain ⟨-, htail⟩ := run_unique hrun hname.all (ends_cons.mpr hc)
    (ends_cons.mpr (isSchemeChar_eq_false (by simp))) hsame
  obtain ⟨rfl, -⟩ := List.cons.inj htail
  exact hsign (by simp)

/-- A text that breaks the name of a scheme before any colon starts with no address. -/
theorem find?_userinfo_of_break (hbreak : ∃ c ∈ text, isSchemeChar c = false) (hcolon : ':' ∉ text)
    (more : List Char) : userinfo.find? (text ++ more) = none := by
  obtain ⟨run, c, rest, rfl, hrun, hc⟩ := exists_break hbreak
  rw [List.append_assoc]
  apply find?_userinfo_of_run hrun hc
  rintro rfl
  exact hcolon (by simp)

/-! ### Options after masking them -/

/-- What stands before the `=` of an option in a text with masked options stood
there before: an option that was masked has a whole name, and no name ends in another. -/
theorem text_of_maskedOption (hname : IsOptionName (c :: run))
    (h : options.replace rest = run ++ '=' :: more) :
    ∃ behind, rest = run ++ '=' :: behind ∧ more = options.replace behind := by
  have hparts : options.replace rest = (run ++ ['=']) ++ more := by rw [h]; simp
  rcases Pattern.replace_eq_append hparts with ⟨behind, hrest, hmore⟩ | hstarts
  · exact ⟨behind, by rw [hrest]; simp, hmore⟩
  · obtain ⟨before, part, found, shown, after, hleft, hne, -, hfound, hpart⟩ := hstarts
    obtain ⟨name, value, hfoundName, -, -, -, rfl⟩ := find?_options_eq_some hfound
    obtain ⟨last, rfl, hlast⟩ := List.suffix_concat_iff.mp ⟨before, hleft.symm⟩ |>.resolve_left hne
    have hrun : ∀ c ∈ last, isSchemeChar c = true :=
      fun d hd => hname.all d (List.mem_cons_of_mem _ (hlast.subset hd))
    rw [List.append_assoc, List.append_assoc] at hpart
    obtain ⟨rfl, -⟩ := run_unique hrun hfoundName.all (ends_sign _) (ends_sign _) hpart
    obtain ⟨left, rfl⟩ := hlast
    have hnone : c :: left = [] := hname.eq_nil_of_append hfoundName
    cases hnone

/-- An option stands at the start of a text where a name, `=` and a character of
a value do. -/
theorem exists_option (hname : IsOptionName name) (hvalue : IsRun isOptionChar value)
    (hhead : (value ++ after).head? = more.head?) :
    ∃ run rest, more = run ++ rest ∧ Ends isOptionChar rest ∧
      options.find? (name ++ '=' :: more) = some (name ++ '=' :: mask, rest) := by
  obtain ⟨run, rest, rfl, hrun, hrest⟩ := exists_run isOptionChar more
  have hne : run ≠ [] := by
    rintro rfl
    obtain ⟨hne, hvalue⟩ := hvalue
    obtain ⟨c, value, rfl⟩ := List.exists_cons_of_ne_nil hne
    have hout := hrest c hhead.symm
    rw [hvalue c List.mem_cons_self] at hout
    cases hout
  exact ⟨run, rest, rfl, hrest, find?_options hname ⟨hne, hrun⟩ hrest⟩

theorem isRun_mask : IsRun isOptionChar mask := by decide

theorem mem_of_suffix_mask {part : List Char} (h : part <:+ mask) (hne : part ≠ []) :
    ']' ∈ part := by
  have hmask : mask = "[REDACTED".toList ++ [']'] := by decide
  exact mem_of_suffix_concat (hmask ▸ h) hne

/-- What starts within a masked option has the mask as its value. -/
theorem eq_of_suffix_maskedOption {part : List Char} (hname : IsOptionName name)
    (hmore : Ends isOptionChar more) (hpart : part <:+ name ++ '=' :: mask) (hne : part ≠ [])
    (hfind : options.find? (part ++ more) = some (shown, after)) :
    part ++ more = shown ++ after := by
  have hcases : part <:+ mask ∨ ∃ run, run <:+ name ∧ part = run ++ '=' :: mask := by
    rcases suffix_append_cases hpart with hpart | ⟨run, -, hrun, rfl⟩
    · rcases List.suffix_cons_iff.mp hpart with rfl | hpart
      · exact .inr ⟨[], List.nil_suffix, rfl⟩
      · exact .inl hpart
    · exact .inr ⟨run, hrun, rfl⟩
  rcases hcases with hmask | ⟨run, hrun, rfl⟩
  · have hbreak : ∃ c ∈ part, isSchemeChar c = false :=
      ⟨']', mem_of_suffix_mask hmask hne, isSchemeChar_eq_false (by simp)⟩
    have hsign : '=' ∉ part := fun hmem => absurd (hmask.subset hmem) (by decide)
    rw [find?_options_of_break hbreak hsign] at hfind
    cases hfind
  · obtain ⟨other, value, hother, ⟨-, hvalue⟩, hafter, hsame, rfl⟩ := find?_options_eq_some hfind
    have hletters : ∀ c ∈ run, isSchemeChar c = true := fun c hc => hname.all c (hrun.subset hc)
    rw [List.append_assoc] at hsame
    obtain ⟨rfl, htail⟩ := run_unique hletters hother.all (ends_sign _) (ends_sign _) hsame
    obtain ⟨rfl, rfl⟩ := run_unique isRun_mask.2 hvalue hmore hafter (List.cons.inj htail).2
    rfl

/-- After masking the options of a text, each of them has the mask as its value. -/
theorem settled_maskOptions (text : List Char) : options.Settled (maskOptions text) := by
  rw [maskOptions_eq_replace]
  intro found hfound shown after hagain
  cases Pattern.tail_of_suffix hfound with
  | nil =>
    rw [Pattern.find?_nil] at hagain
    cases hagain
  | shown hsuffix hfind hne hpart =>
    obtain ⟨name, value, hname, -, hafter, -, rfl⟩ := find?_options_eq_some hfind
    exact eq_of_suffix_maskedOption hname (options.ends_replace hafter) hpart hne hagain
  | kept hsuffix hfind =>
    -- The option that is found has its name in the text before it was masked.
    obtain ⟨name, value, hname, hvalue, -, hsame, -⟩ := find?_options_eq_some hagain
    obtain ⟨d, run, rfl⟩ := List.exists_cons_of_ne_nil hname.ne_nil
    obtain ⟨rfl, htail⟩ := List.cons.inj hsame
    obtain ⟨behind, rfl, hbehind⟩ := text_of_maskedOption hname htail
    have hhead : (value ++ after).head? = behind.head? := by
      rw [hbehind, Pattern.head?_replace]
    obtain ⟨_, _, -, -, hoption⟩ := exists_option hname hvalue hhead
    rw [List.cons_append, hfind] at hoption
    cases hoption

/-! ### Addresses after masking them -/

theorem afterUserinfo?_mask (rest : List Char) : afterUserinfo? (mask ++ '@' :: rest) = none := by
  rw [Option.eq_none_iff_forall_ne_some]
  intro after h
  obtain ⟨user, password, ⟨-, huser⟩, -, hsame⟩ := afterUserinfo?_eq_some_iff.mp h
  have hmask : IsRun isUserChar mask := by decide
  obtain ⟨-, htail⟩ := run_unique hmask.2 huser (ends_cons.mpr (by decide))
    (ends_cons.mpr (by decide)) hsame
  cases htail

/-- No address with a user and a password starts within a masked one. -/
theorem find?_userinfo_of_suffix_maskedAddress {part : List Char} (hscheme : IsScheme scheme)
    (hpart : part <:+ maskedAddress scheme) (hne : part ≠ []) (more : List Char) :
    userinfo.find? (part ++ more) = none := by
  have hcases : part <:+ mask ++ ['@'] ∨ (∃ run, run <:+ ['/', '/'] ∧ run ≠ [] ∧
      part = run ++ (mask ++ ['@'])) ∨
        ∃ run, run <:+ scheme ∧ part = run ++ (slashes ++ (mask ++ ['@'])) := by
    rcases suffix_append_cases hpart with hpart | ⟨run, -, hrun, rfl⟩
    · rcases suffix_append_cases hpart with hpart | ⟨run, hrunne, hrun, rfl⟩
      · exact .inl hpart
      · rcases List.suffix_cons_iff.mp hrun with rfl | hrun
        · exact .inr (.inr ⟨[], List.nil_suffix, rfl⟩)
        · exact .inr (.inl ⟨run, hrun, hrunne, rfl⟩)
    · exact .inr (.inr ⟨run, hrun, rfl⟩)
  rcases hcases with hmask | ⟨run, hrun, hrunne, rfl⟩ | ⟨run, hrun, rfl⟩
  · obtain ⟨last, rfl, hlast⟩ := List.suffix_concat_iff.mp hmask |>.resolve_left hne
    have hcolon : ':' ∉ last ++ ['@'] := by
      intro hmem
      have hmember := hmask.subset hmem
      exact absurd hmember (by decide)
    exact find?_userinfo_of_break ⟨'@', by simp, isSchemeChar_eq_false (by simp)⟩ hcolon more
  · obtain ⟨c, run, rfl⟩ := List.exists_cons_of_ne_nil hrunne
    obtain rfl : c = '/' := by simpa using hrun.subset List.mem_cons_self
    have hnone : ∀ d ∈ ([] : List Char), isSchemeChar d = true := by simp
    exact find?_userinfo_of_run hnone (isSchemeChar_eq_false (by simp)) (by simp)
  · apply Option.eq_none_iff_forall_ne_some.mpr
    rintro ⟨shown, after⟩ h
    obtain ⟨other, start, hother, hsame, -, hafter⟩ := find?_userinfo_eq_some h
    have hletters : ∀ c ∈ run, isSchemeChar c = true := fun c hc => hscheme.all c (hrun.subset hc)
    rw [List.append_assoc, List.append_assoc] at hsame
    obtain ⟨-, htail⟩ := run_unique hletters hother.all (ends_slashes _) (ends_slashes _) hsame
    obtain rfl := List.append_cancel_left htail
    rw [List.append_assoc, List.singleton_append, afterUserinfo?_mask] at hafter
    cases hafter

theorem find?_options_of_suffix_maskedAddress {part : List Char} (hscheme : IsScheme scheme)
    (hpart : part <:+ maskedAddress scheme) (hne : part ≠ []) (more : List Char) :
    options.find? (part ++ more) = none := by
  have hlast : maskedAddress scheme = scheme ++ (slashes ++ mask) ++ ['@'] := by
    simp [maskedAddress]
  have hsign : '=' ∉ maskedAddress scheme := by
    intro hmem
    rcases List.mem_append.mp hmem with hmem | hmem
    · exact absurd rfl (ne_of_isSchemeChar (hscheme.all '=' hmem) (by simp))
    · exact absurd hmem (by decide)
  have hmember : '@' ∈ part := mem_of_suffix_concat (hlast ▸ hpart) hne
  exact find?_options_of_break ⟨'@', hmember, isSchemeChar_eq_false (by simp)⟩
    (fun hmem => hsign (hpart.subset hmem)) more

/-- The name of an option in a text with masked addresses was in the text. -/
theorem text_of_maskedName (hname : IsOptionName (c :: run))
    (h : userinfo.replace rest = run ++ '=' :: more) :
    ∃ behind, rest = run ++ '=' :: behind ∧ more = userinfo.replace behind := by
  have hparts : userinfo.replace rest = (run ++ ['=']) ++ more := by rw [h]; simp
  rcases Pattern.replace_eq_append hparts with ⟨behind, hrest, hmore⟩ | hstarts
  · exact ⟨behind, by rw [hrest]; simp, hmore⟩
  · obtain ⟨before, part, found, shown, after, hleft, hne, -, hfound, hpart⟩ := hstarts
    obtain ⟨scheme, start, hscheme, -, rfl, -⟩ := find?_userinfo_eq_some hfound
    obtain ⟨last, rfl, hlast⟩ := List.suffix_concat_iff.mp ⟨before, hleft.symm⟩ |>.resolve_left hne
    have hletters : ∀ c ∈ last, isSchemeChar c = true :=
      fun d hd => hname.all d (List.mem_cons_of_mem _ (hlast.subset hd))
    have hboth : last ++ '=' :: more =
        scheme ++ (slashes ++ (mask ++ ['@'] ++ userinfo.replace after)) := by
      simpa [maskedAddress] using hpart
    obtain ⟨-, htail⟩ := run_unique hletters hscheme.all (ends_sign _) (ends_slashes _) hboth
    cases htail

/-- Where an address shows in a text with masked addresses, it was in the text. -/
theorem text_of_maskedAddress (hscheme : IsScheme (c :: run))
    (hfind : userinfo.find? (c :: rest) = none)
    (h : userinfo.replace rest = run ++ (slashes ++ more)) :
    ∃ behind, rest = run ++ (slashes ++ behind) ∧ more = userinfo.replace behind := by
  rw [← List.append_assoc] at h
  rcases Pattern.replace_eq_append h with ⟨behind, hrest, hmore⟩ | hstarts
  · exact ⟨behind, by rw [hrest, List.append_assoc], hmore⟩
  · obtain ⟨before, part, found, shown, after, hleft, hne, rfl, hfound, hpart⟩ := hstarts
    obtain ⟨other, start, hother, rfl, rfl, hafter⟩ := find?_userinfo_eq_some hfound
    have hletters : ∀ d ∈ run, isSchemeChar d = true :=
      fun d hd => hscheme.all d (List.mem_cons_of_mem _ hd)
    rcases suffix_append_cases ⟨before, hleft.symm⟩ with hslashes | ⟨last, -, hlast, rfl⟩
    · -- A scheme does not start with a colon or a slash.
      obtain ⟨d, part, rfl⟩ := List.exists_cons_of_ne_nil hne
      obtain ⟨e, other, rfl⟩ := List.exists_cons_of_ne_nil hother.ne_nil
      obtain ⟨rfl, -⟩ := List.cons.inj hpart
      have hd : d ∈ slashes := hslashes.subset List.mem_cons_self
      have hletter := hother.all d List.mem_cons_self
      rcases (by simpa [slashes] using hd : d = ':' ∨ d = '/') with rfl | rfl
      · exact absurd rfl (ne_of_isSchemeChar hletter (by simp))
      · exact absurd rfl (ne_of_isSchemeChar hletter (by simp))
    · have hlastLetters : ∀ d ∈ last, isSchemeChar d = true :=
        fun d hd => hletters d (hlast.subset hd)
      have hboth : last ++ (slashes ++ more) =
          other ++ (slashes ++ (mask ++ ['@'] ++ userinfo.replace after)) := by
        simpa [maskedAddress] using hpart
      obtain ⟨rfl, -⟩ := run_unique hlastLetters hother.all (ends_slashes _) (ends_slashes _) hboth
      obtain ⟨left, rfl⟩ := hlast
      obtain rfl : left = before := by
        rw [← List.append_assoc] at hleft
        exact List.append_cancel_right (List.append_cancel_right hleft)
      rw [← List.append_assoc, ← List.cons_append] at hfind
      rw [afterUserinfo?_of_find?_eq_none hscheme hfind] at hafter
      cases hafter

/-- Up to a sign in front of which no slash stands, a text with masked addresses
is as it was. -/
theorem text_of_maskedSign (hslash : '/' ∉ run) (h : userinfo.replace text = run ++ '@' :: more) :
    ∃ behind, text = run ++ '@' :: behind := by
  have hparts : userinfo.replace text = (run ++ ['@']) ++ more := by rw [h]; simp
  rcases Pattern.replace_eq_append hparts with ⟨behind, rfl, -⟩ | hstarts
  · exact ⟨behind, by simp⟩
  · obtain ⟨before, part, found, shown, after, hleft, hne, rfl, hfound, hpart⟩ := hstarts
    obtain ⟨other, start, hother, rfl, rfl, -⟩ := find?_userinfo_eq_some hfound
    obtain ⟨last, rfl, hlast⟩ := List.suffix_concat_iff.mp ⟨before, hleft.symm⟩ |>.resolve_left hne
    have hboth : last ++ ['@'] ++ more =
        other ++ slashes ++ (mask ++ ['@'] ++ userinfo.replace after) := by
      simpa [maskedAddress] using hpart
    rcases List.append_eq_append_iff.mp hboth with ⟨middle, hmiddle, -⟩ | ⟨middle, hmiddle, -⟩
    · have hsign : '@' ∈ other ++ slashes := by simp [hmiddle]
      rcases List.mem_append.mp hsign with hsign | hsign
      · exact absurd rfl (ne_of_isSchemeChar (hother.all '@' hsign) (by simp))
      · exact absurd hsign (by decide)
    · have hmem : '/' ∈ last ++ ['@'] := by simp [hmiddle, slashes]
      rcases List.mem_append.mp hmem with hmem | hmem
      · exact absurd (hlast.subset hmem) hslash
      · exact absurd hmem (by decide)

/-- After masking the addresses of a text, none has a user and a password. -/
theorem absent_maskUserinfo (text : List Char) : userinfo.Absent (maskUserinfo text) := by
  rw [maskUserinfo_eq_replace]
  intro found hfound
  cases Pattern.tail_of_suffix hfound with
  | nil => exact userinfo.find?_nil
  | shown hsuffix hfind hne hpart =>
    obtain ⟨scheme, start, hscheme, -, rfl, -⟩ := find?_userinfo_eq_some hfind
    exact find?_userinfo_of_suffix_maskedAddress hscheme hpart hne _
  | kept hsuffix hfind =>
    rw [Option.eq_none_iff_forall_ne_some]
    rintro ⟨shown, after⟩ hagain
    -- The scheme, the user and the password that are found were in the text before.
    obtain ⟨scheme, start, hscheme, hsame, -, hafter⟩ := find?_userinfo_eq_some hagain
    obtain ⟨d, run, rfl⟩ := List.exists_cons_of_ne_nil hscheme.ne_nil
    obtain ⟨rfl, htail⟩ := List.cons.inj hsame
    obtain ⟨behind, rfl, rfl⟩ := text_of_maskedAddress hscheme hfind htail
    obtain ⟨user, password, huser, hpassword, hstart⟩ := afterUserinfo?_eq_some_iff.mp hafter
    have hslash : '/' ∉ user ++ ':' :: password := by
      intro hmem
      rcases List.mem_append.mp hmem with hmem | hmem
      · exact absurd (huser.2 _ hmem) (by decide)
      · rcases List.mem_cons.mp hmem with hmem | hmem
        · cases hmem
        · exact absurd (hpassword.2 _ hmem) (by decide)
    have hparts : userinfo.replace behind = (user ++ ':' :: password) ++ '@' :: after := by
      rw [hstart]
      simp
    obtain ⟨host, rfl⟩ := text_of_maskedSign hslash hparts
    have hpresent : afterUserinfo? (user ++ ':' :: password ++ '@' :: host) = some host :=
      afterUserinfo?_eq_some_iff.mpr ⟨user, password, huser, hpassword, by simp⟩
    rw [← List.cons_append] at hfind
    rw [afterUserinfo?_of_find?_eq_none hscheme hfind] at hpresent
    cases hpresent

theorem replace_mask_append (more : List Char) :
    userinfo.replace (mask ++ more) = mask ++ userinfo.replace more := by
  apply Pattern.replace_append_of_none
  intro found hne hfound
  have hcolon : ':' ∉ found := fun hmem => absurd (hfound.subset hmem) (by decide)
  exact find?_userinfo_of_break
    ⟨']', mem_of_suffix_mask hfound hne, isSchemeChar_eq_false (by simp)⟩ hcolon more

/-- Where every option has the mask as its value, masking addresses keeps it so. -/
theorem settled_maskUserinfo (h : options.Settled text) : options.Settled (maskUserinfo text) := by
  rw [maskUserinfo_eq_replace]
  intro found hfound shown after hoption
  cases Pattern.tail_of_suffix hfound with
  | nil =>
    rw [Pattern.find?_nil] at hoption
    cases hoption
  | shown hsuffix hfind hne hpart =>
    obtain ⟨scheme, start, hscheme, -, rfl, -⟩ := find?_userinfo_eq_some hfind
    rw [find?_options_of_suffix_maskedAddress hscheme hpart hne] at hoption
    cases hoption
  | kept hsuffix hfind =>
    obtain ⟨name, value, hname, ⟨hne, hvalue⟩, hafter, hsame, rfl⟩ := find?_options_eq_some hoption
    obtain ⟨d, run, rfl⟩ := List.exists_cons_of_ne_nil hname.ne_nil
    obtain ⟨rfl, htail⟩ := List.cons.inj hsame
    obtain ⟨behind, rfl, hbehind⟩ := text_of_maskedName hname htail
    have hhead : (value ++ after).head? = behind.head? := by
      rw [hbehind, Pattern.head?_replace]
    obtain ⟨other, more, rfl, hmore, hwhole⟩ := exists_option hname ⟨hne, hvalue⟩ hhead
    have hmasked := h _ hsuffix _ _ hwhole
    rw [List.append_assoc] at hmasked
    have hvalues : '=' :: (other ++ more) = '=' :: (mask ++ more) :=
      List.append_cancel_left (List.cons.inj hmasked).2
    obtain rfl : other = mask := List.append_cancel_right (List.cons.inj hvalues).2
    rw [replace_mask_append] at hbehind
    obtain ⟨rfl, rfl⟩ :=
      run_unique hvalue isRun_mask.2 hafter (userinfo.ends_replace hmore) hbehind
    rw [hsame]
    simp

end EventPolicy.Redaction
