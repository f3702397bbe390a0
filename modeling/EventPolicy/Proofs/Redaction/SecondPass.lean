import EventPolicy.Proofs.Redaction.Settled

/-!
Redacting a text again. After one pass every option has the mask as its value,
but a masked value may join the characters around it to a user and a password.
A second pass changes the text exactly then, and a third never does. No value joins
anything if there is neither a slash nor a sign in it (`PlainOptions`).
-/

namespace EventPolicy.Redaction

variable {text more shown after run rest name value : List Char} {c : Char}

/-! ### Addresses after masking options -/

/-- No option in the text has a slash or the sign before a host in its value. -/
def PlainOptions (text : List Char) : Prop :=
  ∀ name value after, name ++ '=' :: (value ++ after) <:+ text → IsOptionName name →
    IsRun isOptionChar value → Ends isOptionChar after → ∀ c ∈ value, isPasswordChar c = true

theorem PlainOptions.of_suffix (h : PlainOptions text) (hsuffix : rest <:+ text) :
    PlainOptions rest :=
  fun name value after hfound => h name value after (hfound.trans hsuffix)

theorem not_mem_maskedOption (hname : IsOptionName name) (h : isUserChar c = false) :
    c ∉ name ++ '=' :: mask := by
  intro hmem
  have hvalue : IsRun isUserChar mask := by decide
  rw [all_option isUserChar_of_isSchemeChar (by decide) hname hvalue.2 c hmem] at h
  cases h

theorem isPasswordChar_of_isSchemeChar (h : isSchemeChar c = true) : isPasswordChar c = true :=
  isPasswordChar_of_isUserChar (isUserChar_of_isSchemeChar h)

/-- A password that shows in a text with masked options was in the text. -/
theorem password_of_maskOptions (h : PlainOptions text)
    (hrun : ∀ c ∈ run, isPasswordChar c = true)
    (hshown : options.replace text = run ++ '@' :: more) :
    ∃ password behind, text = password ++ '@' :: behind ∧
      (∀ c ∈ password, isPasswordChar c = true) ∧ (run ≠ [] → password ≠ []) := by
  induction text using Pattern.byScan options generalizing run with
  | nil =>
    rw [Pattern.replace_nil] at hshown
    cases run with
    | nil => cases hshown
    | cons c run => cases hshown
  | found text shown after hfind ih =>
    obtain ⟨name, value, hname, hvalue, hafter, rfl, rfl⟩ := find?_options_eq_some hfind
    rw [Pattern.replace_of_found hfind] at hshown
    obtain ⟨left, rfl, hleft⟩ :=
      exists_of_not_mem_left hshown (not_mem_maskedOption hname (by decide))
    have hsuffix : after <:+ name ++ '=' :: (value ++ after) :=
      ⟨name ++ '=' :: value, by simp⟩
    obtain ⟨password, behind, rfl, hpassword, -⟩ := ih (h.of_suffix hsuffix)
      (fun c hc => hrun c (List.mem_append_right _ hc)) hleft
    have hplain := all_option isPasswordChar_of_isSchemeChar (by decide) hname
      (h _ _ _ List.suffix_rfl hname hvalue hafter)
    exact ⟨name ++ '=' :: value ++ password, behind, by simp,
      List.forall_mem_append.mpr ⟨hplain, hpassword⟩, by simp⟩
  | kept c rest hfind ih =>
    rw [Pattern.replace_of_kept hfind] at hshown
    cases run with
    | nil =>
      obtain ⟨rfl, -⟩ := List.cons.inj hshown
      exact ⟨[], rest, rfl, by simp, by simp⟩
    | cons d run =>
      obtain ⟨rfl, htail⟩ := List.cons.inj hshown
      obtain ⟨hc, hrun⟩ := List.forall_mem_cons.mp hrun
      obtain ⟨password, behind, rfl, hpassword, -⟩ :=
        ih (h.of_suffix (List.suffix_cons c rest)) hrun htail
      exact ⟨c :: password, behind, rfl, List.forall_mem_cons.mpr ⟨hc, hpassword⟩, by simp⟩

/-- A user and a password that show in a text with masked options were in the text,
though a value may have had a colon that ended the user earlier. -/
theorem userinfo_of_maskOptions (h : PlainOptions text) {user password : List Char}
    (huser : ∀ c ∈ user, isUserChar c = true) (hpassword : IsRun isPasswordChar password)
    (hshown : options.replace text = user ++ ':' :: (password ++ '@' :: more)) :
    ∃ one two behind, text = one ++ ':' :: (two ++ '@' :: behind) ∧
      (∀ c ∈ one, isUserChar c = true) ∧ IsRun isPasswordChar two ∧ (user ≠ [] → one ≠ []) := by
  induction text using Pattern.byScan options generalizing user with
  | nil =>
    rw [Pattern.replace_nil] at hshown
    cases user with
    | nil => cases hshown
    | cons c user => cases hshown
  | found text shown after hfind ih =>
    obtain ⟨name, value, hname, hvalue, hafter, rfl, rfl⟩ := find?_options_eq_some hfind
    rw [Pattern.replace_of_found hfind] at hshown
    obtain ⟨left, rfl, hleft⟩ :=
      exists_of_not_mem_left hshown (not_mem_maskedOption hname (by decide))
    have hsuffix : after <:+ name ++ '=' :: (value ++ after) :=
      ⟨name ++ '=' :: value, by simp⟩
    obtain ⟨one, two, behind, rfl, hone, htwo, -⟩ := ih (h.of_suffix hsuffix)
      (fun c hc => huser c (List.mem_append_right _ hc)) hleft
    have hplain := h _ _ _ List.suffix_rfl hname hvalue hafter
    obtain ⟨first, rest, rfl, hfirst, hrest⟩ := exists_run isUserChar value
    have hsigned := all_option isUserChar_of_isSchemeChar (by decide) hname hfirst
    cases rest with
    | nil =>
      refine ⟨name ++ '=' :: first ++ one, two, behind, by simp, ?_, htwo, by simp⟩
      exact List.forall_mem_append.mpr ⟨hsigned, hone⟩
    | cons c rest =>
      obtain ⟨-, hboth⟩ := List.forall_mem_append.mp hplain
      obtain ⟨hc, htail⟩ := List.forall_mem_cons.mp hboth
      obtain rfl : c = ':' := by
        have hout := ends_cons.mp hrest
        simpa [isUserChar, hc] using hout
      refine ⟨name ++ '=' :: first, rest ++ one ++ ':' :: two, behind, by simp, hsigned, ?_,
        by simp⟩
      refine ⟨by simp, List.forall_mem_append.mpr ⟨List.forall_mem_append.mpr ⟨htail, ?_⟩, ?_⟩⟩
      · exact fun d hd => isPasswordChar_of_isUserChar (hone d hd)
      · exact List.forall_mem_cons.mpr ⟨by decide, htwo.2⟩
  | kept c rest hfind ih =>
    rw [Pattern.replace_of_kept hfind] at hshown
    have hrest := h.of_suffix (List.suffix_cons c rest)
    cases user with
    | nil =>
      obtain ⟨rfl, htail⟩ := List.cons.inj hshown
      obtain ⟨hne, hpassword⟩ := hpassword
      obtain ⟨two, behind, rfl, htwo, htwoNe⟩ := password_of_maskOptions hrest hpassword htail
      exact ⟨[], two, behind, rfl, by simp, ⟨htwoNe hne, htwo⟩, by simp⟩
    | cons d user =>
      obtain ⟨rfl, htail⟩ := List.cons.inj hshown
      obtain ⟨hc, huser⟩ := List.forall_mem_cons.mp huser
      obtain ⟨one, two, behind, rfl, hone, htwo, -⟩ := ih hrest huser htail
      exact ⟨c :: one, two, behind, rfl, List.forall_mem_cons.mpr ⟨hc, hone⟩, htwo, by simp⟩

/-- The scheme and the slashes of an address in a text with masked options were in the text. -/
theorem scheme_of_maskOptions (hrun : ∀ c ∈ run, isSchemeChar c = true)
    (h : options.replace rest = run ++ (slashes ++ more)) :
    ∃ behind, rest = run ++ (slashes ++ behind) ∧ more = options.replace behind := by
  rw [← List.append_assoc] at h
  rcases Pattern.replace_eq_append h with ⟨behind, hrest, hmore⟩ | hstarts
  · exact ⟨behind, by rw [hrest, List.append_assoc], hmore⟩
  · obtain ⟨before, part, found, shown, after, hleft, hne, -, hfound, hpart⟩ := hstarts
    obtain ⟨name, value, hname, -, -, -, rfl⟩ := find?_options_eq_some hfound
    have hsuffix : part <:+ run ++ slashes := ⟨before, hleft.symm⟩
    have hsign : '=' ∉ part := by
      intro hmem
      rcases List.mem_append.mp (hsuffix.subset hmem) with hmem | hmem
      · exact absurd rfl (ne_of_isSchemeChar (hrun '=' hmem) (by simp))
      · exact absurd hmem (by decide)
    have hlast : run ++ slashes = run ++ [':', '/'] ++ ['/'] := by simp [slashes]
    have hslash : '/' ∈ part := mem_of_suffix_concat (hlast ▸ hsuffix) hne
    have hboth : part ++ more = name ++ '=' :: (mask ++ options.replace after) := by
      simpa using hpart
    obtain ⟨left, rfl, -⟩ := exists_of_not_mem_left hboth hsign
    exact absurd rfl (ne_of_isSchemeChar (hname.all '/' (by simp [hslash])) (by simp))

/-- Masking options without a sign or a slash in their values joins nothing to a
user and a password. -/
theorem absent_maskOptions (h : userinfo.Absent text) (hplain : PlainOptions text) :
    userinfo.Absent (maskOptions text) := by
  rw [maskOptions_eq_replace]
  intro found hfound
  cases Pattern.tail_of_suffix hfound with
  | nil => exact userinfo.find?_nil
  | @shown _ _ _ part hsuffix hfind hne hpart =>
    obtain ⟨name, value, hname, -, -, -, rfl⟩ := find?_options_eq_some hfind
    have hlast : name ++ '=' :: mask = name ++ '=' :: "[REDACTED".toList ++ [']'] := by
      rw [List.append_assoc]
      rfl
    have hbracket := mem_of_suffix_concat (hlast ▸ hpart) hne
    have hcolon : ':' ∉ part := fun hmem =>
      not_mem_maskedOption hname (by decide) (hpart.subset hmem)
    exact find?_userinfo_of_break ⟨']', hbracket, isSchemeChar_eq_false (by simp)⟩ hcolon _
  | @kept c _ hsuffix hfind =>
    rw [Option.eq_none_iff_forall_ne_some]
    rintro ⟨shown, after⟩ hagain
    obtain ⟨scheme, start, hscheme, hsame, -, hafter⟩ := find?_userinfo_eq_some hagain
    obtain ⟨d, run, rfl⟩ := List.exists_cons_of_ne_nil hscheme.ne_nil
    obtain ⟨rfl, htail⟩ := List.cons.inj hsame
    obtain ⟨behind, rfl, rfl⟩ :=
      scheme_of_maskOptions (fun d hd => hscheme.all d (List.mem_cons_of_mem _ hd)) htail
    obtain ⟨user, password, huser, hpassword, hstart⟩ := afterUserinfo?_eq_some_iff.mp hafter
    have hbehind : behind <:+ c :: (run ++ (slashes ++ behind)) := ⟨c :: run ++ slashes, by simp⟩
    obtain ⟨one, two, host, rfl, hone, htwo, hne⟩ :=
      userinfo_of_maskOptions (hplain.of_suffix (hbehind.trans hsuffix)) huser.2 hpassword hstart
    have hpresent : afterUserinfo? (one ++ ':' :: (two ++ '@' :: host)) = some host :=
      afterUserinfo?_eq_some_iff.mpr ⟨one, two, ⟨hne huser.1, hone⟩, htwo, rfl⟩
    have hnone := h _ hsuffix
    rw [← List.cons_append] at hnone
    rw [afterUserinfo?_of_find?_eq_none hscheme hnone] at hpresent
    cases hpresent

/-! ### Passes over a text -/

theorem count_shown_userinfo (h : userinfo.find? text = some (shown, after)) :
    shown.count ':' + after.count ':' < text.count ':' := by
  obtain ⟨scheme, start, -, rfl, rfl, hafter⟩ := find?_userinfo_eq_some h
  obtain ⟨user, password, -, -, rfl⟩ := afterUserinfo?_eq_some_iff.mp hafter
  have hmask : (mask ++ ['@']).count ':' = 0 := by decide
  simp only [maskedAddress, List.count_append, List.count_cons_self, hmask]
  simp only [List.count_cons]
  omega

theorem toList_redactText (text : String) :
    (redactText text).toList = maskOptions (maskUserinfo text.toList) := by
  rw [redactText, String.toList_ofList]

/-- Once options are masked, masking addresses is all that another pass does. -/
theorem maskOptions_maskUserinfo (h : options.Settled text) :
    maskOptions (maskUserinfo text) = maskUserinfo text := by
  rw [maskOptions_eq_replace]
  exact Pattern.replace_of_settled (settled_maskUserinfo h)

theorem settled_redactText (text : String) : options.Settled (redactText text).toList := by
  rw [toList_redactText]
  exact settled_maskOptions _

theorem toList_redactText_redactText (text : String) :
    (redactText (redactText text)).toList = maskUserinfo (redactText text).toList := by
  rw [toList_redactText, maskOptions_maskUserinfo (settled_redactText text)]

/-- One pass is enough where, once addresses are masked, no option's value has a
slash or a sign in it. -/
theorem redactText_redactText_of_plain {text : String}
    (h : PlainOptions (maskUserinfo text.toList)) :
    redactText (redactText text) = redactText text := by
  have habsent : userinfo.Absent (redactText text).toList := by
    rw [toList_redactText]
    exact absent_maskOptions (absent_maskUserinfo _) h
  apply String.toList_inj.mp
  rw [toList_redactText_redactText, maskUserinfo_eq_replace, Pattern.replace_of_absent habsent]

/-- After one pass every option has the mask as its value. A second pass changes
the text exactly if the first has left an address with a user and a password in
it, which it never does where, once addresses are masked, no option's value has a
slash or a sign in it. A third pass changes nothing. -/
theorem redactText_settles (text : String) :
    options.Settled (redactText text).toList ∧
      (redactText (redactText text) = redactText text ↔
        userinfo.Absent (redactText text).toList) ∧
      redactText (redactText (redactText text)) = redactText (redactText text) ∧
      (PlainOptions (maskUserinfo text.toList) →
        redactText (redactText text) = redactText text) := by
  have hsecond := toList_redactText_redactText text
  refine ⟨settled_redactText text, ⟨?_, ?_⟩, ?_, redactText_redactText_of_plain⟩
  · intro hsame found hfound
    apply Classical.byContradiction
    intro hpresent
    have hless := Pattern.count_replace_lt count_shown_userinfo
      fun habsent : userinfo.Absent (redactText text).toList => hpresent (habsent found hfound)
    rw [← maskUserinfo_eq_replace, ← hsecond, hsame] at hless
    exact Nat.lt_irrefl _ hless
  · intro habsent
    apply String.toList_inj.mp
    rw [hsecond, maskUserinfo_eq_replace, Pattern.replace_of_absent habsent]
  · apply String.toList_inj.mp
    rw [toList_redactText_redactText, hsecond, maskUserinfo_eq_replace,
      Pattern.replace_of_absent (maskUserinfo_eq_replace _ ▸ absent_maskUserinfo _)]

/-- A slash in a value keeps a text from being read as a user and a password until
the value is masked. -/
theorem not_redactText_redactText_eq :
    ¬ ∀ text : String, redactText (redactText text) = redactText text := by
  intro hsame
  have hfirst : redactText "ftp://u:password=a/b&c@h" = "ftp://u:password=[REDACTED]&c@h" := by
    decide +kernel
  have hsecond : redactText "ftp://u:password=[REDACTED]&c@h" = "ftp://[REDACTED]@h" := by
    decide +kernel
  have hagain := hsame "ftp://u:password=a/b&c@h"
  rw [hfirst, hsecond] at hagain
  exact absurd hagain (by decide)

end EventPolicy.Redaction
