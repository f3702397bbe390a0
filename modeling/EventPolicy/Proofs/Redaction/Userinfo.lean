import EventPolicy.Proofs.Redaction.Replacement

/-!
Users and passwords in addresses. An address is a scheme, `://`, a user, a
password and the sign before a host. What is shown of an address is its scheme,
whatever text stands before and behind it.
-/

namespace EventPolicy.Redaction

variable {text more start after shown scheme user password found : List Char} {c : Char}

/-- What stands between the scheme and the user of an address. -/
def slashes : List Char := [':', '/', '/']

/-- A letter, and word characters, `+`, `.` and `-` behind it. -/
def IsScheme : List Char → Prop
  | [] => False
  | c :: rest => startsScheme c = true ∧ ∀ d ∈ rest, isSchemeChar d = true

instance : DecidablePred IsScheme
  | [] => inferInstanceAs (Decidable False)
  | c :: rest => decidable_of_iff (startsScheme c = true ∧ rest.all isSchemeChar = true)
    (by rw [IsScheme, List.all_eq_true])

theorem isSchemeChar_of_startsScheme (h : startsScheme c = true) : isSchemeChar c = true := by
  have hword : Text.isWordChar c = true :=
    Text.isWordChar_of_isAlphanum (by rw [Char.isAlphanum, Bool.or_eq_true]; exact .inl h)
  simp [isSchemeChar, hword]

theorem isSchemeChar_eq_false (h : c ∈ [':', '/', '@', '=', '&', '[', ']']) :
    isSchemeChar c = false := by
  have hnone : [':', '/', '@', '=', '&', '[', ']'].any isSchemeChar = false := by decide +kernel
  simpa using List.any_eq_false.mp hnone c h

theorem ends_slashes (rest : List Char) : Ends isSchemeChar (slashes ++ rest) :=
  ends_cons.mpr (isSchemeChar_eq_false (by simp))

/-- No blank stands in the name of a scheme. -/
theorem isSchemeChar_of_isBlank (h : Text.isBlank c = true) : isSchemeChar c = false := by
  have hapart : ∀ range ∈ Text.blankRanges, ∀ other ∈ (43, 43) :: (45, 46) :: (95, 95) ::
      Text.alphanumericRanges, range.2 < other.1 ∨ other.2 < range.1 := by
    decide +kernel
  have hout := Text.inRanges_eq_false hapart h
  simp only [Text.inRanges, List.any_cons, Bool.or_eq_false_iff] at hout
  obtain ⟨hplus, hdash, hunderscore, hword⟩ := hout
  have hne : ∀ d : Char, c.toNat ≠ d.toNat → c ≠ d := fun d hd hsame => hd (hsame ▸ rfl)
  simp only [Bool.and_eq_false_iff, decide_eq_false_iff_not] at hplus hdash hunderscore
  have h1 : c ≠ '+' := hne _ (by change c.toNat ≠ 43; omega)
  have h2 : c ≠ '.' := hne _ (by change c.toNat ≠ 46; omega)
  have h3 : c ≠ '-' := hne _ (by change c.toNat ≠ 45; omega)
  have h4 : c ≠ '_' := hne _ (by change c.toNat ≠ 95; omega)
  simp [isSchemeChar, Text.isWordChar, Text.inRanges, hword, h1, h2, h3, h4]

theorem IsScheme.all (h : IsScheme scheme) : ∀ c ∈ scheme, isSchemeChar c = true := by
  cases scheme with
  | nil => cases h
  | cons c rest => exact List.forall_mem_cons.mpr ⟨isSchemeChar_of_startsScheme h.1, h.2⟩

theorem IsScheme.ne_nil (h : IsScheme scheme) : scheme ≠ [] := by
  rintro rfl
  exact h

theorem isPasswordChar_of_isUserChar (h : isUserChar c = true) : isPasswordChar c = true := by
  rw [isUserChar, Bool.and_eq_true] at h
  exact h.1

/-- What follows a user, a password and the sign before a host, read off the text. -/
theorem afterUserinfo?_eq_some_iff :
    afterUserinfo? text = some after ↔ ∃ user password, IsRun isUserChar user ∧
      IsRun isPasswordChar password ∧ text = user ++ ':' :: (password ++ '@' :: after) := by
  rw [afterUserinfo?, Option.bind_eq_some_iff]
  constructor
  · rintro ⟨behind, hfirst, hsecond⟩
    obtain ⟨user, huser, rfl⟩ := (afterRun?_eq_some_iff (by decide)).mp hfirst
    obtain ⟨password, hpassword, rfl⟩ := (afterRun?_eq_some_iff (by decide)).mp hsecond
    exact ⟨user, password, huser, hpassword, rfl⟩
  · rintro ⟨user, password, huser, hpassword, rfl⟩
    exact ⟨_, (afterRun?_eq_some_iff (by decide)).mpr ⟨user, huser, rfl⟩,
      (afterRun?_eq_some_iff (by decide)).mpr ⟨password, hpassword, rfl⟩⟩

/-- Where a text has a character that no password has, what follows a user and
a password goes on with what follows the text. -/
theorem afterUserinfo?_append (hbreak : ∃ c ∈ text, isPasswordChar c = false)
    (more : List Char) :
    afterUserinfo? (text ++ more) = (afterUserinfo? text).map (· ++ more) := by
  obtain ⟨c, hc, hout⟩ := hbreak
  have huser : isUserChar c = false := by simp [isUserChar, hout]
  rw [afterUserinfo?, afterUserinfo?, afterRun?_append ⟨c, hc, huser⟩]
  cases hfirst : afterRun? isUserChar ':' text with
  | none => rfl
  | some behind =>
    obtain ⟨user, ⟨_, hall⟩, rfl⟩ := (afterRun?_eq_some_iff (by decide)).mp hfirst
    have hbehind : c ∈ behind := by
      rcases List.mem_append.mp hc with hmem | hmem
      · rw [isPasswordChar_of_isUserChar (hall c hmem)] at hout
        cases hout
      · rcases List.mem_cons.mp hmem with rfl | hmem
        · exact absurd hout (by decide)
        · exact hmem
    exact afterRun?_append ⟨c, hbehind, hout⟩ more

/-- A password that goes on into the text ends in it, at the sign before a host. -/
def EndsPassword (text : List Char) : Prop :=
  ∃ run after, (∀ c ∈ run, isPasswordChar c = true) ∧ text = run ++ '@' :: after

theorem not_endsPassword (h : '@' ∉ text) : ¬ EndsPassword text := by
  rintro ⟨run, after, -, rfl⟩
  exact h (by simp)

/-- No user and password are found where what follows does not end a password. -/
theorem afterUserinfo?_eq_none (htext : ∀ c ∈ text, isPasswordChar c = true)
    (hmore : ¬ EndsPassword more) : afterUserinfo? (text ++ more) = none := by
  rw [Option.eq_none_iff_forall_ne_some]
  intro after h
  obtain ⟨user, password, ⟨_, huser⟩, ⟨_, hpassword⟩, hsame⟩ := afterUserinfo?_eq_some_iff.mp h
  have hparts : text ++ more = (user ++ ':' :: password) ++ '@' :: after := by simpa using hsame
  have hall : ∀ c ∈ user ++ ':' :: password, isPasswordChar c = true := by
    refine List.forall_mem_append.mpr ⟨?_, List.forall_mem_cons.mpr ⟨by decide, hpassword⟩⟩
    exact fun c hc => isPasswordChar_of_isUserChar (huser c hc)
  have hsign : '@' ∉ text := fun hmem => absurd (htext '@' hmem) (by decide)
  obtain ⟨run, hrun, rfl⟩ := exists_of_not_mem_left hparts hsign
  exact hmore ⟨run, after, fun c hc => hall c (by simp [hrun, hc]), rfl⟩

/-- What follows a user and a password does not depend on the characters in them
that may stand in a user. -/
theorem afterUserinfo?_congr {run other : List Char} (htext : ∀ c ∈ text, isPasswordChar c = true)
    (hrun : IsRun isUserChar run) (hother : IsRun isUserChar other) :
    afterUserinfo? (text ++ (run ++ more)) = afterUserinfo? (text ++ (other ++ more)) := by
  obtain ⟨user, rest, rfl, huser, hrest⟩ := exists_run isUserChar text
  cases rest with
  | nil =>
    have happend : ∀ {part : List Char}, IsRun isUserChar part →
        IsRun isUserChar (user ++ part) := by
      rintro part ⟨hne, hall⟩
      exact ⟨by simp [hne], List.forall_mem_append.mpr ⟨huser, hall⟩⟩
    rw [List.append_nil, afterUserinfo?, afterUserinfo?, ← List.append_assoc, ← List.append_assoc,
      afterRun?_run_append (happend hrun) (happend hother)]
  | cons c rest =>
    have hall : ∀ d ∈ rest, isPasswordChar d = true := fun d hd => htext d (by simp [hd])
    have hcolon : c = ':' := by
      have hc := htext c (by simp)
      have hout := ends_cons.mp hrest
      simpa [isUserChar, hc] using hout
    subst hcolon
    have happend : ∀ {part : List Char}, IsRun isUserChar part →
        IsRun isPasswordChar (rest ++ part) := by
      rintro part ⟨hne, hpart⟩
      have hpart := fun d hd => isPasswordChar_of_isUserChar (hpart d hd)
      exact ⟨by simp [hne], List.forall_mem_append.mpr ⟨hall, hpart⟩⟩
    have hsplit : ∀ part : List Char, afterUserinfo? (user ++ ':' :: rest ++ (part ++ more)) =
        (if user = [] then none else afterRun? isPasswordChar '@' (rest ++ part ++ more)) := by
      intro part
      have hends : Ends isUserChar (':' :: (rest ++ (part ++ more))) := ends_cons.mpr (by decide)
      rw [afterUserinfo?, afterRun?, List.append_assoc, List.cons_append, takeWhile_run huser hends,
        dropWhile_run huser hends]
      by_cases hnone : user = []
      · simp [hnone]
      · simp [hnone]
    rw [hsplit, hsplit, afterRun?_run_append (happend hrun) (happend hother)]

/-- Behind a scheme and `://`, only the user and the password decide. -/
theorem userinfoAt?_address (h : IsScheme scheme) :
    userinfoAt? (scheme ++ (slashes ++ start)) =
      (afterUserinfo? start).map fun after => (scheme ++ slashes, after) := by
  cases scheme with
  | nil => cases h
  | cons c rest =>
    have hends := ends_slashes start
    have hslashes : Text.afterWord? [':', '/', '/'] (slashes ++ start) = some start :=
      Text.afterWord?_eq_some_iff.mpr rfl
    rw [List.cons_append, userinfoAt?, if_pos h.1, takeWhile_run h.2 hends, dropWhile_run h.2 hends,
      hslashes]
    rfl

theorem userinfoAt?_eq_none
    (h : ∀ scheme start, IsScheme scheme → text ≠ scheme ++ (slashes ++ start)) :
    userinfoAt? text = none := by
  cases text with
  | nil => rfl
  | cons c rest =>
    rw [userinfoAt?]
    split
    · next hc =>
      have hslashes : Text.afterWord? [':', '/', '/'] (rest.dropWhile isSchemeChar) = none := by
        rw [Option.eq_none_iff_forall_ne_some]
        intro start hstart
        have hall : ∀ d ∈ rest.takeWhile isSchemeChar, isSchemeChar d = true :=
          fun d hd => List.all_eq_true.mp List.all_takeWhile d hd
        apply h (c :: rest.takeWhile isSchemeChar) start ⟨hc, hall⟩
        have hrest := Text.afterWord?_eq_some_iff.mp hstart
        exact congrArg _ ((List.takeWhile_append_dropWhile).symm.trans (congrArg _ hrest))
      rw [hslashes]
    · rfl

/-- An address at the start of a text, read off the text. -/
theorem userinfoAt?_eq_some_iff :
    userinfoAt? text = some (shown, after) ↔ ∃ scheme start, IsScheme scheme ∧
      text = scheme ++ (slashes ++ start) ∧ shown = scheme ++ slashes ∧
        afterUserinfo? start = some after := by
  constructor
  · intro h
    by_cases haddress : ∃ scheme start, IsScheme scheme ∧ text = scheme ++ (slashes ++ start)
    · obtain ⟨scheme, start, hscheme, rfl⟩ := haddress
      rw [userinfoAt?_address hscheme, Option.map_eq_some_iff] at h
      obtain ⟨after, hafter, hsame⟩ := h
      obtain ⟨rfl, rfl⟩ := Prod.mk.inj hsame
      exact ⟨scheme, start, hscheme, rfl, rfl, hafter⟩
    · rw [userinfoAt?_eq_none fun scheme start hscheme hsame =>
        haddress ⟨scheme, start, hscheme, hsame⟩] at h
      cases h
  · rintro ⟨scheme, start, hscheme, rfl, rfl, hafter⟩
    rw [userinfoAt?_address hscheme, hafter, Option.map_some]

/-- An address in a text of two parts has its `://` in the first part, or in the
second, or the second part starts within it. -/
theorem address_cases (h : text ++ more = scheme ++ (slashes ++ start)) :
    (∃ rest, text = scheme ++ (slashes ++ rest) ∧ start = rest ++ more) ∨
      (∃ part, scheme = text ++ part ∧ more = part ++ (slashes ++ start)) ∨
        more.head? = some ':' ∨ more.head? = some '/' := by
  rcases List.append_eq_append_iff.mp h with ⟨part, hscheme, hmore⟩ | ⟨rest, htext, hrest⟩
  · exact .inr (.inl ⟨part, hscheme, hmore⟩)
  · rcases List.append_eq_append_iff.mp hrest with ⟨behind, hbehind, hstart⟩ | ⟨part, hpart, hmore⟩
    · exact .inl ⟨behind, by rw [htext, hbehind], hstart⟩
    · cases part with
      | nil =>
        rw [List.append_nil] at hpart
        exact .inl ⟨[], by rw [htext, ← hpart, List.append_nil], hmore.symm⟩
      | cons c part =>
        have hc : c ∈ slashes := by simp [hpart]
        have hhead : more.head? = some c := by rw [hmore]; rfl
        rcases (by simpa [slashes] using hc : c = ':' ∨ c = '/') with rfl | rfl
        · exact .inr (.inr (.inl hhead))
        · exact .inr (.inr (.inr hhead))

/-- What is shown of an address with a user and a password. -/
def maskedAddress (scheme : List Char) : List Char := scheme ++ (slashes ++ (mask ++ ['@']))

/-- Addresses with a user and a password, shown with both masked. -/
def userinfo : Pattern where
  find? text := (userinfoAt? text).map fun result => (result.1 ++ (mask ++ ['@']), result.2)
  proper h := by
    obtain ⟨⟨shown, after⟩, hfind, hsame⟩ := Option.map_eq_some_iff.mp h
    obtain ⟨-, rfl⟩ := Prod.mk.inj hsame
    obtain ⟨scheme, start, -, rfl, -, hafter⟩ := userinfoAt?_eq_some_iff.mp hfind
    obtain ⟨user, password, -, -, rfl⟩ := afterUserinfo?_eq_some_iff.mp hafter
    exact ⟨scheme ++ slashes ++ user ++ ':' :: password ++ ['@'], by simp, by simp⟩
  head_eq h := by
    obtain ⟨⟨shown, after⟩, hfind, hsame⟩ := Option.map_eq_some_iff.mp h
    obtain ⟨rfl, -⟩ := Prod.mk.inj hsame
    obtain ⟨scheme, start, hscheme, rfl, rfl, -⟩ := userinfoAt?_eq_some_iff.mp hfind
    cases scheme with
    | nil => cases hscheme
    | cons c rest => rfl

theorem find?_userinfo (h : IsScheme scheme) :
    userinfo.find? (scheme ++ (slashes ++ start)) =
      (afterUserinfo? start).map fun after => (maskedAddress scheme, after) := by
  simp [userinfo, userinfoAt?_address h, Function.comp_def, maskedAddress]

theorem afterUserinfo?_of_find?_eq_none (h : IsScheme scheme)
    (hfind : userinfo.find? (scheme ++ (slashes ++ start)) = none) :
    afterUserinfo? start = none := by
  rw [find?_userinfo h, Option.map_eq_none_iff] at hfind
  exact hfind

/-- Where an address has a character behind its `://` that no password has, what
is found in it does not depend on what follows. -/
theorem find?_userinfo_append (h : IsScheme scheme) (hbreak : ∃ c ∈ start, isPasswordChar c = false)
    (more : List Char) : userinfo.find? (scheme ++ (slashes ++ start) ++ more) =
      (userinfo.find? (scheme ++ (slashes ++ start))).map
        fun result => (result.1, result.2 ++ more) := by
  rw [List.append_assoc, List.append_assoc, find?_userinfo h, find?_userinfo h,
    afterUserinfo?_append hbreak, Option.map_map, Option.map_map]
  rfl

theorem find?_userinfo_eq_none
    (h : ∀ scheme start, IsScheme scheme → text ≠ scheme ++ (slashes ++ start)) :
    userinfo.find? text = none := by
  simp [userinfo, userinfoAt?_eq_none h]

theorem find?_userinfo_eq_some (h : userinfo.find? text = some (shown, after)) :
    ∃ scheme start, IsScheme scheme ∧ text = scheme ++ (slashes ++ start) ∧
      shown = maskedAddress scheme ∧ afterUserinfo? start = some after := by
  obtain ⟨⟨seen, behind⟩, hfind, hsame⟩ := Option.map_eq_some_iff.mp h
  obtain ⟨rfl, rfl⟩ := Prod.mk.inj hsame
  obtain ⟨scheme, start, hscheme, htext, rfl, hafter⟩ := userinfoAt?_eq_some_iff.mp hfind
  exact ⟨scheme, start, hscheme, htext, List.append_assoc _ _ _, hafter⟩

theorem maskUserinfo_eq_replace (text : List Char) : maskUserinfo text = userinfo.replace text := by
  apply Pattern.eq_replace maskUserinfoFrom (fun _ => rfl) (fun _ => rfl) ?_ ?_ (Nat.le_refl _)
  · intro steps c rest shown after h
    obtain ⟨⟨scheme, behind⟩, hfind, hsame⟩ := Option.map_eq_some_iff.mp h
    obtain ⟨rfl, rfl⟩ := Prod.mk.inj hsame
    simp [maskUserinfoFrom, hfind]
  · intro steps c rest h
    rw [maskUserinfoFrom, Option.map_eq_none_iff.mp h]

/-- An address that starts before the scheme of another ends before that scheme,
because the slashes of the other stop it. -/
theorem sameFind_userinfo_of_before {first second : List Char} (hscheme : IsScheme scheme)
    {other rest : List Char} (hother : IsScheme other) :
    userinfo.SameFind (scheme ++ (slashes ++ first)) (scheme ++ (slashes ++ second))
      (other ++ (slashes ++ rest)) := by
  have hstop : ∃ c ∈ rest ++ (scheme ++ slashes), isPasswordChar c = false :=
    ⟨'/', by simp [slashes], by decide⟩
  have hfind : ∀ next,
      userinfo.find? (other ++ (slashes ++ rest) ++ (scheme ++ (slashes ++ next))) =
      ((afterUserinfo? (rest ++ (scheme ++ slashes))).map (· ++ next)).map
        fun after => (maskedAddress other, after) := by
    intro next
    rw [← afterUserinfo?_append hstop, ← find?_userinfo hother]
    simp
  cases hbehind : afterUserinfo? (rest ++ (scheme ++ slashes)) with
  | none => exact .absent (by rw [hfind, hbehind]; rfl) (by rw [hfind, hbehind]; rfl)
  | some behind =>
    obtain ⟨user, password, -, -, hparts⟩ := afterUserinfo?_eq_some_iff.mp hbehind
    rw [← List.append_assoc, ← List.cons_append, ← List.append_assoc, List.append_assoc] at hparts
    have hsign : '@' ∉ scheme ++ slashes := by
      intro hmem
      rcases List.mem_append.mp hmem with hmem | hmem
      · have hout := hscheme.all '@' hmem
        rw [isSchemeChar_eq_false (by simp)] at hout
        cases hout
      · simp [slashes] at hmem
    obtain ⟨left, -, rfl⟩ := exists_of_not_mem hparts hsign
    refine .before (maskedAddress other) left ?_ ?_
    · rw [hfind, hbehind]
      simp
    · rw [hfind, hbehind]
      simp

/-- An address is found, or none is, whatever user and password it has. -/
theorem sameFind_userinfo {first second : List Char} (hscheme : IsScheme scheme)
    (hfirst : afterUserinfo? first = some after) (hsecond : afterUserinfo? second = some after) :
    userinfo.SameFind (scheme ++ (slashes ++ first)) (scheme ++ (slashes ++ second)) text := by
  by_cases hbefore : ∃ other rest, IsScheme other ∧ text = other ++ (slashes ++ rest)
  · obtain ⟨other, rest, hother, rfl⟩ := hbefore
    exact sameFind_userinfo_of_before hscheme hother
  · by_cases hjoined : IsScheme (text ++ scheme)
    · have hfind : ∀ next, userinfo.find? (text ++ (scheme ++ (slashes ++ next))) =
          (afterUserinfo? next).map fun after => (maskedAddress (text ++ scheme), after) := by
        intro next
        rw [← find?_userinfo hjoined, List.append_assoc]
      exact .of_eq (by rw [hfind, hfind, hfirst, hsecond])
    · have hnone : ∀ next, userinfo.find? (text ++ (scheme ++ (slashes ++ next))) = none := by
        intro next
        apply find?_userinfo_eq_none
        intro other start hother hsame
        rcases address_cases hsame with ⟨rest, htext, -⟩ | ⟨part, rfl, hpart⟩ | hhead
        · exact hbefore ⟨other, rest, hother, htext⟩
        · have hall : ∀ c ∈ part, isSchemeChar c = true :=
            fun c hc => hother.all c (List.mem_append_right _ hc)
          obtain ⟨rfl, -⟩ := run_unique hscheme.all hall (ends_slashes _) (ends_slashes _) hpart
          exact hjoined hother
        · cases scheme with
          | nil => exact hscheme
          | cons c scheme =>
            obtain ⟨hletter, -⟩ := hscheme
            rcases hhead with hhead | hhead
            · obtain rfl := Option.some.inj hhead
              exact absurd hletter (by decide)
            · obtain rfl := Option.some.inj hhead
              exact absurd hletter (by decide)
      exact .absent (hnone first) (hnone second)

/-- Only what follows the user and the password of an address shows. -/
theorem maskUserinfo_congr (before : List Char) {first second : List Char}
    (hscheme : IsScheme scheme)
    (hfirst : afterUserinfo? first = some after) (hsecond : afterUserinfo? second = some after) :
    maskUserinfo (before ++ (scheme ++ (slashes ++ first))) =
      maskUserinfo (before ++ (scheme ++ (slashes ++ second))) := by
  have hends : userinfo.replace (scheme ++ (slashes ++ first)) =
      userinfo.replace (scheme ++ (slashes ++ second)) := by
    have hfound : ∀ start, afterUserinfo? start = some after →
        userinfo.replace (scheme ++ (slashes ++ start)) =
          maskedAddress scheme ++ userinfo.replace after := fun start hstart =>
      Pattern.replace_of_found (by rw [find?_userinfo hscheme, hstart, Option.map_some])
    rw [hfound first hfirst, hfound second hsecond]
  rw [maskUserinfo_eq_replace, maskUserinfo_eq_replace]
  apply Pattern.replace_append_alike (fun _ => rfl) (fun _ _ _ h => congrArg _ h) hends
  intro found _ _
  exact sameFind_userinfo hscheme hfirst hsecond

/-- The user and the password of an address do not show, whatever stands before
its scheme and behind the sign before its host. -/
theorem redactText_userinfo_eq (before scheme user password otherUser otherPassword rest : String)
    (hscheme : IsScheme scheme.toList)
    (huser : IsRun isUserChar user.toList) (hpassword : IsRun isPasswordChar password.toList)
    (hotherUser : IsRun isUserChar otherUser.toList)
    (hotherPassword : IsRun isPasswordChar otherPassword.toList) :
    redactText (before ++ scheme ++ "://" ++ user ++ ":" ++ password ++ "@" ++ rest) =
      redactText
        (before ++ scheme ++ "://" ++ otherUser ++ ":" ++ otherPassword ++ "@" ++ rest) := by
  have hbehind : ∀ {user password : String}, IsRun isUserChar user.toList →
      IsRun isPasswordChar password.toList →
        afterUserinfo? (user.toList ++ ':' :: (password.toList ++ '@' :: rest.toList)) =
          some rest.toList := fun huser hpassword =>
    afterUserinfo?_eq_some_iff.mpr ⟨_, _, huser, hpassword, rfl⟩
  have htext : ∀ user password : String,
      (before ++ scheme ++ "://" ++ user ++ ":" ++ password ++ "@" ++ rest).toList =
        before.toList ++ (scheme.toList ++ (slashes ++
          (user.toList ++ ':' :: (password.toList ++ '@' :: rest.toList)))) := by
    intro user password
    simp [slashes]
  have hsame := maskUserinfo_congr before.toList hscheme (hbehind huser hpassword)
    (hbehind hotherUser hotherPassword)
  rw [redactText, redactText, htext, htext, hsame]

/-- The password may have colons in it, and so may what stands before the scheme. -/
theorem redactText_userinfo_eq_of_colons :
    IsScheme "ftp+x".toList ∧ IsRun isUserChar "scott".toList ∧
      IsRun isPasswordChar "ti:ger".toList ∧ IsRun isUserChar "ann".toList ∧
        IsRun isPasswordChar "b".toList ∧
          redactText ("jms://a:" ++ "ftp+x" ++ "://" ++ "scott" ++ ":" ++ "ti:ger" ++ "@" ++
            "host/in?secret=s") =
          redactText ("jms://a:" ++ "ftp+x" ++ "://" ++ "ann" ++ ":" ++ "b" ++ "@" ++
            "host/in?secret=s") := by
  have hscheme : IsScheme "ftp+x".toList := by decide +kernel
  have huser : IsRun isUserChar "scott".toList := by decide +kernel
  have hpassword : IsRun isPasswordChar "ti:ger".toList := by decide +kernel
  have hotherUser : IsRun isUserChar "ann".toList := by decide +kernel
  have hotherPassword : IsRun isPasswordChar "b".toList := by decide +kernel
  exact ⟨hscheme, huser, hpassword, hotherUser, hotherPassword,
    redactText_userinfo_eq "jms://a:" "ftp+x" "scott" "ti:ger" "ann" "b" "host/in?secret=s" hscheme
      huser hpassword hotherUser hotherPassword⟩

end EventPolicy.Redaction
