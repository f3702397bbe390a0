import EventPolicy.Proofs.Redaction.Userinfo

/-!
Password options. An option is a name in any case of letters, `=` and a value
up to the next `&` or blank. No name ends in another name, so an option starts
where its name does, and its value does not show whatever stands around it.
-/

namespace EventPolicy.Redaction

variable {text more seen name value other after shown rest : List Char} {c letter : Char}

/-- The small letter that a character of an option's name stands for. -/
def plainLetter (c : Char) : Char := if c = 'ſ' then 's' else c.toLower

/-- The name of an option, in any case of letters. -/
def IsOptionName (seen : List Char) : Prop := seen.map plainLetter ∈ optionNames

instance : DecidablePred IsOptionName :=
  fun seen => inferInstanceAs (Decidable (seen.map plainLetter ∈ optionNames))

theorem isLetter_iff (h : letter ≠ 'ſ') : isLetter letter c = true ↔ plainLetter c = letter := by
  by_cases hc : c = 'ſ'
  · subst hc
    have hlong : ('ſ' : Char).toLower ≠ letter := by
      have hsame : ('ſ' : Char).toLower = 'ſ' := by decide
      rw [hsame]
      exact Ne.symm h
    rw [isLetter, plainLetter, if_pos rfl, decide_eq_false hlong, Bool.false_or, decide_eq_true rfl,
      Bool.and_true, decide_eq_true_eq]
    exact eq_comm
  · simp [isLetter, plainLetter, hc]

theorem afterName?_eq_some_iff (h : 'ſ' ∉ name) :
    afterName? name text = some (seen, rest) ↔
      seen.map plainLetter = name ∧ text = seen ++ rest := by
  induction name generalizing text seen with
  | nil =>
    simp only [afterName?, Option.some.injEq, Prod.mk.injEq, List.map_eq_nil_iff]
    constructor
    · rintro ⟨rfl, rfl⟩
      exact ⟨rfl, rfl⟩
    · rintro ⟨rfl, rfl⟩
      exact ⟨rfl, rfl⟩
  | cons letter name ih =>
    obtain ⟨hletter, hname⟩ := not_or.mp (mt List.mem_cons.mpr h)
    have hiff : ∀ c, isLetter letter c = true ↔ plainLetter c = letter :=
      fun c => isLetter_iff (Ne.symm hletter)
    cases text with
    | nil =>
      constructor
      · intro hnone
        cases hnone
      · rintro ⟨hseen, hnil⟩
        obtain ⟨rfl, -⟩ := List.append_eq_nil_iff.mp hnil.symm
        cases hseen
    | cons c text =>
      rw [afterName?, Option.ite_none_right_eq_some, Option.map_eq_some_iff, hiff]
      constructor
      · rintro ⟨hc, ⟨others, behind⟩, hothers, hsame⟩
        obtain ⟨rfl, rfl⟩ := Prod.mk.inj hsame
        obtain ⟨rfl, rfl⟩ := (ih hname).mp hothers
        exact ⟨by rw [List.map_cons, hc], rfl⟩
      · rintro ⟨hseen, htext⟩
        cases seen with
        | nil => cases hseen
        | cons d seen =>
          obtain ⟨rfl, rfl⟩ := List.cons.inj htext
          obtain ⟨hc, hrest⟩ := List.cons.inj hseen
          exact ⟨hc, (seen, rest), (ih hname).mpr ⟨hrest, rfl⟩, rfl⟩

theorem isAlpha_of_toLower (h : c.toLower.isAlpha = true) : c.isAlpha = true := by
  by_cases hupper : c.isUpper = true
  · have hparts : c.isAlpha = (c.isUpper || c.isLower) := rfl
    rw [hparts, hupper, Bool.true_or]
  · have hsame : c.toLower = c := dif_neg fun hrange => hupper (decide_eq_true hrange)
    rwa [hsame] at h

/-- Only letters stand in the name of an option. -/
theorem IsOptionName.all (h : IsOptionName seen) : ∀ c ∈ seen, isSchemeChar c = true := by
  intro c hc
  have hletters : ∀ name ∈ optionNames, name.all Char.isAlpha = true := by decide
  have hplain : (plainLetter c).isAlpha = true :=
    List.all_eq_true.mp (hletters _ h) _ (List.mem_map_of_mem hc)
  by_cases hlong : c = 'ſ'
  · subst hlong
    decide +kernel
  · rw [plainLetter, if_neg hlong] at hplain
    exact isSchemeChar_of_startsScheme (isAlpha_of_toLower hplain)

theorem IsOptionName.ne_nil (h : IsOptionName seen) : seen ≠ [] := by
  rintro rfl
  exact absurd h (by decide)

/-- No name of an option ends in another name. -/
theorem IsOptionName.eq_nil_of_append (h : IsOptionName (text ++ name))
    (hname : IsOptionName name) : text = [] := by
  have hends : ∀ one ∈ optionNames, ∀ two ∈ optionNames, two <:+ one → two = one := by decide
  have hsuffix : name.map plainLetter <:+ (text ++ name).map plainLetter := by
    rw [List.map_append]
    exact List.suffix_append _ _
  have hsame := congrArg List.length (hends _ h _ hname hsuffix)
  simpa using hsame

theorem isBlank_eq_false_of_isSchemeChar (h : isSchemeChar c = true) : Text.isBlank c = false := by
  rw [Bool.eq_false_iff]
  intro hblank
  rw [isSchemeChar_of_isBlank hblank] at h
  cases h

theorem ne_of_isSchemeChar {d : Char} (h : isSchemeChar c = true)
    (hd : d ∈ [':', '/', '@', '=', '&', '[', ']']) : c ≠ d := by
  rintro rfl
  rw [isSchemeChar_eq_false hd] at h
  cases h

theorem isOptionChar_of_isSchemeChar (h : isSchemeChar c = true) : isOptionChar c = true := by
  have hand : c ≠ '&' := ne_of_isSchemeChar h (by simp)
  simp [isOptionChar, hand, isBlank_eq_false_of_isSchemeChar h]

theorem isUserChar_of_isSchemeChar (h : isSchemeChar c = true) : isUserChar c = true := by
  have hslash : c ≠ '/' := ne_of_isSchemeChar h (by simp)
  have hsign : c ≠ '@' := ne_of_isSchemeChar h (by simp)
  have hcolon : c ≠ ':' := ne_of_isSchemeChar h (by simp)
  simp [isUserChar, isPasswordChar, hslash, hsign, hcolon, isBlank_eq_false_of_isSchemeChar h]

/-- An option is a run of every class that has the letters of names, the sign and
the characters of the value in it. -/
theorem all_option {inRun : Char → Bool}
    (hletter : ∀ {c}, isSchemeChar c = true → inRun c = true) (hsign : inRun '=' = true)
    (hname : IsOptionName name) (hvalue : ∀ c ∈ value, inRun c = true) :
    ∀ c ∈ name ++ '=' :: value, inRun c = true :=
  List.forall_mem_append.mpr
    ⟨fun c hc => hletter (hname.all c hc), List.forall_mem_cons.mpr ⟨hsign, hvalue⟩⟩

theorem ends_sign (rest : List Char) : Ends isSchemeChar ('=' :: rest) :=
  ends_cons.mpr (isSchemeChar_eq_false (by simp))

/-- There is one way to cut a text at the sign after the name of an option. -/
theorem name_unique (hseen : IsOptionName seen) (hname : IsOptionName name)
    (h : seen ++ '=' :: rest = name ++ '=' :: more) : seen = name ∧ rest = more := by
  obtain ⟨rfl, hmore⟩ := run_unique hseen.all hname.all (ends_sign _) (ends_sign _) h
  exact ⟨rfl, List.tail_eq_of_cons_eq hmore⟩

theorem optionNamed?_eq_some {names : List (List Char)} (hnames : ∀ name ∈ names, 'ſ' ∉ name)
    (h : optionNamed? text names = some (seen, after)) :
    seen.map plainLetter ∈ names ∧ ∃ value, IsRun isOptionChar value ∧
      Ends isOptionChar after ∧ text = seen ++ '=' :: (value ++ after) := by
  induction names with
  | nil => cases h
  | cons name names ih =>
    obtain ⟨hname, hnames⟩ := List.forall_mem_cons.mp hnames
    have hlater : optionNamed? text names = some (seen, after) → _ := fun h =>
      (ih hnames h).imp_left (List.mem_cons_of_mem name)
    rw [optionNamed?] at h
    split at h
    · next found behind hfound =>
      split at h
      · exact hlater h
      · next hvalue =>
        obtain ⟨rfl, rfl⟩ := Prod.mk.inj (Option.some.inj h)
        obtain ⟨hplain, rfl⟩ := (afterName?_eq_some_iff hname).mp hfound
        obtain ⟨run, rest, rfl, hrun, hrest⟩ := exists_run isOptionChar behind
        rw [takeWhile_run hrun hrest] at hvalue
        rw [dropWhile_run hrun hrest]
        exact ⟨by rw [hplain]; exact List.mem_cons_self, run, ⟨by simpa using hvalue, hrun⟩, hrest,
          rfl⟩
    · exact hlater h

theorem optionNamed?_of_option {names : List (List Char)}
    (hnames : ∀ name ∈ names, name ∈ optionNames)
    (hseen : seen.map plainLetter ∈ names) (hvalue : IsRun isOptionChar value)
    (hafter : Ends isOptionChar after) :
    optionNamed? (seen ++ '=' :: (value ++ after)) names = some (seen, after) := by
  have hname : IsOptionName seen := hnames _ hseen
  have hplain : ∀ name ∈ optionNames, 'ſ' ∉ name := by decide
  induction names with
  | nil => cases hseen
  | cons first names ih =>
    obtain ⟨hfirst, hnames⟩ := List.forall_mem_cons.mp hnames
    rw [optionNamed?]
    split
    · next found behind hfound =>
      obtain ⟨hfound, htext⟩ := (afterName?_eq_some_iff (hplain _ hfirst)).mp hfound
      have hfoundName : IsOptionName found := by
        rw [IsOptionName, hfound]
        exact hfirst
      obtain ⟨rfl, rfl⟩ := name_unique hname hfoundName htext
      rw [takeWhile_run hvalue.2 hafter, dropWhile_run hvalue.2 hafter,
        if_neg (by simpa using hvalue.1)]
    · next hnone =>
      rcases List.mem_cons.mp hseen with hsame | hlater
      · have hfound := (afterName?_eq_some_iff (hplain _ hfirst)).mpr
          ⟨hsame, (rfl : seen ++ '=' :: (value ++ after) = _)⟩
        exact absurd hfound (hnone _ _)
      · exact ih hnames hlater

/-- Password options, shown with their values masked. -/
def options : Pattern where
  find? text := (optionAt? text).map fun result => (result.1 ++ '=' :: mask, result.2)
  proper h := by
    obtain ⟨⟨seen, after⟩, hfind, hsame⟩ := Option.map_eq_some_iff.mp h
    obtain ⟨-, rfl⟩ := Prod.mk.inj hsame
    obtain ⟨-, value, -, -, rfl⟩ := optionNamed?_eq_some (by decide) hfind
    exact ⟨seen ++ '=' :: value, by simp, by simp⟩
  head_eq h := by
    obtain ⟨⟨seen, after⟩, hfind, hsame⟩ := Option.map_eq_some_iff.mp h
    obtain ⟨rfl, -⟩ := Prod.mk.inj hsame
    obtain ⟨-, value, -, -, rfl⟩ := optionNamed?_eq_some (by decide) hfind
    cases seen with
    | nil => rfl
    | cons c seen => rfl

theorem find?_options (hname : IsOptionName name) (hvalue : IsRun isOptionChar value)
    (hafter : Ends isOptionChar after) :
    options.find? (name ++ '=' :: (value ++ after)) = some (name ++ '=' :: mask, after) := by
  have hfind := optionNamed?_of_option (fun _ => id) hname hvalue hafter
  simp [options, optionAt?, hfind]

/-- An option at the start of a text, read off the text. -/
theorem find?_options_eq_some (h : options.find? text = some (shown, after)) :
    ∃ name value, IsOptionName name ∧ IsRun isOptionChar value ∧ Ends isOptionChar after ∧
      text = name ++ '=' :: (value ++ after) ∧ shown = name ++ '=' :: mask := by
  obtain ⟨⟨seen, behind⟩, hfind, hsame⟩ := Option.map_eq_some_iff.mp h
  obtain ⟨rfl, rfl⟩ := Prod.mk.inj hsame
  obtain ⟨hseen, value, hvalue, hafter, htext⟩ := optionNamed?_eq_some (by decide) hfind
  exact ⟨seen, value, hseen, hvalue, hafter, htext, rfl⟩

/-- An option without a value is none. -/
theorem find?_options_eq_none (hname : IsOptionName name) (hmore : Ends isOptionChar more) :
    options.find? (name ++ '=' :: more) = none := by
  rw [Option.eq_none_iff_forall_ne_some]
  rintro ⟨shown, after⟩ h
  obtain ⟨seen, value, hseen, ⟨hne, hvalue⟩, -, htext, -⟩ := find?_options_eq_some h
  obtain ⟨-, rfl⟩ := name_unique hname hseen htext
  cases value with
  | nil => exact hne rfl
  | cons c value =>
    have hc := hvalue c List.mem_cons_self
    rw [ends_cons.mp hmore] at hc
    cases hc

theorem maskOptions_eq_replace (text : List Char) : maskOptions text = options.replace text := by
  apply Pattern.eq_replace maskOptionsFrom (fun _ => rfl) (fun _ => rfl) ?_ ?_ (Nat.le_refl _)
  · intro steps c rest shown after h
    obtain ⟨⟨seen, behind⟩, hfind, hsame⟩ := Option.map_eq_some_iff.mp h
    obtain ⟨rfl, rfl⟩ := Prod.mk.inj hsame
    simp [maskOptionsFrom, hfind]
  · intro steps c rest h
    rw [maskOptionsFrom, Option.map_eq_none_iff.mp h]

/-- An option in a text of two parts has its `=` in the first part, or its whole
name ends in what the second part has before its first `=`. -/
theorem option_cases (hname : IsOptionName name) (hseen : IsOptionName seen)
    (h : text ++ (name ++ '=' :: more) = seen ++ '=' :: rest) :
    (∃ behind, text = seen ++ '=' :: behind) ∨ text = [] := by
  rcases List.append_eq_append_iff.mp h with ⟨part, rfl, hmore⟩ | ⟨part, htext, hrest⟩
  · have hpart : ∀ c ∈ part, isSchemeChar c = true :=
      fun c hc => hseen.all c (List.mem_append_right _ hc)
    obtain ⟨rfl, -⟩ := run_unique hname.all hpart (ends_sign _) (ends_sign _) hmore
    exact .inr (hseen.eq_nil_of_append hname)
  · cases part with
    | nil =>
      obtain ⟨c, name, rfl⟩ := List.exists_cons_of_ne_nil hname.ne_nil
      obtain ⟨rfl, -⟩ := List.cons.inj hrest
      exact absurd rfl (ne_of_isSchemeChar (hname.all '=' List.mem_cons_self) (by simp))
    | cons c behind =>
      obtain ⟨rfl, -⟩ := List.cons.inj hrest
      exact .inl ⟨behind, htext⟩

/-- The same is found before an option, whatever value it has. -/
theorem sameFind_options (hname : IsOptionName name) (hvalue : IsRun isOptionChar value)
    (hother : IsRun isOptionChar other) (hrest : Ends isOptionChar rest) (htext : text ≠ []) :
    options.SameFind (name ++ '=' :: (value ++ rest)) (name ++ '=' :: (other ++ rest)) text := by
  by_cases hbefore : ∃ seen behind, IsOptionName seen ∧ text = seen ++ '=' :: behind
  · obtain ⟨seen, behind, hseen, rfl⟩ := hbefore
    obtain ⟨run, tail, rfl, hrun, htail⟩ := exists_run isOptionChar behind
    cases tail with
    | nil =>
      -- The value of the option before goes on through this one.
      have hfind : ∀ next, IsRun isOptionChar next →
          options.find? (seen ++ '=' :: (run ++ []) ++ (name ++ '=' :: (next ++ rest))) =
            some (seen ++ '=' :: mask, rest) := by
        rintro next ⟨-, hnext⟩
        have hoption := all_option isOptionChar_of_isSchemeChar (by decide) hname hnext
        have hwhole : IsRun isOptionChar (run ++ (name ++ '=' :: next)) :=
          ⟨by simp, List.forall_mem_append.mpr ⟨hrun, hoption⟩⟩
        rw [← find?_options hseen hwhole hrest]
        simp
      exact .of_eq (by rw [hfind value hvalue, hfind other hother])
    | cons c tail =>
      have hparts : ∀ next, seen ++ '=' :: (run ++ c :: tail) ++ next =
          seen ++ '=' :: (run ++ (c :: tail ++ next)) := by simp
      have hends : ∀ next, Ends isOptionChar (c :: tail ++ next) :=
        fun next => ends_cons.mpr (ends_cons.mp htail)
      apply Pattern.SameFind.of_find
      intro next
      rw [hparts]
      by_cases hempty : run = []
      · subst hempty
        rw [List.nil_append, List.nil_append, find?_options_eq_none hseen (hends next),
          find?_options_eq_none hseen htail, Option.map_none]
      · rw [find?_options hseen ⟨hempty, hrun⟩ (hends next),
          find?_options hseen ⟨hempty, hrun⟩ htail, Option.map_some]
  · have hnone : ∀ next, options.find? (text ++ (name ++ '=' :: next)) = none := by
      intro next
      rw [Option.eq_none_iff_forall_ne_some]
      rintro ⟨shown, after⟩ h
      obtain ⟨seen, found, hseen, -, -, hsame, -⟩ := find?_options_eq_some h
      rcases option_cases hname hseen hsame with ⟨behind, hbehind⟩ | hempty
      · exact hbefore ⟨seen, behind, hseen, hbehind⟩
      · exact htext hempty
    exact .absent (hnone _) (hnone _)

/-- The value of an option does not show, whatever stands around the option. -/
theorem maskOptions_congr (before : List Char) (hname : IsOptionName name)
    (hvalue : IsRun isOptionChar value) (hother : IsRun isOptionChar other)
    (hrest : Ends isOptionChar rest) :
    maskOptions (before ++ (name ++ '=' :: (value ++ rest))) =
      maskOptions (before ++ (name ++ '=' :: (other ++ rest))) := by
  have hends : options.replace (name ++ '=' :: (value ++ rest)) =
      options.replace (name ++ '=' :: (other ++ rest)) := by
    rw [Pattern.replace_of_found (find?_options hname hvalue hrest),
      Pattern.replace_of_found (find?_options hname hother hrest)]
  rw [maskOptions_eq_replace, maskOptions_eq_replace]
  apply Pattern.replace_append_alike (fun _ => rfl) (fun _ _ _ h => congrArg _ h) hends
  intro found hne _
  exact sameFind_options hname hvalue hother hrest hne

end EventPolicy.Redaction
