import EventPolicy.Proofs.Compiler.Lenient

/-!
Which keys compile to the same scopes. What a key and its value say is read off
their texts in `SameRule`, dialect by dialect, and two keys that compile have
equal scopes exactly when they say the same. So nothing is lost on the way from
a key to its scopes but the action, the word that an exchange key has in its
place, the letter case of the event, and the order of context patterns.
-/

namespace EventPolicy

namespace Scope

theorem byEvent_injective {kind other : EventKind} (h : byEvent kind = byEvent other) :
    kind = other := by
  have hvalues : ValueSet.ofList [kind.name] = ValueSet.ofList [other.name] := congrArg values h
  have hname := (ValueSet.ofList_eq_iff.mp hvalues kind.name).mp List.mem_cons_self
  exact EventKind.name_injective (List.mem_singleton.mp hname)

theorem byExpression_eq_iff {element : Element} {language other expression another : String} :
    byExpression element language expression = byExpression element other another ↔
      language = other ∧ expression = another := by
  simp [byExpression]

theorem byPattern_eq_iff {element : Element} {pattern other : String} :
    byPattern element pattern = byPattern element other ↔ pattern = other := by
  simp [byPattern, byExpression_eq_iff]

end Scope

namespace Text

/-- Texts of the same number of pieces are joined differently unless the pieces
are the same, even if the last piece has separators of its own. -/
theorem join_injective_of_length (separator : Char) {pieces others : List String} {limit : Nat}
    (hpieces : pieces.length = limit + 1) (hothers : others.length = limit + 1)
    (hfree : ∀ piece ∈ pieces.dropLast, separator ∉ piece.toList)
    (halso : ∀ piece ∈ others.dropLast, separator ∉ piece.toList)
    (hjoin : join (.singleton separator) pieces = join (.singleton separator) others) :
    pieces = others := by
  have hcut := (pieces_eq_iff hpieces).mpr ⟨rfl, hfree⟩
  exact hcut.symm.trans ((pieces_eq_iff hothers).mpr ⟨hjoin, halso⟩)

end Text

namespace Dialect

theorem expressions_places {location : List String} (hlocation : location.length ≤ 2) :
    (places location).map Scope.expression = location.map some := by
  match location, hlocation with
  | [], _ => rfl
  | [_], _ => rfl
  | [_, _], _ => rfl

theorem places_injective {location other : List String} (hlocation : location.length ≤ 2)
    (hother : other.length ≤ 2) (h : places location = places other) : location = other := by
  have hmapped : location.map some = other.map some := by
    rw [← expressions_places hlocation, h, expressions_places hother]
  exact (List.map_inj_right fun _ _ => Option.some.inj).mp hmapped

theorem elements_determine_qualifier {qualifier other : Qualifier} {elements : List Element}
    (h : elements ∈ elementsOf qualifier) (hother : elements ∈ elementsOf other) :
    qualifier = other := by
  revert elements
  cases qualifier <;> cases other <;> decide

/-- What follows the first part of an endpoint key: nothing, or a slash and the
other parts. -/
def tailOf : List String → String
  | [] => ""
  | part :: rest => "/" ++ Text.join "/" (part :: rest)

theorem join_eq_append_tailOf (part : String) (location : List String) :
    Text.join "/" (part :: location) = part ++ tailOf location := by
  cases location with
  | nil => simp [Text.join, tailOf]
  | cons first rest => rw [Text.join, tailOf, String.append_assoc]

/-- Nothing, or a text that begins with a slash. -/
def IsTail (tail : String) : Prop := tail = "" ∨ ∃ rest, tail = "/" ++ rest

theorem isTail_tailOf (location : List String) : IsTail (tailOf location) := by
  cases location with
  | nil => exact .inl rfl
  | cons part rest => exact .inr ⟨_, rfl⟩

/-- A tail is what stands in a text from its first slash on. -/
theorem dropWhile_of_isTail {action tail : String} (haction : '/' ∉ action.toList)
    (htail : IsTail tail) : (action ++ tail).toList.dropWhile (· ≠ '/') = tail.toList := by
  have hbefore : ∀ c ∈ action.toList, decide (c ≠ '/') = true := by
    intro c hc
    exact decide_eq_true fun hslash => haction (hslash ▸ hc)
  rw [String.toList_append, List.dropWhile_append_of_pos hbefore]
  rcases htail with rfl | ⟨rest, rfl⟩ <;> simp

theorem eq_tailOf {action tail part : String} {location : List String}
    (haction : '/' ∉ action.toList) (htail : IsTail tail) (hpart : '/' ∉ part.toList)
    (h : action ++ tail = Text.join "/" (part :: location)) : tail = tailOf location := by
  rw [join_eq_append_tailOf] at h
  have hfirst := dropWhile_of_isTail haction htail
  rw [h, dropWhile_of_isTail hpart (isTail_tailOf location)] at hfirst
  exact (String.toList_inj.mp hfirst).symm

theorem parts_injective {part first : String} {location others : List String}
    (hparts : ∀ piece ∈ part :: location, Part piece)
    (hothers : ∀ piece ∈ first :: others, Part piece)
    (h : Text.join "/" (part :: location) = Text.join "/" (first :: others)) :
    part :: location = first :: others :=
  Text.join_injective (List.cons_ne_nil _ _) (List.cons_ne_nil _ _)
    (fun piece hpiece => (hparts piece hpiece).unslashed)
    (fun piece hpiece => (hothers piece hpiece).unslashed) h

theorem tailOf_injective {location other : List String} (hparts : ∀ part ∈ location, Part part)
    (hother : ∀ part ∈ other, Part part) (h : tailOf location = tailOf other) :
    location = other := by
  match location, other with
  | [], [] => rfl
  | [], part :: rest => simp [tailOf] at h
  | part :: rest, [] => simp [tailOf] at h
  | part :: rest, first :: others =>
    exact parts_injective hparts hother (by simpa [tailOf] using h)

end Dialect

namespace Listing

open Dialect

theorem compileEntry_eq_compiled_iff {lenient : Bool} {key text : String} {policy : Policy} :
    compileEntry lenient key (.string text) = .compiled policy ↔
      Translates key text (.ok policy) := by
  constructor
  · intro h
    rcases unknownQualifier_or_translates key text with hunknown | ⟨result, htranslates, hresult⟩
    · rw [compileEntry_of_unknownQualifier hunknown] at h
      cases h
    · rw [compileEntry_of_translates htranslates] at h
      cases hresult with
      | policy action scopes =>
        cases h
        exact htranslates
      | unknownEvent word => cases h
      | malformedKey reason => cases lenient <;> cases h
  · intro h
    rw [compileEntry_of_translates h]
    rfl

/-- A key that compiles is one that its dialect reads. -/
theorem reads_of_compiled {lenient : Bool} {key text : String} {policy : Policy}
    (h : compileEntry lenient key (.string text) = .compiled policy) :
    ∃ qualifier remainder draft, key = Text.join "." [qualifier.spelling, remainder] ∧
      Reads remainder text qualifier draft ∧
      policy = ⟨draft.action, draft.scopes, some key⟩ := by
  obtain ⟨qualifier, remainder, hcut, hpolicy⟩ := compileEntry_eq_compiled_iff.mp h
  obtain ⟨draft, hdraft, hpolicy⟩ := policyOf_eq_ok_iff.mp hpolicy
  have hreads := reads_of_draftOf hdraft
  have hkey := (partition_eq_spelling_iff hreads.inOrder.remainder_ne_empty qualifier).mp hcut
  exact ⟨qualifier, remainder, draft, hkey, hreads, hpolicy⟩

theorem qualified_injective {qualifier other : Qualifier} {remainder rest : String}
    (h : Text.join "." [qualifier.spelling, remainder] = Text.join "." [other.spelling, rest]) :
    qualifier = other ∧ remainder = rest := by
  have hundotted (named : Qualifier) : '.' ∉ named.spelling.toList := by cases named <;> decide
  have hsame : [qualifier.spelling, remainder] = [other.spelling, rest] :=
    Text.join_injective_of_length '.' rfl rfl (by simp [hundotted]) (by simp [hundotted]) h
  obtain ⟨hspelling, hremainder⟩ : qualifier.spelling = other.spelling ∧ remainder = rest := by
    simpa using hsame
  have hqualifier := Qualifier.ofSpelling?_eq_some_iff.mpr hspelling
  rw [Qualifier.ofSpelling?_eq_some_iff.mpr rfl] at hqualifier
  exact ⟨Option.some.inj hqualifier, hremainder⟩

/-- A key of a dialect that names an event: behind the qualifier stands a segment
without dots, then the word for the event, then what is left. -/
def Names (key qualifier word rest : String) : Prop :=
  ∃ segment, key = Text.join "." [qualifier, segment, word, rest] ∧
    '.' ∉ segment.toList ∧ '.' ∉ word.toList

/-- A key of an endpoint, with what stands in it from its first slash on. -/
def EndsWith (key tail : String) : Prop :=
  ∃ action, key = Text.join "." ["endpoint", action ++ tail] ∧ '/' ∉ action.toList ∧ IsTail tail

/-- Two keys with their values say the same, but for their actions. -/
inductive SameRule (key value other text : String) : Prop
  | camelContext {action another : String} (hkey : key = Text.join "." ["camelContext", action])
      (hother : other = Text.join "." ["camelContext", another])
      (hwords : ∀ word, word ∈ Text.words value ↔ word ∈ Text.words text) :
      SameRule key value other text
  | event {word also bundle : String} {kind : EventKind} (hkey : Names key "event" word bundle)
      (hother : Names other "event" also bundle) (hword : EventKind.resolve? word = some kind)
      (halso : EventKind.resolve? also = some kind) (hvalue : value = text) :
      SameRule key value other text
  | exchange {word also specification : String} {kind : EventKind}
      (hkey : Names key "exchange" word specification)
      (hother : Names other "exchange" also specification)
      (hword : EventKind.resolve? word = some kind)
      (halso : EventKind.resolve? also = some kind) (hvalue : value = text) :
      SameRule key value other text
  | endpoint {tail : String} (hkey : EndsWith key tail) (hother : EndsWith other tail)
      (hvalue : value = text) : SameRule key value other text

/-- The segments of a text with three of them are found again. -/
theorem segments_injective {first second last other another rest : String}
    (hfirst : '.' ∉ first.toList) (hsecond : '.' ∉ second.toList) (hother : '.' ∉ other.toList)
    (hanother : '.' ∉ another.toList)
    (h : Text.join "." [first, second, last] = Text.join "." [other, another, rest]) :
    second = another ∧ last = rest := by
  have hsame : [first, second, last] = [other, another, rest] :=
    Text.join_injective_of_length '.' rfl rfl (by simp [hfirst, hsecond])
      (by simp [hother, hanother]) h
  simp_all

/-- What is read behind a qualifier that a compiled key is known to have. -/
theorem reads_behind (qualifier : Qualifier) {lenient : Bool} {key value remainder : String}
    {policy : Policy} (hcompiled : compileEntry lenient key (.string value) = .compiled policy)
    (hkey : key = Text.join "." [qualifier.spelling, remainder]) :
    ∃ draft, Reads remainder value qualifier draft ∧ policy.scopes = draft.scopes := by
  obtain ⟨other, rest, draft, hqualified, hreads, rfl⟩ := reads_of_compiled hcompiled
  obtain ⟨rfl, rfl⟩ := qualified_injective (hkey.symm.trans hqualified)
  exact ⟨draft, hreads, rfl⟩

theorem scopes_of_camelContext {lenient : Bool} {key value action : String} {policy : Policy}
    (hcompiled : compileEntry lenient key (.string value) = .compiled policy)
    (hkey : key = Text.join "." ["camelContext", action]) :
    policy.scopes = [.byContexts (Text.words value)] := by
  obtain ⟨draft, hreads, hscopes⟩ := reads_behind .camelContext hcompiled hkey
  cases hreads
  exact hscopes

theorem scopes_of_event {lenient : Bool} {key value word bundle : String} {policy : Policy}
    (hcompiled : compileEntry lenient key (.string value) = .compiled policy)
    (hkey : Names key "event" word bundle) {kind : EventKind}
    (hkind : EventKind.resolve? word = some kind) :
    policy.scopes = [.byEvent kind, .byPattern .bundle bundle, .byPattern .context value] := by
  obtain ⟨segment, hkey, hsegment, hword⟩ := hkey
  obtain ⟨draft, hreads, hscopes⟩ := reads_behind .event hcompiled hkey
  cases hreads with
  | event hform hnamed =>
    obtain ⟨rfl, rfl⟩ := segments_injective hsegment hword hform.action.undotted
      hform.word.undotted hform.remainder_eq
    cases hnamed.symm.trans hkind
    exact hscopes

theorem scopes_of_exchange {lenient : Bool} {key value word specification : String}
    {policy : Policy} (hcompiled : compileEntry lenient key (.string value) = .compiled policy)
    (hkey : Names key "exchange" word specification) {kind : EventKind}
    (hkind : EventKind.resolve? word = some kind) :
    ∃ language location, specification = Text.join "/" (language :: location) ∧
      (∀ part ∈ language :: location, Part part) ∧
      policy.scopes =
        .byEvent kind :: .byExpression .exchange language value :: places location := by
  obtain ⟨segment, hkey, hsegment, hword⟩ := hkey
  obtain ⟨draft, hreads, hscopes⟩ := reads_behind .exchange hcompiled hkey
  cases hreads with
  | exchange hform hnamed =>
    obtain ⟨rfl, rfl⟩ := segments_injective hsegment hword hform.filter.undotted
      hform.word.undotted hform.remainder_eq
    cases hnamed.symm.trans hkind
    exact ⟨_, _, rfl, hform.parts, hscopes⟩

theorem scopes_of_endpoint {lenient : Bool} {key value tail : String} {policy : Policy}
    (hcompiled : compileEntry lenient key (.string value) = .compiled policy)
    (hkey : EndsWith key tail) :
    ∃ location, tail = tailOf location ∧ (∀ part ∈ location, Part part) ∧
      policy.scopes = .byPattern .endpoint value :: places location := by
  obtain ⟨action, hkey, haction, htail⟩ := hkey
  obtain ⟨draft, hreads, hscopes⟩ := reads_behind .endpoint hcompiled hkey
  cases hreads with
  | @endpoint first location hform =>
    have hfirst := (hform.parts first List.mem_cons_self).unslashed
    exact ⟨location, eq_tailOf haction htail hfirst hform.remainder_eq,
      fun part hpart => hform.parts part (List.mem_cons_of_mem _ hpart), hscopes⟩

theorem names_of_segments {qualifier segment word rest remainder : String}
    (hremainder : remainder = Text.join "." [segment, word, rest]) (hsegment : Segment segment)
    (hword : Segment word) : Names (Text.join "." [qualifier, remainder]) qualifier word rest :=
  ⟨segment, by rw [hremainder]; rfl, hsegment.undotted, hword.undotted⟩

theorem endsWith_of_form {remainder value action : String} {location : List String}
    (h : EndpointForm remainder value action location) :
    EndsWith (Text.join "." ["endpoint", remainder]) (tailOf location) :=
  ⟨action, by rw [h.remainder_eq, join_eq_append_tailOf],
    (h.parts action List.mem_cons_self).unslashed, isTail_tailOf location⟩

/-- Keys whose drafts have the same scopes say the same. -/
theorem sameRule_of_reads {qualifier other : Qualifier} {remainder rest value text : String}
    {draft another : Draft} (hreads : Reads remainder value qualifier draft)
    (hagain : Reads rest text other another) (hscopes : draft.scopes = another.scopes) :
    SameRule (Text.join "." [qualifier.spelling, remainder]) value
      (Text.join "." [other.spelling, rest]) text := by
  obtain rfl : qualifier = other :=
    elements_determine_qualifier hreads.elements (hscopes ▸ hagain.elements)
  cases hreads with
  | camelContext hform =>
    cases hagain with
    | camelContext hother =>
      have hwords := Scope.byContexts_eq_iff.mp (List.singleton_inj.mp hscopes)
      exact .camelContext rfl rfl hwords
  | event hform hkind =>
    cases hagain with
    | event hother hsame =>
      simp only [List.cons.injEq, Scope.byPattern_eq_iff, and_true] at hscopes
      obtain ⟨hevent, rfl, rfl⟩ := hscopes
      obtain rfl := Scope.byEvent_injective hevent
      exact .event (names_of_segments hform.remainder_eq hform.action hform.word)
        (names_of_segments hother.remainder_eq hother.action hother.word) hkind hsame rfl
  | exchange hform hkind =>
    cases hagain with
    | exchange hother hsame =>
      simp only [List.cons.injEq, Scope.byExpression_eq_iff] at hscopes
      obtain ⟨hevent, ⟨rfl, rfl⟩, hplaces⟩ := hscopes
      obtain rfl := Scope.byEvent_injective hevent
      obtain rfl := places_injective hform.location hother.location hplaces
      exact .exchange (names_of_segments hform.remainder_eq hform.filter hform.word)
        (names_of_segments hother.remainder_eq hother.filter hother.word) hkind hsame rfl
  | endpoint hform =>
    cases hagain with
    | endpoint hother =>
      simp only [List.cons.injEq, Scope.byPattern_eq_iff] at hscopes
      obtain ⟨rfl, hplaces⟩ := hscopes
      obtain rfl := places_injective hform.location hother.location hplaces
      exact .endpoint (endsWith_of_form hform) (endsWith_of_form hother) rfl

/-- Two keys that compile, each in a strict or a lenient build, have equal scopes
exactly when they say the same: their qualifiers agree, and of a camelContext key
the words of the value, of an event key the kind of event, the bundle and the
value, of an exchange key the kind of event, all behind it and the value, of an
endpoint key all from the first slash on and the value. -/
theorem scopes_eq_iff {lenient later : Bool} {key value other text : String}
    {policy another : Policy}
    (hcompiled : compileEntry lenient key (.string value) = .compiled policy)
    (hother : compileEntry later other (.string text) = .compiled another) :
    policy.scopes = another.scopes ↔ SameRule key value other text := by
  constructor
  · intro hscopes
    obtain ⟨qualifier, remainder, draft, hkey, hreads, rfl⟩ := reads_of_compiled hcompiled
    obtain ⟨same, rest, also, hsecond, hagain, rfl⟩ := reads_of_compiled hother
    rw [hkey, hsecond]
    exact sameRule_of_reads hreads hagain hscopes
  · intro hsame
    cases hsame with
    | camelContext hfirst hsecond hwords =>
      rw [scopes_of_camelContext hcompiled hfirst, scopes_of_camelContext hother hsecond,
        Scope.byContexts_eq_iff.mpr hwords]
    | event hfirst hsecond hword halso hvalue =>
      rw [scopes_of_event hcompiled hfirst hword, scopes_of_event hother hsecond halso, hvalue]
    | exchange hfirst hsecond hword halso hvalue =>
      obtain ⟨language, location, hspecification, hparts, hscopes⟩ :=
        scopes_of_exchange hcompiled hfirst hword
      obtain ⟨named, places, hagain, halso, hothers⟩ := scopes_of_exchange hother hsecond halso
      obtain ⟨rfl, rfl⟩ : language = named ∧ location = places := by
        simpa using parts_injective hparts halso (hspecification.symm.trans hagain)
      rw [hscopes, hothers, hvalue]
    | endpoint hfirst hsecond hvalue =>
      obtain ⟨location, htail, hparts, hscopes⟩ := scopes_of_endpoint hcompiled hfirst
      obtain ⟨places, hagain, halso, hothers⟩ := scopes_of_endpoint hother hsecond
      obtain rfl := tailOf_injective hparts halso (htail.symm.trans hagain)
      rw [hscopes, hothers, hvalue]

/-- Neither the action nor the letters in which an event is spelled are seen in
the scopes; a long s has the capital of a short one. -/
theorem scopes_eq_of_letter_case :
    compileEntry false "event.include.routestart.org.acme" (.string "ctx*") =
        .compiled ⟨.includes,
          [.byEvent .routeStart, .byPattern .bundle "org.acme", .byPattern .context "ctx*"],
          some "event.include.routestart.org.acme"⟩ ∧
      compileEntry true "event.exclude.ROUTEſTART.org.acme" (.string "ctx*") =
        .compiled ⟨.excludes,
          [.byEvent .routeStart, .byPattern .bundle "org.acme", .byPattern .context "ctx*"],
          some "event.exclude.ROUTEſTART.org.acme"⟩ ∧
      SameRule "event.include.routestart.org.acme" "ctx*"
        "event.exclude.ROUTEſTART.org.acme" "ctx*" := by
  have hfirst : compileEntry false "event.include.routestart.org.acme" (.string "ctx*") =
      .compiled ⟨.includes,
        [.byEvent .routeStart, .byPattern .bundle "org.acme", .byPattern .context "ctx*"],
        some "event.include.routestart.org.acme"⟩ := by rfl
  have hsecond : compileEntry true "event.exclude.ROUTEſTART.org.acme" (.string "ctx*") =
      .compiled ⟨.excludes,
        [.byEvent .routeStart, .byPattern .bundle "org.acme", .byPattern .context "ctx*"],
        some "event.exclude.ROUTEſTART.org.acme"⟩ := by rfl
  exact ⟨hfirst, hsecond, (scopes_eq_iff hfirst hsecond).mp rfl⟩

end Listing

end EventPolicy
