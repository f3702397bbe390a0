import EventPolicy.Scope.Basic

/-!
Scopes of listed values. The number of different values decides the method where none
is given, and the check of the scope counts them again. Both counts come to whether
the values are all equal, so the builder and the check agree on every list: refused
are an empty list, the method by expression, and the method for one value where two
values differ. Of the list itself a scope shows the set of its values alone.
-/

namespace EventPolicy

/-- Whether a list has no two values that differ. -/
def AllEqual (values : List String) : Prop := ∀ a ∈ values, ∀ b ∈ values, a = b

instance : DecidablePred AllEqual :=
  fun values => inferInstanceAs (Decidable (∀ a ∈ values, ∀ b ∈ values, a = b))

namespace ValueSet

variable {values : List String}

theorem size_ofList_eq_zero_iff : (ofList values).size = 0 ↔ values = [] := by
  simp only [size, List.length_eq_zero_iff, List.eq_nil_iff_forall_not_mem, mem_ofList]

/-- The set of a list has one member exactly if the list has a value and no other. -/
theorem size_ofList_eq_one_iff : (ofList values).size = 1 ↔ values ≠ [] ∧ AllEqual values := by
  constructor
  · intro hone
    obtain ⟨only, honly⟩ := List.length_eq_one_iff.mp hone
    have hall : ∀ value, value ∈ values ↔ value = only := fun value => by
      rw [← mem_ofList, honly, List.mem_singleton]
    refine ⟨List.ne_nil_of_mem ((hall only).mpr rfl), fun a ha b hb => ?_⟩
    exact ((hall a).mp ha).trans ((hall b).mp hb).symm
  · rintro ⟨hfilled, hequal⟩
    obtain ⟨first, hfirst⟩ := List.exists_mem_of_ne_nil values hfilled
    have hset : ofList values = ofList [first] := by
      refine ofList_eq_iff.mpr fun value => ?_
      rw [List.mem_singleton]
      exact ⟨fun hvalue => hequal value hvalue first hfirst, fun hvalue => hvalue ▸ hfirst⟩
    rw [hset]
    rfl

end ValueSet

namespace Scope

variable {element : Element} {values others : List String} {method : Option Method}
  {scope : Scope}

/-- The scope of listed values that the check is made of. -/
def byValues (element : Element) (values : List String) (method : Method) : Scope :=
  ⟨element, method, ValueSet.ofList values, none, none⟩

/-- The method of listed values where none is given. -/
def inferred (values : List String) : Method :=
  if values ≠ [] ∧ AllEqual values then .oneValue else .severalValues

theorem inferred_ne_expression (values : List String) : inferred values ≠ .expression := by
  unfold inferred
  split <;> simp

theorem inferred_eq_oneValue_iff : inferred values = .oneValue ↔ values ≠ [] ∧ AllEqual values := by
  unfold inferred
  split <;> simp_all

theorem inferred_eq_severalValues_iff :
    inferred values = .severalValues ↔ ¬ (values ≠ [] ∧ AllEqual values) := by
  unfold inferred
  split <;> simp_all

theorem ofValues_eq_checked (element : Element) (values : List String) (method : Option Method) :
    ofValues element values method =
      (byValues element values (method.getD (inferred values))).checked := by
  simp only [ofValues, byValues, inferred, ValueSet.size_ofList_eq_one_iff]

/-- What is wrong with a scope of listed values, told of the list. -/
theorem fault?_byValues (element : Element) (values : List String) (method : Method) :
    (byValues element values method).fault? =
      if method = .expression then some .incompleteExpression
      else if values = [] then some .noValues
      else if method = .oneValue ∧ ¬ AllEqual values then some .notOneValue
      else none := by
  have hone : (ValueSet.ofList values).size = 1 ↔ values ≠ [] ∧ AllEqual values :=
    ValueSet.size_ofList_eq_one_iff
  by_cases hvalues : values = []
  · subst hvalues
    cases method <;> rfl
  · cases method <;> simp [fault?, byValues, ValueSet.size_ofList_eq_zero_iff, hone, hvalues]

theorem fault?_byValues_eq_none_iff {method : Method} :
    (byValues element values method).fault? = none ↔
      values ≠ [] ∧ method ≠ .expression ∧ (method = .oneValue → AllEqual values) := by
  rw [fault?_byValues]
  split
  case isTrue hmethod => simp [hmethod]
  case isFalse hmethod =>
    by_cases hvalues : values = []
    · simp [hvalues]
    · simp [hmethod, hvalues]

theorem ofValues_eq_ok_iff :
    ofValues element values method = .ok scope ↔
      (values ≠ [] ∧ method ≠ some .expression ∧ (method = some .oneValue → AllEqual values)) ∧
        scope = byValues element values (method.getD (inferred values)) := by
  rw [ofValues_eq_checked, checked_eq_ok_iff, fault?_byValues_eq_none_iff]
  refine and_congr_left' (and_congr_right fun hfilled => ?_)
  cases method with
  | none => simp [inferred_ne_expression, inferred_eq_oneValue_iff]
  | some given => simp

/-- The builder reads nothing but the set of the values. -/
theorem ofValues_congr (element : Element) (method : Option Method)
    (h : ∀ value, value ∈ values ↔ value ∈ others) :
    ofValues element values method = ofValues element others method := by
  rw [ofValues, ofValues, ValueSet.ofList_eq_iff.mpr h]

theorem mem_iff_of_signature_byValues {method chosen : Method}
    (h : (byValues element values method).signature = (byValues element others chosen).signature)
    (value : String) : value ∈ values ↔ value ∈ others :=
  ValueSet.ofList_eq_iff.mp (congrArg Scope.values (signature_eq_iff.mp h)) value

/-- A scope of listed values is made unless the list is empty, the method is the one by
expression, or it is the one for one value and two values of the list differ. It has the
given method; without one, values that are all equal make the method for one and any
others the method for several. Another list makes a scope of the same signature, for the
same element and method, exactly if it has the same values in whatever order and number. -/
theorem ofValues_accepts (element : Element) (values : List String) (method : Option Method) :
    ((∃ scope, ofValues element values method = .ok scope) ↔
      values ≠ [] ∧ method ≠ some .expression ∧
        (method = some .oneValue → AllEqual values)) ∧
    ∀ scope, ofValues element values method = .ok scope →
      scope.element = element ∧ (∀ value, value ∈ scope.values.toList ↔ value ∈ values) ∧
      (∀ given, method = some given → scope.method = given) ∧
      (method = none → (scope.method = .oneValue ↔ AllEqual values) ∧
        (scope.method = .severalValues ↔ ¬ AllEqual values)) ∧
      ∀ others, (∃ other, ofValues element others method = .ok other ∧
        other.signature = scope.signature) ↔ ∀ value, value ∈ values ↔ value ∈ others := by
  constructor
  · simp only [ofValues_eq_ok_iff, exists_and_left, exists_eq, and_true]
  · intro scope hscope
    obtain ⟨⟨hfilled, -⟩, hmade⟩ := ofValues_eq_ok_iff.mp hscope
    have hmethod : scope.method = method.getD (inferred values) := congrArg Scope.method hmade
    refine ⟨congrArg Scope.element hmade, fun value => ?_, ?_, ?_, fun others => ⟨?_, ?_⟩⟩
    · rw [hmade]
      exact ValueSet.mem_ofList
    · rintro given rfl
      exact hmethod
    · rintro rfl
      have hinferred : scope.method = inferred values := hmethod
      rw [hinferred, inferred_eq_oneValue_iff, inferred_eq_severalValues_iff,
        and_iff_right hfilled]
      exact ⟨Iff.rfl, Iff.rfl⟩
    · rintro ⟨other, hother, hsignature⟩
      obtain ⟨-, rfl⟩ := ofValues_eq_ok_iff.mp hother
      rw [hmade] at hsignature
      exact mem_iff_of_signature_byValues hsignature.symm
    · intro hsame
      exact ⟨scope, ofValues_congr element method hsame ▸ hscope, rfl⟩

end Scope

end EventPolicy
