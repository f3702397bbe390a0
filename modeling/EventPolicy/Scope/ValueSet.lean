/-!
Finite sets of texts. A set lists its members in strictly increasing order, so
two sets are equal exactly when they have the same members.
-/

namespace EventPolicy

/-- A finite set of texts, listed in increasing order. -/
structure ValueSet where
  toList : List String
  increasing : toList.Pairwise (· < ·)
  deriving DecidableEq

namespace ValueSet

/-- The members with one more, in increasing order. -/
def insertInto (value : String) : List String → List String
  | [] => [value]
  | first :: rest =>
    if value < first then value :: first :: rest
    else if value = first then first :: rest
    else first :: insertInto value rest

/-- What is listed after an insertion: the new value and what was there. -/
theorem mem_insertInto {value other : String} {members : List String} :
    other ∈ insertInto value members ↔ other = value ∨ other ∈ members := by
  induction members with
  | nil => simp [insertInto]
  | cons first rest ih =>
    simp only [insertInto]
    split
    · simp
    · split
      · next same =>
        subst same
        simp
      · simp only [List.mem_cons, ih]
        constructor
        · rintro (h | h | h) <;> simp [h]
        · rintro (h | h | h) <;> simp [h]

theorem pairwise_insertInto {value : String} {members : List String}
    (h : members.Pairwise (· < ·)) : (insertInto value members).Pairwise (· < ·) := by
  induction members with
  | nil => simp [insertInto]
  | cons first rest ih =>
    obtain ⟨below, ordered⟩ := List.pairwise_cons.1 h
    simp only [insertInto]
    split
    · next before =>
      refine List.pairwise_cons.2 ⟨?_, h⟩
      intro other member
      rcases List.mem_cons.1 member with rfl | member
      · exact before
      · exact String.lt_trans before (below other member)
    · next notBefore =>
      split
      · exact h
      · next apart =>
        refine List.pairwise_cons.2 ⟨?_, ih ordered⟩
        intro other member
        rcases mem_insertInto.1 member with rfl | member
        · have least : first ≤ other := String.not_lt.1 notBefore
          exact Std.lt_of_le_of_ne least fun same => apart same.symm
        · exact below other member

def empty : ValueSet := ⟨[], .nil⟩

def insert (value : String) (set : ValueSet) : ValueSet :=
  ⟨insertInto value set.toList, pairwise_insertInto set.increasing⟩

/-- The set of the texts of a list. -/
def ofList (values : List String) : ValueSet := values.foldr insert empty

def size (set : ValueSet) : Nat := set.toList.length

/-- The set of a list has the members of the list. -/
theorem mem_ofList {value : String} {values : List String} :
    value ∈ (ofList values).toList ↔ value ∈ values := by
  induction values with
  | nil => simp [ofList, empty]
  | cons first rest ih =>
    have unfolded : (ofList (first :: rest)).toList = insertInto first (ofList rest).toList := rfl
    rw [unfolded, mem_insertInto, ih, List.mem_cons]

/-- Two sets with the same members are equal. -/
theorem ext {a b : ValueSet} (h : ∀ value, value ∈ a.toList ↔ value ∈ b.toList) : a = b := by
  have lists : a.toList = b.toList := by
    have distinct (set : ValueSet) : set.toList.Nodup :=
      set.increasing.imp fun {x y} (before : x < y) (same : x = y) =>
        Std.lt_irrefl (same ▸ before)
    have permuted : a.toList.Perm b.toList :=
      (List.perm_ext_iff_of_nodup (distinct a) (distinct b)).2 h
    exact permuted.eq_of_pairwise
      (fun x y _ _ xy yx => absurd (String.lt_trans xy yx) Std.lt_irrefl)
      a.increasing b.increasing
  cases a
  cases b
  congr

/-- Lists make the same set exactly when they have the same members. -/
theorem ofList_eq_iff {xs ys : List String} :
    ofList xs = ofList ys ↔ ∀ value, value ∈ xs ↔ value ∈ ys := by
  constructor
  · intro h value
    have inFirst : value ∈ (ofList xs).toList ↔ value ∈ xs := mem_ofList
    have inSecond : value ∈ (ofList ys).toList ↔ value ∈ ys := mem_ofList
    rw [← inFirst, ← inSecond, h]
  · intro h
    refine ext fun value => ?_
    rw [mem_ofList, mem_ofList, h]

end ValueSet

end EventPolicy
