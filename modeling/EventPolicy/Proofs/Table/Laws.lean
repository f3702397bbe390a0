import EventPolicy.Proofs.Table.Lookup

/-!
The laws of layers. A layer over itself changes nothing, and neither does one that is
laid on a second time. Of three layers the grouping does not matter, unless a value of
the middle one stands between two tables: grouped from the left it hides the lower
table, grouped from the right it is replaced before it can.
-/

namespace EventPolicy.Table

/-- What stands at the end of a path that starts at a value. -/
def valueAt : Option Value → List String → Option Value
  | found, [] => found
  | some (.table entries), name :: path => valueAt (Entries.get? entries name) path
  | _, _ :: _ => none

@[simp] theorem valueAt_nil (found : Option Value) : valueAt found [] = found := by
  rw [valueAt]

@[simp] theorem valueAt_table_cons (entries : List (String × Value)) (name : String)
    (path : List String) :
    valueAt (some (.table entries)) (name :: path) = valueAt (Entries.get? entries name) path := by
  rw [valueAt]

theorem valueAt_cons_of_not_table {found : Option Value}
    (h : ∀ entries, found ≠ some (.table entries)) (name : String) (path : List String) :
    valueAt found (name :: path) = none := by
  rw [valueAt]
  exact h

@[simp] theorem valueAt_none (path : List String) : valueAt none path = none := by
  cases path with
  | nil => exact valueAt_nil none
  | cons name path => exact valueAt_cons_of_not_table (by simp) name path

theorem valueAt_append (found : Option Value) (path more : List String) :
    valueAt found (path ++ more) = valueAt (valueAt found path) more := by
  induction path generalizing found with
  | nil => simp
  | cons name path ih =>
    by_cases htable : ∃ entries, found = some (.table entries)
    · obtain ⟨entries, rfl⟩ := htable
      rw [List.cons_append, valueAt_table_cons, valueAt_table_cons, ih]
    · have hnone := valueAt_cons_of_not_table (not_exists.mp htable) name
      rw [List.cons_append, hnone, hnone, valueAt_none]

theorem find?_eq_valueAt (entries : Table) (path : List String) :
    find? entries path = valueAt (some (.table entries)) path := by
  induction path generalizing entries with
  | nil => simp [find?]
  | cons name path ih =>
    cases path with
    | nil => simp [find?]
    | cons next path =>
      rw [find?_cons_cons, ih, valueAt_table_cons entries, tableAt]
      split
      next inner hinner => rw [hinner]
      next hnot => simp [valueAt_cons_of_not_table hnot, Entries.get?]

/-- A value that is laid over itself stays as it is. -/
theorem overlay_self {value : Value} (h : value.WellFormed) :
    overlay (some value) value = value := by
  induction value using Value.byNesting with
  | scalar value hlist htuple htable => exact overlay_of_leaf htable _
  | list items | tuple items => exact overlay_of_leaf (by simp) _
  | table entries ih =>
    obtain ⟨hdistinct, hvalues⟩ := wellFormed_table_iff.mp h
    rw [overlay]
    refine congrArg Value.table (Entries.eq_of_keys_eq (keys_nodup_mergeInto hdistinct hdistinct)
      ?_ fun name => ?_)
    · rw [keys_mergeInto hdistinct, List.filter_eq_nil_iff.mpr (by simp), List.append_nil]
    · rw [get?_mergeInto hdistinct]
      cases hget : Entries.get? entries name with
      | none => rfl
      | some value =>
        have hentry := (Entries.get?_eq_some_iff hdistinct).mp hget
        exact congrArg some (ih (name, value) hentry (hvalues name value hget))

theorem merge_self {table : Table} (h : (Value.table table).WellFormed) :
    merge table table = table := by
  have hself := overlay_self h
  rw [overlay] at hself
  exact Value.table.inj hself

/-- Where a table, a value that is none and a table meet at one place, the upper table
has what the lower one would give it already. -/
def Reconciled (below middle above : Option Value) : Prop :=
  ∀ lower leaf upper, below = some (.table lower) → middle = some leaf → leaf.isTable = false →
    above = some (.table upper) → merge lower upper = upper

theorem reconciled_of_middle {below middle above : Option Value}
    (h : ∀ leaf, middle = some leaf → leaf.isTable = true) : Reconciled below middle above := by
  rintro lower leaf upper - hmiddle hleaf -
  rw [h leaf hmiddle] at hleaf
  cases hleaf

theorem reconciled_of_below {below middle above : Option Value}
    (h : ∀ lower, below ≠ some (.table lower)) : Reconciled below middle above :=
  fun lower _ _ hbelow _ _ _ => absurd hbelow (h lower)

theorem reconciled_of_above {below middle above : Option Value}
    (h : ∀ upper, above ≠ some (.table upper)) : Reconciled below middle above :=
  fun _ _ upper _ _ _ habove => absurd habove (h upper)

/-- The three layers list their names in one order, however they are grouped. Hence
they group either way if they do so under each name. -/
theorem merge_assoc_iff_names {lower middle upper : Table}
    (hlower : lower.keys.Nodup) (hmiddle : middle.keys.Nodup) (hupper : upper.keys.Nodup) :
    merge (merge lower middle) upper = merge lower (merge middle upper) ↔
      ∀ name, layered (layered (lower.get? name) (middle.get? name)) (upper.get? name) =
        layered (lower.get? name) (layered (middle.get? name) (upper.get? name)) := by
  have hdistinct := keys_nodup_mergeInto hmiddle hupper
  have hget (name : String) :
      (merge (merge lower middle) upper).get? name =
          layered (layered (lower.get? name) (middle.get? name)) (upper.get? name) ∧
        (merge lower (merge middle upper)).get? name =
          layered (lower.get? name) (layered (middle.get? name) (upper.get? name)) := by
    simp only [merge, get?_mergeInto hupper, get?_mergeInto hmiddle, get?_mergeInto hdistinct,
      and_self]
  constructor
  · intro h name
    rw [← (hget name).1, ← (hget name).2, h]
  · intro h
    refine Entries.eq_of_keys_eq
      (keys_nodup_mergeInto (keys_nodup_mergeInto hlower hmiddle) hupper) ?_ fun name => ?_
    · simp only [merge, keys_mergeInto hupper, keys_mergeInto hmiddle, keys_mergeInto hdistinct,
        List.filter_append, List.filter_filter, List.append_assoc]
      refine congrArg (lower.keys ++ ·) (congrArg (middle.keys.filter _ ++ ·) ?_)
      refine List.filter_congr fun name _ => ?_
      by_cases hname : name ∈ lower.keys <;> simp [hname]
    · rw [(hget name).1, (hget name).2, h]

theorem valueAt_leaf_ne_table {leaf : Value} (h : ∀ entries, leaf ≠ .table entries)
    (path : List String) (inner : Table) : valueAt (some leaf) path ≠ some (.table inner) := by
  cases path with
  | nil => exact ne_table_of_leaf h inner
  | cons name path => simp [valueAt_cons_of_not_table (ne_table_of_leaf h)]

theorem forall_path_iff {motive : List String → Prop} :
    (∀ path, motive path) ↔ motive [] ∧ ∀ name path, motive (name :: path) :=
  ⟨fun h => ⟨h [], fun name path => h (name :: path)⟩, fun h path => by
    cases path with
    | nil => exact h.1
    | cons name path => exact h.2 name path⟩

/-- A table over a value that is none replaces it, and so meets what is below it only
if it is laid on last. -/
theorem layered_assoc_iff_of_leaf {leaf : Value} (hleaf : ∀ entries, leaf ≠ .table entries)
    (below : Option Value) (upper : Table) :
    layered (layered below (some leaf)) (some (.table upper)) =
        layered below (layered (some leaf) (some (.table upper))) ↔
      Reconciled below (some leaf) (some (.table upper)) := by
  rw [layered_leaf hleaf, layered_of_not_table (ne_table_of_leaf hleaf)]
  by_cases hbelow : ∃ lower, below = some (.table lower)
  · obtain ⟨lower, rfl⟩ := hbelow
    have hnot : leaf.isTable = false := by
      cases leaf with
      | table entries => exact absurd rfl (hleaf entries)
      | _ => rfl
    rw [layered_tables, Option.some.injEq, Value.table.injEq, eq_comm]
    constructor
    · rintro h _ _ _ ⟨⟩ ⟨⟩ - ⟨⟩
      exact h
    · intro h
      exact h lower leaf upper rfl rfl hnot rfl
  · have hnot := not_exists.mp hbelow
    exact iff_of_true (layered_of_not_table hnot upper).symm (reconciled_of_below hnot)

/-- Below a leaf, other layers can be grouped either way. -/
theorem layered_leaf_assoc_iff {leaf : Value} (hleaf : ∀ entries, leaf ≠ .table entries)
    (below middle : Option Value) :
    layered (layered below middle) (some leaf) = layered below (layered middle (some leaf)) ↔
      ∀ path,
        Reconciled (valueAt below path) (valueAt middle path) (valueAt (some leaf) path) := by
  refine iff_of_true (by simp only [layered_leaf hleaf]) fun path => ?_
  exact reconciled_of_above (valueAt_leaf_ne_table hleaf path)

/-- Three layers of a value can be grouped either way exactly when they are reconciled
at every path. -/
theorem layered_assoc_iff {above : Value} (habove : above.WellFormed)
    {below middle : Option Value} (hbelow : ∀ value, below = some value → value.WellFormed)
    (hmiddle : ∀ value, middle = some value → value.WellFormed) :
    layered (layered below middle) (some above) = layered below (layered middle (some above)) ↔
      ∀ path,
        Reconciled (valueAt below path) (valueAt middle path) (valueAt (some above) path) := by
  induction above using Value.byNesting generalizing below middle with
  | scalar leaf hlist htuple htable => exact layered_leaf_assoc_iff htable below middle
  | list items | tuple items => exact layered_leaf_assoc_iff (by simp) below middle
  | table upper ih =>
    obtain ⟨hupper, hvalues⟩ := wellFormed_table_iff.mp habove
    rcases nothing_or_table_or_leaf middle with rfl | ⟨inner, rfl⟩ | ⟨leaf, rfl, hleaf⟩
    · refine iff_of_true (by rw [layered_none_left]; rfl) fun path => ?_
      exact reconciled_of_middle (by simp)
    · by_cases hbase : ∃ lower, below = some (.table lower)
      · -- Three tables: their names are in one order anyway, and under each name stand
        -- three layers again.
        obtain ⟨lower, rfl⟩ := hbase
        obtain ⟨hinner, hinnerValues⟩ := wellFormed_table_iff.mp (hmiddle _ rfl)
        obtain ⟨hlower, hlowerValues⟩ := wellFormed_table_iff.mp (hbelow _ rfl)
        have hnames := merge_assoc_iff_names hlower hinner hupper
        have hroot : Reconciled (some (.table lower)) (some (.table inner)) (some (.table upper)) :=
          reconciled_of_middle (by rintro value ⟨⟩; rfl)
        rw [layered_tables, layered_tables, layered_tables, layered_tables, Option.some.injEq,
          Value.table.injEq, hnames, forall_path_iff]
        simp only [valueAt_nil, valueAt_table_cons, hroot, true_and]
        refine forall_congr' fun name => ?_
        cases hget : Entries.get? upper name with
        | none => exact iff_of_true rfl fun path => reconciled_of_above (by simp)
        | some value =>
          have hentry := (Entries.get?_eq_some_iff hupper).mp hget
          exact ih (name, value) hentry (hvalues name value hget) (hlowerValues name)
            (hinnerValues name)
      · have hnot := not_exists.mp hbase
        refine iff_of_true ?_ (forall_path_iff.mpr ⟨reconciled_of_below hnot, ?_⟩)
        · rw [layered_of_not_table hnot, layered_tables, layered_of_not_table hnot]
        · intro name path
          exact reconciled_of_below (by simp [valueAt_cons_of_not_table hnot])
    · rw [layered_assoc_iff_of_leaf hleaf, forall_path_iff]
      simp only [valueAt_nil, iff_self_and]
      intro _ name path
      have hnone := valueAt_cons_of_not_table (ne_table_of_leaf hleaf) name path
      exact reconciled_of_middle (by simp [hnone])

/-- Three tables can be merged in either order exactly when they are reconciled at every
path. -/
theorem merge_assoc_iff {lower middle upper : Table} (hlower : (Value.table lower).WellFormed)
    (hmiddle : (Value.table middle).WellFormed) (hupper : (Value.table upper).WellFormed) :
    merge (merge lower middle) upper = merge lower (merge middle upper) ↔
      ∀ path, Reconciled (find? lower path) (find? middle path) (find? upper path) := by
  have hbelow : ∀ value, some (Value.table lower) = some value → value.WellFormed := by
    rintro value ⟨⟩
    exact hlower
  have hbetween : ∀ value, some (Value.table middle) = some value → value.WellFormed := by
    rintro value ⟨⟩
    exact hmiddle
  have hlayers := layered_assoc_iff hupper hbelow hbetween
  simpa only [find?_eq_valueAt, layered_tables, Option.some.injEq, Value.table.injEq] using hlayers

/-- A layer that is laid on a second time changes nothing. -/
theorem merge_merge_self {lower upper : Table} (hlower : (Value.table lower).WellFormed)
    (hupper : (Value.table upper).WellFormed) :
    merge (merge lower upper) upper = merge lower upper := by
  have hassoc : merge (merge lower upper) upper = merge lower (merge upper upper) := by
    refine (merge_assoc_iff hlower hupper hupper).mpr fun path => ?_
    rintro below leaf above - hmiddle hleaf habove
    rw [hmiddle] at habove
    obtain rfl : leaf = .table above := Option.some.inj habove
    cases hleaf
  rw [hassoc, merge_self hupper]

end EventPolicy.Table
