import EventPolicy.Proofs.Table.Laws
import EventPolicy.Proofs.Table.Spelling

/-!
Flattening leaf by leaf. A table is flattened part by part, each part finished before
it is added to what is done. The result is the same as if the leaves of the whole
table were inserted one after the other, in document order.
-/

namespace EventPolicy.Table

/-- The key of a path below a prefix: its names with dots between them, behind the
prefix if there is one. -/
def pathKey (above : String) (path : List String) : String :=
  Text.join "." (if above = "" then path else above :: path)

theorem dotted_eq_pathKey {table : Table} {above : String} (habove : above ≠ "" ∨ TopNamed table)
    {leaf : List String × Value} (hleaf : leaf ∈ leaves table) :
    dotted above leaf.1 = pathKey above leaf.1 := by
  by_cases hempty : above = ""
  · subst hempty
    exact dotted_of_mem_leaves (habove.resolve_left fun h => h rfl) hleaf
  · rw [pathKey, if_neg hempty, dotted_of_ne_empty hempty]

/-- The leaves of a value are what its paths lead to, tables apart. -/
theorem mem_leavesOfValue_iff {value leaf : Value} (hwell : value.WellFormed)
    {path : List String} :
    (path, leaf) ∈ leavesOfValue value ↔
      valueAt (some value) path = some leaf ∧ leaf.isTable = false := by
  induction path generalizing value with
  | nil =>
    cases value with
    | table entries =>
      refine iff_of_false (nil_not_mem_leaves entries leaf) ?_
      rintro ⟨⟨⟩, ⟨⟩⟩
    | _ =>
      simp only [leavesOfValue, List.mem_singleton, Prod.mk.injEq, true_and, valueAt_nil,
        Option.some.injEq]
      refine ⟨?_, fun h => h.1.symm⟩
      rintro rfl
      exact ⟨rfl, rfl⟩
  | cons name path ih =>
    by_cases htable : ∃ entries, value = .table entries
    · obtain ⟨entries, rfl⟩ := htable
      obtain ⟨hdistinct, hvalues⟩ := wellFormed_table_iff.mp hwell
      rw [leavesOfValue, mem_leaves_cons_iff hdistinct, valueAt_table_cons]
      cases hget : Entries.get? entries name with
      | none => simp
      | some found => simpa using ih (hvalues name found hget)
    · have hnot := not_exists.mp htable
      rw [mem_leavesOfValue_of_leaf hnot, valueAt_cons_of_not_table (by simpa using hnot)]
      simp

/-- The leaves of a table are what stands at the end of its paths, tables apart. -/
theorem mem_leaves_iff_find? {table : Table} (hwell : (Value.table table).WellFormed)
    {path : List String} {leaf : Value} :
    (path, leaf) ∈ leaves table ↔ find? table path = some leaf ∧ leaf.isTable = false := by
  rw [find?_eq_valueAt]
  exact mem_leavesOfValue_iff hwell

/-- Below a prefix, or if no table stands under an empty name at the top, flattening
inserts the leaves of a table one after the other, each with its value under its path
below the prefix. Hence a key that several leaves spell stands where the first of them
puts it and holds the value of the last. The leaves are what stands at the end of paths
and is no table, and come in document order. -/
theorem flatten_inserts_leaves {table : Table} {above : String}
    (hwell : (Value.table table).WellFormed) (habove : above ≠ "" ∨ TopNamed table) :
    let pairs := (leaves table).map fun leaf => (pathKey above leaf.1, leaf.2)
    flatten table above = Entries.ofList pairs ∧
    (flatten table above).keys = (Entries.keys pairs).eraseDups ∧
    (∀ key value, (flatten table above).get? key = some value ↔
      ∃ before after, pairs = before ++ (key, value) :: after ∧ ∀ pair ∈ after, pair.1 ≠ key) ∧
    (∀ path leaf, (path, leaf) ∈ leaves table ↔
      find? table path = some leaf ∧ leaf.isTable = false) ∧
    (leaves table).Pairwise fun leaf other =>
      Precedes (namesAt (some (.table table))) leaf.1 other.1 := by
  intro pairs
  have hflat : flatten table above = Entries.ofList pairs := by
    have hspelled : spelled above (leaves table) = pairs :=
      List.map_congr_left fun leaf hleaf => by rw [dotted_eq_pathKey habove hleaf]
    rw [flatten_eq_ofList, hspelled]
  refine ⟨hflat, ?_, fun key value => ?_, fun path leaf => mem_leaves_iff_find? hwell, ?_⟩
  · rw [hflat, Entries.keys_ofList]
  · rw [hflat, Entries.get?_ofList_eq_some_iff]
  · exact leavesOfValue_pairwise hwell

/-- A table with a key that is spelled twice, first below the sub-table of its first name
and then in one piece, an empty sub-table and a list, below a prefix. -/
theorem flatten_inserts_leaves_of_repeated_key :
    let table : Table := [("event", .table [("include", .string "a"), ("none", .table [])]),
      ("", .table [("x", .int 1)]), ("event.include", .list [.string "b", .string "c"])]
    (Value.table table).WellFormed ∧
      (flatten table "camelContext").keys = ["camelContext.event.include", "camelContext..x"] ∧
      (flatten table "camelContext").get? "camelContext.event.include" =
        some (.list [.string "b", .string "c"]) := by
  intro table
  have hwell : (Value.table table).WellFormed := by
    simp [table, Value.WellFormed, Value.EntriesWellFormed, Value.AllWellFormed, Entries.keys]
  have habove : "camelContext" ≠ "" ∨ TopNamed table := .inl (by decide)
  obtain ⟨-, hkeys, hget, -⟩ := flatten_inserts_leaves hwell habove
  refine ⟨hwell, hkeys.trans (by decide), (hget _ _).mpr ?_⟩
  exact ⟨[("camelContext.event.include", .string "a"), ("camelContext..x", .int 1)], [], rfl,
    by simp⟩

end EventPolicy.Table
