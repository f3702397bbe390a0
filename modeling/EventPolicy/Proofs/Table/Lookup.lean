import EventPolicy.Proofs.Table.Merge

/-!
What stands at the end of a path in tables that lie over each other. Where the upper
layer has tables on the way, or nothing, the path leads in the merged table to what
the upper layer has there, laid over what the lower one has. Anything else on the way
hides what lies below it. `merge_at_every_path` says so of each path, with the order
of names in the tables of the merge.
-/

namespace EventPolicy.Table

/-- Nothing, or a table. -/
def AtMostTable (found : Option Value) : Prop := ∀ value, found = some value → value.isTable = true

instance (found : Option Value) : Decidable (AtMostTable found) :=
  decidable_of_iff (found.all Value.isTable = true) (by cases found <;> simp [AtMostTable])

theorem AtMostTable.cases {found : Option Value} (h : AtMostTable found) :
    found = none ∨ ∃ inner, found = some (.table inner) := by
  cases found with
  | none => exact .inl rfl
  | some value =>
    cases value with
    | table inner => exact .inr ⟨inner, rfl⟩
    | _ => cases h _ rfl

/-- The table under a name, an empty one if there is none. -/
def tableAt (entries : Table) (name : String) : Table :=
  match entries.get? name with
  | some (.table inner) => inner
  | _ => []

/-- What a table has on the way to a path is a table, as far as it has anything. -/
def OpenTo : Table → List String → Prop
  | entries, name :: next :: path =>
    AtMostTable (entries.get? name) ∧ OpenTo (tableAt entries name) (next :: path)
  | _, _ => True

theorem find?_cons_cons (entries : Table) (name next : String) (path : List String) :
    find? entries (name :: next :: path) = find? (tableAt entries name) (next :: path) := by
  have hempty : find? [] (next :: path) = none := by
    cases path <;> simp [find?, Entries.get?]
  rw [tableAt]
  split
  next inner hinner => simp [find?, hinner]
  next hnone =>
    rw [hempty, find?]
    split
    next inner hinner => exact absurd hinner (hnone inner)
    next => rfl

theorem nothing_or_table_or_leaf (found : Option Value) :
    found = none ∨ (∃ entries, found = some (.table entries)) ∨
      ∃ leaf, found = some leaf ∧ ∀ entries, leaf ≠ .table entries := by
  rcases found with _ | value
  · exact .inl rfl
  · by_cases htable : ∃ entries, value = .table entries
    · obtain ⟨entries, rfl⟩ := htable
      exact .inr (.inl ⟨entries, rfl⟩)
    · exact .inr (.inr ⟨value, rfl, not_exists.mp htable⟩)

theorem ne_table_of_leaf {leaf : Value} (h : ∀ entries, leaf ≠ .table entries)
    (entries : List (String × Value)) : some leaf ≠ some (.table entries) :=
  fun hsame => h entries (Option.some.inj hsame)

theorem layered_leaf {leaf : Value} (h : ∀ entries, leaf ≠ .table entries)
    (below : Option Value) : layered below (some leaf) = some leaf :=
  congrArg some (overlay_of_leaf h below)

theorem layered_of_not_table {below : Option Value} (h : ∀ entries, below ≠ some (.table entries))
    (upper : Table) : layered below (some (.table upper)) = some (.table upper) :=
  congrArg some (overlay_of_not_table h upper)

theorem layered_tables (lower upper : Table) :
    layered (some (.table lower)) (some (.table upper)) = some (.table (merge lower upper)) := by
  rw [layered, overlay, merge]

theorem exists_layered_table (below : Option Value) (upper : Table) :
    ∃ merged, layered below (some (.table upper)) = some (.table merged) := by
  by_cases hbelow : ∃ lower, below = some (.table lower)
  · obtain ⟨lower, rfl⟩ := hbelow
    exact ⟨merge lower upper, layered_tables lower upper⟩
  · exact ⟨upper, layered_of_not_table (not_exists.mp hbelow) upper⟩

theorem overlay_none (value : Value) : overlay none value = value := by
  cases value with
  | table entries => exact overlay_of_not_table (by simp) entries
  | _ => exact overlay_of_leaf (by simp) none

theorem layered_none_left (above : Option Value) : layered none above = above := by
  cases above with
  | none => rfl
  | some value => exact congrArg some (overlay_none value)

theorem merge_nil (lower : Table) : merge lower [] = lower := by
  rw [merge, mergeInto]

/-- Entries with new names only are put behind those of the table. -/
theorem mergeInto_of_disjoint {base : Table} {entries : List (String × Value)}
    (hdistinct : (Entries.keys (base ++ entries)).Nodup) :
    mergeInto base entries = base ++ entries := by
  induction entries generalizing base with
  | nil => simp [mergeInto]
  | cons entry rest ih =>
    obtain ⟨name, value⟩ := entry
    have habsent : name ∉ base.keys := by
      rw [Entries.keys, List.map_append, List.nodup_append] at hdistinct
      exact fun h => hdistinct.2.2 _ h _ List.mem_cons_self rfl
    rw [mergeInto, Entries.get?_eq_none_iff.mpr habsent, overlay_none,
      Entries.insert_of_not_mem habsent, ih (by simpa using hdistinct), List.append_assoc,
      List.singleton_append]

theorem atMostTable_layered {below above : Option Value} (hbelow : AtMostTable below)
    (habove : AtMostTable above) : AtMostTable (layered below above) := by
  rcases habove.cases with rfl | ⟨inner, rfl⟩
  · exact hbelow
  · obtain ⟨merged, hmerged⟩ := exists_layered_table below inner
    rw [hmerged]
    rintro value ⟨⟩
    rfl

theorem tableAt_of_table {entries inner : Table} {name : String}
    (h : entries.get? name = some (.table inner)) : tableAt entries name = inner := by
  simp [tableAt, h]

theorem tableAt_of_not_table {entries : Table} {name : String}
    (h : ∀ inner, entries.get? name ≠ some (.table inner)) : tableAt entries name = [] := by
  rw [tableAt]
  split
  next inner hinner => exact absurd hinner (h inner)
  next => rfl

/-- The tables under a name meet like the tables that hold them, unless the upper
layer has something else there. -/
theorem tableAt_merge {lower upper : Table} (hwell : (Value.table upper).WellFormed) {name : String}
    (hupper : AtMostTable (upper.get? name)) :
    tableAt (merge lower upper) name = merge (tableAt lower name) (tableAt upper name) := by
  obtain ⟨hdistinct, hvalues⟩ := wellFormed_table_iff.mp hwell
  have hget : (merge lower upper).get? name = layered (lower.get? name) (upper.get? name) :=
    get?_mergeInto hdistinct lower name
  rcases hupper.cases with habove | ⟨inner, habove⟩
  · rw [habove, layered] at hget
    have hempty : tableAt upper name = [] := tableAt_of_not_table (by simp [habove])
    rw [hempty, merge_nil, tableAt, hget, tableAt]
  · have hinner := (wellFormed_table_iff.mp (hvalues name _ habove)).1
    by_cases hbelow : ∃ base, lower.get? name = some (.table base)
    · obtain ⟨base, hbelow⟩ := hbelow
      rw [habove, hbelow, layered_tables] at hget
      rw [tableAt_of_table hget, tableAt_of_table hbelow, tableAt_of_table habove]
    · have hnot := not_exists.mp hbelow
      rw [habove, layered_of_not_table hnot] at hget
      rw [tableAt_of_table hget, tableAt_of_not_table hnot, tableAt_of_table habove, merge,
        mergeInto_of_disjoint (by simpa using hinner), List.nil_append]

theorem wellFormed_tableAt {entries : Table} (h : (Value.table entries).WellFormed)
    (name : String) : (Value.table (tableAt entries name)).WellFormed := by
  rw [tableAt]
  split
  next inner hinner => exact (wellFormed_table_iff.mp h).2 name _ hinner
  next => exact wellFormed_nil

/-- A path in a merged table leads to what the layers have there, one over the other,
if the upper layer leaves the way open. -/
theorem find?_merge {lower upper : Table} (hwell : (Value.table upper).WellFormed)
    {path : List String} (hupper : OpenTo upper path) :
    find? (merge lower upper) path = layered (find? lower path) (find? upper path) := by
  -- Along the path: under its first name the merged table has the merge of what the two
  -- have there, and the upper of these leaves the rest of the path open.
  induction path generalizing lower upper with
  | nil => simp [find?, merge, layered, overlay]
  | cons name path ih =>
    cases path with
    | nil => simpa [find?, merge] using get?_mergeInto (wellFormed_table_iff.mp hwell).1 lower name
    | cons next path =>
      rw [OpenTo] at hupper
      simp only [find?_cons_cons, tableAt_merge hwell hupper.1]
      exact ih (wellFormed_tableAt hwell name) hupper.2

theorem openTo_merge {lower upper : Table} (hwell : (Value.table upper).WellFormed)
    {path : List String} (hlower : OpenTo lower path) (hupper : OpenTo upper path) :
    OpenTo (merge lower upper) path := by
  induction path generalizing lower upper with
  | nil => trivial
  | cons name path ih =>
    cases path with
    | nil => trivial
    | cons next path =>
      rw [OpenTo] at hlower hupper ⊢
      rw [tableAt_merge hwell hupper.1, merge, get?_mergeInto (wellFormed_table_iff.mp hwell).1]
      exact ⟨atMostTable_layered hlower.1 hupper.1,
        ih (wellFormed_tableAt hwell name) hlower.2 hupper.2⟩

/-- What the first of the layers that has anything at a path has there. -/
def firstGiven (layers : List Table) (path : List String) : Option Value :=
  layers.findSome? fun layer => find? layer path

/-- Two findings are the same, or both are tables. -/
def EqOrTables (first second : Option Value) : Prop :=
  first = second ∨ ∃ one other, first = some (.table one) ∧ second = some (.table other)

/-- Of two layers the upper one decides if it has anything; only where both have
tables do these meet. -/
theorem eqOrTables_layered {above given : Option Value} (h : EqOrTables above given)
    (below : Option Value) : EqOrTables (layered below above) (given.or below) := by
  rcases h with rfl | ⟨one, other, rfl, rfl⟩
  · rcases nothing_or_table_or_leaf above with rfl | ⟨entries, rfl⟩ | ⟨leaf, rfl, hleaf⟩
    · exact .inl rfl
    · obtain ⟨merged, hmerged⟩ := exists_layered_table below entries
      exact .inr ⟨merged, entries, hmerged, rfl⟩
    · exact .inl (layered_leaf hleaf below)
  · obtain ⟨merged, hmerged⟩ := exists_layered_table below one
    exact .inr ⟨merged, other, hmerged, rfl⟩

/-- No value on the way to a path is anything but a table. -/
def Unblocked (entries : Table) (path : List String) : Prop :=
  ∀ above, above <+: path → above ≠ path → AtMostTable (find? entries above)

theorem atMostTable_root (entries : Table) : AtMostTable (find? entries []) := by
  rintro value ⟨⟩
  rfl

theorem openTo_iff_unblocked {entries : Table} {path : List String} :
    OpenTo entries path ↔ Unblocked entries path := by
  induction path generalizing entries with
  | nil =>
    refine iff_of_true trivial fun above habove hproper => ?_
    exact absurd (List.prefix_nil.mp habove) hproper
  | cons name path ih =>
    cases path with
    | nil =>
      refine iff_of_true trivial fun above habove hproper => ?_
      obtain rfl : above = [] := by
        rcases List.prefix_cons_iff.mp habove with rfl | ⟨rest, rfl, hrest⟩
        · rfl
        · exact absurd (by rw [List.prefix_nil.mp hrest]) hproper
      exact atMostTable_root entries
    | cons next path =>
      rw [OpenTo, ih]
      constructor
      · rintro ⟨hfirst, hrest⟩ above habove hproper
        rcases List.prefix_cons_iff.mp habove with rfl | ⟨below, rfl, hbelow⟩
        · exact atMostTable_root entries
        · cases below with
          | nil => exact hfirst
          | cons other below =>
            rw [find?_cons_cons]
            exact hrest _ hbelow fun hsame => hproper (by rw [hsame])
      · intro h
        refine ⟨h [name] (by simp) (by simp), fun above habove hproper => ?_⟩
        cases above with
        | nil => exact atMostTable_root _
        | cons other above =>
          rw [← find?_cons_cons]
          exact h _ (by simpa using habove) fun hsame => hproper (List.cons.inj hsame).2

/-- Nothing stands behind a value that is not a table. -/
theorem find?_of_not_openTo {entries : Table} {path : List String} (h : ¬ OpenTo entries path) :
    find? entries path = none := by
  induction path generalizing entries with
  | nil => exact absurd trivial h
  | cons name path ih =>
    cases path with
    | nil => exact absurd trivial h
    | cons next path =>
      rw [find?_cons_cons]
      by_cases hrest : OpenTo (tableAt entries name) (next :: path)
      · have hfirst : ¬ AtMostTable (entries.get? name) := fun hfirst => h ⟨hfirst, hrest⟩
        have hleaf : ∀ inner, entries.get? name ≠ some (.table inner) := by
          rintro inner hinner
          rw [hinner] at hfirst
          exact hfirst (by rintro value ⟨⟩; rfl)
        rw [tableAt_of_not_table hleaf]
        cases path <;> simp [find?, Entries.get?]
      · exact ih hrest

theorem AtMostTable.of_layered {below above : Option Value}
    (h : AtMostTable (layered below above)) : AtMostTable above := by
  rintro value rfl
  by_cases htable : ∃ entries, value = .table entries
  · obtain ⟨entries, rfl⟩ := htable
    rfl
  · exact h value (layered_leaf (not_exists.mp htable) below)

/-- A merged table is closed where its upper layer is. -/
theorem OpenTo.of_merge {lower upper : Table} (hwell : (Value.table upper).WellFormed)
    {path : List String} (h : OpenTo (merge lower upper) path) : OpenTo upper path := by
  induction path generalizing lower upper with
  | nil => trivial
  | cons name path ih =>
    cases path with
    | nil => trivial
    | cons next path =>
      rw [OpenTo, merge, get?_mergeInto (wellFormed_table_iff.mp hwell).1] at h
      have hfirst := h.1.of_layered
      have hrest : OpenTo (tableAt (merge lower upper) name) (next :: path) := h.2
      rw [tableAt_merge hwell hfirst] at hrest
      exact ⟨hfirst, ih (wellFormed_tableAt hwell name) hrest⟩

section

variable {below above : Option Value}

theorem layered_eq_leaf_iff {leaf : Value} (hleaf : leaf.isTable = false) :
    layered below above = some leaf ↔ above = some leaf ∨ above = none ∧ below = some leaf := by
  rcases nothing_or_table_or_leaf above with rfl | ⟨entries, rfl⟩ | ⟨value, rfl, hvalue⟩
  · simp [layered]
  · obtain ⟨merged, hmerged⟩ := exists_layered_table below entries
    have hapart (inner : Table) : Value.table inner ≠ leaf := by
      rintro rfl
      cases hleaf
    simp [hmerged, hapart]
  · simp [layered_leaf hvalue]

theorem exists_layered_eq_table_iff :
    (∃ inner, layered below above = some (.table inner)) ↔
      (∃ inner, above = some (.table inner)) ∨
        above = none ∧ ∃ inner, below = some (.table inner) := by
  rcases nothing_or_table_or_leaf above with rfl | ⟨entries, rfl⟩ | ⟨leaf, rfl, hleaf⟩
  · simp [layered]
  · obtain ⟨merged, hmerged⟩ := exists_layered_table below entries
    simp [hmerged]
  · simp [layered_leaf hleaf]

end

theorem wellFormed_of_find? {entries : Table} (h : (Value.table entries).WellFormed)
    {path : List String} {value : Value} (hfound : find? entries path = some value) :
    value.WellFormed := by
  induction path generalizing entries with
  | nil =>
    obtain rfl := Option.some.inj hfound
    exact h
  | cons name path ih =>
    cases path with
    | nil => exact (wellFormed_table_iff.mp h).2 name value hfound
    | cons next path =>
      rw [find?_cons_cons] at hfound
      exact ih (wellFormed_tableAt h name) hfound

/-- Where both layers have tables, these are merged. -/
theorem find?_merge_of_tables {base override lower upper : Table}
    (hoverride : (Value.table override).WellFormed) {path : List String}
    (hlower : find? base path = some (.table lower))
    (hupper : find? override path = some (.table upper)) :
    find? (merge base override) path = some (.table (merge lower upper)) := by
  have hopen : OpenTo override path := by
    by_contra hclosed
    rw [find?_of_not_openTo hclosed] at hupper
    cases hupper
  rw [find?_merge hoverride hopen, hlower, hupper, layered_tables]

/-- What stands at each path of merged tables. A value that is not a table is that of
the upper layer, or that of the lower where the upper has nothing, neither there nor,
but for tables, on the way. A table stands where the upper layer has one, or where the
lower has one under the same condition. Where both have tables, the names of the lower
one come first, in their order, and then those that only the upper one has, in theirs. -/
theorem merge_at_every_path {base override : Table}
    (hoverride : (Value.table override).WellFormed) :
    (∀ path value, value.isTable = false →
      (find? (merge base override) path = some value ↔
        find? override path = some value ∨
          find? override path = none ∧ Unblocked override path ∧
            find? base path = some value)) ∧
    (∀ path, (∃ inner, find? (merge base override) path = some (.table inner)) ↔
        (∃ inner, find? override path = some (.table inner)) ∨
          find? override path = none ∧ Unblocked override path ∧
            ∃ inner, find? base path = some (.table inner)) ∧
    ∀ path (lower upper : Table), find? base path = some (.table lower) →
      find? override path = some (.table upper) →
        ∃ merged : Table, find? (merge base override) path = some (.table merged) ∧
          merged.keys = lower.keys ++ upper.keys.filter fun name => name ∉ lower.keys := by
  have hclosed (path : List String) (hpath : ¬ OpenTo override path) :
      find? (merge base override) path = none ∧ find? override path = none :=
    ⟨find?_of_not_openTo (mt (OpenTo.of_merge hoverride) hpath), find?_of_not_openTo hpath⟩
  refine ⟨fun path value hvalue => ?_, fun path => ?_, fun path lower upper hlower hupper => ?_⟩
  · rw [← openTo_iff_unblocked]
    by_cases hpath : OpenTo override path
    · rw [find?_merge hoverride hpath, layered_eq_leaf_iff hvalue]
      simp [hpath]
    · simp [hclosed path hpath, hpath]
  · rw [← openTo_iff_unblocked]
    by_cases hpath : OpenTo override path
    · rw [find?_merge hoverride hpath, exists_layered_eq_table_iff]
      simp [hpath]
    · simp [hclosed path hpath, hpath]
  · have hdistinct := (wellFormed_table_iff.mp (wellFormed_of_find? hoverride hupper)).1
    exact ⟨_, find?_merge_of_tables hoverride hlower hupper, keys_mergeInto hdistinct lower⟩

/-- The upper layer has an empty table where the lower has a text, and a text where the
lower has a table. -/
theorem merge_at_every_path_of_exchanged_kinds :
    let lower : Table := [
      ("policy", .table [("path", .string "a.toml"), ("source", .string "toml")]),
      ("debug", .table [("trace", .bool true)])]
    let upper : Table := [("debug", .bool false),
      ("policy", .table [("skip", .bool true), ("path", .table [])])]
    let merged := merge lower upper
    (Value.table upper).WellFormed ∧
      find? merged ["policy", "source"] = some (.string "toml") ∧
      (∃ inner, find? merged ["policy", "path"] = some (.table inner)) ∧
      find? merged ["debug", "trace"] ≠ some (.bool true) ∧
      ∃ policy : Table, find? merged ["policy"] = some (.table policy) ∧
        policy.keys = ["path", "source", "skip"] := by
  intro lower upper merged
  have hupper : (Value.table upper).WellFormed := by
    simp [upper, Value.WellFormed, Value.EntriesWellFormed, Entries.keys]
  obtain ⟨hleaves, htables, hnames⟩ := @merge_at_every_path lower upper hupper
  refine ⟨hupper, (hleaves _ _ rfl).mpr (.inr ⟨rfl, ?_, rfl⟩),
    (htables _).mpr (.inl ⟨_, rfl⟩), ?_, ?_⟩
  · exact openTo_iff_unblocked.mp ⟨by rintro value ⟨⟩; rfl, trivial⟩
  · intro hfound
    rcases (hleaves _ _ rfl).mp hfound with hupper | ⟨-, hopen, -⟩
    · cases hupper
    · have hdebug := hopen ["debug"] (by simp) (by simp) (.bool false) rfl
      cases hdebug
  · exact hnames ["policy"] _ _ rfl rfl

end EventPolicy.Table
