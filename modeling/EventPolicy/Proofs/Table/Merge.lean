import EventPolicy.Proofs.Table.Flatten
import EventPolicy.Table.Merge

/-!
What merging two layers of tables keeps. Under each name stands what the upper
layer makes of what the lower one has there. Hence the leaves of a merged table
are those of the upper layer and those of the lower where the upper is silent,
and in each table the names of the lower layer stand first.
-/

namespace EventPolicy.Table

/-- What stands under a name, given what each layer has there. -/
def layered (below above : Option Value) : Option Value :=
  match above with
  | some value => some (overlay below value)
  | none => below

theorem get?_mergeInto {entries : List (String × Value)}
    (hdistinct : (Entries.keys entries).Nodup) (base : Table) (name : String) :
    (mergeInto base entries).get? name = layered (base.get? name) (Entries.get? entries name) := by
  induction entries generalizing base with
  | nil => simp [mergeInto, Entries.get?, layered]
  | cons entry rest ih =>
    obtain ⟨key, value⟩ := entry
    obtain ⟨habsent, hrest⟩ := List.nodup_cons.mp hdistinct
    rw [mergeInto, ih hrest, Entries.get?_insert]
    by_cases hkey : key = name
    · subst hkey
      simp [Entries.get?, Entries.get?_eq_none_iff.mpr habsent, layered]
    · simp [Entries.get?, hkey]

/-- The names of a merged table: those of the lower layer, then the new ones. -/
theorem keys_mergeInto {entries : List (String × Value)}
    (hdistinct : (Entries.keys entries).Nodup) (base : Table) :
    (mergeInto base entries).keys =
      base.keys ++ (Entries.keys entries).filter fun name => name ∉ base.keys := by
  induction entries generalizing base with
  | nil => simp [mergeInto, Entries.keys]
  | cons entry rest ih =>
    obtain ⟨key, value⟩ := entry
    obtain ⟨habsent, hrest⟩ := List.nodup_cons.mp hdistinct
    rw [mergeInto, ih hrest, Entries.keys_insert]
    have hkeys : Entries.keys ((key, value) :: rest) = key :: Entries.keys rest := rfl
    rw [hkeys]
    by_cases hkey : key ∈ base.keys
    · simp [hkey]
    · have hnew : (Entries.keys rest).filter (fun name => name ∉ base.keys ++ [key]) =
          (Entries.keys rest).filter fun name => name ∉ base.keys := by
        refine List.filter_congr fun name hname => ?_
        have hapart : name ≠ key := fun hsame => habsent (hsame ▸ hname)
        simp [hapart]
      rw [if_neg hkey, hnew, List.append_assoc]
      simp [hkey]

theorem nodup_append_new {names : List String} (hnames : names.Nodup) {others : List String}
    (hothers : others.Nodup) : (names ++ others.filter fun name => name ∉ names).Nodup := by
  rw [List.nodup_append]
  refine ⟨hnames, hothers.filter _, ?_⟩
  rintro name hname other hother rfl
  exact of_decide_eq_true (List.mem_filter.mp hother).2 hname

theorem keys_nodup_mergeInto {base : Table} (hbase : base.keys.Nodup)
    {entries : List (String × Value)} (hdistinct : (Entries.keys entries).Nodup) :
    (mergeInto base entries).keys.Nodup := by
  rw [keys_mergeInto hdistinct]
  exact nodup_append_new hbase hdistinct

theorem wellFormed_table_iff {entries : List (String × Value)} :
    (Value.table entries).WellFormed ↔ (Entries.keys entries).Nodup ∧
      ∀ name value, Entries.get? entries name = some value → value.WellFormed := by
  rw [Value.WellFormed, Value.entriesWellFormed_iff]
  refine and_congr_right fun hdistinct => ?_
  constructor
  · intro h name value hget
    exact h (name, value) ((Entries.get?_eq_some_iff hdistinct).mp hget)
  · intro h entry hentry
    exact h entry.1 entry.2 ((Entries.get?_eq_some_iff hdistinct).mpr hentry)

/-- The upper layer says nothing at a path or on the way to it: one of its
tables lacks the next name. -/
def Silent : Option Value → List String → Prop
  | none, _ => True
  | some (.table entries), name :: path => Silent (Entries.get? entries name) path
  | some _, _ => False

theorem not_silent_of_leaf {value : Value} (h : ∀ entries, value ≠ .table entries)
    (path : List String) : ¬ Silent (some value) path := by
  unfold Silent
  split
  next heq => cases heq
  next entries _ _ heq => exact absurd (Option.some.inj heq) (h entries)
  next => exact id

theorem silent_table_nil (entries : List (String × Value)) :
    ¬ Silent (some (.table entries)) [] := by
  simp [Silent]

/-- The names of two layers at a path: those of the lower one, then the new ones. -/
def layeredNames (below above : Option Value) (path : List String) : List String :=
  namesAt below path ++ (namesAt above path).filter fun name => name ∉ namesAt below path

theorem namesAt_table_cons (entries : List (String × Value)) (name : String)
    (path : List String) :
    namesAt (some (.table entries)) (name :: path) = namesAt (Entries.get? entries name) path := by
  rw [namesAt]

theorem namesAt_of_not_table {value : Option Value} (h : ∀ entries, value ≠ some (.table entries))
    (path : List String) : namesAt value path = [] := by
  unfold namesAt
  split
  next entries => exact absurd rfl (h entries)
  next entries _ _ => exact absurd rfl (h entries)
  next => rfl

theorem overlay_of_leaf {value : Value} (h : ∀ entries, value ≠ .table entries)
    (below : Option Value) : overlay below value = value := by
  rw [overlay]
  exact h

theorem overlay_of_not_table {below : Option Value} (h : ∀ entries, below ≠ some (.table entries))
    (entries : List (String × Value)) : overlay below (.table entries) = .table entries := by
  rw [overlay]
  exact h

theorem layeredNames_of_not_table {below : Option Value}
    (h : ∀ entries, below ≠ some (.table entries)) (above : Option Value) (path : List String) :
    layeredNames below above path = namesAt above path := by
  simp [layeredNames, namesAt_of_not_table h]

/-- Each table of a layered value lists the names of both layers. -/
theorem namesAt_overlay {above : Value} (habove : above.WellFormed) (below : Option Value)
    (path : List String) :
    namesAt (some (overlay below above)) path = [] ∨
      namesAt (some (overlay below above)) path = layeredNames below (some above) path := by
  induction above using Value.byNesting generalizing below path with
  | scalar value hlist htuple htable =>
    rw [overlay_of_leaf htable]
    exact .inl (namesAt_of_not_table (by simpa using htable) path)
  | list items | tuple items =>
    rw [overlay_of_leaf (by simp)]
    exact .inl (namesAt_of_not_table (by simp) path)
  | table entries ih =>
    obtain ⟨hdistinct, hvalues⟩ := wellFormed_table_iff.mp habove
    -- Only a table over a table is merged; over anything else the upper one stays as it is.
    by_cases hbelow : ∃ base, below = some (.table base)
    · obtain ⟨base, rfl⟩ := hbelow
      simp only [overlay]
      cases path with
      | nil => exact .inr (keys_mergeInto hdistinct base)
      | cons name path =>
        simp only [layeredNames, namesAt_table_cons, get?_mergeInto hdistinct]
        cases hget : Entries.get? entries name with
        | none =>
          right
          simp [layered, namesAt_of_not_table]
        | some value =>
          have hentry := (Entries.get?_eq_some_iff hdistinct).mp hget
          exact ih (name, value) hentry (hvalues name value hget) (Entries.get? base name) path
    · have hnot := not_exists.mp hbelow
      right
      rw [overlay_of_not_table hnot, layeredNames_of_not_table hnot]

theorem mem_leavesOfValue_of_leaf {leaf : Value} (h : ∀ entries, leaf ≠ .table entries)
    {path : List String} {value : Value} :
    (path, value) ∈ leavesOfValue leaf ↔ path = [] ∧ value = leaf := by
  cases leaf with
  | table entries => exact absurd rfl (h entries)
  | _ => simp [leavesOfValue]

theorem nil_not_mem_leaves (entries : List (String × Value)) (value : Value) :
    ([], value) ∉ leaves entries := by
  simp [mem_leaves_iff]

theorem mem_leaves_mergeInto {base : Table} (hbase : base.keys.Nodup)
    {entries : List (String × Value)} (hdistinct : (Entries.keys entries).Nodup) {name : String}
    {path : List String} {value : Value} :
    (name :: path, value) ∈ leaves (mergeInto base entries) ↔
      ∃ found, layered (base.get? name) (Entries.get? entries name) = some found ∧
        (path, value) ∈ leavesOfValue found := by
  rw [mem_leaves_cons_iff (keys_nodup_mergeInto hbase hdistinct), get?_mergeInto hdistinct]

/-- The leaves of a layered value: those of the upper layer, and those of the
lower layer where the upper is silent. -/
theorem mem_leavesOfValue_overlay {above : Value} (habove : above.WellFormed)
    {below : Option Value} (hbelow : ∀ under, below = some under → under.WellFormed)
    {path : List String} {value : Value} :
    (path, value) ∈ leavesOfValue (overlay below above) ↔
      (path, value) ∈ leavesOfValue above ∨
        ∃ under, below = some under ∧ (path, value) ∈ leavesOfValue under ∧
          Silent (some above) path := by
  induction above using Value.byNesting generalizing below path with
  | scalar leaf hlist htuple htable =>
    rw [overlay_of_leaf htable]
    simp [not_silent_of_leaf htable]
  | list items | tuple items =>
    rw [overlay_of_leaf (by simp)]
    simp [not_silent_of_leaf]
  | table entries ih =>
    obtain ⟨hdistinct, hvalues⟩ := wellFormed_table_iff.mp habove
    by_cases htable : ∃ base, below = some (.table base)
    · obtain ⟨base, rfl⟩ := htable
      obtain ⟨hbase, hunder⟩ := wellFormed_table_iff.mp (hbelow _ rfl)
      simp only [overlay, leavesOfValue, Option.some.injEq, exists_eq_left']
      cases path with
      | nil => simp [nil_not_mem_leaves]
      | cons name path =>
        rw [mem_leaves_mergeInto hbase hdistinct, mem_leaves_cons_iff hdistinct, Silent]
        cases hget : Entries.get? entries name with
        | none => simp [layered, Silent, mem_leaves_cons_iff hbase]
        | some upper =>
          have hentry := (Entries.get?_eq_some_iff hdistinct).mp hget
          have hnext : (path, value) ∈ leavesOfValue (overlay (Entries.get? base name) upper) ↔ _ :=
            ih (name, upper) hentry (hvalues name upper hget) (hunder name)
          simp only [layered, Option.some.injEq, exists_eq_left', hnext, mem_leaves_cons_iff hbase,
            exists_and_right, ← and_assoc]
    · have hnot := not_exists.mp htable
      rw [overlay_of_not_table hnot]
      refine ⟨.inl, ?_⟩
      rintro (hmember | ⟨under, rfl, hmember, hsilent⟩)
      · exact hmember
      · obtain ⟨rfl, _⟩ := (mem_leavesOfValue_of_leaf (by simpa using hnot)).mp hmember
        exact absurd hsilent (silent_table_nil entries)

/-- A layered value is well-formed if both layers are. -/
theorem wellFormed_overlay {above : Value} (habove : above.WellFormed) {below : Option Value}
    (hbelow : ∀ under, below = some under → under.WellFormed) :
    (overlay below above).WellFormed := by
  induction above using Value.byNesting generalizing below with
  | scalar leaf hlist htuple htable => rwa [overlay_of_leaf htable]
  | list items | tuple items => rwa [overlay_of_leaf (by simp)]
  | table entries ih =>
    by_cases htable : ∃ base, below = some (.table base)
    · obtain ⟨base, rfl⟩ := htable
      obtain ⟨hdistinct, hvalues⟩ := wellFormed_table_iff.mp habove
      obtain ⟨hbase, hunder⟩ := wellFormed_table_iff.mp (hbelow _ rfl)
      rw [overlay]
      refine wellFormed_table_iff.mpr ⟨keys_nodup_mergeInto hbase hdistinct, ?_⟩
      intro name value hvalue
      rw [get?_mergeInto hdistinct] at hvalue
      cases hget : Entries.get? entries name with
      | none =>
        rw [hget] at hvalue
        exact hunder name value hvalue
      | some upper =>
        rw [hget] at hvalue
        have hentry := (Entries.get?_eq_some_iff hdistinct).mp hget
        obtain rfl : overlay (Entries.get? base name) upper = value := Option.some.inj hvalue
        exact ih (name, upper) hentry (hvalues name upper hget) (hunder name)
    · rwa [overlay_of_not_table (not_exists.mp htable)]

theorem wellFormed_nil : (Value.table []).WellFormed :=
  wellFormed_table_iff.mpr ⟨List.nodup_nil, by simp [Entries.get?]⟩

theorem wellFormed_insert {entries : Table} (h : (Value.table entries).WellFormed) (name : String)
    {value : Value} (hvalue : value.WellFormed) :
    (Value.table (Entries.insert entries name value)).WellFormed := by
  obtain ⟨hdistinct, hvalues⟩ := wellFormed_table_iff.mp h
  refine wellFormed_table_iff.mpr ⟨Entries.keys_nodup_insert hdistinct name value, ?_⟩
  intro other found hfound
  rw [Entries.get?_insert] at hfound
  split at hfound
  · exact Option.some.inj hfound ▸ hvalue
  · exact hvalues other found hfound

/-- A table read from pairs is well-formed whatever the pairs repeat. -/
theorem wellFormed_ofList {pairs : List (String × Value)}
    (h : ∀ entry ∈ pairs, entry.2.WellFormed) :
    (Value.table (Entries.ofList pairs)).WellFormed := by
  rw [Value.WellFormed, Value.entriesWellFormed_iff]
  exact ⟨Entries.keys_nodup_ofList pairs, fun entry hentry =>
    h entry (Entries.mem_of_mem_ofList hentry)⟩

theorem wellFormed_merge {lower upper : Table} (hlower : (Value.table lower).WellFormed)
    (hupper : (Value.table upper).WellFormed) : (Value.table (merge lower upper)).WellFormed := by
  have hmerged : (overlay (some (.table lower)) (.table upper)).WellFormed :=
    wellFormed_overlay hupper fun under hunder => Option.some.inj hunder ▸ hlower
  rwa [overlay] at hmerged

end EventPolicy.Table
