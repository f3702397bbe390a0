import EventPolicy.Proofs.Table.Layers
import EventPolicy.Proofs.Text.Segment

/-!
How leaves spell keys. The dotted key of a leaf is its path with dots between
the names, as long as no table stands under an empty name at the top. A name may
have dots in it, so two paths can spell one key, and of these leaves the flat
table keeps the last. Hence it keeps every leaf exactly when no two spell the
same key, as when no name has a dot.
-/

namespace EventPolicy.Table

theorem dotted_of_ne_empty {above : String} (habove : above ≠ "") (path : List String) :
    dotted above path = Text.join "." (above :: path) := by
  induction path generalizing above with
  | nil => rfl
  | cons name rest ih =>
    have hkey : dottedKey above name = above ++ "." ++ name := if_neg habove
    have hfilled : dottedKey above name ≠ "" := by simp [hkey, habove]
    have hrest : dotted above (name :: rest) = dotted (dottedKey above name) rest := rfl
    rw [hrest, ih hfilled, hkey]
    cases rest <;> simp [Text.join, String.append_assoc]

/-- A path spells its names with dots between them, unless its first name is
empty and others follow. -/
theorem dotted_eq_join {name : String} {rest : List String} (h : name = "" → rest = []) :
    dotted "" (name :: rest) = Text.join "." (name :: rest) := by
  by_cases hname : name = ""
  · rw [h hname]
    rfl
  · exact dotted_of_ne_empty hname rest

/-- A path leads through no empty name at the top. -/
def NamedAtTop (path : List String) : Prop := ∀ rest, path = "" :: rest → rest = []

theorem dotted_of_namedAtTop {path : List String} (h : NamedAtTop path) :
    dotted "" path = Text.join "." path := by
  cases path with
  | nil => rfl
  | cons name rest => exact dotted_eq_join fun hname => h rest (hname ▸ rfl)

theorem length_join_of_empty {rest : List String} (h : rest ≠ []) :
    (Text.join "." ("" :: rest)).length = (Text.join "." rest).length + 1 := by
  cases rest with
  | nil => exact absurd rfl h
  | cons name others =>
    have hdot : ".".length = 1 := rfl
    simp [Text.join, hdot, Nat.add_comm]

theorem length_dotted_le (path : List String) :
    (dotted "" path).length ≤ (Text.join "." path).length := by
  induction path with
  | nil => exact Nat.le_refl 0
  | cons name rest ih =>
    by_cases h : name = "" ∧ rest ≠ []
    · obtain ⟨rfl, hrest⟩ := h
      rw [length_join_of_empty hrest]
      exact Nat.le_succ_of_le ih
    · have hpath : dotted "" (name :: rest) = Text.join "." (name :: rest) :=
        dotted_eq_join (by simpa using h)
      exact Nat.le_of_eq (congrArg String.length hpath)

/-- An empty name at the top is lost, with the dot behind it. -/
theorem length_dotted_lt {path : List String} (h : ¬ NamedAtTop path) :
    (dotted "" path).length < (Text.join "." path).length := by
  obtain ⟨rest, rfl, hrest⟩ : ∃ rest, path = "" :: rest ∧ rest ≠ [] := by
    simpa [NamedAtTop] using h
  rw [length_join_of_empty hrest]
  exact Nat.lt_succ_of_le (length_dotted_le rest)

/-- No table stands under an empty name at the top. -/
def TopNamed (table : Table) : Prop := ∀ inner, ("", Value.table inner) ∉ table

theorem dotted_of_mem_leaves {table : Table} (htop : TopNamed table) {leaf : List String × Value}
    (hleaf : leaf ∈ leaves table) : dotted "" leaf.1 = Text.join "." leaf.1 := by
  obtain ⟨name, found, rest, hentry, hpath, hrest⟩ := mem_leaves_iff.mp hleaf
  rw [hpath]
  refine dotted_eq_join fun hname => ?_
  cases found with
  | table inner => exact (htop inner (hname ▸ hentry)).elim
  | _ => simp_all [leavesOfValue]

/-- The flat form of a table is the map of its leaves, each under its path with
dots between the names. -/
theorem spelled_eq_map {table : Table} (htop : TopNamed table) :
    spelled "" (leaves table) =
      (leaves table).map fun leaf => (Text.join "." leaf.1, leaf.2) :=
  List.map_congr_left fun leaf hleaf => by rw [dotted_of_mem_leaves htop hleaf]

/-- The leaves of a table have different paths. -/
theorem paths_nodup {table : Table} (hwell : (Value.table table).WellFormed) :
    ((leaves table).map Prod.fst).Nodup := by
  have hnames : ∀ path, (namesAt (some (.table table)) path).Nodup := fun path =>
    namesAt_nodup (fun _ => wellFormed_of_some hwell) path
  refine List.pairwise_map.mpr ((leavesOfValue_pairwise hwell).imp fun hbefore hsame => ?_)
  rw [hsame] at hbefore
  exact hbefore.asymm hnames hbefore

/-- Every leaf is an entry of the flat form: there are as many, and each value is found
under its path with dots between the names. -/
def KeepsLeaves (table : Table) : Prop :=
  (flatten table "").length = (leaves table).length ∧
    ∀ leaf ∈ leaves table, (flatten table "").get? (Text.join "." leaf.1) = some leaf.2

/-- Every leaf is kept exactly when no two spell the same key. -/
theorem keepsLeaves_iff {table : Table} (htop : TopNamed table) :
    KeepsLeaves table ↔ ((leaves table).map fun leaf => Text.join "." leaf.1).Nodup := by
  have hkeys : Entries.keys (spelled "" (leaves table)) =
      (leaves table).map fun leaf => Text.join "." leaf.1 := by
    simp [spelled_eq_map htop, Entries.keys]
  have hlength : (spelled "" (leaves table)).length = (leaves table).length := List.length_map _
  rw [KeepsLeaves, flatten_eq_ofList, ← hlength, Entries.length_ofList_eq_iff, hkeys]
  refine and_iff_left_of_imp fun hdistinct leaf hleaf => ?_
  rw [← hkeys] at hdistinct
  rw [Entries.ofList_of_nodup hdistinct, Entries.get?_eq_some_iff hdistinct, spelled_eq_map htop]
  exact List.mem_map_of_mem hleaf

/-- Paths of names without dots spell different keys. -/
theorem join_nodup_of_plain {table : Table} (hwell : (Value.table table).WellFormed)
    (hplain : ∀ leaf ∈ leaves table, ∀ name ∈ leaf.1, '.' ∉ name.toList) :
    ((leaves table).map fun leaf => Text.join "." leaf.1).Nodup := by
  have hfilled : ∀ leaf ∈ leaves table, leaf.1 ≠ [] := fun leaf hleaf hempty =>
    nil_not_mem_leaves table leaf.2 (hempty ▸ hleaf)
  refine List.pairwise_map.mpr ?_
  refine (List.pairwise_map.mp (paths_nodup hwell)).imp_of_mem fun hleaf hother hapart hjoin => ?_
  exact hapart (Text.join_injective (hfilled _ hleaf) (hfilled _ hother) (hplain _ hleaf)
    (hplain _ hother) hjoin)

/-- What flattening keeps of a table without a table under an empty name at the
top. The keys are the paths of the leaves with dots between the names, each
once, and a key holds the last leaf that spells it. So every leaf is kept
exactly when no two spell the same key, and in particular when no name on
their paths has a dot. -/
theorem flatten_keeps_last_spelling {table : Table} (hwell : (Value.table table).WellFormed)
    (htop : TopNamed table) :
    (flatten table "").keys.Nodup ∧
    (∀ key, key ∈ (flatten table "").keys ↔ ∃ leaf ∈ leaves table, Text.join "." leaf.1 = key) ∧
    (∀ key value, (flatten table "").get? key = some value ↔
      ∃ before path after, leaves table = before ++ (path, value) :: after ∧
        Text.join "." path = key ∧ ∀ leaf ∈ after, Text.join "." leaf.1 ≠ key) ∧
    (KeepsLeaves table ↔ ((leaves table).map fun leaf => Text.join "." leaf.1).Nodup) ∧
    ((∀ leaf ∈ leaves table, ∀ name ∈ leaf.1, '.' ∉ name.toList) → KeepsLeaves table) := by
  refine ⟨?_, ?_, ?_, keepsLeaves_iff htop, ?_⟩
  · rw [flatten_eq_ofList]
    exact Entries.keys_nodup_ofList _
  · intro key
    rw [flatten_eq_ofList, Entries.mem_keys_ofList_iff, spelled_eq_map htop]
    simp [Entries.keys]
  · intro key value
    rw [get?_flatten_eq_some_iff]
    refine exists_congr fun before => exists_congr fun path => exists_congr fun after =>
      and_congr_right fun hleaves => ?_
    have hpath : dotted "" path = Text.join "." path :=
      dotted_of_mem_leaves htop (hleaves ▸ by simp : (path, value) ∈ leaves table)
    have hafter : ∀ leaf ∈ after, dotted "" leaf.1 = Text.join "." leaf.1 := fun leaf hleaf =>
      dotted_of_mem_leaves htop (hleaves ▸ by simp [hleaf])
    rw [hpath]
    exact and_congr_right fun _ => forall₂_congr fun leaf hleaf => by rw [hafter leaf hleaf]
  · intro hplain
    exact (keepsLeaves_iff htop).mpr (join_nodup_of_plain hwell hplain)

/-- A table with a leaf at the top, a quoted name with a dot in it and a list. -/
theorem flatten_keeps_last_spelling_of_quoted :
    let table : Table := [("event", .table [("include", .string "a")]),
      ("event.include", .string "b"), ("", .list [.string "c"])]
    (Value.table table).WellFormed ∧ TopNamed table ∧
      (flatten table "").get? "event.include" = some (.string "b") ∧ ¬ KeepsLeaves table := by
  intro table
  have hwell : (Value.table table).WellFormed := by
    simp [table, Value.WellFormed, Value.EntriesWellFormed, Value.AllWellFormed, Entries.keys]
  have htop : TopNamed table := by simp [TopNamed, table]
  obtain ⟨-, -, hlast, hkept, -⟩ := flatten_keeps_last_spelling hwell htop
  refine ⟨hwell, htop, (hlast _ _).mpr ?_, fun hkeeps => ?_⟩
  · exact ⟨[(["event", "include"], .string "a")], ["event.include"],
      [([""], .list [.string "c"])], rfl, rfl, by simp [Text.join]⟩
  · have hdistinct : ["event.include", "event.include", ""].Nodup := hkept.mp hkeeps
    simp at hdistinct

/-- Two leaves that spell one key cannot both be kept. -/
theorem not_keepsLeaves :
    ¬ ∀ table : Table, (Value.table table).WellFormed → KeepsLeaves table := by
  intro hkeeps
  have hwell : (Value.table [("camelContext", .table [("exclude", .string "audit")]),
      ("camelContext.exclude", .string "billing")]).WellFormed := by
    simp [Value.WellFormed, Value.EntriesWellFormed, Entries.keys]
  have hlost := (hkeeps _ hwell).2 (["camelContext", "exclude"], .string "audit")
    (by simp [leaves, leavesOfValue])
  have hclash : some (Value.string "billing") = some (Value.string "audit") := hlost
  simp at hclash

end EventPolicy.Table
