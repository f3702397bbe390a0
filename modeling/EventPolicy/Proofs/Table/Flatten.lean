import EventPolicy.Proofs.Entries
import EventPolicy.Table.Flatten

/-!
What flattening a table keeps. The flat form of a table is the map that its
leaves make, in document order, under their dotted keys. Document order is the
lexicographic order of paths in which the names of each table stand as the
table lists them.
-/

namespace EventPolicy

theorem Value.entriesWellFormed_iff {entries : List (String × Value)} :
    EntriesWellFormed entries ↔ ∀ entry ∈ entries, entry.2.WellFormed := by
  induction entries with
  | nil => simp [EntriesWellFormed]
  | cons entry rest ih => simp [EntriesWellFormed, ih]

namespace Table

/-- The dotted key of a path below a prefix. -/
def dotted (above : String) (path : List String) : String := path.foldl dottedKey above

/-- The leaves of a value under their dotted keys. -/
def spelled (above : String) (found : List (List String × Value)) : Entries Value :=
  found.map fun leaf => (dotted above leaf.1, leaf.2)

theorem spelled_append (above : String) (first second : List (List String × Value)) :
    spelled above (first ++ second) = spelled above first ++ spelled above second :=
  List.map_append

theorem spelled_below (above name : String) (found : List (List String × Value)) :
    spelled above (found.map fun leaf => (name :: leaf.1, leaf.2)) =
      spelled (dottedKey above name) found := by
  simp [spelled, dotted, Function.comp_def]

theorem flattenInto_eq {entries : List (String × Value)}
    (hvalues : ∀ entry ∈ entries, ∀ key,
      flattenValue key entry.2 = Entries.ofList (spelled key (leavesOfValue entry.2)))
    (done : Table) (above : String) :
    flattenInto done above entries = Entries.insertAll done (spelled above (leaves entries)) := by
  induction entries generalizing done with
  | nil => simp [flattenInto, leaves, spelled, Entries.insertAll]
  | cons entry rest ih =>
    obtain ⟨name, value⟩ := entry
    obtain ⟨hvalue, hrest⟩ := List.forall_mem_cons.mp hvalues
    rw [flattenInto, ih hrest, hvalue, Entries.insertAll_ofList, leaves, spelled_append,
      spelled_below, Entries.insertAll_append]

theorem flattenValue_eq (value : Value) (key : String) :
    flattenValue key value = Entries.ofList (spelled key (leavesOfValue value)) := by
  induction value using Value.byNesting generalizing key with
  | scalar value hlist htuple htable =>
    cases value with
    | table entries => exact absurd rfl (htable entries)
    | _ => rfl
  | list items | tuple items => rfl
  | table entries ih =>
    rw [flattenValue, leavesOfValue]
    exact flattenInto_eq ih [] key

/-- The flat form of a table is the map that its leaves make. -/
theorem flatten_eq_ofList (table : Table) (above : String) :
    flatten table above = Entries.ofList (spelled above (leaves table)) :=
  flattenInto_eq (fun entry _ => flattenValue_eq entry.2) [] above

theorem keys_nodup_flatten (table : Table) (above : String) :
    (flatten table above).keys.Nodup := by
  rw [flatten_eq_ofList]
  exact Entries.keys_nodup_ofList _

/-- What the flat form of a table holds under a key is the value of the last
leaf that spells the key. -/
theorem get?_flatten_eq_some_iff {table : Table} {above key : String} {value : Value} :
    (flatten table above).get? key = some value ↔
      ∃ before path after, leaves table = before ++ (path, value) :: after ∧
        dotted above path = key ∧ ∀ leaf ∈ after, dotted above leaf.1 ≠ key := by
  rw [flatten_eq_ofList, Entries.get?_ofList_eq_some_iff]
  constructor
  · rintro ⟨before, after, hpairs, hafter⟩
    obtain ⟨first, rest, hleaves, rfl, hrest⟩ := List.map_eq_append_iff.mp hpairs
    obtain ⟨leaf, last, rfl, hleaf, rfl⟩ := List.map_eq_cons_iff.mp hrest
    obtain ⟨hkey, hvalue⟩ := Prod.mk.inj hleaf
    refine ⟨first, leaf.1, last, by rw [hleaves, ← hvalue], hkey, ?_⟩
    intro other hother
    exact hafter _ (List.mem_map_of_mem hother)
  · rintro ⟨before, path, after, hleaves, rfl, hafter⟩
    refine ⟨spelled above before, spelled above after, by simp [hleaves, spelled], ?_⟩
    intro entry hentry
    obtain ⟨leaf, hleaf, rfl⟩ := List.mem_map.mp hentry
    exact hafter leaf hleaf

/-- A leaf of a table that no later leaf takes its key from. -/
def Effective (table : Table) (path : List String) (value : Value) : Prop :=
  ∃ before after, leaves table = before ++ (path, value) :: after ∧
    ∀ leaf ∈ after, dotted "" leaf.1 ≠ dotted "" path

theorem get?_flatten_iff_effective {table : Table} {key : String} {value : Value} :
    (flatten table "").get? key = some value ↔
      ∃ path, Effective table path value ∧ dotted "" path = key := by
  rw [get?_flatten_eq_some_iff]
  constructor
  · rintro ⟨before, path, after, hleaves, rfl, hafter⟩
    exact ⟨path, ⟨before, after, hleaves, hafter⟩, rfl⟩
  · rintro ⟨path, ⟨before, after, hleaves, hafter⟩, rfl⟩
    exact ⟨before, path, after, hleaves, rfl, hafter⟩

/-- Where no two leaves spell the same key, every leaf is effective. -/
theorem effective_of_mem {table : Table}
    (hdistinct : ((leaves table).map fun leaf => dotted "" leaf.1).Nodup) {path : List String}
    {value : Value} (hleaf : (path, value) ∈ leaves table) : Effective table path value := by
  obtain ⟨before, after, hleaves⟩ := List.append_of_mem hleaf
  refine ⟨before, after, hleaves, fun leaf hafter hsame => ?_⟩
  rw [hleaves, List.map_append, List.map_cons] at hdistinct
  have hlast := (List.nodup_cons.mp (List.nodup_append.mp hdistinct).2.1).1
  exact hlast (hsame ▸ List.mem_map_of_mem hafter)

theorem mem_leaves_iff {entries : List (String × Value)} {path : List String} {value : Value} :
    (path, value) ∈ leaves entries ↔ ∃ name found rest, (name, found) ∈ entries ∧
      path = name :: rest ∧ (rest, value) ∈ leavesOfValue found := by
  induction entries with
  | nil => simp [leaves]
  | cons entry others ih =>
    obtain ⟨name, found⟩ := entry
    rw [leaves, List.mem_append, ih]
    constructor
    · rintro (hmember | ⟨other, below, rest, hentry, hpath, hrest⟩)
      · obtain ⟨leaf, hleaf, heq⟩ := List.mem_map.mp hmember
        obtain ⟨rfl, rfl⟩ := Prod.mk.inj heq
        exact ⟨name, found, leaf.1, List.mem_cons_self, rfl, hleaf⟩
      · exact ⟨other, below, rest, List.mem_cons_of_mem _ hentry, hpath, hrest⟩
    · rintro ⟨other, below, rest, hentry, rfl, hrest⟩
      rcases List.mem_cons.mp hentry with heq | hentry
      · obtain ⟨rfl, rfl⟩ := Prod.mk.inj heq
        exact .inl (List.mem_map.mpr ⟨(rest, value), hrest, rfl⟩)
      · exact .inr ⟨other, below, rest, hentry, rfl, hrest⟩

/-- A leaf of a table is a leaf of the value that its first name has. -/
theorem mem_leaves_cons_iff {entries : List (String × Value)}
    (hdistinct : (Entries.keys entries).Nodup) {name : String} {path : List String}
    {value : Value} :
    (name :: path, value) ∈ leaves entries ↔
      ∃ found, Entries.get? entries name = some found ∧ (path, value) ∈ leavesOfValue found := by
  rw [mem_leaves_iff]
  constructor
  · rintro ⟨other, found, rest, hentry, hpath, hrest⟩
    obtain ⟨rfl, rfl⟩ := List.cons.inj hpath
    exact ⟨found, (Entries.get?_eq_some_iff hdistinct).mpr hentry, hrest⟩
  · rintro ⟨found, hfound, hrest⟩
    exact ⟨name, found, path, (Entries.get?_eq_some_iff hdistinct).mp hfound, rfl, hrest⟩

theorem leaves_append (first second : Table) :
    leaves (first ++ second) = leaves first ++ leaves second := by
  induction first with
  | nil => rfl
  | cons entry rest ih => simp [leaves, ih]

theorem leaves_cons_table (name : String) (inner rest : Table) :
    leaves ((name, .table inner) :: rest) =
      (leaves inner).map (fun leaf => (name :: leaf.1, leaf.2)) ++ leaves rest := rfl

/-- The names of the table at the end of a path, in order; none if no table is there. -/
def namesAt : Option Value → List String → List String
  | some (.table entries), [] => Entries.keys entries
  | some (.table entries), name :: path => namesAt (Entries.get? entries name) path
  | _, _ => []

/-- Document order of paths, given the order of names at each path: where the
two part, the name of the first stands before that of the second. -/
def Precedes (names : List String → List String) : List String → List String → Prop
  | name :: path, other :: rest =>
    [name, other].Sublist (names []) ∨
      (name = other ∧ Precedes (fun below => names (name :: below)) path rest)
  | _, _ => False

theorem Precedes.mono {names others : List String → List String}
    (hnames : ∀ path, names path = [] ∨ names path = others path) {path other : List String}
    (h : Precedes names path other) : Precedes others path other := by
  induction path generalizing names others other with
  | nil => cases h
  | cons name path ih =>
    cases other with
    | nil => cases h
    | cons another rest =>
      rcases h with h | ⟨hsame, h⟩
      · left
        rcases hnames [] with hnone | hall
        · rw [hnone] at h
          cases h
        · rwa [← hall]
      · exact .inr ⟨hsame, ih (fun below => hnames (name :: below)) h⟩

theorem not_sublist_swap {names : List String} (hdistinct : names.Nodup) {name other : String}
    (h : [name, other].Sublist names) : ¬ [other, name].Sublist names := by
  induction names with
  | nil => cases h
  | cons first rest ih =>
    obtain ⟨habsent, hrest⟩ := List.nodup_cons.mp hdistinct
    intro hagain
    cases h with
    | cons _ h =>
      cases hagain with
      | cons _ hagain => exact ih hrest h hagain
      | cons_cons => exact habsent (h.subset (by simp))
    | cons_cons _ h =>
      cases hagain with
      | cons _ hagain => exact habsent (hagain.subset (by simp))
      | cons_cons => exact habsent (h.subset (by simp))

/-- Where names are distinct, no two paths precede each other. -/
theorem Precedes.asymm {names : List String → List String} (hdistinct : ∀ path, (names path).Nodup)
    {path other : List String} (h : Precedes names path other) : ¬ Precedes names other path := by
  induction path generalizing names other with
  | nil => cases h
  | cons name path ih =>
    cases other with
    | nil => cases h
    | cons another rest =>
      rintro (hagain | ⟨hsame, hagain⟩)
      · rcases h with h | ⟨rfl, h⟩
        · exact not_sublist_swap (hdistinct []) h hagain
        · exact not_sublist_swap (hdistinct []) hagain hagain
      · subst hsame
        rcases h with h | ⟨_, h⟩
        · exact not_sublist_swap (hdistinct []) h h
        · exact ih (fun below => hdistinct (another :: below)) h hagain

/-- The leaves of a well-formed value stand in document order. -/
theorem leavesOfValue_pairwise {value : Value} (hvalue : value.WellFormed) :
    (leavesOfValue value).Pairwise fun leaf other =>
      Precedes (namesAt (some value)) leaf.1 other.1 := by
  induction value using Value.byNesting with
  | scalar value hlist htuple htable =>
    cases value with
    | table entries => exact absurd rfl (htable entries)
    | _ => exact List.pairwise_singleton _ _
  | list items | tuple items => exact List.pairwise_singleton _ _
  | table entries ih =>
    obtain ⟨hdistinct, hvalues⟩ := hvalue
    rw [leavesOfValue]
    -- The names above are those of the whole table, so the induction is on what follows a part.
    suffices hrest : ∀ before rest, entries = before ++ rest → (leaves rest).Pairwise
        fun leaf other => Precedes (namesAt (some (.table entries))) leaf.1 other.1 from
      hrest [] entries rfl
    intro before rest hsplit
    induction rest generalizing before with
    | nil => exact List.Pairwise.nil
    | cons entry rest ihrest =>
      obtain ⟨name, value⟩ := entry
      have hentry : (name, value) ∈ entries := by simp [hsplit]
      rw [leaves, List.pairwise_append]
      refine ⟨?_, ihrest (before ++ [(name, value)]) (by simp [hsplit]), ?_⟩
      · rw [List.pairwise_map]
        have hwell := Value.entriesWellFormed_iff.mp hvalues (name, value) hentry
        refine (ih (name, value) hentry hwell).imp fun hbelow => .inr ⟨rfl, ?_⟩
        have hget := (Entries.get?_eq_some_iff hdistinct).mpr hentry
        simpa only [namesAt, hget] using hbelow
      · intro leaf hleaf other hother
        obtain ⟨below, _, rfl⟩ := List.mem_map.mp hleaf
        obtain ⟨another, found, path, hfound, hpath, _⟩ := mem_leaves_iff.mp hother
        rw [hpath]
        left
        have hmember : another ∈ Entries.keys rest := List.mem_map.mpr ⟨_, hfound, rfl⟩
        have hpair := (List.singleton_sublist.mpr hmember).cons_cons name
        refine hpair.trans ?_
        simp [namesAt, hsplit, Entries.keys]

end Table

end EventPolicy
