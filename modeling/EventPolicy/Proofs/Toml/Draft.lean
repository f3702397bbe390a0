import EventPolicy.Proofs.Table.Arrangement
import EventPolicy.Toml.Draft

/-!
What a draft holds that only keys with texts were added to. Its tables are then
filled and have distinct names, and each key that is added puts its leaf at the
end of the innermost table on the way to it.
-/

namespace EventPolicy.Toml.Draft

open Table

/-- A text, or a table of such values that has entries with distinct names. -/
inductive Grown : Value → Prop
  | text (text : String) : Grown (.string text)
  | table {entries : Table} (hfilled : entries ≠ []) (hdistinct : (Entries.keys entries).Nodup)
    (hvalues : ∀ entry ∈ entries, Grown entry.2) : Grown (.table entries)

/-- The root of a draft that only keys with texts were added to. -/
structure Sown (entries : Table) : Prop where
  distinct : (Entries.keys entries).Nodup
  grown : ∀ entry ∈ entries, Grown entry.2

theorem sown_nil : Sown [] := ⟨List.nodup_nil, by simp⟩

theorem Grown.leaves_ne_nil {value : Value} (h : Grown value) : leavesOfValue value ≠ [] := by
  induction h with
  | text text => simp [leavesOfValue]
  | @table entries hfilled _ _ ih =>
    cases entries with
    | nil => exact absurd rfl hfilled
    | cons entry rest =>
      have hfirst := ih entry List.mem_cons_self
      simp [leavesOfValue, leaves, hfirst]

theorem Grown.wellFormed {value : Value} (h : Grown value) : value.WellFormed := by
  induction h with
  | text text => trivial
  | table _ hdistinct _ ih => exact ⟨hdistinct, Value.entriesWellFormed_iff.mpr ih⟩

theorem Sown.wellFormed {entries : Table} (h : Sown entries) : (Value.table entries).WellFormed :=
  ⟨h.distinct,
    Value.entriesWellFormed_iff.mpr fun entry hentry => (h.grown entry hentry).wellFormed⟩

variable {entries : Table} {name : String} {value : Value}

theorem Sown.append (h : Sown entries) (habsent : name ∉ Entries.keys entries)
    (hvalue : Grown value) : Sown (entries ++ [(name, value)]) := by
  constructor
  · have hkeys := Entries.keys_nodup_insert h.distinct name value
    rwa [Entries.insert_of_not_mem habsent] at hkeys
  · intro entry hentry
    rcases List.mem_append.mp hentry with hentry | hentry
    · exact h.grown entry hentry
    · rw [List.mem_singleton.mp hentry]
      exact hvalue

/-- A new name at the end of a table puts its only leaf last. -/
theorem leaves_append_of_absent {path : List String} {leaf : Value}
    (habsent : name ∉ Entries.keys entries) (hvalue : leavesOfValue value = [(path, leaf)]) :
    leaves (entries ++ [(name, value)]) = place (name :: path, leaf) (leaves entries) := by
  rw [place_of_apart (shared_eq_zero_of_absent habsent path), leaves_append]
  simp [leaves, hvalue]

variable {before after inner grown : Table}

theorem Sown.replace (h : Sown (before ++ (name, .table inner) :: after)) (hvalue : Grown value) :
    Sown (before ++ (name, value) :: after) := by
  constructor
  · simpa [Entries.keys] using h.distinct
  · intro entry hentry
    rcases List.mem_append.mp hentry with hentry | hentry
    · exact h.grown entry (List.mem_append_left _ hentry)
    · rcases List.mem_cons.mp hentry with rfl | hentry
      · exact hvalue
      · exact h.grown entry (by simp [hentry])

/-- A leaf that is placed in a table below a name is placed there in the whole. -/
theorem leaves_replace {path : List String} {leaf : Value}
    (h : Sown (before ++ (name, .table inner) :: after))
    (hgrown : leaves grown = place (path, leaf) (leaves inner)) :
    leaves (before ++ (name, .table grown) :: after) =
      place (name :: path, leaf) (leaves (before ++ (name, .table inner) :: after)) := by
  have hdistinct := h.distinct
  simp only [Entries.keys, List.map_append, List.map_cons, List.nodup_append, List.nodup_cons,
    List.mem_cons, forall_eq_or_imp] at hdistinct
  obtain ⟨-, ⟨hafter, -⟩, hbefore⟩ := hdistinct
  have habsent : name ∉ Entries.keys before := fun hmem => (hbefore name hmem).1 rfl
  have hfilled : leaves inner ≠ [] := (h.grown (name, .table inner) (by simp)).leaves_ne_nil
  have hbelow : place (name :: path, leaf)
        ((leaves inner).map fun other => (name :: other.1, other.2)) =
      (leaves grown).map fun other => (name :: other.1, other.2) := by
    rw [hgrown]
    exact place_map (path, leaf) (f := fun other => (name :: other.1, other.2)) (by simp [shared]) _
  rw [leaves_append, leaves_append, leaves_cons_table, leaves_cons_table, ← hbelow,
    ← List.append_assoc, ← List.append_assoc]
  refine (place_among (shared_eq_zero_of_absent habsent path) ?_ (by simpa using hfilled)
    (shared_eq_zero_of_absent hafter path)).symm
  intro other hother
  obtain ⟨found, -, rfl⟩ := List.mem_map.mp hother
  simp [shared]

/-- Adding a key with a text puts its leaf at the end of the innermost table on
the way to it, and keeps the tables filled and their names distinct. -/
theorem Sown.changeAt {result : Table} {path : List String} {text : String} (h : Sown entries)
    (hadded : changeAt true (addNew name (.string text)) path entries = some result) :
    Sown result ∧ result ≠ [] ∧
      leaves result = place (path ++ [name], .string text) (leaves entries) := by
  -- Down the path, a missing table goes last and a present one grows where it stands.
  induction path generalizing entries result with
  | nil =>
    rw [Draft.changeAt, addNew] at hadded
    split at hadded
    · cases hadded
    · next hnew =>
      have habsent : name ∉ Entries.keys entries := by
        rwa [Entries.has, Entries.isSome_get?_iff] at hnew
      rw [Entries.insert_of_not_mem habsent] at hadded
      obtain rfl := Option.some.inj hadded
      exact ⟨h.append habsent (.text text), by simp, leaves_append_of_absent habsent rfl⟩
  | cons first path ih =>
    rw [Draft.changeAt] at hadded
    cases hfirst : Entries.get? entries first with
    | none =>
      simp only [hfirst, Option.map_eq_some_iff] at hadded
      obtain ⟨inner, hinner, rfl⟩ := hadded
      obtain ⟨hsown, hfilled, hleaves⟩ := ih sown_nil hinner
      have habsent := Entries.get?_eq_none_iff.mp hfirst
      rw [Entries.insert_of_not_mem habsent]
      exact ⟨h.append habsent (.table hfilled hsown.distinct hsown.grown), by simp,
        leaves_append_of_absent habsent hleaves⟩
    | some found =>
      obtain ⟨before, after, rfl, hinsert⟩ := Entries.exists_insert_eq_of_get? hfirst
      have hgrown : Grown found := h.grown (first, found) (by simp)
      cases hgrown with
      | text => simp [hfirst] at hadded
      | @table inner hfilled hdistinct hvalues =>
        simp only [hfirst, Option.map_eq_some_iff] at hadded
        obtain ⟨changed, hchanged, rfl⟩ := hadded
        obtain ⟨hsown, hfilled, hleaves⟩ := ih ⟨hdistinct, hvalues⟩ hchanged
        rw [hinsert]
        exact ⟨h.replace (.table hfilled hsown.distinct hsown.grown), by simp,
          leaves_replace h hleaves⟩

/-- A table holds lines if its leaves are theirs, each line placed after those before it. -/
structure Holds (entries : Table) (lines : List (KeyPath × String)) : Prop where
  sown : Sown entries
  leaves_eq : leaves entries = (arrange lines).map fun line => (line.1, .string line.2)

theorem holds_nil : Holds [] [] := ⟨sown_nil, rfl⟩

/-- A key with a text that is added below no header is one more line that is held. -/
theorem Holds.addEntry {draft grown : Draft} {lines : List (KeyPath × String)} {key : KeyPath}
    {text : String} (h : Holds draft.root lines)
    (hadded : draft.addEntry [] key (.string text) = some grown) :
    Holds grown.root (lines ++ [(key, text)]) := by
  simp only [Draft.addEntry, List.nil_append, Option.bind_eq_bind,
    Option.bind_eq_some_iff] at hadded
  obtain ⟨name, hname, hadded⟩ := hadded
  split at hadded
  · cases hadded
  · obtain ⟨root, hroot, hgrown⟩ := Option.bind_eq_some_iff.mp hadded
    obtain rfl := Option.some.inj hgrown
    obtain ⟨hsown, -, hleaves⟩ := h.sown.changeAt hroot
    rw [List.dropLast_append_getLast? name hname, h.leaves_eq] at hleaves
    refine ⟨hsown, hleaves.trans ?_⟩
    rw [arrange_append_singleton]
    exact place_map (key, text) (f := fun line => (line.1, Value.string line.2)) (by simp) _

end EventPolicy.Toml.Draft
