import EventPolicy.Redaction

/-!
What a redacted record tells of the values under sensitive names. Two records
that differ in nothing else are alike. A table shows nothing of such a value,
however deep it is in other tables; a list or a tuple shows each table in it as it
is.
-/

namespace EventPolicy.Redaction

/-- How far values may differ under sensitive names: in tables within tables,
or in the tables of lists and tuples as well. -/
inductive Reach where
  | tables
  | tablesAndLists

mutual

/-- Whether two values are the same but for what is under sensitive names. -/
def Alike (reach : Reach) : Value → Value → Prop
  | .list items, .list others =>
    match reach with
    | .tables => items = others
    | .tablesAndLists => ItemsAlike reach items others
  | .tuple items, .tuple others =>
    match reach with
    | .tables => items = others
    | .tablesAndLists => ItemsAlike reach items others
  | .table entries, .table others => EntriesAlike reach entries others
  | value, other => value = other

def ItemsAlike (reach : Reach) : List Value → List Value → Prop
  | [], [] => True
  | item :: items, other :: others => Alike reach item other ∧ ItemsAlike reach items others
  | _, _ => False

/-- Whether two tables have the same names in the same order, with values that
are alike under each name that is not sensitive. -/
def EntriesAlike (reach : Reach) : List (String × Value) → List (String × Value) → Prop
  | [], [] => True
  | (name, value) :: entries, (otherName, other) :: others =>
    name = otherName ∧ (isSensitive name = false → Alike reach value other) ∧
      EntriesAlike reach entries others
  | _, _ => False

end

variable {reach : Reach} {value other item : Value} {items others : List Value}
  {entries : List (String × Value)}

theorem alike_iff_eq (hlist : ∀ items, value ≠ .list items) (htuple : ∀ items, value ≠ .tuple items)
    (htable : ∀ entries, value ≠ .table entries) : Alike reach value other ↔ value = other := by
  cases value with
  | list items => exact absurd rfl (hlist items)
  | tuple items => exact absurd rfl (htuple items)
  | table entries => exact absurd rfl (htable entries)
  | _ => simp [Alike]

theorem alike_list_iff :
    Alike .tablesAndLists (.list items) other ↔
      ∃ others, other = .list others ∧ ItemsAlike .tablesAndLists items others := by
  cases other <;> simp [Alike]

theorem alike_tuple_iff :
    Alike .tablesAndLists (.tuple items) other ↔
      ∃ others, other = .tuple others ∧ ItemsAlike .tablesAndLists items others := by
  cases other <;> simp [Alike]

theorem alike_table_iff :
    Alike reach (.table entries) other ↔
      ∃ others, other = .table others ∧ EntriesAlike reach entries others := by
  cases other <;> simp [Alike]

/-- An item of a list or a tuple shows every difference: what is alike to a text is the
text, and anything else is shown as it is. -/
theorem redactItem_eq_iff (h : Alike .tablesAndLists item other) :
    redactItem item = redactItem other ↔ item = other := by
  cases item with
  | string text =>
    obtain rfl := (alike_iff_eq (by simp) (by simp) (by simp)).mp h
    simp
  | list items =>
    obtain ⟨others, rfl, -⟩ := alike_list_iff.mp h
    rfl
  | tuple items =>
    obtain ⟨others, rfl, -⟩ := alike_tuple_iff.mp h
    rfl
  | table entries =>
    obtain ⟨others, rfl, -⟩ := alike_table_iff.mp h
    rfl
  | _ =>
    obtain rfl := (alike_iff_eq (by simp) (by simp) (by simp)).mp h
    simp

theorem map_redactItem_eq_iff (h : ItemsAlike .tablesAndLists items others) :
    items.map redactItem = others.map redactItem ↔ items = others := by
  induction items generalizing others with
  | nil =>
    cases others with
    | nil => simp
    | cons other others => cases h
  | cons item items ih =>
    cases others with
    | nil => cases h
    | cons other others =>
      obtain ⟨hitem, hitems⟩ := h
      rw [List.map_cons, List.map_cons, List.cons.injEq, List.cons.injEq, redactItem_eq_iff hitem,
        ih hitems]

/-- Entries are shown the same where the values that are not replaced are. -/
theorem redactEntries_eq_iff {others : List (String × Value)}
    (hvalues : ∀ entry ∈ entries, ∀ other, Alike .tablesAndLists entry.2 other →
      (redactValue entry.2 = redactValue other ↔ Alike .tables entry.2 other))
    (h : EntriesAlike .tablesAndLists entries others) :
    redactEntries entries = redactEntries others ↔ EntriesAlike .tables entries others := by
  induction entries generalizing others with
  | nil =>
    cases others with
    | nil => simp [EntriesAlike]
    | cons entry others => cases h
  | cons entry entries ih =>
    cases others with
    | nil => cases h
    | cons otherEntry others =>
      obtain ⟨name, value⟩ := entry
      obtain ⟨otherName, other⟩ := otherEntry
      obtain ⟨rfl, hvalue, hentries⟩ := h
      obtain ⟨hfirst, hrest⟩ := List.forall_mem_cons.mp hvalues
      have htail := ih hrest hentries
      by_cases hname : isSensitive name = true
      · simp [redactEntries, EntriesAlike, hname, htail]
      · have hhead := hfirst other (hvalue (by simpa using hname))
        simp [redactEntries, EntriesAlike, hname, htail, hhead]

/-- Of two values that are alike the same is shown exactly if they differ in no list and
in no tuple. -/
theorem redactValue_eq_iff (h : Alike .tablesAndLists value other) :
    redactValue value = redactValue other ↔ Alike .tables value other := by
  induction value using Value.byNesting generalizing other with
  | scalar value hlist htuple htable =>
    obtain rfl := (alike_iff_eq hlist htuple htable).mp h
    simp [alike_iff_eq hlist htuple htable]
  | list items _ =>
    obtain ⟨others, rfl, hitems⟩ := alike_list_iff.mp h
    rw [redactValue, redactValue, Value.list.injEq, map_redactItem_eq_iff hitems]
    rfl
  | tuple items _ =>
    obtain ⟨others, rfl, hitems⟩ := alike_tuple_iff.mp h
    rw [redactValue, redactValue, Value.list.injEq, map_redactItem_eq_iff hitems]
    rfl
  | table entries ih =>
    obtain ⟨others, rfl, hentries⟩ := alike_table_iff.mp h
    rw [redactValue, redactValue, Value.table.injEq,
      redactEntries_eq_iff (fun entry hmem other => ih entry hmem) hentries]
    rfl

/-- A redacted record shows nothing of the values under sensitive names exactly
if no table within a list or a tuple has any that differ. -/
theorem redact_eq_iff {first second : Table} (h : EntriesAlike .tablesAndLists first second) :
    redact first = redact second ↔ EntriesAlike .tables first second :=
  redactEntries_eq_iff (fun _ _ _ hvalue => redactValue_eq_iff hvalue) h

/-- A record with a token in a table, and with a list. -/
def nestedRecord (token : String) : Table :=
  [("ctx", .table [("token", .string token)]), ("uris", .list [.string "seda:x"])]

theorem redact_eq_of_nested :
    EntriesAlike .tablesAndLists (nestedRecord "abc") (nestedRecord "xyz") ∧
      redact (nestedRecord "abc") = redact (nestedRecord "xyz") := by
  have htoken : isSensitive "token" = true := by decide +kernel
  have htables : ∀ reach, EntriesAlike reach (nestedRecord "abc") (nestedRecord "xyz") := by
    intro reach
    cases reach <;> simp [nestedRecord, EntriesAlike, Alike, ItemsAlike, htoken]
  exact ⟨htables _, (redact_eq_iff (htables _)).mpr (htables _)⟩

/-- A record with a table in a list. -/
def listedRecord (password : String) : Table :=
  [("endpoints", .list [.table [("password", .string password)]])]

/-- What is under a sensitive name is shown where the table is an item of a list. -/
theorem not_redact_eq_of_alike :
    ¬ ∀ first second : Table, EntriesAlike .tablesAndLists first second →
      redact first = redact second := by
  intro hsame
  have hpassword : isSensitive "password" = true := by decide +kernel
  have hendpoints : isSensitive "endpoints" = false := by decide +kernel
  have halike : EntriesAlike .tablesAndLists (listedRecord "tiger") (listedRecord "lion") := by
    simp [listedRecord, EntriesAlike, Alike, ItemsAlike, hpassword]
  have hshown := hsame _ _ halike
  simp [redact, listedRecord, redactEntries, redactValue, redactItem, hendpoints] at hshown

end EventPolicy.Redaction
