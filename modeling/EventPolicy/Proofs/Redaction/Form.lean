import EventPolicy.Proofs.Redaction.Options
import EventPolicy.Proofs.Table.Laws
import Mathlib.Data.List.Forall2

/-!
The form of a redacted record. At a place that is reached through tables under names
that are not sensitive, a table keeps its names in their order and a list its number of
items, and a tuple becomes a list of its items; of all else only texts with a credential
in them are changed. `Spared` says so of one value, `KeepsForm` of what stands at a
place, and `redact_keeps_form` of every such place of a record. A tuple does not stay
one, and nothing stays below a sensitive name (`not_redact_keeps_values`).
-/

namespace EventPolicy.Redaction

/-! ### Texts without credentials -/

section Texts

variable {text : List Char}

/-- An address with a user and a password stands in the text. -/
def HoldsAddress (text : List Char) : Prop :=
  ∃ before scheme user password after, IsScheme scheme ∧ IsRun isUserChar user ∧
    IsRun isPasswordChar password ∧
      text = before ++ (scheme ++ (slashes ++ (user ++ ':' :: (password ++ '@' :: after))))

/-- A password option with a value stands in the text. -/
def HoldsOption (text : List Char) : Prop :=
  ∃ before name value after, IsOptionName name ∧ IsRun isOptionChar value ∧
    text = before ++ (name ++ '=' :: (value ++ after))

def HoldsCredential (text : String) : Prop := HoldsAddress text.toList ∨ HoldsOption text.toList

theorem absent_userinfo_iff : userinfo.Absent text ↔ ¬ HoldsAddress text := by
  constructor
  · rintro habsent ⟨before, scheme, user, password, after, hscheme, huser, hpassword, rfl⟩
    have hnone := habsent _ (List.suffix_append before _)
    have hfound : afterUserinfo? (user ++ ':' :: (password ++ '@' :: after)) = some after :=
      afterUserinfo?_eq_some_iff.mpr ⟨user, password, huser, hpassword, rfl⟩
    rw [afterUserinfo?_of_find?_eq_none hscheme hnone] at hfound
    cases hfound
  · rintro hnone found ⟨before, rfl⟩
    rw [Option.eq_none_iff_forall_ne_some]
    rintro ⟨shown, after⟩ hfind
    obtain ⟨scheme, start, hscheme, rfl, -, hafter⟩ := find?_userinfo_eq_some hfind
    obtain ⟨user, password, huser, hpassword, rfl⟩ := afterUserinfo?_eq_some_iff.mp hafter
    exact hnone ⟨before, scheme, user, password, after, hscheme, huser, hpassword, rfl⟩

theorem absent_options_iff : options.Absent text ↔ ¬ HoldsOption text := by
  constructor
  · rintro habsent ⟨before, name, value, after, hname, ⟨hne, hvalue⟩, rfl⟩
    obtain ⟨run, rest, rfl, hrun, hrest⟩ := exists_run isOptionChar after
    have hwhole : IsRun isOptionChar (value ++ run) :=
      ⟨by simp [hne], List.forall_mem_append.mpr ⟨hvalue, hrun⟩⟩
    have hnone := habsent _ (List.suffix_append before _)
    rw [← List.append_assoc, find?_options hname hwhole hrest] at hnone
    cases hnone
  · rintro hnone found ⟨before, rfl⟩
    rw [Option.eq_none_iff_forall_ne_some]
    rintro ⟨shown, after⟩ hfind
    obtain ⟨name, value, hname, hvalue, -, rfl, -⟩ := find?_options_eq_some hfind
    exact hnone ⟨before, name, value, after, hname, hvalue, rfl⟩

/-- A text with no credential in it is shown as it is. -/
theorem redactText_eq_self {text : String} (h : ¬ HoldsCredential text) :
    redactText text = text := by
  obtain ⟨haddress, hoption⟩ := not_or.mp h
  rw [redactText, maskUserinfo_eq_replace,
    Pattern.replace_of_absent (absent_userinfo_iff.mpr haddress), maskOptions_eq_replace,
    Pattern.replace_of_absent (absent_options_iff.mpr hoption), String.ofList_toList]

theorem HoldsAddress.slashes_infix (h : HoldsAddress text) : "://".toList <:+: text := by
  obtain ⟨before, scheme, user, password, after, -, -, -, rfl⟩ := h
  exact ⟨before ++ scheme, user ++ ':' :: (password ++ '@' :: after), by simp [slashes]⟩

theorem HoldsOption.sign_mem (h : HoldsOption text) : '=' ∈ text := by
  obtain ⟨before, name, value, after, -, -, rfl⟩ := h
  simp

end Texts

/-! ### Values and places -/

variable {value shown : Value} {path : List String}

/-- What is shown of a value is the value itself, unless it is a text with a credential. -/
def Spared (value shown : Value) : Prop :=
  shown = value ∨
    ∃ text, value = .string text ∧ HoldsCredential text ∧ shown = .string (redactText text)

/-- What is shown of a table has its names in their order, and what is shown of a list or
a tuple is a list with an item for each of its items. Everything else is spared, also as
an item. -/
def KeepsForm : Value → Value → Prop
  | .table entries, shown =>
    ∃ others, shown = .table others ∧ Entries.keys others = Entries.keys entries
  | .list items, shown | .tuple items, shown =>
    ∃ others, shown = .list others ∧ List.Forall₂ Spared items others
  | value, shown => Spared value shown

/-- A number, a truth value, null, a date or a time, or a text in which neither `://` nor
`=` stands. -/
def IsPlain : Value → Prop
  | .string text => ¬ "://".toList <:+: text.toList ∧ '=' ∉ text.toList
  | .list _ | .tuple _ | .table _ => False
  | _ => True

theorem spared_string (text : String) : Spared (.string text) (.string (redactText text)) := by
  by_cases h : HoldsCredential text
  · exact .inr ⟨text, rfl, h, rfl⟩
  · exact .inl (congrArg Value.string (redactText_eq_self h))

theorem spared_redactItem (item : Value) : Spared item (redactItem item) := by
  cases item with
  | string text => exact spared_string text
  | _ => exact .inl rfl

theorem spared_items (items : List Value) : List.Forall₂ Spared items (items.map redactItem) :=
  List.forall₂_map_right_iff.mpr (List.forall₂_same.mpr fun item _ => spared_redactItem item)

theorem keepsForm_redactValue (value : Value) : KeepsForm value (redactValue value) := by
  cases value with
  | string text => exact spared_string text
  | list items | tuple items => exact ⟨_, rfl, spared_items items⟩
  | table entries => exact ⟨_, rfl, keys_redact entries⟩
  | _ => exact .inl rfl

theorem Spared.eq_of_isPlain (h : Spared value shown) (hplain : IsPlain value) : shown = value := by
  rcases h with hsame | ⟨text, rfl, haddress | hoption, -⟩
  · exact hsame
  · exact absurd haddress.slashes_infix hplain.1
  · exact absurd hoption.sign_mem hplain.2

theorem KeepsForm.eq_of_isPlain (h : KeepsForm value shown) (hplain : IsPlain value) :
    shown = value := by
  cases value with
  | list items | tuple items => exact hplain.elim
  | table entries => exact hplain.elim
  | _ => exact Spared.eq_of_isPlain h hplain

/-- What is shown of a value under a name. -/
def shownUnder (name : String) (value : Value) : Value :=
  if isSensitive name then .string "[REDACTED]" else redactValue value

theorem shownUnder_of_sensitive {name : String} (h : isSensitive name = true) (value : Value) :
    shownUnder name value = .string "[REDACTED]" :=
  if_pos h

theorem shownUnder_of_not_sensitive {name : String} (h : isSensitive name = false)
    (value : Value) : shownUnder name value = redactValue value :=
  if_neg (by simp [h])

theorem get?_redactEntries (entries : List (String × Value)) (name : String) :
    Entries.get? (redactEntries entries) name =
      (Entries.get? entries name).map (shownUnder name) := by
  have hmask : String.ofList mask = "[REDACTED]" := String.ofList_toList
  induction entries with
  | nil => rfl
  | cons entry rest ih =>
    obtain ⟨first, value⟩ := entry
    rw [redactEntries, Entries.get?, Entries.get?, hmask]
    split
    case isTrue hname =>
      subst hname
      rfl
    case isFalse => exact ih

theorem redactValue_ne_table (h : ∀ entries, value ≠ .table entries)
    (entries : List (String × Value)) : redactValue value ≠ .table entries := by
  cases value with
  | table entries => exact absurd rfl (h entries)
  | _ => simp [redactValue]

/-- One step further in a redacted value. -/
theorem valueAt_redactValue_single (value : Value) (name : String) :
    Table.valueAt (some (redactValue value)) [name] =
      (Table.valueAt (some value) [name]).map (shownUnder name) := by
  by_cases htable : ∃ entries, value = .table entries
  · obtain ⟨entries, rfl⟩ := htable
    rw [redactValue, Table.valueAt_table_cons, Table.valueAt_table_cons, Table.valueAt_nil,
      Table.valueAt_nil, get?_redactEntries]
  · have hleaf := not_exists.mp htable
    rw [Table.valueAt_cons_of_not_table (Table.ne_table_of_leaf hleaf),
      Table.valueAt_cons_of_not_table (Table.ne_table_of_leaf (redactValue_ne_table hleaf)),
      Option.map_none]

/-- Under names that are not sensitive, each value is redacted at its place. -/
theorem valueAt_redactValue (value : Value) (hpath : ∀ name ∈ path, isSensitive name = false) :
    Table.valueAt (some (redactValue value)) path =
      (Table.valueAt (some value) path).map redactValue := by
  induction path generalizing value with
  | nil => simp
  | cons name path ih =>
    obtain ⟨hname, hpath⟩ := List.forall_mem_cons.mp hpath
    rw [← List.singleton_append, Table.valueAt_append, Table.valueAt_append,
      valueAt_redactValue_single]
    cases Table.valueAt (some value) [name] with
    | none => simp
    | some inner =>
      rw [Option.map_some, shownUnder_of_not_sensitive hname]
      exact ih inner hpath

theorem find?_redact (fields : Table) (hpath : ∀ name ∈ path, isSensitive name = false) :
    Table.find? (redact fields) path = (Table.find? fields path).map redactValue := by
  rw [Table.find?_eq_valueAt, Table.find?_eq_valueAt]
  exact valueAt_redactValue (.table fields) hpath

/-- Under a sensitive name, nothing is shown of a value but that it is there. -/
theorem find?_redact_of_sensitive (fields : Table)
    (hpath : ∀ name ∈ path, isSensitive name = false) {name : String}
    (hname : isSensitive name = true) :
    Table.find? (redact fields) (path ++ [name]) =
      (Table.find? fields (path ++ [name])).map fun _ => .string "[REDACTED]" := by
  have hshown := find?_redact fields hpath
  simp only [Table.find?_eq_valueAt] at hshown ⊢
  rw [Table.valueAt_append, Table.valueAt_append, hshown]
  cases Table.valueAt (some (.table fields)) path with
  | none => simp
  | some value =>
    have hmasked : shownUnder name = fun _ => .string "[REDACTED]" :=
      funext (shownUnder_of_sensitive hname)
    rw [Option.map_some, valueAt_redactValue_single, hmasked]

/-- At a place that is reached under names that are not sensitive, a redacted record has
something exactly if the record has, and the form of it is kept: a table has its names
in their order, a list its items in their order, a tuple is shown as the list of its
items, and of everything else, and of the items, only a text with a credential in it is
changed. What is plain stays as it is, and under a sensitive name there stands the mask,
whatever stood there. -/
theorem redact_keeps_form (fields : Table) {path : List String}
    (hpath : ∀ name ∈ path, isSensitive name = false) :
    Option.Rel KeepsForm (Table.find? fields path) (Table.find? (redact fields) path) ∧
    (∀ name, isSensitive name = true → Table.find? (redact fields) (path ++ [name]) =
      (Table.find? fields (path ++ [name])).map fun _ => .string "[REDACTED]") ∧
    (∀ value, Table.find? fields path = some value → IsPlain value →
      Table.find? (redact fields) path = some value) ∧
    ∀ items, Table.find? fields path = some (.list items) ∨
        Table.find? fields path = some (.tuple items) →
      ∃ others, Table.find? (redact fields) path = some (.list others) ∧
        List.Forall₂ (fun item other => IsPlain item → other = item) items others := by
  have hshown := find?_redact fields hpath
  refine ⟨?_, fun name hname => find?_redact_of_sensitive fields hpath hname,
    fun value hvalue hplain => ?_, fun items hitems => ?_⟩
  · rw [hshown]
    cases Table.find? fields path with
    | none => exact .none
    | some value => exact .some (keepsForm_redactValue value)
  · rw [hshown, hvalue, Option.map_some, (keepsForm_redactValue value).eq_of_isPlain hplain]
  · have hothers : Table.find? (redact fields) path = some (.list (items.map redactItem)) := by
      rw [hshown]
      rcases hitems with hlist | htuple
      · rw [hlist, Option.map_some, redactValue]
      · rw [htuple, Option.map_some, redactValue]
    exact ⟨_, hothers, (spared_items items).imp fun item other h => h.eq_of_isPlain⟩

/-- A record with a sensitive name, a list and a tuple in a table. -/
def nestedFields : Table :=
  [("ctx", .table [("Token", .null), ("retries", .tuple [.int 1, .int 2]),
    ("uris", .list [.string "seda:x", .string "jms:q?secret=s", .bool true])])]

theorem redact_keeps_form_of_nested :
    (∀ name ∈ ["ctx", "retries", "uris"], isSensitive name = false) ∧
      Table.find? (redact nestedFields) ["ctx", "Token"] = some (.string "[REDACTED]") ∧
      Table.find? (redact nestedFields) ["ctx", "retries"] = some (.list [.int 1, .int 2]) ∧
      ∃ masked, Table.find? (redact nestedFields) ["ctx", "uris"] =
        some (.list [.string "seda:x", masked, .bool true]) := by
  have hnames : ∀ name ∈ ["ctx", "retries", "uris"], isSensitive name = false := by
    decide +kernel
  have hpath (path : List String) (hsubset : path ⊆ ["ctx", "retries", "uris"]) :
      ∀ name ∈ path, isSensitive name = false :=
    fun name hname => hnames name (hsubset hname)
  have htoken : isSensitive "Token" = true := by decide +kernel
  have hretries : Table.find? nestedFields ["ctx", "retries"] =
      some (.tuple [.int 1, .int 2]) := by
    simp [nestedFields, Table.find?, Entries.get?]
  have huris : Table.find? nestedFields ["ctx", "uris"] =
      some (.list [.string "seda:x", .string "jms:q?secret=s", .bool true]) := by
    simp [nestedFields, Table.find?, Entries.get?]
  have hplain : IsPlain (.string "seda:x") := by
    constructor <;> decide
  refine ⟨hnames, ?_, ?_, ?_⟩
  · refine ((redact_keeps_form nestedFields (hpath ["ctx"] (by simp))).2.1 "Token" htoken).trans ?_
    simp [nestedFields, Table.find?, Entries.get?]
  · obtain ⟨others, hothers, hitems⟩ :=
      (redact_keeps_form nestedFields (hpath ["ctx", "retries"] (by simp))).2.2.2 _ (.inr hretries)
    rcases hitems with _ | ⟨hfirst, _ | ⟨hsecond, _ | _⟩⟩
    rw [hothers, hfirst trivial, hsecond trivial]
  · obtain ⟨others, hothers, hitems⟩ :=
      (redact_keeps_form nestedFields (hpath ["ctx", "uris"] (by simp))).2.2.2 _ (.inl huris)
    rcases hitems with _ | ⟨hfirst, _ | ⟨-, _ | ⟨hthird, _ | _⟩⟩⟩
    rw [hfirst hplain, hthird trivial] at hothers
    exact ⟨_, hothers⟩

/-- A tuple is neither a table nor a list nor a text and is changed under a name that is
not sensitive, and a number under such a name is lost where a sensitive name stands above
it. -/
theorem not_redact_keeps_values :
    (¬ ∀ (fields : Table) (name : String) (value : Value), isSensitive name = false →
      (∀ items, value ≠ .list items) → (∀ entries, value ≠ .table entries) →
      (∀ text, value ≠ .string text) → Table.find? fields [name] = some value →
      Table.find? (redact fields) [name] = some value) ∧
    ¬ ∀ (fields : Table) (above : List String) (name : String) (number : Int),
      isSensitive name = false → Table.find? fields (above ++ [name]) = some (.int number) →
      Table.find? (redact fields) (above ++ [name]) = some (.int number) := by
  have hretries : isSensitive "retries" = false := by decide +kernel
  have hattempts : isSensitive "attempts" = false := by decide +kernel
  have htoken : isSensitive "token" = true := by decide +kernel
  constructor
  · intro hkept
    have hshown := hkept [("retries", .tuple [.int 1, .int 2])] "retries" _ hretries (by simp)
      (by simp) (by simp) rfl
    simp [redact, redactEntries, redactValue, hretries, Table.find?, Entries.get?] at hshown
  · intro hkept
    have hshown := hkept [("token", .table [("attempts", .int 3)])] ["token"] "attempts" 3
      hattempts (by simp [Table.find?, Entries.get?])
    simp [redact, redactEntries, htoken, Table.find?, Entries.get?] at hshown

end EventPolicy.Redaction
