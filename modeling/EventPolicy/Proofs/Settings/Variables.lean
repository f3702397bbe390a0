import EventPolicy.Proofs.Json.Reader
import EventPolicy.Proofs.Toml.Reader
import EventPolicy.Settings.Variables

/-!
The layer of settings that the variables of the environment make. It has under each
field what the variables give for that field, and it is well-formed: whatever the
variables repeat, and whatever JSON text gives twice, each of its tables has its
names once.
-/

namespace EventPolicy

namespace Variables

open Table

theorem wellFormed_assign {table : Table} (h : (Value.table table).WellFormed) (path : List String)
    {value : Value} (hvalue : value.WellFormed) :
    (Value.table (assign table path value)).WellFormed := by
  induction path generalizing table with
  | nil => exact h
  | cons name path ih =>
    cases path with
    | nil => exact wellFormed_insert h name hvalue
    | cons next path =>
      rw [assign]
      split
      · exact wellFormed_insert h name (ih wellFormed_nil)
      · next inner hinner =>
        exact wellFormed_insert h name (ih ((wellFormed_table_iff.mp h).2 name _ hinner))
      · exact h

theorem wellFormed_of_nestedValue {field : String} {shape : FieldShape} {path : List String}
    {text : String} {value : Value} (h : nestedValue field shape path text = .ok value) :
    value.WellFormed := by
  unfold nestedValue at h
  repeat' split at h
  · next hread =>
    cases h
    exact Json.wellFormed_of_read? hread
  · cases h
  all_goals
    cases h
    trivial

theorem wellFormed_of_nestedInto {field : String} {shape : FieldShape}
    {environment : Entries String} {table nested : Table} (htable : (Value.table table).WellFormed)
    (h : nestedInto field shape table environment = .ok nested) :
    (Value.table nested).WellFormed := by
  induction environment generalizing table with
  | nil =>
    cases h
    exact htable
  | cons entry rest ih =>
    obtain ⟨name, text⟩ := entry
    rw [nestedInto] at h
    split at h
    · exact ih htable h
    · obtain ⟨value, hvalue, hrest⟩ := bind_eq_ok_iff.mp h
      exact ih (wellFormed_assign htable _ (wellFormed_of_nestedValue hvalue)) hrest

/-- Members are put under their names one after the other, so no name comes twice. -/
theorem wellFormed_renamedInto {members : List (String × FieldShape)}
    {entries : List (String × Value)}
    (hentries : ∀ entry ∈ entries, ∀ shape, (renamedValue shape entry.2).WellFormed)
    (hvalues : ∀ entry ∈ entries, entry.2.WellFormed) {done : Table}
    (hdone : (Value.table done).WellFormed) :
    (Value.table (renamedInto members done entries)).WellFormed := by
  induction entries generalizing done with
  | nil => exact hdone
  | cons entry rest ih =>
    obtain ⟨name, value⟩ := entry
    obtain ⟨hentry, hrest⟩ := List.forall_mem_cons.mp hentries
    obtain ⟨hvalue, hothers⟩ := List.forall_mem_cons.mp hvalues
    rw [renamedInto]
    split
    · exact ih hrest hothers (wellFormed_insert hdone _ (hentry _))
    · exact ih hrest hothers (wellFormed_insert hdone name hvalue)

theorem wellFormed_renamedValue {value : Value} (h : value.WellFormed) (shape : FieldShape) :
    (renamedValue shape value).WellFormed := by
  induction value using Value.byNesting generalizing shape with
  | scalar value hlist htuple htable =>
    cases value with
    | table entries => exact absurd rfl (htable entries)
    | _ => exact h
  | list items | tuple items => exact h
  | table entries ih =>
    cases shape with
    | fields members =>
      have hvalues : ∀ entry ∈ entries, entry.2.WellFormed :=
        Value.entriesWellFormed_iff.mp h.2
      exact wellFormed_renamedInto (fun entry hentry => ih entry hentry (hvalues entry hentry))
        hvalues wellFormed_nil
    | _ => exact h

theorem wellFormed_of_fieldValue {given : Entries String} {field : String} {shape : FieldShape}
    {value : Value} (h : fieldValue given field shape = .ok (some value)) : value.WellFormed := by
  simp only [fieldValue] at h
  split at h
  · split at h
    · obtain ⟨nested, hnested, hvalue⟩ := bind_eq_ok_iff.mp h
      have hwell := wellFormed_of_nestedInto wellFormed_nil hnested
      split at hvalue
      · cases hvalue
      · cases hvalue
        exact wellFormed_renamedValue hwell shape
    · split at h
      · cases h
      · cases h
      · next entries hread =>
        obtain ⟨nested, hnested, hvalue⟩ := bind_eq_ok_iff.mp h
        cases hvalue
        have hmerged := wellFormed_merge (Json.wellFormed_of_read? hread)
          (wellFormed_of_nestedInto wellFormed_nil hnested)
        exact wellFormed_renamedValue hmerged shape
      · next hread =>
        cases h
        exact Json.wellFormed_of_read? hread
  · obtain ⟨text, -, rfl⟩ := Option.map_eq_some_iff.mp (Except.ok.inj h)
    trivial

theorem keys_layerOf {given : Entries String} {fields : List (String × FieldShape)} {layer : Table}
    (h : layerOf given fields = .ok layer) : layer.keys.Sublist (fields.map Prod.fst) := by
  induction fields generalizing layer with
  | nil =>
    cases h
    exact List.Sublist.slnil
  | cons entry rest ih =>
    obtain ⟨field, shape⟩ := entry
    obtain ⟨value, -, h⟩ := bind_eq_ok_iff.mp h
    obtain ⟨others, hothers, h⟩ := bind_eq_ok_iff.mp h
    cases value with
    | none =>
      cases h
      exact (ih hothers).cons _
    | some value =>
      cases h
      exact (ih hothers).cons_cons _

/-- The layer has under each field what the variables give for it. -/
theorem fieldValue_of_layerOf {given : Entries String} {fields : List (String × FieldShape)}
    {layer : Table} (hdistinct : (fields.map Prod.fst).Nodup)
    (h : layerOf given fields = .ok layer) {field : String} {shape : FieldShape}
    (hfield : (field, shape) ∈ fields) :
    fieldValue given field shape = .ok (Entries.get? layer field) := by
  induction fields generalizing layer with
  | nil => cases hfield
  | cons entry rest ih =>
    obtain ⟨first, firstShape⟩ := entry
    obtain ⟨value, hvalue, h⟩ := bind_eq_ok_iff.mp h
    obtain ⟨others, hothers, h⟩ := bind_eq_ok_iff.mp h
    obtain ⟨habsent, hrest⟩ := List.nodup_cons.mp hdistinct
    -- No field comes twice, so what is given for one is not found under another.
    rcases List.mem_cons.mp hfield with hsame | hlater
    · obtain ⟨rfl, rfl⟩ := Prod.mk.inj hsame
      have hnone : Entries.get? others field = none :=
        Entries.get?_eq_none_iff.mpr fun hmem => habsent ((keys_layerOf hothers).subset hmem)
      cases value <;> cases h <;> simp [hvalue, hnone, Entries.get?]
    · have hne : first ≠ field := by
        rintro rfl
        exact habsent (List.mem_map.mpr ⟨_, hlater, rfl⟩)
      have hfound := ih hrest hothers hlater
      cases value <;> cases h <;> simp [hfound, hne, Entries.get?]

/-- The layer that an environment makes is well-formed. -/
theorem wellFormed_of_layer {environment : Entries String} {table : Table}
    (h : layer environment = .ok table) : (Value.table table).WellFormed := by
  have hdistinct : (settingsFields.map Prod.fst).Nodup := by decide
  refine wellFormed_table_iff.mpr ⟨hdistinct.sublist (keys_layerOf h), ?_⟩
  intro field value hvalue
  have hkey : field ∈ table.keys := (Entries.isSome_get?_iff table field).mp (by simp [hvalue])
  obtain ⟨⟨_, shape⟩, hfield, rfl⟩ := List.mem_map.mp ((keys_layerOf h).subset hkey)
  exact wellFormed_of_fieldValue ((fieldValue_of_layerOf hdistinct h hfield).trans (by rw [hvalue]))

end Variables

end EventPolicy
