import EventPolicy.Proofs.Settings.Variables
import EventPolicy.Proofs.Settings.Verdicts
import EventPolicy.Settings.Store

/-!
Settings from their layers, value by value. A setting that is a single value is
decided by the first of the arguments, the variables of the environment and the
configuration files that gives anything at its place, and by its default if none
does. What a layer gives elsewhere in the same section changes nothing. What is
checked is not always the value of the first (`not_decided_by_the_first`): tables
that several layers give for a single value meet, and then all of them are refused.
-/

namespace EventPolicy.Settings

open Table

/-- The sections of a layer are tables, as far as it has them. -/
@[mk_iff]
structure HasSections (layer : Table) : Prop where
  policy : AtMostTable (find? layer ["policy"])
  observability : AtMostTable (find? layer ["observability"])
  logging : AtMostTable (find? layer ["observability", "logging"])

instance (layer : Table) : Decidable (HasSections layer) :=
  decidable_of_iff' _ (hasSections_iff layer)

theorem HasSections.openTo {layer : Table} (h : HasSections layer) (setting : SingleSetting) :
    OpenTo layer setting.place := by
  have hlogging := h.logging
  rw [find?_cons_cons] at hlogging
  cases setting with
  | applicationName | debug => trivial
  | source | path | lenient => exact ⟨h.policy, trivial⟩
  | level | format | redacts => exact ⟨h.observability, hlogging, trivial⟩

/-- The value of the first argument whose name is a field's in small letters. -/
def argument? (arguments : Table) (field : String) : Option Value :=
  (List.find? (fun entry => Text.lower entry.1 = field) arguments).map Prod.snd

theorem mem_argumentLayer_iff {arguments : Table} {field : String} {value : Value} :
    (field, value) ∈ argumentLayer arguments ↔
      field ∈ Variables.settingsFields.map Prod.fst ∧ argument? arguments field = some value := by
  simp only [argumentLayer, List.mem_filterMap, Option.map_eq_some_iff, List.mem_map, argument?]
  constructor
  · rintro ⟨⟨name, shape⟩, hfield, entry, hentry, hsame⟩
    obtain ⟨rfl, rfl⟩ := Prod.mk.inj hsame
    exact ⟨⟨_, hfield, rfl⟩, entry, hentry, rfl⟩
  · rintro ⟨⟨⟨name, shape⟩, hfield, rfl⟩, entry, hentry, rfl⟩
    exact ⟨_, hfield, entry, hentry, rfl⟩

theorem keys_nodup_argumentLayer (arguments : Table) : (argumentLayer arguments).keys.Nodup := by
  have hfields : (Variables.settingsFields.map Prod.fst).Nodup := by decide
  rw [Entries.keys, argumentLayer, List.Nodup, List.pairwise_map, List.pairwise_filterMap]
  refine (List.pairwise_map.mp hfields).imp fun hapart first hfirst second hsecond => ?_
  obtain ⟨_, -, rfl⟩ := Option.map_eq_some_iff.mp hfirst
  obtain ⟨_, -, rfl⟩ := Option.map_eq_some_iff.mp hsecond
  exact hapart

/-- The layer of the arguments has under each field what the argument for it gives. -/
theorem get?_argumentLayer (arguments : Table) {field : String}
    (hfield : field ∈ Variables.settingsFields.map Prod.fst) :
    Entries.get? (argumentLayer arguments) field = argument? arguments field := by
  refine Option.ext fun value => ?_
  rw [Entries.get?_eq_some_iff (keys_nodup_argumentLayer arguments), mem_argumentLayer_iff]
  exact and_iff_right hfield

theorem wellFormed_argumentLayer {arguments : Table} (h : (Value.table arguments).WellFormed) :
    (Value.table (argumentLayer arguments)).WellFormed := by
  rw [Value.WellFormed, Value.entriesWellFormed_iff] at h ⊢
  refine ⟨keys_nodup_argumentLayer arguments, ?_⟩
  rintro ⟨field, value⟩ hentry
  obtain ⟨entry, hargument, rfl⟩ := Option.map_eq_some_iff.mp (mem_argumentLayer_iff.mp hentry).2
  exact h.2 entry (List.mem_of_find?_eq_some hargument)

/-- Arguments whose names are in small letters are for the fields of their names. -/
theorem argument?_of_lower {arguments : Table}
    (h : ∀ entry ∈ arguments, Text.lower entry.1 = entry.1) (field : String) :
    argument? arguments field = Entries.get? arguments field := by
  induction arguments with
  | nil => rfl
  | cons entry rest ih =>
    obtain ⟨hentry, hrest⟩ := List.forall_mem_cons.mp h
    obtain ⟨name, value⟩ := entry
    change Text.lower name = name at hentry
    by_cases hfield : name = field
    · subst hfield
      simp [argument?, Entries.get?, hentry]
    · simpa [argument?, Entries.get?, hentry, hfield] using ih hrest

theorem find?_congr_get? {first second : Table} {name : String}
    (h : Entries.get? first name = Entries.get? second name) (path : List String) :
    find? first (name :: path) = find? second (name :: path) := by
  cases path with
  | nil => exact h
  | cons next path => rw [find?_cons_cons, find?_cons_cons, tableAt, tableAt, h]

theorem find?_argumentLayer {arguments : Table}
    (h : ∀ entry ∈ arguments, Text.lower entry.1 = entry.1) (setting : SingleSetting) :
    find? (argumentLayer arguments) setting.place = find? arguments setting.place := by
  have hget : ∀ field ∈ Variables.settingsFields.map Prod.fst,
      Entries.get? (argumentLayer arguments) field = Entries.get? arguments field :=
    fun field hfield => (get?_argumentLayer arguments hfield).trans (argument?_of_lower h field)
  cases setting <;> exact find?_congr_get? (hget _ (by decide)) _

/-- What the layers have at a place is what each has there, laid over each other. -/
theorem find?_layered (fileLayer : Table) {variableLayer arguments : Table} {path : List String}
    (hvariables : (Value.table variableLayer).WellFormed)
    (harguments : (Value.table arguments).WellFormed)
    (hvariableOpen : OpenTo variableLayer path) (hargumentOpen : OpenTo arguments path) :
    find? (layered fileLayer variableLayer arguments) path =
      Table.layered (find? fileLayer path)
        (Table.layered (find? variableLayer path) (find? arguments path)) := by
  have hupper := wellFormed_merge hvariables harguments
  have hopen := openTo_merge harguments hvariableOpen hargumentOpen
  rw [layered, find?_merge hupper hopen, find?_merge harguments hargumentOpen]

/-- This is what the first of them gives there, except that tables which stand for a
single value meet. -/
theorem eqOrTables_firstGiven (fileLayer variableLayer arguments : Table) (path : List String) :
    EqOrTables
      (Table.layered (find? fileLayer path)
        (Table.layered (find? variableLayer path) (find? arguments path)))
      (firstGiven [arguments, variableLayer, fileLayer] path) := by
  have hgiven : firstGiven [arguments, variableLayer, fileLayer] path =
      ((find? arguments path).or (find? variableLayer path)).or (find? fileLayer path) := by
    cases hargument : find? arguments path <;> cases hvariable : find? variableLayer path <;>
      cases hfile : find? fileLayer path <;>
      simp [firstGiven, hargument, hvariable, hfile]
  rw [hgiven]
  exact eqOrTables_layered (eqOrTables_layered (.inl rfl) _) _

/-- No check of a single value tells one table from another. -/
theorem verdict_congr {found given : Option Value} (h : EqOrTables found given)
    (setting : SingleSetting) : setting.verdict found = setting.verdict given := by
  rcases h with rfl | ⟨one, other, rfl, rfl⟩
  · rfl
  · -- Each check refuses a table by its kind alone.
    cases setting <;> rfl

theorem verdict_table (setting : SingleSetting) (entries : List (String × Value)) :
    ∃ issues, setting.verdict (some (.table entries)) = .error issues := by
  cases setting <;> exact ⟨_, rfl⟩

theorem ofLayers_of_layer {fileLayer variableLayer : Table} {environment : Entries String}
    (h : Variables.layer environment = .ok variableLayer) (arguments : Table) :
    ofLayers fileLayer environment arguments =
      (ofTable (layered fileLayer variableLayer (argumentLayer arguments))).mapError .invalid := by
  rw [ofLayers, h]
  rfl

/-- Settings are decided value by value. The first of the arguments, the variables
and the files that gives anything at the place of a setting gives what is validated
there, and the default stands if none does, whatever the layers give elsewhere: the
settings that are made hold what the check of that value gave, and the issues with
that place, if none are made, are those of the check. Tables given for a single value
by several layers are laid over each other before they are checked, and the check
refuses them as it refuses the first alone. Arguments whose names are in small letters
give what they hold at the place. -/
theorem ofLayers_decides {fileLayer variableLayer arguments : Table}
    {environment : Entries String} (harguments : (Value.table arguments).WellFormed)
    (hvariables : Variables.layer environment = .ok variableLayer)
    (hsections : ∀ layer ∈ [argumentLayer arguments, variableLayer, fileLayer], HasSections layer)
    (setting : SingleSetting) :
    let merged := layered fileLayer variableLayer (argumentLayer arguments)
    let given := firstGiven [argumentLayer arguments, variableLayer, fileLayer] setting.place
    ofLayers fileLayer environment arguments = (ofTable merged).mapError .invalid ∧
    EqOrTables (find? merged setting.place) given ∧
    find? merged setting.place =
      Table.layered (find? fileLayer setting.place)
        (Table.layered (find? variableLayer setting.place)
          (find? (argumentLayer arguments) setting.place)) ∧
    (∀ entries, given = some (.table entries) → ∃ issues, setting.verdict given = .error issues) ∧
    Checked.Decides (ofTable merged) setting.place (setting.verdict given) setting.held ∧
    ((∀ entry ∈ arguments, Text.lower entry.1 = entry.1) →
      find? (argumentLayer arguments) setting.place = find? arguments setting.place) := by
  intro merged given
  simp only [List.forall_mem_cons] at hsections
  obtain ⟨hargumentSections, hvariableSections, hfileSections, -⟩ := hsections
  have hvariableLayer := Variables.wellFormed_of_layer hvariables
  have hargumentLayer := wellFormed_argumentLayer harguments
  have hlaid := find?_layered fileLayer hvariableLayer hargumentLayer
    (hvariableSections.openTo setting) (hargumentSections.openTo setting)
  have hgiven : EqOrTables (find? merged setting.place) given :=
    hlaid ▸ eqOrTables_firstGiven fileLayer variableLayer _ setting.place
  -- One check of a section reads all its fields, so the way has to be open to each of them.
  have hopen : ∀ other : SingleSetting, OpenTo merged other.place := fun other =>
    openTo_merge (wellFormed_merge hvariableLayer hargumentLayer) (hfileSections.openTo other)
      (openTo_merge hargumentLayer (hvariableSections.openTo other)
        (hargumentSections.openTo other))
  refine ⟨ofLayers_of_layer hvariables arguments, hgiven, hlaid, fun entries htable => ?_, ?_,
    fun hlower => find?_argumentLayer hlower setting⟩
  · rw [htable]
    exact verdict_table setting entries
  · rw [← verdict_congr hgiven setting]
    exact decides_single hopen setting

/-- The arguments give the section of the policy too, with a path only. They leave the
backend to the files, which choose one in this section. -/
theorem ofLayers_decides_of_shared_section :
    let fileLayer : Table :=
      [("policy", .table [("source", .string "toml"), ("path", .string "policy.toml")])]
    let environment : Entries String := [("BAI_DEBUG", "true")]
    let arguments : Table := [("policy", .table [("path", .string "rules.toml")])]
    let merged := layered fileLayer [("debug", .string "true")] (argumentLayer arguments)
    ofLayers fileLayer environment arguments = (ofTable merged).mapError .invalid ∧
    Checked.Decides (ofTable merged) ["policy", "source"] (.ok Backend.file)
      fun settings => settings.policy.backend := by
  intro fileLayer environment arguments merged
  have hlowered : Variables.lowered environment = [("bai_debug", "true")] := by decide +kernel
  have hvariables : Variables.layer environment = .ok [("debug", .string "true")] := by
    rw [Variables.layer, hlowered]
    rfl
  have hname : Text.lower "policy" = "policy" := by decide +kernel
  have hlayer : argumentLayer arguments = arguments := by
    simp [argumentLayer, Variables.settingsFields, arguments, hname]
  have harguments : (Value.table arguments).WellFormed := by
    simp [arguments, Value.WellFormed, Value.entriesWellFormed_iff, Entries.keys]
  have hsections : ∀ layer ∈ [argumentLayer arguments, [("debug", .string "true")], fileLayer],
      HasSections layer := by
    rw [hlayer]
    decide
  obtain ⟨hmade, -, -, -, hdecides, -⟩ := ofLayers_decides harguments hvariables hsections .source
  have hfirst : firstGiven [argumentLayer arguments, [("debug", .string "true")], fileLayer]
      SingleSetting.source.place = some (.string "toml") := by
    rw [hlayer]
    rfl
  rw [hfirst] at hdecides
  exact ⟨hmade, hdecides⟩

/-- Tables that two layers give for a single value meet, and of two arguments for one field
the first counts, even if only the second has the name of the field in small letters. -/
theorem not_decided_by_the_first :
    (¬ ∀ (fileLayer variableLayer arguments : Table) (environment : Entries String),
      (Value.table arguments).WellFormed → Variables.layer environment = .ok variableLayer →
      (∀ layer ∈ [argumentLayer arguments, variableLayer, fileLayer], HasSections layer) →
      ∀ setting : SingleSetting,
        find? (layered fileLayer variableLayer (argumentLayer arguments)) setting.place =
          firstGiven [argumentLayer arguments, variableLayer, fileLayer] setting.place) ∧
    ¬ ∀ (arguments : Table) (settings : Settings) (name : String),
      find? arguments ["app_name"] = some (.string name) →
      ofLayers [] [] arguments = .ok settings → settings.applicationName = name := by
  have hname : Text.lower "app_name" = "app_name" := by decide +kernel
  have hcapital : Text.lower "APP_NAME" = "app_name" := by decide +kernel
  constructor
  · intro hfirst
    let fileLayer : Table := [("app_name", .table [("y", .int 2)])]
    let arguments : Table := [("app_name", .table [("x", .int 1)])]
    have harguments : (Value.table arguments).WellFormed := by
      simp [arguments, Value.WellFormed, Value.entriesWellFormed_iff, Entries.keys]
    have hlayer : argumentLayer arguments = arguments := by
      simp [argumentLayer, Variables.settingsFields, arguments, hname]
    have hsections : ∀ layer ∈ [argumentLayer arguments, [], fileLayer], HasSections layer := by
      rw [hlayer]
      decide
    have hmet := hfirst fileLayer [] arguments [] harguments rfl hsections .applicationName
    have hmerged : find? (layered fileLayer [] arguments) SingleSetting.applicationName.place =
        some (.table [("y", .int 2), ("x", .int 1)]) := rfl
    have hgiven : firstGiven [arguments, [], fileLayer] SingleSetting.applicationName.place =
        some (.table [("x", .int 1)]) := rfl
    rw [hlayer, hmerged, hgiven] at hmet
    simp at hmet
  · intro hlast
    have hlayer : argumentLayer [("APP_NAME", .string "x"), ("app_name", .string "y")] =
        [("app_name", .string "x")] := by
      simp [argumentLayer, Variables.settingsFields, hname, hcapital]
    obtain ⟨settings, hmade, hheld⟩ : ∃ settings, ofLayers [] []
        [("APP_NAME", .string "x"), ("app_name", .string "y")] = .ok settings ∧
          settings.applicationName = "x" := by
      rw [ofLayers, hlayer]
      exact ⟨_, rfl, rfl⟩
    have hother := hlast _ settings "y" rfl hmade
    rw [hheld] at hother
    exact absurd hother (by decide)

end EventPolicy.Settings
