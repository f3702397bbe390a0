import EventPolicy.Proofs.Entries
import EventPolicy.Startup

/-!
Policy keys in the configuration and policy keys in a file. Both are flattened
and have their lists of texts joined, but a file is refused at its first value
that is neither, while the configuration leaves such values as they are and
tells of all of them. The two ways accept the same tables all the same, give
the same properties, and compilers over them cannot be told apart.
-/

namespace EventPolicy

namespace Properties

/-- The entries of a flat table whose values have no text, with their kinds. -/
def unsupported (flat : Table) : List UnsupportedValue :=
  flat.filterMap fun (key, value) =>
    if valueText? value = none then some ⟨key, value.kindName⟩ else none

/-- The entries of a flat table whose values have a text, with their texts. -/
def supported (flat : Table) : Entries String :=
  flat.filterMap fun (key, value) => (valueText? value).map fun text => (key, text)

theorem unsupported_cons (key : String) (value : Value) (rest : Table) :
    unsupported ((key, value) :: rest) =
      if valueText? value = none then ⟨key, value.kindName⟩ :: unsupported rest
      else unsupported rest := by
  simp only [unsupported, List.filterMap_cons]
  split <;> simp_all

theorem supported_cons_of_some {value : Value} {text : String} (h : valueText? value = some text)
    (key : String) (rest : Table) :
    supported ((key, value) :: rest) = (key, text) :: supported rest := by
  simp [supported, h]

/-- The texts of flat properties are refused at the first unsupported value. -/
theorem textsOfFlat_eq (flat : Table) :
    textsOfFlat flat =
      match unsupported flat with
      | [] => .ok (supported flat)
      | fault :: _ => .error fault := by
  induction flat with
  | nil => rfl
  | cons entry rest ih =>
    obtain ⟨key, value⟩ := entry
    rw [textsOfFlat, unsupported_cons]
    cases htext : valueText? value with
    | none => simp
    | some text =>
      rw [ih, supported_cons_of_some htext]
      cases unsupported rest <;> simp [Except.map]

theorem keys_supported {flat : Table} (h : unsupported flat = []) :
    (supported flat).keys = Entries.keys flat := by
  induction flat with
  | nil => rfl
  | cons entry rest ih =>
    obtain ⟨key, value⟩ := entry
    rw [unsupported_cons] at h
    split at h
    · cases h
    case isFalse hsome =>
      obtain ⟨text, htext⟩ := Option.ne_none_iff_exists'.mp hsome
      rw [supported_cons_of_some htext]
      exact congrArg (key :: ·) (ih h)

theorem get?_supported {flat : Table} {key text : String} {value : Value}
    (hget : Entries.get? flat key = some value) (htext : valueText? value = some text) :
    (supported flat).get? key = some text := by
  induction flat with
  | nil => cases hget
  | cons entry rest ih =>
    obtain ⟨name, found⟩ := entry
    by_cases hname : name = key
    · obtain rfl : found = value := by simpa [Entries.get?, hname] using hget
      rw [supported_cons_of_some htext]
      simp [Entries.get?, hname]
    · have hrest := ih (by simpa [Entries.get?, hname] using hget)
      cases hfound : valueText? found with
      | none => simpa [supported, hfound] using hrest
      | some other =>
        rw [supported_cons_of_some hfound]
        simpa [Entries.get?, hname] using hrest

theorem ofTable_eq_ok_iff {table : Table} {texts : Entries String} :
    ofTable table "" = .ok texts ↔
      unsupported (Table.flatten table "") = [] ∧ supported (Table.flatten table "") = texts := by
  rw [ofTable, textsOfFlat_eq]
  cases unsupported (Table.flatten table "") <;> simp

/-- A flat table is supported if it has a text under each of its keys. -/
theorem unsupported_eq_nil_iff {flat : Table} (hdistinct : flat.keys.Nodup) :
    unsupported flat = [] ↔
      ∀ key value, Entries.get? flat key = some value → valueText? value ≠ none := by
  rw [unsupported, List.filterMap_eq_nil_iff]
  constructor
  · intro h key value hget htext
    have hnone := h (key, value) ((Entries.get?_eq_some_iff hdistinct).mp hget)
    simp [htext] at hnone
  · rintro h ⟨key, value⟩ hentry
    simp [h key value ((Entries.get?_eq_some_iff hdistinct).mpr hentry)]

/-- An entry with its list of texts made a text, if it has one. -/
def joinedEntry (entry : String × Value) : String × Value :=
  match valueText? entry.2 with
  | some text => (entry.1, .string text)
  | none => entry

theorem joined_eq (table : Table) : joined table = (Table.flatten table "").map joinedEntry := rfl

theorem field_text_of_unsupported {value : Value} (h : valueText? value = none) :
    Field.text value = Checked.issue .notText := by
  cases value with
  | string text => cases h
  | _ => rfl

end Properties

namespace PolicyConfig

open Properties

/-- The configuration tells of every unsupported value. -/
theorem entriesOf_joined (flat : Table) :
    propertiesField.entriesOf (flat.map joinedEntry) =
      if unsupported flat = [] then .ok (supported flat)
      else .error ((unsupported flat).map fun fault => ⟨[fault.key], .notText⟩) := by
  induction flat with
  | nil => rfl
  | cons entry rest ih =>
    obtain ⟨key, value⟩ := entry
    rw [List.map_cons, unsupported_cons]
    cases htext : valueText? value with
    | none =>
      have hfield := field_text_of_unsupported htext
      simp only [joinedEntry, htext, propertiesField.entriesOf, hfield, ih]
      split <;> simp_all [Checked.under, Checked.issue, Checked.both, Checked.issues, Except.map,
        Except.mapError]
    | some text =>
      rw [supported_cons_of_some htext]
      simp only [joinedEntry, htext, propertiesField.entriesOf, Field.text, ih]
      split <;> simp_all [Checked.under, Checked.both, Checked.issues, Except.map, Except.mapError]

/-- What a configuration is whose only arguments are inline properties and
whether builds are lenient. -/
theorem ofTable_inline {fields : Table} {table : Table} {lenient : Bool}
    (hsource : Entries.get? fields "source" = none) (hpath : Entries.get? fields "path" = none)
    (hproperties : Entries.get? fields "properties" = some (.table table))
    (hlenient : Field.withDefault fields "skip_malformed_keys" false Field.bool = .ok lenient) :
    ofTable fields =
      (Checked.under "properties" (propertiesField (.table table))).map fun texts =>
        ⟨.memory, none, texts, lenient⟩ := by
  have hbackend : Field.withDefault fields "source" default.backend
      (Field.literal Backend.all Backend.spelling) = .ok .memory := by
    simp [Field.withDefault, hsource, Checked.under, Except.mapError, default]
  have hroot : Field.withDefault fields "path" default.path (Field.optional Field.path) =
      .ok none := by
    simp [Field.withDefault, hpath, Checked.under, Except.mapError, default]
  have htexts : Field.withDefault fields "properties" default.properties propertiesField =
      Checked.under "properties" (propertiesField (.table table)) := by
    simp [Field.withDefault, hproperties]
  have hskip : Field.withDefault fields "skip_malformed_keys" default.lenient Field.bool =
      .ok lenient := hlenient
  rw [ofTable, hbackend, hroot, htexts, hskip]
  cases Checked.under "properties" (propertiesField (.table table)) with
  | error issues => simp [Checked.both, Checked.issues, Except.map, bind, Except.bind]
  | ok texts => simp [Checked.both, Except.map, bind, Except.bind, pathGiven]

/-- The arguments of a configuration with inline properties. -/
def inlineArguments (table : Table) (lenient : Bool) : Table :=
  [("properties", .table table), ("skip_malformed_keys", .bool lenient)]

theorem propertiesField_table (table : Table) :
    propertiesField (.table table) = propertiesField.entriesOf (joined table) := rfl

/-- A configuration with inline properties is accepted where a policy file with
the same table is, and has the same properties. Where the file is refused, the
configuration is too, and first tells of the same key. -/
theorem ofTable_of_properties {fields : Table} {table : Table} {lenient : Bool}
    (hsource : Entries.get? fields "source" = none) (hpath : Entries.get? fields "path" = none)
    (hproperties : Entries.get? fields "properties" = some (.table table))
    (hlenient : Field.withDefault fields "skip_malformed_keys" false Field.bool = .ok lenient) :
    (∀ texts, Properties.ofTable table "" = .ok texts →
      ofTable fields = .ok ⟨.memory, none, texts, lenient⟩) ∧
    ∀ fault, Properties.ofTable table "" = .error fault →
      ∃ others, ofTable fields = .error (⟨["properties", fault.key], .notText⟩ :: others) := by
  rw [ofTable_inline hsource hpath hproperties hlenient, propertiesField_table, joined_eq,
    entriesOf_joined, Properties.ofTable, textsOfFlat_eq]
  cases hfaults : unsupported (Table.flatten table "") with
  | nil => simp [Checked.under, Except.mapError, Except.map]
  | cons first rest => simp [Checked.under, Except.mapError, Except.map]

end PolicyConfig

namespace PropertySource

/-- A source in memory and one over a file offer the same texts alike. -/
theorem listing_ofTexts (path : Path) (texts : Entries String) :
    (ofTexts texts).listing = (file path texts).listing := by
  simp only [listing, ofTexts, Listing.ofEntries, Listing.ofTexts, Entries.keys_mapValues]
  congr 1
  funext key
  exact Entries.get?_mapValues Value.string texts key

theorem openFile_of_table {host : Host} {path : Path} {table : Table}
    (hfile : host.loadToml path = .ok table) :
    openFile host path =
      match Properties.ofTable table "" with
      | .ok texts => .ok (.file path texts, [.policyFileLoaded path texts.length])
      | .error fault => .error (.unsupported fault) := by
  simp only [openFile, readFile, hfile]
  cases Properties.ofTable table "" <;> rfl

end PropertySource

/-- Policy keys may be written in the configuration or in a file. A table is
accepted as inline properties exactly where it is accepted as a policy file, and
the properties are the same, in the same order; a refused table is refused for
the same key. Compilers over the two are made alike and compile alike, whatever
a compiler keeps. -/
theorem inline_agrees_with_file (table : Table) :
    ((PolicyConfig.ofTable [("properties", .table table)]).isOk ↔
      (Properties.ofTable table "").isOk) ∧
    (∀ config texts, PolicyConfig.ofTable [("properties", .table table)] = .ok config →
      Properties.ofTable table "" = .ok texts → config.properties = texts) ∧
    (∀ fault, Properties.ofTable table "" = .error fault → ∃ others,
      PolicyConfig.ofTable [("properties", .table table)] =
        .error (⟨["properties", fault.key], .notText⟩ :: others)) ∧
    ∀ lenient host path texts, Properties.ofTable table "" = .ok texts →
      host.loadToml path = .ok table →
      ∃ config inline file,
        PolicyConfig.ofTable (PolicyConfig.inlineArguments table lenient) = .ok config ∧
        (Compiler.create host config).2 = .ok (inline, .fresh lenient 0) ∧
        (Compiler.create host ⟨.file, some path, [], lenient⟩).2 =
          .ok (file, .fresh lenient 0) ∧
        ∀ compiler : Compiler,
          compiler.compile inline.listing = compiler.compile file.listing := by
  obtain ⟨haccepted, hrefused⟩ :
      (∀ texts, Properties.ofTable table "" = .ok texts →
        PolicyConfig.ofTable [("properties", .table table)] = .ok ⟨.memory, none, texts, false⟩) ∧
      ∀ fault, Properties.ofTable table "" = .error fault → ∃ others,
        PolicyConfig.ofTable [("properties", .table table)] =
          .error (⟨["properties", fault.key], .notText⟩ :: others) :=
    PolicyConfig.ofTable_of_properties rfl rfl rfl rfl
  refine ⟨?_, ?_, hrefused, ?_⟩
  · cases hfile : Properties.ofTable table "" with
    | ok texts => simp [haccepted texts hfile, Except.isOk, Except.toBool]
    | error fault =>
      obtain ⟨others, hothers⟩ := hrefused fault hfile
      simp [hothers, Except.isOk, Except.toBool]
  · intro config texts hconfig hfile
    rw [haccepted texts hfile] at hconfig
    cases hconfig
    rfl
  · intro lenient host path texts hfile hloaded
    have hconfig : PolicyConfig.ofTable (PolicyConfig.inlineArguments table lenient) =
        .ok ⟨.memory, none, texts, lenient⟩ :=
      (PolicyConfig.ofTable_of_properties rfl rfl rfl rfl).1 texts hfile
    refine ⟨_, .ofTexts texts, .file path texts, hconfig, rfl, ?_, ?_⟩
    · simp only [Compiler.create, PropertySource.create, PropertySource.openFile_of_table hloaded,
        hfile]
    · intro compiler
      rw [PropertySource.listing_ofTexts path texts]

end EventPolicy
