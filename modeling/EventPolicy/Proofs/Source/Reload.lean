import EventPolicy.Proofs.Host
import EventPolicy.Proofs.Source.Agreement
import EventPolicy.Proofs.Table.Flatten
import Mathlib.Data.List.Induction

/-!
Reading a policy file again. A source over a policy file has the texts of the last
reading that succeeded, whatever the files were in between: a reading that fails leaves
it as it was, and one that succeeds leaves nothing of what it had. Whether a reading
succeeds is told by what stands at the path. A document is refused for a value that is
neither a text nor a list of texts, but only if no later leaf of the document spells the
same key.
-/

namespace EventPolicy

namespace FileTree

theorem fits_of_follow {tree : FileTree} {names : List String} {start place : Place}
    (h : tree.follow start names = .ok place) :
    ∀ name ∈ names, name = ".." ∨ isTooLong name = false := by
  induction names generalizing start with
  | nil => simp
  | cons name rest ih =>
    rw [follow] at h
    rw [List.forall_mem_cons]
    split at h
    · split at h
      case isTrue hback => exact ⟨.inl hback, ih h⟩
      case isFalse =>
        split at h
        · cases h
        case isFalse hfits => exact ⟨.inr (Bool.eq_false_iff.mpr hfits), ih h⟩
    · cases h

theorem follow_ne_tooLong {names : List String}
    (hnames : ∀ name ∈ names, name = ".." ∨ isTooLong name = false) (tree : FileTree)
    (start : Place) : tree.follow start names ≠ .error .tooLong := by
  induction names generalizing start with
  | nil =>
    rw [follow]
    split <;> simp
  | cons name rest ih =>
    obtain ⟨hname, hrest⟩ := List.forall_mem_cons.mp hnames
    rw [follow]
    split
    · split
      case isTrue => exact ih hrest _
      case isFalse hforward =>
        rw [if_neg (by simp [hname.resolve_left hforward])]
        exact ih hrest _
    · simp

/-- A path that led somewhere once is not too long for any tree. -/
theorem lookup_ne_tooLong {tree : FileTree} {directory : Place} {path : Path} {node : FileNode}
    (h : tree.lookup directory path = .ok node) (other : FileTree) (another : Place) :
    other.lookup another path ≠ .error .tooLong := by
  obtain ⟨place, hplace⟩ : ∃ place, tree.locate directory path = .ok place := by
    rw [lookup] at h
    split at h
    · cases h
    case h_2 place hplace => exact ⟨place, hplace⟩
  have hlocate : other.locate another path ≠ .error .tooLong := by
    rw [locate] at hplace ⊢
    split at hplace
    · cases hplace
    · split at hplace
      · cases hplace
      case isFalse hnul hfits =>
        rw [if_neg hnul, if_neg hfits]
        split at hplace <;> exact follow_ne_tooLong (fits_of_follow hplace) _ _
  rw [lookup]
  split
  case h_1 fault hfault =>
    rintro ⟨⟩
    exact hlocate hfault
  case h_2 => split <;> simp

end FileTree

namespace Properties

open Table (leaves dotted Effective)

/-- A table has texts if each of its effective leaves has one. -/
theorem isOk_ofTable_iff {table : Table} :
    (∃ texts, ofTable table "" = .ok texts) ↔
      ∀ path value, Effective table path value → valueText? value ≠ none := by
  simp only [ofTable_eq_ok_iff, exists_and_left, exists_eq', and_true,
    unsupported_eq_nil_iff (Table.keys_nodup_flatten table ""), Table.get?_flatten_iff_effective]
  constructor
  · exact fun h path value heffective => h _ value ⟨path, heffective, rfl⟩
  · rintro h key value ⟨path, heffective, -⟩
    exact h path value heffective

/-- A table without texts is refused for an effective leaf. -/
theorem effective_of_ofTable_eq_error {table : Table} {fault : UnsupportedValue}
    (h : ofTable table "" = .error fault) :
    ∃ path value, Effective table path value ∧ valueText? value = none ∧
      fault = ⟨dotted "" path, value.kindName⟩ := by
  obtain ⟨others, hfaults⟩ : ∃ others, unsupported (Table.flatten table "") = fault :: others := by
    rw [ofTable, textsOfFlat_eq] at h
    split at h
    · cases h
    case h_2 first others hfaults => exact ⟨others, Except.error.inj h ▸ hfaults⟩
  have hfault : fault ∈ unsupported (Table.flatten table "") := hfaults ▸ List.mem_cons_self
  obtain ⟨⟨key, value⟩, hentry, hnone⟩ := List.mem_filterMap.mp hfault
  have hget := (Entries.get?_eq_some_iff (Table.keys_nodup_flatten table "")).mpr hentry
  obtain ⟨path, heffective, rfl⟩ := Table.get?_flatten_iff_effective.mp hget
  obtain ⟨htext, hsame⟩ :
      valueText? value = none ∧ UnsupportedValue.mk (dotted "" path) value.kindName = fault := by
    simpa using hnone
  exact ⟨path, value, heffective, htext, hsame.symm⟩

/-- The texts of a table are those of its effective leaves, under the keys of all leaves. -/
theorem texts_of_ofTable {table : Table} {texts : Entries String}
    (h : ofTable table "" = .ok texts) :
    texts.keys = ((leaves table).map fun leaf => dotted "" leaf.1).eraseDups ∧
    ∀ key text, texts.get? key = some text ↔
      ∃ path value, Effective table path value ∧ dotted "" path = key ∧
        valueText? value = some text := by
  obtain ⟨hsupported, rfl⟩ := ofTable_eq_ok_iff.mp h
  have hkeys := keys_supported hsupported
  have hall := isOk_ofTable_iff.mp ⟨_, h⟩
  refine ⟨?_, fun key text => ⟨fun htext => ?_, ?_⟩⟩
  · rw [hkeys, Table.flatten_eq_ofList, Entries.keys_ofList]
    simp [Table.spelled, Entries.keys, Function.comp_def]
  · have hkey : key ∈ Entries.keys (Table.flatten table "") := by
      rw [← hkeys, ← Entries.isSome_get?_iff, htext]
      rfl
    obtain ⟨value, hvalue⟩ := Option.isSome_iff_exists.mp ((Entries.isSome_get?_iff _ _).mpr hkey)
    obtain ⟨path, heffective, hpath⟩ := Table.get?_flatten_iff_effective.mp hvalue
    obtain ⟨other, hother⟩ := Option.ne_none_iff_exists'.mp (hall path value heffective)
    have hsame := (get?_supported hvalue hother).symm.trans htext
    exact ⟨path, value, heffective, hpath, hother.trans hsame⟩
  · rintro ⟨path, value, heffective, hpath, htext⟩
    exact get?_supported (Table.get?_flatten_iff_effective.mpr ⟨path, heffective, hpath⟩) htext

end Properties

namespace PropertySource

open Table (leaves dotted Effective)
open Properties (valueText?)

theorem openFile_eq (host : Host) (path : Path) :
    openFile host path = (readFile host path).map fun texts =>
      (.file path texts, [.policyFileLoaded path texts.length]) := by
  rw [openFile]
  cases readFile host path <;> rfl

section

variable {host : Host} {path : Path}

theorem reload_of_ok {fresh : Entries String} (h : readFile host path = .ok fresh)
    (texts : Entries String) :
    (file path texts).reload host =
      (file path fresh, .ok [.policyFileLoaded path fresh.length]) := by
  rw [reload, openFile_eq, h]
  rfl

theorem reload_of_error {error : SourceError} (h : readFile host path = .error error)
    (texts : Entries String) :
    (file path texts).reload host = (file path texts, .error error) := by
  rw [reload, openFile_eq, h]
  rfl

theorem readFile_of_absent (h : host.lookup path = .error .absent) :
    readFile host path = .error (.missing path) := by
  simp only [readFile, Host.loadToml, h]

theorem readFile_of_directory (h : host.lookup path = .ok .directory) :
    readFile host path = .error (.outside (.isDirectory path)) := by
  simp only [readFile, Host.loadToml, h]

theorem readFile_of_bytes {content : ByteArray} (hfile : host.lookup path = .ok (.file content))
    (hbytes : String.fromUTF8? content = none) :
    readFile host path = .error (.unreadable path .notUnicode) := by
  simp only [readFile, Host.loadToml, hfile, hbytes]

theorem readFile_of_fault {document : String} {fault : Toml.Fault}
    (hfile : host.lookup path = .ok (.file document.toUTF8))
    (hread : Toml.read document = .error fault) :
    ∃ cause, readFile host path = .error (.unreadable path cause) := by
  have htext : String.fromUTF8? document.toUTF8 = some document := dif_pos document.isValidUTF8
  cases fault <;> simp only [readFile, Host.loadToml, hfile, htext, hread] <;> exact ⟨_, rfl⟩

theorem readFile_of_table {document : String} {table : Table}
    (hfile : host.lookup path = .ok (.file document.toUTF8))
    (hread : Toml.read document = .ok table) :
    readFile host path = (Properties.ofTable table "").mapError .unsupported := by
  simp only [readFile, Host.loadToml_of_text hfile hread]

/-- What was read are the texts of the document in the file. -/
theorem exists_document_of_readFile {texts : Entries String} (h : readFile host path = .ok texts) :
    ∃ document table, host.lookup path = .ok (.file document.toUTF8) ∧
      Toml.read document = .ok table ∧ Properties.ofTable table "" = .ok texts := by
  obtain ⟨table, htable⟩ : ∃ table, host.loadToml path = .ok table := by
    cases hload : host.loadToml path with
    | ok table => exact ⟨table, rfl⟩
    | error cause => cases cause <;> simp [readFile, hload] at h
  obtain ⟨document, hfile, hread⟩ := Host.exists_document_of_loadToml htable
  rw [readFile_of_table hfile hread] at h
  refine ⟨document, table, hfile, hread, ?_⟩
  cases htexts : Properties.ofTable table "" with
  | ok found => simpa [htexts, Except.mapError] using h
  | error fault => simp [htexts, Except.mapError] at h

end

/-- A source after reloads. -/
def reloadAll (source : PropertySource) (hosts : List Host) : PropertySource :=
  hosts.foldl (fun source host => (source.reload host).1) source

/-- The texts of the last reading that succeeded, of hosts one after another. -/
def LastRead (path : Path) (hosts : List Host) (texts : Entries String) : Prop :=
  ∃ before host after, hosts = before ++ host :: after ∧ readFile host path = .ok texts ∧
    ∀ later ∈ after, ∃ error, readFile later path = .error error

theorem lastRead_reload {path : Path} {hosts : List Host} {texts : Entries String}
    (h : LastRead path hosts texts) (host : Host) :
    ∃ next, ((file path texts).reload host).1 = file path next ∧
      LastRead path (hosts ++ [host]) next := by
  cases hread : readFile host path with
  | ok fresh =>
    rw [reload_of_ok hread]
    exact ⟨fresh, rfl, hosts, host, [], rfl, hread, by simp⟩
  | error error =>
    rw [reload_of_error hread]
    obtain ⟨before, last, after, rfl, hlast, hafter⟩ := h
    refine ⟨texts, rfl, before, last, after ++ [host], by simp, hlast, fun later hlater => ?_⟩
    rcases List.mem_append.mp hlater with hlater | hlater
    · exact hafter later hlater
    · exact ⟨error, List.mem_singleton.mp hlater ▸ hread⟩

/-- A source over a policy file has the texts of the last reading that succeeded. -/
theorem reloadAll_lastRead {first : Host} {path : Path} {texts : Entries String}
    (hread : readFile first path = .ok texts) (later : List Host) :
    ∃ current, (file path texts).reloadAll later = file path current ∧
      LastRead path (first :: later) current := by
  induction later using List.reverseRecOn with
  | nil => exact ⟨texts, rfl, [], first, [], rfl, hread, by simp⟩
  | append_singleton earlier host ih =>
    obtain ⟨current, hcurrent, hlast⟩ := ih
    obtain ⟨next, hnext, hlast⟩ := lastRead_reload hlast host
    have hstep : (file path texts).reloadAll (earlier ++ [host]) =
        ((file path current).reload host).1 := by
      rw [reloadAll, List.foldl_append, ← hcurrent]
      rfl
    exact ⟨next, hstep.trans hnext, hlast⟩

/-- What a reload that succeeds has read. -/
theorem reload_eq_ok {host : Host} {path : Path} {texts : Entries String} {notices : List Notice}
    (h : ((file path texts).reload host).2 = .ok notices) :
    ∃ fresh, readFile host path = .ok fresh ∧ ((file path texts).reload host).1 = file path fresh ∧
      notices = [.policyFileLoaded path fresh.length] := by
  cases hread : readFile host path with
  | ok fresh =>
    rw [reload_of_ok hread] at h ⊢
    exact ⟨fresh, rfl, rfl, (Except.ok.inj h).symm⟩
  | error cause => simp [reload_of_error hread] at h

/-- What a reload makes of a document: it needs a text from every effective leaf, and
leaves these texts. -/
theorem reload_of_table {host : Host} {path : Path} {document : String} {table : Table}
    (hfile : host.lookup path = .ok (.file document.toUTF8))
    (hread : Toml.read document = .ok table) (texts : Entries String) :
    let reloaded := ((file path texts).reload host).1
    let outcome := ((file path texts).reload host).2
    ((∃ notices, outcome = .ok notices) ↔
      ∀ place leaf, Effective table place leaf → valueText? leaf ≠ none) ∧
    (∀ error, outcome = .error error → ∃ place leaf, Effective table place leaf ∧
      valueText? leaf = none ∧ error = .unsupported ⟨dotted "" place, leaf.kindName⟩) ∧
    ∀ notices, outcome = .ok notices →
      reloaded.keys = ((leaves table).map fun leaf => dotted "" leaf.1).eraseDups ∧
      ∀ key value, reloaded.get? key = some value ↔
        ∃ place leaf text, Effective table place leaf ∧ dotted "" place = key ∧
          valueText? leaf = some text ∧ value = .string text := by
  rw [← Properties.isOk_ofTable_iff]
  cases htexts : Properties.ofTable table "" with
  | error fault =>
    have herror : readFile host path = .error (.unsupported fault) := by
      rw [readFile_of_table hfile hread, htexts]
      rfl
    rw [reload_of_error herror]
    obtain ⟨place, leaf, heffective, hnone, rfl⟩ := Properties.effective_of_ofTable_eq_error htexts
    refine ⟨by simp, ?_, by simp⟩
    rintro error ⟨⟩
    exact ⟨place, leaf, heffective, hnone, rfl⟩
  | ok fresh =>
    have hfresh : readFile host path = .ok fresh := by
      rw [readFile_of_table hfile hread, htexts]
      rfl
    rw [reload_of_ok hfresh]
    obtain ⟨hkeys, hget⟩ := Properties.texts_of_ofTable htexts
    refine ⟨by simp, by simp, fun _ _ => ⟨hkeys, fun key value => ?_⟩⟩
    have hvalue : (file path fresh).get? key = some value ↔
        ∃ text, fresh.get? key = some text ∧ .string text = value := Option.map_eq_some_iff
    rw [hvalue]
    constructor
    · rintro ⟨text, htext, rfl⟩
      obtain ⟨place, leaf, heffective, hplace, hleaf⟩ := (hget key text).mp htext
      exact ⟨place, leaf, text, heffective, hplace, hleaf, rfl⟩
    · rintro ⟨place, leaf, text, heffective, hplace, hleaf, rfl⟩
      exact ⟨text, (hget key text).mpr ⟨place, leaf, heffective, hplace, hleaf⟩, rfl⟩

/-- A reload that fails changes nothing. -/
theorem reload_eq_self_of_error {source : PropertySource} {host : Host} {error : SourceError}
    (h : (source.reload host).2 = .error error) : (source.reload host).1 = source := by
  cases source with
  | file path texts =>
    cases hread : readFile host path with
    | ok fresh => simp [reload_of_ok hread] at h
    | error cause => rw [reload_of_error hread]
  | memory properties => rfl
  | listed listing => rfl

theorem exists_texts_of_openFile {host : Host} {path : Path} {opened : PropertySource}
    {told : List Notice} (h : openFile host path = .ok (opened, told)) :
    ∃ texts, readFile host path = .ok texts ∧ opened = file path texts := by
  rw [openFile_eq] at h
  cases hread : readFile host path with
  | error error => simp [hread, Except.map] at h
  | ok texts =>
    rw [hread] at h
    cases h
    exact ⟨texts, rfl, rfl⟩

/-- A source that has certain texts and nothing else. -/
def Offers (source : PropertySource) (texts : Entries String) : Prop :=
  source.keys = texts.keys ∧ ∀ key, source.get? key = (texts.get? key).map .string

theorem offers_file (path : Path) (texts : Entries String) : (file path texts).Offers texts :=
  ⟨rfl, fun _ => rfl⟩

/-- Reloading is all or nothing. Whatever was done before, a source over a policy file
has the texts of the last reading that succeeded. A reload that fails leaves all keys
and values and the outcome of a recompilation as they were. One that succeeds is over a
document whose effective leaves all have a text, and leaves their texts and nothing
else. Nothing at the path, bytes that are no text, a text that is no document and a
document with an effective leaf without a text each give an error of the policy source,
and a directory one of the system. -/
theorem reload_all_or_nothing {first : Host} {path : Path} {opened : PropertySource}
    {told : List Notice} (hopened : openFile first path = .ok (opened, told))
    (earlier : List Host) (host : Host) :
    let source := opened.reloadAll earlier
    let reloaded := (source.reload host).1
    let outcome := (source.reload host).2
    (∃ texts, LastRead path (first :: earlier) texts ∧ source.Offers texts) ∧
    (∀ error, outcome = .error error →
      reloaded.keys = source.keys ∧ (∀ key, reloaded.get? key = source.get? key) ∧
        ∀ compiler : Compiler,
          compiler.recompile reloaded.listing = compiler.recompile source.listing) ∧
    (∀ notices, outcome = .ok notices → ∃ document table texts,
      host.lookup path = .ok (.file document.toUTF8) ∧ Toml.read document = .ok table ∧
        Properties.ofTable table "" = .ok texts ∧ reloaded.Offers texts ∧
          notices = [.policyFileLoaded path texts.length]) ∧
    (∀ fault, host.lookup path = .error fault → outcome = .error (.missing path)) ∧
    (host.lookup path = .ok .directory → outcome = .error (.outside (.isDirectory path))) ∧
    (∀ content, host.lookup path = .ok (.file content) → String.fromUTF8? content = none →
      outcome = .error (.unreadable path .notUnicode)) ∧
    ∀ document, host.lookup path = .ok (.file document.toUTF8) →
      (∀ fault, Toml.read document = .error fault →
        ∃ cause, outcome = .error (.unreadable path cause)) ∧
      ∀ table, Toml.read document = .ok table →
        ((∃ notices, outcome = .ok notices) ↔
          ∀ place leaf, Effective table place leaf → valueText? leaf ≠ none) ∧
        (∀ error, outcome = .error error → ∃ place leaf, Effective table place leaf ∧
          valueText? leaf = none ∧ error = .unsupported ⟨dotted "" place, leaf.kindName⟩) ∧
        (((leaves table).map fun leaf => dotted "" leaf.1).Nodup →
          ∀ place leaf, (place, leaf) ∈ leaves table → valueText? leaf = none →
            ∃ fault, outcome = .error (.unsupported fault)) ∧
        ∀ notices, outcome = .ok notices →
          reloaded.keys = ((leaves table).map fun leaf => dotted "" leaf.1).eraseDups ∧
          ∀ key value, reloaded.get? key = some value ↔
            ∃ place leaf text, Effective table place leaf ∧ dotted "" place = key ∧
              valueText? leaf = some text ∧ value = .string text := by
  intro source reloaded outcome
  obtain ⟨texts, hread, rfl⟩ := exists_texts_of_openFile hopened
  obtain ⟨current, hcurrent, hlast⟩ := reloadAll_lastRead hread earlier
  have hsource : source = file path current := hcurrent
  clear_value source
  subst hsource
  have hfails : ∀ {error}, readFile host path = .error error → outcome = .error error :=
    fun herror => congrArg Prod.snd (reload_of_error herror current)
  refine ⟨⟨current, hlast, offers_file path current⟩, ?_, ?_, ?_, ?_, ?_, ?_⟩
  · intro error herror
    have hkept : reloaded = file path current := reload_eq_self_of_error herror
    rw [hkept]
    exact ⟨rfl, fun _ => rfl, fun _ => rfl⟩
  · intro notices hnotices
    obtain ⟨fresh, hfresh, hreloaded, rfl⟩ := reload_eq_ok hnotices
    obtain ⟨document, table, hfile, htable, htexts⟩ := exists_document_of_readFile hfresh
    refine ⟨document, table, fresh, hfile, htable, htexts, ?_, rfl⟩
    rw [show reloaded = file path fresh from hreloaded]
    exact offers_file path fresh
  · intro fault hfault
    cases fault with
    | absent => exact hfails (readFile_of_absent hfault)
    | tooLong =>
      obtain ⟨_, _, hnode, -⟩ := exists_document_of_readFile hread
      exact (FileTree.lookup_ne_tooLong hnode host.files host.workingDirectory hfault).elim
  · exact fun hdirectory => hfails (readFile_of_directory hdirectory)
  · exact fun content hfile hbytes => hfails (readFile_of_bytes hfile hbytes)
  · intro document hfile
    refine ⟨fun fault hfault => ?_, fun table htable => ?_⟩
    · obtain ⟨cause, hcause⟩ := readFile_of_fault hfile hfault
      exact ⟨cause, hfails hcause⟩
    · obtain ⟨haccepted, hrefused, hleft⟩ := reload_of_table hfile htable current
      refine ⟨haccepted, hrefused, fun hdistinct place leaf hleaf hnone => ?_, hleft⟩
      cases hresult : outcome with
      | ok notices =>
        have heffective := Table.effective_of_mem hdistinct hleaf
        exact (haccepted.mp ⟨notices, hresult⟩ place leaf heffective hnone).elim
      | error error =>
        obtain ⟨_, _, _, _, rfl⟩ := hrefused error hresult
        exact ⟨_, rfl⟩

section Documents

attribute [local simp] Toml.read Toml.unifyLineEnds Toml.readStatements Toml.readStatement
  Toml.readEntry Toml.readKey Toml.readKeyParts Toml.readKeyPart Toml.readValue Toml.readScalar
  Toml.readLiteralLine Toml.skipInline Toml.skipComment Toml.startsKey Toml.isBareKeyChar
  Toml.isInlineBlank Toml.isControl Toml.require Toml.Draft.empty Toml.Draft.addEntry
  Toml.Draft.changeAt Toml.Draft.addNew Toml.Draft.isSealed Text.afterWord? Text.aroundWord?
  Entries.get? Entries.has Entries.insert bind Except.bind pure Except.pure

/-- A host with a policy file and nothing else. -/
def hostOf (document : String) : Host := ⟨⟨[(["policy.toml"], .file document.toUTF8)]⟩, [], []⟩

theorem lookup_hostOf (document : String) :
    (hostOf document).lookup (.ofText "policy.toml") = .ok (.file document.toUTF8) := rfl

/-- A document is refused at its second key, and the next one is taken over. -/
theorem reload_all_or_nothing_of_refused :
    let path := Path.ofText "policy.toml"
    let opened := file path [("a", "1"), ("b", "2")]
    openFile (hostOf "a='1'\nb='2'") path = .ok (opened, [.policyFileLoaded path 2]) ∧
      (∃ fault, (opened.reload (hostOf "a='3'\nc=true")).2 = .error (.unsupported fault)) ∧
      (opened.reload (hostOf "a='3'\nc=true")).1.keys = ["a", "b"] ∧
      ((opened.reloadAll [hostOf "a='3'\nc=true"]).reload (hostOf "c='4'")).1.keys = ["c"] := by
  intro path opened
  have hfirst : Toml.read "a='1'\nb='2'" = .ok [("a", .string "1"), ("b", .string "2")] := by
    simp
  have hrefused : Toml.read "a='3'\nc=true" = .ok [("a", .string "3"), ("c", .bool true)] := by
    simp
  have hlast : Toml.read "c='4'" = .ok [("c", .string "4")] := by simp
  have hopened : openFile (hostOf "a='1'\nb='2'") path =
      .ok (opened, [.policyFileLoaded path 2]) := by
    rw [openFile_eq, readFile_of_table (lookup_hostOf _) hfirst]
    rfl
  obtain ⟨-, hkept, -, -, -, -, hsecond⟩ :=
    reload_all_or_nothing hopened [] (hostOf "a='3'\nc=true")
  obtain ⟨-, -, hunsupported, -⟩ := (hsecond _ (lookup_hostOf _)).2 _ hrefused
  obtain ⟨fault, hfault⟩ := hunsupported (by decide) ["c"] (.bool true)
    (by simp [leaves, Table.leavesOfValue]) rfl
  obtain ⟨-, -, -, -, -, -, hthird⟩ :=
    reload_all_or_nothing hopened [hostOf "a='3'\nc=true"] (hostOf "c='4'")
  obtain ⟨haccepted, -, -, hleft⟩ := (hthird _ (lookup_hostOf _)).2 _ hlast
  have hsupported : ∀ place leaf, Effective [("c", .string "4")] place leaf →
      valueText? leaf ≠ none := by
    rintro place leaf ⟨before, after, hleaves, -⟩
    have hleaf : (place, leaf) ∈ leaves [("c", .string "4")] := by simp [hleaves]
    obtain ⟨-, rfl⟩ : place = ["c"] ∧ leaf = .string "4" := by
      simpa [leaves, Table.leavesOfValue] using hleaf
    simp [valueText?]
  obtain ⟨notices, hnotices⟩ := haccepted.mpr hsupported
  exact ⟨hopened, ⟨fault, hfault⟩, (hkept _ hfault).1, (hleft notices hnotices).1.trans (by decide)⟩

/-- A value that is no text is not noticed under a key that a later leaf spells too. -/
theorem not_reload_refuses_unsupported :
    ¬ ∀ (first host : Host) (path : Path) (opened : PropertySource) (told : List Notice)
      (document : String) (table : Table) (place : List String) (leaf : Value),
      openFile first path = .ok (opened, told) →
      host.lookup path = .ok (.file document.toUTF8) → Toml.read document = .ok table →
      (place, leaf) ∈ leaves table → valueText? leaf = none →
      ∃ error, (opened.reload host).2 = .error error := by
  intro hrefuses
  have hread : Toml.read "a.b=true\n'a.b'='1'" =
      .ok [("a", .table [("b", .bool true)]), ("a.b", .string "1")] := by
    simp
  have htexts : readFile (hostOf "a.b=true\n'a.b'='1'") (.ofText "policy.toml") =
      .ok [("a.b", "1")] := by
    rw [readFile_of_table (lookup_hostOf _) hread]
    rfl
  have hopened := openFile_eq (hostOf "a.b=true\n'a.b'='1'") (.ofText "policy.toml")
  rw [htexts] at hopened
  obtain ⟨error, herror⟩ := hrefuses _ _ _ _ _ _ _ ["a", "b"] (.bool true) hopened
    (lookup_hostOf _) hread (by simp [leaves, Table.leavesOfValue]) rfl
  rw [reload_of_ok htexts] at herror
  cases herror

end Documents

end PropertySource

end EventPolicy
