import EventPolicy.Proofs.Compiler.Lenient
import EventPolicy.Proofs.Host
import EventPolicy.Proofs.Source.Agreement
import EventPolicy.Proofs.Table.Spelling
import EventPolicy.Proofs.Toml.Lines
import Mathlib.Algebra.Order.BigOperators.Group.List
import Mathlib.Algebra.Order.Group.Nat
import Mathlib.Data.List.Nodup

/-!
The order of the keys of a policy file. A file of lines gives its keys table by
table, each table where its first line stands. So the keys stand in the order
of the lines exactly when no line goes back to a table that another line left,
and the policies of a build follow the keys.
-/

namespace EventPolicy

open Toml (KeyPath)

theorem Properties.textsOfFlat_texts (texts : Entries String) :
    textsOfFlat (texts.mapValues .string) = .ok texts := by
  induction texts with
  | nil => rfl
  | cons entry rest ih =>
    rw [Entries.mapValues] at ih ⊢
    simp [textsOfFlat, valueText?, ih, Except.map]

namespace Toml

open Table

/-- The texts of lines under their dotted keys, table by table. A key that comes
again stays where it was and takes the later text. -/
def properties (lines : List (KeyPath × String)) : Entries String :=
  Entries.ofList ((arrange lines).map fun line => (dotted "" line.1, line.2))

theorem Draft.Holds.ofTable_eq {table : Table} {lines : List (KeyPath × String)}
    (h : Draft.Holds table lines) : Properties.ofTable table "" = .ok (properties lines) := by
  have hspelled : spelled "" (leaves table) =
      Entries.mapValues Value.string
        ((arrange lines).map fun line => (dotted "" line.1, line.2)) := by
    simp [spelled, h.leaves_eq, Entries.mapValues, Function.comp_def]
  have hflat : flatten table "" = (properties lines).mapValues .string := by
    rw [flatten_eq_ofList, hspelled]
    exact Entries.insertAll_mapValues Value.string [] _
  rw [Properties.ofTable, hflat]
  exact Properties.textsOfFlat_texts _

/-- Keys that fill the lines of a file are written with all their names. -/
theorem namedAtTop_of_keys_eq {lines : List (KeyPath × String)}
    (h : (arrange lines).map (fun line => dotted "" line.1) =
      lines.map fun line => Text.join "." line.1) : ∀ line ∈ lines, NamedAtTop line.1 := by
  by_contra hnot
  obtain ⟨line, hline, hunnamed⟩ : ∃ line ∈ lines, ¬ NamedAtTop line.1 := by
    simpa only [not_forall, exists_prop] using hnot
  have hshorter := List.sum_lt_sum (l := lines) (fun line => (dotted "" line.1).length)
    (fun line => (Text.join "." line.1).length) (fun line _ => length_dotted_le line.1)
    ⟨line, hline, length_dotted_lt hunnamed⟩
  have hperm := ((arrange_perm lines).map fun line => (dotted "" line.1).length).sum_eq
  have hlengths := congrArg (fun keys => (keys.map String.length).sum) h
  simp only [List.map_map, Function.comp_def] at hlengths
  exact hshorter.ne (hperm.symm.trans hlengths)

theorem eq_of_map_eq {α β : Type} {f : α → β} {first second : List α}
    (hdistinct : (second.map f).Nodup) (hsubset : first ⊆ second)
    (hmap : first.map f = second.map f) : first = second := by
  have hlength : first.length = second.length := by simpa using congrArg List.length hmap
  refine List.ext_getElem hlength fun i hfirst hsecond => ?_
  have hvalue : f first[i] = f second[i] := by
    simpa [hfirst, hsecond] using congrArg (fun values => values[i]?) hmap
  exact List.inj_on_of_nodup_map hdistinct (hsubset (List.getElem_mem hfirst))
    (List.getElem_mem hsecond) hvalue

/-- What keeps the keys of lines in the order of the lines. -/
theorem Draft.Holds.keys_eq_iff {table : Table} {lines : List (KeyPath × String)}
    (h : Draft.Holds table lines) :
    (properties lines).keys = lines.map (fun line => Text.join "." line.1) ↔
      (lines.map fun line => Text.join "." line.1).Nodup ∧ Gathered (lines.map Prod.fst) ∧
        ∀ line ∈ lines, NamedAtTop line.1 := by
  have hkeys : Entries.keys ((arrange lines).map fun line => (dotted "" line.1, line.2)) =
      (arrange lines).map fun line => dotted "" line.1 := by
    simp [Entries.keys]
  constructor
  · intro heq
    have hdistinct : (lines.map fun line => Text.join "." line.1).Nodup :=
      heq ▸ Entries.keys_nodup_ofList _
    have hlength : (properties lines).length = (arrange lines).length := by
      have hcount := congrArg List.length heq
      simpa [Entries.keys, (arrange_perm lines).length_eq] using hcount
    have hplaced := Entries.length_ofList_eq_iff.mp (hlength.trans (List.length_map _).symm)
    have harranged : (arrange lines).map (fun line => dotted "" line.1) =
        lines.map fun line => Text.join "." line.1 := by
      rwa [properties, Entries.ofList_of_nodup hplaced, hkeys] at heq
    have hnamed := namedAtTop_of_keys_eq harranged
    refine ⟨hdistinct, ?_, hnamed⟩
    have hsame : arrange lines = lines := eq_of_map_eq hdistinct (arrange_perm lines).subset <|
      (List.map_congr_left fun line hline =>
        (dotted_of_namedAtTop (hnamed line ((arrange_perm lines).mem_iff.mp hline))).symm).trans
        harranged
    have hpaths : (leaves table).map Prod.fst = lines.map Prod.fst := by
      simp [h.leaves_eq, hsame, Function.comp_def]
    exact hpaths ▸ gathered_leaves h.sown.wellFormed
  · rintro ⟨hdistinct, hgathered, hnamed⟩
    have hjoined : lines.map (fun line => dotted "" line.1) =
        lines.map fun line => Text.join "." line.1 :=
      List.map_congr_left fun line hline => dotted_of_namedAtTop (hnamed line hline)
    rw [arrange_of_gathered hgathered, hjoined] at hkeys
    rw [properties, arrange_of_gathered hgathered,
      Entries.ofList_of_nodup (hkeys ▸ hdistinct), hkeys]

end Toml

/-- A file of lines makes a source of their texts. -/
theorem PropertySource.openFile_of_lines {host : Host} {path : Path} {document : String}
    {lines : List (KeyPath × String)} {table : Table}
    (hfile : host.lookup path = .ok (.file document.toUTF8))
    (hlines : Toml.Lines (Toml.unifyLineEnds document.toList) lines)
    (hread : Toml.read document = .ok table) :
    openFile host path = .ok (.file path (Toml.properties lines),
      [.policyFileLoaded path (Toml.properties lines).length]) := by
  rw [openFile_of_table (Host.loadToml_of_text hfile hread),
    (Toml.read_holds hlines hread).ofTable_eq]

/-- A file of lines that is well formed makes a source. Its keys are those of the
lines, table by table. They stand in the order of the lines exactly when no
two lines have the same key, between two lines of one table stand only lines of
that table, and no key has an empty name at the top with others behind it. The
policies of any build over the source follow its keys. -/
theorem file_keys_arranged {host : Host} {path : Path} {document : String}
    {lines : List (KeyPath × String)} {table : Table}
    (hfile : host.lookup path = .ok (.file document.toUTF8))
    (hlines : Toml.Lines (Toml.unifyLineEnds document.toList) lines)
    (hread : Toml.read document = .ok table) :
    ∃ source notices, PropertySource.openFile host path = .ok (source, notices) ∧
      source.keys = (Toml.properties lines).keys ∧
      (source.keys = lines.map (fun line => Text.join "." line.1) ↔
        (lines.map fun line => Text.join "." line.1).Nodup ∧ Table.Gathered (lines.map Prod.fst) ∧
          ∀ line ∈ lines, Table.NamedAtTop line.1) ∧
      ∀ lenient policies, (source.listing.build lenient).result = .ok ⟨policies⟩ →
        (policies.map Policy.sourceKey).Sublist (source.keys.map some) := by
  refine ⟨_, _, PropertySource.openFile_of_lines hfile hlines hread, rfl,
    (Toml.read_holds hlines hread).keys_eq_iff, ?_⟩
  intro lenient policies hbuild
  exact Listing.sourceKeys_sublist ((Listing.result_build_eq_ok_iff _).mp hbuild)

section Documents

attribute [local simp] Toml.read Toml.unifyLineEnds Toml.readStatements Toml.readStatement
  Toml.readEntry Toml.readKey Toml.readKeyParts Toml.readKeyPart Toml.readValue
  Toml.readLiteralLine Toml.readBasicLine Toml.readBasic Toml.skipInline Toml.skipComment
  Toml.startsKey Toml.isBareKeyChar Toml.isInlineBlank Toml.isControl Toml.require
  Toml.Draft.empty Toml.Draft.addEntry Toml.Draft.changeAt Toml.Draft.addNew Toml.Draft.isSealed
  Text.afterWord? Text.aroundWord? Entries.get? Entries.has Entries.insert bind Except.bind
  pure Except.pure

/-- A file with a quoted name, a comment and an empty line, table by table. -/
theorem file_keys_arranged_of_quoted :
    let document := "a.'x.y'='1'#\n\na.z=\"2\"\nb='3'"
    let host : Host := ⟨⟨[(["policy.toml"], .file document.toUTF8)]⟩, [], []⟩
    let lines := [(["a", "x.y"], "1"), (["a", "z"], "2"), (["b"], "3")]
    host.lookup (.ofText "policy.toml") = .ok (.file document.toUTF8) ∧
      Toml.Lines (Toml.unifyLineEnds document.toList) lines ∧
      Toml.read document =
        .ok [("a", .table [("x.y", .string "1"), ("z", .string "2")]), ("b", .string "3")] ∧
      ∃ source notices,
        PropertySource.openFile host (.ofText "policy.toml") = .ok (source, notices) ∧
          source.keys = ["a.x.y", "a.z", "b"] := by
  intro document host lines
  have hthird : Toml.Lines "b='3'".toList [(["b"], "3")] := by
    refine .last (@Toml.Line.entry _ "'3'".toList [] _ _ _ 1 ?_ ?_ ?_) <;> simp
  have hsecond : Toml.Lines "a.z=\"2\"\nb='3'".toList [(["a", "z"], "2"), (["b"], "3")] := by
    refine @Toml.Lines.cons _ "\"2\"\nb='3'".toList "\nb='3'".toList _ _ _ 1 _ ?_ ?_ ?_ hthird <;>
      simp
  have hblank : Toml.Lines ('\n' :: "a.z=\"2\"\nb='3'".toList) [(["a", "z"], "2"), (["b"], "3")] :=
    .skip (by simp) hsecond
  have hlines : Toml.Lines (Toml.unifyLineEnds document.toList) lines := by
    refine @Toml.Lines.cons _ "'1'#\n\na.z=\"2\"\nb='3'".toList "#\n\na.z=\"2\"\nb='3'".toList _ _ _
      1 _ ?_ ?_ ?_ hblank <;> simp [document]
  have hread : Toml.read document =
      .ok [("a", .table [("x.y", .string "1"), ("z", .string "2")]), ("b", .string "3")] := by
    simp [document]
  have hgathered : Table.Gathered (lines.map Prod.fst) := by
    intro first between last hsublist table hfirst hlast
    obtain ⟨rfl, rfl, rfl⟩ : first = ["a", "x.y"] ∧ between = ["a", "z"] ∧ last = ["b"] := by
      simpa [lines] using hsublist.eq_of_length rfl
    cases table with
    | nil => exact List.nil_prefix
    | cons name rest =>
      obtain rfl := (List.cons_prefix_cons.mp hfirst).1
      simp at hlast
  have hfile : host.lookup (.ofText "policy.toml") = .ok (.file document.toUTF8) := rfl
  obtain ⟨source, notices, hopened, -, hkeys, -⟩ := file_keys_arranged hfile hlines hread
  exact ⟨hfile, hlines, hread, source, notices, hopened,
    hkeys.mpr ⟨by decide, hgathered, by simp [lines, Table.NamedAtTop]⟩⟩

/-- A line that goes back to a table does not stay behind the lines between. -/
theorem not_file_keys_in_order :
    ¬ ∀ (host : Host) (path : Path) (document : String) (lines : List (KeyPath × String))
      (table : Table), host.lookup path = .ok (.file document.toUTF8) →
      Toml.Lines (Toml.unifyLineEnds document.toList) lines → Toml.read document = .ok table →
      ∃ source notices, PropertySource.openFile host path = .ok (source, notices) ∧
        source.keys = lines.map fun line => Text.join "." line.1 := by
  intro hordered
  have hthird : Toml.Lines "a.y='3'".toList [(["a", "y"], "3")] := by
    refine .last (@Toml.Line.entry _ "'3'".toList [] _ _ _ 1 ?_ ?_ ?_) <;> simp
  have hsecond : Toml.Lines "b='2'\na.y='3'".toList [(["b"], "2"), (["a", "y"], "3")] := by
    refine @Toml.Lines.cons _ "'2'\na.y='3'".toList "\na.y='3'".toList _ _ _ 1 _ ?_ ?_ ?_ hthird <;>
      simp
  have hlines : Toml.Lines (Toml.unifyLineEnds "a.x='1'\nb='2'\na.y='3'".toList)
      [(["a", "x"], "1"), (["b"], "2"), (["a", "y"], "3")] := by
    refine @Toml.Lines.cons _ "'1'\nb='2'\na.y='3'".toList "\nb='2'\na.y='3'".toList _ _ _ 1 _
      ?_ ?_ ?_ hsecond <;> simp
  have hread : Toml.read "a.x='1'\nb='2'\na.y='3'" =
      .ok [("a", .table [("x", .string "1"), ("y", .string "3")]), ("b", .string "2")] := by
    simp
  obtain ⟨source, notices, hopened, hkeys⟩ :=
    hordered ⟨⟨[(["policy.toml"], .file "a.x='1'\nb='2'\na.y='3'".toUTF8)]⟩, [], []⟩
      (.ofText "policy.toml") _ _ _ rfl hlines hread
  rw [PropertySource.openFile_of_lines rfl hlines hread] at hopened
  obtain ⟨rfl, -⟩ := Prod.mk.inj (Except.ok.inj hopened)
  have hgathered := ((Toml.read_holds hlines hread).keys_eq_iff.mp hkeys).2.1
  have hbetween : ["a"] <+: ["b"] :=
    hgathered ["a", "x"] ["b"] ["a", "y"] (.refl _) ["a"] (by simp) (by simp)
  simp at hbetween

end Documents

end EventPolicy
