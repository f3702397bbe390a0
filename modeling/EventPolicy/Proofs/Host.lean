import EventPolicy.Host
import EventPolicy.Proofs.Table.Laws
import EventPolicy.Proofs.Toml.Reader

/-!
The layers of the configuration files. A host whose environment names the default
file itself lays that file over itself, which changes nothing.
-/

namespace EventPolicy

namespace Host

/-- The configuration of the default file alone. -/
def loadDefault (host : Host) : Except LoadError Table := do
  let path := (← host.configDirectory).child "default.toml"
  if ← host.pathExists path then host.loadToml path else throw (.missingDefault path)

theorem wellFormed_of_loadToml {host : Host} {path : Path} {table : Table}
    (h : host.loadToml path = .ok table) : (Value.table table).WellFormed := by
  unfold loadToml at h
  split at h
  case h_4 =>
    split at h
    · cases h
    · split at h
      next hread =>
        cases h
        exact Toml.wellFormed_of_read hread
      next => cases h
      next => cases h
  all_goals cases h

/-- A document that can be read is read from the file that holds its text. -/
theorem loadToml_of_text {host : Host} {path : Path} {document : String} {table : Table}
    (hfile : host.lookup path = .ok (.file document.toUTF8))
    (hread : Toml.read document = .ok table) : host.loadToml path = .ok table := by
  have htext : String.fromUTF8? document.toUTF8 = some document := dif_pos document.isValidUTF8
  simp only [loadToml, hfile, htext, hread]

/-- A table that was read was read from a file that holds the text of its document. -/
theorem exists_document_of_loadToml {host : Host} {path : Path} {table : Table}
    (h : host.loadToml path = .ok table) :
    ∃ document : String, host.lookup path = .ok (.file document.toUTF8) ∧
      Toml.read document = .ok table := by
  rw [loadToml] at h
  split at h
  case h_4 content hfile =>
    split at h
    · cases h
    case h_2 document hdocument =>
      obtain ⟨hvalid, hbytes⟩ := Option.dite_none_right_eq_some.mp hdocument
      obtain rfl := Option.some.inj hbytes
      refine ⟨.fromUTF8 content hvalid, hfile, ?_⟩
      split at h
      case h_1 hread => exact hread.trans (congrArg Except.ok (Except.ok.inj h))
      all_goals cases h
  all_goals cases h

theorem append_default (directory : Path) :
    directory.append (.ofText ("default" ++ ".toml")) = directory.child "default.toml" := by
  have hname : Path.ofText ("default" ++ ".toml") = ⟨.relative, ["default.toml"]⟩ := by decide
  rw [hname]
  rfl

/-- The default file over itself is the default file. -/
theorem loadConfig_of_default {host : Host}
    (hname : Entries.get? host.environment environmentVariable = some "default") :
    host.loadConfig = host.loadDefault := by
  have henvironment : host.environmentName = "default" := by
    rw [environmentName, hname]
    rfl
  rw [loadConfig, loadDefault]
  cases hdirectory : host.configDirectory with
  | error fault => rfl
  | ok directory =>
    simp only [bind, Except.bind, henvironment, append_default]
    cases hexists : host.pathExists (directory.child "default.toml") with
    | error fault => rfl
    | ok found =>
      cases found with
      | false => rfl
      | true =>
        cases hload : host.loadToml (directory.child "default.toml") with
        | error fault => rfl
        | ok table =>
          exact congrArg Except.ok (Table.merge_self (wellFormed_of_loadToml hload))

end Host

open Table

/-- Layers are idempotent: a table over itself is that table, with the order of its
names, so a host that names the default file gets what is in it, and a layer that is
laid on twice counts once. They are associative where no value of the middle layer
stands between two tables. -/
theorem merge_laws {lower middle upper : Table} (hlower : (Value.table lower).WellFormed)
    (hmiddle : (Value.table middle).WellFormed) (hupper : (Value.table upper).WellFormed) :
    merge lower lower = lower ∧
    (∀ host : Host, Entries.get? host.environment Host.environmentVariable = some "default" →
      host.loadConfig = host.loadDefault) ∧
    merge (merge lower middle) middle = merge lower middle ∧
    ((∀ path below leaf above, find? lower path = some (.table below) →
        find? middle path = some leaf → find? upper path = some (.table above) →
          leaf.isTable = true) →
      merge (merge lower middle) upper = merge lower (merge middle upper)) := by
  refine ⟨merge_self hlower, fun host => Host.loadConfig_of_default,
    merge_merge_self hlower hmiddle, fun hbetween => ?_⟩
  refine (merge_assoc_iff hlower hmiddle hupper).mpr fun path => ?_
  rintro below leaf above hbelow hleaf hnot habove
  rw [hbetween path below leaf above hbelow hleaf habove] at hnot
  cases hnot

/-- The middle layer turns a table of the lower one into a text and a text into a table,
to which the upper layer adds. The host has the default file only. -/
theorem merge_laws_of_exchanged_kinds :
    let lower : Table := [("debug", .table [("level", .int 2)]), ("policy", .string "toml"),
      ("names", .list [.string "a"])]
    let middle : Table := [("policy", .table [("path", .string "p.toml")]),
      ("debug", .string "off")]
    let upper : Table := [("policy", .table [("skip", .bool true)])]
    let host : Host := ⟨⟨[(["config"], .directory),
      (["config", "default.toml"], .file "a.b='1'".toUTF8)]⟩, [], [("BAI_ENV", "default")]⟩
    merge lower lower = lower ∧
      host.loadConfig = .ok [("a", .table [("b", .string "1")])] ∧
      merge (merge lower middle) middle = merge lower middle ∧
      merge (merge lower middle) upper = merge lower (merge middle upper) := by
  intro lower middle upper host
  have hlower : (Value.table lower).WellFormed := by
    simp [lower, Value.WellFormed, Value.AllWellFormed, Value.EntriesWellFormed, Entries.keys]
  have hmiddle : (Value.table middle).WellFormed := by
    simp [middle, Value.WellFormed, Value.EntriesWellFormed, Entries.keys]
  have hupper : (Value.table upper).WellFormed := by
    simp [upper, Value.WellFormed, Value.EntriesWellFormed, Entries.keys]
  obtain ⟨hself, hload, htwice, hassoc⟩ := merge_laws hlower hmiddle hupper
  refine ⟨hself, (hload host rfl).trans ?_, htwice, hassoc ?_⟩
  · have hread : Toml.read "a.b='1'" = .ok [("a", .table [("b", .string "1")])] := by
      simp [Toml.read, Toml.unifyLineEnds, Toml.readStatements, Toml.readStatement,
        Toml.readEntry, Toml.readKey, Toml.readKeyParts, Toml.readKeyPart, Toml.readValue,
        Toml.readLiteralLine, Toml.skipInline, Toml.skipComment, Toml.startsKey,
        Toml.isBareKeyChar, Toml.isInlineBlank, Toml.isControl, Toml.require, Toml.Draft.empty,
        Toml.Draft.addEntry, Toml.Draft.changeAt, Toml.Draft.addNew, Toml.Draft.isSealed,
        Text.afterWord?, Text.aroundWord?, Entries.get?, Entries.has, Entries.insert, bind,
        Except.bind, pure, Except.pure]
    have hdirectory : host.configDirectory = .ok ⟨.slash, ["config"]⟩ := rfl
    have hfile : host.lookup ⟨.slash, ["config", "default.toml"]⟩ =
        .ok (.file "a.b='1'".toUTF8) := rfl
    rw [Host.loadDefault, hdirectory]
    simp only [bind, Except.bind, Path.child, List.singleton_append, Host.pathExists, hfile,
      if_true]
    exact Host.loadToml_of_text hfile hread
  · intro path below leaf above hbelow hleaf habove
    rw [find?_eq_valueAt] at hbelow hleaf habove
    cases path with
    | nil =>
      cases hleaf
      rfl
    | cons name path =>
      rw [valueAt_table_cons] at hbelow habove
      by_cases hname : name = "policy"
      · subst hname
        have hleaf : ∀ entries, Value.string "toml" ≠ .table entries := by simp
        exact absurd hbelow (valueAt_leaf_ne_table hleaf path below)
      · have hnone : Entries.get? upper name = none := by
          simp [upper, Entries.get?, Ne.symm hname]
        rw [hnone, valueAt_none] at habove
        cases habove

end EventPolicy
