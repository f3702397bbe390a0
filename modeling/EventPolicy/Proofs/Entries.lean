import EventPolicy.Entries
import Mathlib.Data.List.Induction
import Mathlib.Data.List.Nodup
import Mathlib.Data.List.Perm.Subperm

/-!
Inserting into entries one after the other. A list of insertions can be read as
a map first and be inserted then, and what is found under a name is the value
of its last insertion.
-/

namespace EventPolicy.Entries

variable {α : Type}

theorem get?_eq_some_iff {entries : Entries α} (hdistinct : entries.keys.Nodup) {name : String}
    {value : α} : entries.get? name = some value ↔ (name, value) ∈ entries := by
  induction entries with
  | nil => simp [get?]
  | cons entry rest ih =>
    obtain ⟨key, found⟩ := entry
    obtain ⟨habsent, hrest⟩ := List.nodup_cons.mp hdistinct
    by_cases hkey : key = name
    · subst hkey
      have hother : (key, value) ∉ rest := fun h => habsent (List.mem_map.mpr ⟨_, h, rfl⟩)
      simp [get?, hother, eq_comm]
    · have hapart : name ≠ key := fun h => hkey h.symm
      simp [get?, hkey, hapart, ih hrest]

theorem get?_eq_none_iff {entries : Entries α} {name : String} :
    entries.get? name = none ↔ name ∉ entries.keys := by
  rw [← isSome_get?_iff, Option.not_isSome_iff_eq_none]

/-- Maps with the same names in the same order and the same value under each are the
same. -/
theorem eq_of_keys_eq {first second : Entries α} (hdistinct : first.keys.Nodup)
    (hkeys : first.keys = second.keys) (hget : ∀ name, first.get? name = second.get? name) :
    first = second := by
  induction first generalizing second with
  | nil => exact (List.map_eq_nil_iff.mp hkeys.symm).symm
  | cons entry rest ih =>
    obtain ⟨key, value⟩ := entry
    obtain ⟨habsent, hrest⟩ := List.nodup_cons.mp hdistinct
    cases second with
    | nil => cases hkeys
    | cons other others =>
      obtain ⟨otherKey, otherValue⟩ := other
      obtain ⟨hkey, hnames⟩ := List.cons.inj hkeys
      obtain rfl : key = otherKey := hkey
      have hvalue : value = otherValue := by simpa [get?] using hget key
      have hothers (name : String) : Entries.get? rest name = Entries.get? others name := by
        by_cases hname : key = name
        · subst hname
          rw [get?_eq_none_iff.mpr habsent, get?_eq_none_iff.mpr]
          exact fun h => habsent (hnames.symm ▸ h)
        · simpa [get?, hname] using hget name
      rw [hvalue, ih hrest hnames hothers]

/-- A present name is given its value where it stands. -/
theorem exists_insert_eq_of_get? {entries : Entries α} {name : String} {old : α}
    (h : entries.get? name = some old) :
    ∃ before after, entries = before ++ (name, old) :: after ∧
      ∀ value, entries.insert name value = before ++ (name, value) :: after := by
  induction entries with
  | nil => cases h
  | cons entry rest ih =>
    obtain ⟨key, found⟩ := entry
    by_cases hkey : key = name
    · subst hkey
      obtain rfl : found = old := by simpa [get?] using h
      exact ⟨[], rest, rfl, fun value => by simp [insert]⟩
    · obtain ⟨before, after, hrest, hinsert⟩ := ih (by simpa [get?, hkey] using h)
      exact ⟨(key, found) :: before, after, by simp [hrest],
        fun value => by simp [insert, hkey, hinsert]⟩

theorem insert_insert_self (entries : Entries α) (name : String) (old value : α) :
    (entries.insert name old).insert name value = entries.insert name value := by
  induction entries with
  | nil => simp [insert]
  | cons entry rest ih =>
    by_cases hkey : entry.1 = name
    · simp [insert, hkey]
    · simp [insert, hkey, ih]

/-- A present name keeps its place, so it can be set before or after another. -/
theorem insert_insert_of_mem {entries : Entries α} {name other : String}
    (hpresent : name ∈ entries.keys) (hapart : other ≠ name) (value another : α) :
    (entries.insert other another).insert name value =
      (entries.insert name value).insert other another := by
  induction entries with
  | nil => cases hpresent
  | cons entry rest ih =>
    obtain ⟨key, found⟩ := entry
    by_cases hname : key = name
    · subst hname
      simp [insert, Ne.symm hapart]
    · have hrest : name ∈ Entries.keys rest := by
        rcases List.mem_cons.mp hpresent with h | h
        · exact absurd h.symm hname
        · exact h
      by_cases hother : key = other
      · simp [insert, hother, hapart]
      · simp [insert, hname, hother, ih hrest]

theorem insertAll_insert_of_mem {newer : Entries α} {entries : Entries α} {name : String}
    (hpresent : name ∈ entries.keys) (habsent : name ∉ newer.keys) (value : α) :
    (insertAll entries newer).insert name value = insertAll (entries.insert name value) newer := by
  induction newer generalizing entries with
  | nil => rfl
  | cons entry rest ih =>
    obtain ⟨hapart, hrest⟩ := not_or.mp (mt List.mem_cons.mpr habsent)
    have hkept : name ∈ (entries.insert entry.1 entry.2).keys := by
      rw [keys_insert]
      split
      · exact hpresent
      · exact List.mem_append_left _ hpresent
    simp only [insertAll, List.foldl_cons] at ih ⊢
    rw [ih hkept hrest, insert_insert_of_mem hpresent (Ne.symm hapart)]

theorem insertAll_insert {newer : Entries α} (hdistinct : newer.keys.Nodup) (entries : Entries α)
    (name : String) (value : α) :
    insertAll entries (newer.insert name value) = (insertAll entries newer).insert name value := by
  induction newer generalizing entries with
  | nil => rfl
  | cons entry rest ih =>
    obtain ⟨habsent, hrest⟩ := List.nodup_cons.mp hdistinct
    by_cases hkey : entry.1 = name
    · subst hkey
      have hpresent : entry.1 ∈ (entries.insert entry.1 entry.2).keys := by
        rw [← isSome_get?_iff, get?_insert]
        simp
      have hset := insertAll_insert_of_mem hpresent habsent value
      rw [insert_insert_self] at hset
      simpa [insert, insertAll] using hset.symm
    · simpa [insert, hkey, insertAll] using ih hrest (entries.insert entry.1 entry.2)

theorem insertAll_append (entries first second : Entries α) :
    insertAll entries (first ++ second) = insertAll (insertAll entries first) second :=
  List.foldl_append

/-- Insertions may be read as a map before they are made. -/
theorem insertAll_insertAll {newer : Entries α} (hdistinct : newer.keys.Nodup)
    (entries pairs : Entries α) :
    insertAll entries (insertAll newer pairs) = insertAll (insertAll entries newer) pairs := by
  induction pairs generalizing newer with
  | nil => rfl
  | cons pair rest ih =>
    have hinserted := ih (keys_nodup_insert hdistinct pair.1 pair.2)
    rw [insertAll_insert hdistinct] at hinserted
    exact hinserted

theorem insertAll_ofList (entries pairs : Entries α) :
    insertAll entries (ofList pairs) = insertAll entries pairs :=
  insertAll_insertAll (by simp [keys]) entries pairs

theorem get?_append (first second : Entries α) (name : String) :
    Entries.get? (first ++ second) name = (first.get? name).or (second.get? name) := by
  induction first with
  | nil => rfl
  | cons entry rest ih =>
    by_cases hkey : entry.1 = name
    · simp [get?, hkey]
    · simpa [get?, hkey] using ih

/-- What insertions leave under a name is the last value they give it, or what
was there before. -/
theorem get?_insertAll (entries newer : Entries α) (name : String) :
    (insertAll entries newer).get? name =
      (Entries.get? newer.reverse name).or (entries.get? name) := by
  induction newer generalizing entries with
  | nil => rfl
  | cons entry rest ih =>
    have hrest := ih (entries.insert entry.1 entry.2)
    rw [get?_insert] at hrest
    rw [List.reverse_cons, get?_append, Option.or_assoc]
    refine hrest.trans (congrArg _ ?_)
    by_cases hkey : entry.1 = name <;> simp [get?, hkey]

theorem keys_mapValues {β : Type} (f : α → β) (entries : Entries α) :
    (entries.mapValues f).keys = entries.keys := by
  simp [keys, mapValues]

theorem get?_mapValues {β : Type} (f : α → β) (entries : Entries α) (name : String) :
    (entries.mapValues f).get? name = (entries.get? name).map f := by
  induction entries with
  | nil => rfl
  | cons entry rest ih =>
    by_cases hkey : entry.1 = name
    · simp [mapValues, get?, hkey]
    · simpa [mapValues, get?, hkey] using ih

theorem insert_mapValues {β : Type} (f : α → β) (entries : Entries α) (name : String) (value : α) :
    (entries.mapValues f).insert name (f value) = (entries.insert name value).mapValues f := by
  induction entries with
  | nil => rfl
  | cons entry rest ih =>
    by_cases hkey : entry.1 = name
    · simp [mapValues, insert, hkey]
    · simpa [mapValues, insert, hkey] using ih

theorem erase_mapValues {β : Type} (f : α → β) (entries : Entries α) (name : String) :
    (entries.mapValues f).erase name = (entries.erase name).mapValues f := by
  simp only [erase, mapValues, List.filter_map]
  rfl

/-- What is found under a name after a removal. -/
theorem get?_erase (entries : Entries α) (name other : String) :
    (entries.erase name).get? other = if name = other then none else entries.get? other := by
  induction entries with
  | nil => simp [erase, get?]
  | cons entry rest ih =>
    by_cases hkey : entry.1 = name
    · have herase : erase (entry :: rest) name = erase rest name := by simp [erase, hkey]
      rw [herase, ih]
      by_cases hsame : name = other <;> simp [get?, hkey, hsame]
    · have herase : erase (entry :: rest) name = entry :: erase rest name := by
        simp [erase, hkey]
      by_cases hother : entry.1 = other
      · have hapart : name ≠ other := fun hsame => hkey (hother.trans hsame.symm)
        simp [herase, get?, hother, hapart]
      · simp [herase, get?, hother, ih]

/-- The names around the one that is inserted are the same before and after. -/
theorem exists_keys_insert {entries : Entries α} (hdistinct : entries.keys.Nodup) (name : String)
    (value : α) :
    ∃ before after, name ∉ before ++ after ∧
      (entries.insert name value).keys = before ++ name :: after ∧
      (entries.keys = before ++ after ∨ entries.keys = before ++ name :: after) := by
  by_cases hname : name ∈ entries.keys
  · obtain ⟨before, after, hkeys⟩ := List.append_of_mem hname
    have hapart : name ∉ before ++ after :=
      (List.nodup_cons.mp (List.nodup_middle.mp (hkeys ▸ hdistinct))).1
    refine ⟨before, after, hapart, ?_, .inr hkeys⟩
    rw [keys_insert, if_pos hname, hkeys]
  · refine ⟨entries.keys, [], by simpa using hname, ?_, .inl (by simp)⟩
    rw [keys_insert, if_neg hname]

theorem insertAll_mapValues {β : Type} (f : α → β) (entries newer : Entries α) :
    insertAll (entries.mapValues f) (newer.mapValues f) =
      (insertAll entries newer).mapValues f := by
  induction newer generalizing entries with
  | nil => rfl
  | cons entry rest ih =>
    have hrest := ih (entries.insert entry.1 entry.2)
    rw [← insert_mapValues] at hrest
    exact hrest

theorem get?_eq_find? (entries : Entries α) (name : String) :
    entries.get? name = (entries.find? fun entry => entry.1 = name).map Prod.snd := by
  induction entries with
  | nil => rfl
  | cons entry rest ih =>
    by_cases hkey : entry.1 = name
    · simp [get?, hkey]
    · simpa [get?, hkey] using ih

/-- What a list of pairs leaves under a name is the value of the last pair with it. -/
theorem get?_ofList_eq_some_iff {pairs : Entries α} {name : String} {value : α} :
    (ofList pairs).get? name = some value ↔
      ∃ before after, pairs = before ++ (name, value) :: after ∧
        ∀ entry ∈ after, entry.1 ≠ name := by
  have hlast : (ofList pairs).get? name = Entries.get? pairs.reverse name := by
    simp [ofList, get?_insertAll, get?]
  rw [hlast, get?_eq_find?, Option.map_eq_some_iff]
  simp only [List.find?_eq_some_iff_append]
  constructor
  · rintro ⟨⟨key, found⟩, ⟨hkey, after, before, hpairs, hafter⟩, hvalue⟩
    obtain rfl : key = name := of_decide_eq_true hkey
    obtain rfl : found = value := hvalue
    refine ⟨before.reverse, after.reverse, ?_, ?_⟩
    · simpa using congrArg List.reverse hpairs
    · intro entry hentry
      simpa using hafter entry (List.mem_reverse.mp hentry)
  · rintro ⟨before, after, rfl, hafter⟩
    refine ⟨(name, value), ⟨by simp, after.reverse, before.reverse, by simp, ?_⟩, rfl⟩
    intro entry hentry
    simpa using hafter entry (List.mem_reverse.mp hentry)

theorem insert_of_not_mem {entries : Entries α} {name : String} (habsent : name ∉ entries.keys)
    (value : α) : entries.insert name value = entries ++ [(name, value)] := by
  induction entries with
  | nil => rfl
  | cons entry rest ih =>
    obtain ⟨hapart, hrest⟩ := not_or.mp (mt List.mem_cons.mpr habsent)
    have hkey : entry.1 ≠ name := Ne.symm hapart
    simp [insert, hkey, ih hrest]

theorem insertAll_of_nodup {newer : Entries α} {entries : Entries α}
    (hdistinct : (Entries.keys (entries ++ newer)).Nodup) :
    insertAll entries newer = entries ++ newer := by
  induction newer generalizing entries with
  | nil => simp [insertAll]
  | cons entry rest ih =>
    have habsent : entry.1 ∉ entries.keys := by
      rw [keys, List.map_append, List.nodup_append] at hdistinct
      exact fun h => hdistinct.2.2 _ h _ List.mem_cons_self rfl
    have hrest : insertAll (entries ++ [entry]) rest = (entries ++ [entry]) ++ rest :=
      ih (by simpa using hdistinct)
    simpa [insertAll, insert_of_not_mem habsent] using hrest

/-- Pairs with distinct names are a map already. -/
theorem ofList_of_nodup {pairs : Entries α} (hdistinct : pairs.keys.Nodup) :
    ofList pairs = pairs :=
  insertAll_of_nodup hdistinct

theorem keys_nodup_insertAll {entries : Entries α} (h : entries.keys.Nodup) (newer : Entries α) :
    (insertAll entries newer).keys.Nodup := by
  induction newer generalizing entries with
  | nil => exact h
  | cons entry rest ih => exact ih (keys_nodup_insert h entry.1 entry.2)

theorem keys_nodup_ofList (pairs : Entries α) : (ofList pairs).keys.Nodup :=
  keys_nodup_insertAll (by simp [keys]) pairs

theorem mem_of_mem_ofList {pairs : Entries α} {entry : String × α} (h : entry ∈ ofList pairs) :
    entry ∈ pairs := by
  have hget := (get?_eq_some_iff (keys_nodup_ofList pairs)).mpr h
  obtain ⟨before, after, hpairs, -⟩ := get?_ofList_eq_some_iff.mp hget
  simp [hpairs]

theorem mem_keys_ofList_iff {pairs : Entries α} {name : String} :
    name ∈ (ofList pairs).keys ↔ name ∈ pairs.keys := by
  rw [← isSome_get?_iff, ofList, get?_insertAll]
  have hreverse := isSome_get?_iff pairs.reverse name
  simpa [get?, keys] using hreverse

/-- The names of a list of pairs stand where each comes first. -/
theorem keys_ofList (pairs : Entries α) : (ofList pairs).keys = pairs.keys.eraseDups := by
  induction pairs using List.reverseRecOn with
  | nil => rfl
  | append_singleton rest pair ih =>
    have hlast : ofList (rest ++ [pair]) = (ofList rest).insert pair.1 pair.2 :=
      insertAll_append [] rest [pair]
    have hkeys : Entries.keys (rest ++ [pair]) = Entries.keys rest ++ [pair.1] := by simp [keys]
    rw [hlast, keys_insert, hkeys, List.eraseDups_append, ih]
    by_cases hname : pair.1 ∈ Entries.keys rest
    · simp [hname, List.removeAll]
    · simp [hname, List.removeAll, List.eraseDups_cons]

/-- A map has as many entries as the pairs it was read from exactly when their
names are distinct. -/
theorem length_ofList_eq_iff {pairs : Entries α} :
    (ofList pairs).length = pairs.length ↔ pairs.keys.Nodup := by
  constructor
  · intro hlength
    have hsubset : (ofList pairs).keys ⊆ pairs.keys := fun name => mem_keys_ofList_iff.mp
    have hsubperm := List.subperm_of_subset (keys_nodup_ofList pairs) hsubset
    have hperm := hsubperm.perm_of_length_le (by simp [keys, hlength])
    exact hperm.nodup (keys_nodup_ofList pairs)
  · intro hdistinct
    rw [ofList_of_nodup hdistinct]

end EventPolicy.Entries
