/-!
Named values in order. A list of entries is read as a finite map in which a
name stands where it was first inserted and holds what was last inserted.
Property listings, tables of a configuration and the process environment are
all kept this way, because their order shows in what the library answers.
-/

namespace EventPolicy

/-- Names with values, in order. The operations below keep names distinct. -/
abbrev Entries (α : Type) := List (String × α)

namespace Entries

variable {α : Type}

def keys (entries : Entries α) : List String := entries.map Prod.fst

/-- The value of the first entry with this name. -/
def get? : Entries α → String → Option α
  | [], _ => none
  | (key, value) :: rest, name => if key = name then some value else get? rest name

def has (entries : Entries α) (name : String) : Bool := (entries.get? name).isSome

/-- Gives `name` the value. A present name keeps its place, a new one goes last. -/
def insert : Entries α → String → α → Entries α
  | [], name, value => [(name, value)]
  | (key, old) :: rest, name, value =>
    if key = name then (key, value) :: rest else (key, old) :: insert rest name value

def erase (entries : Entries α) (name : String) : Entries α :=
  entries.filter fun entry => entry.1 ≠ name

def insertAll (entries newer : Entries α) : Entries α :=
  newer.foldl (fun done entry => done.insert entry.1 entry.2) entries

/-- Reads a list of pairs as a map: a repeated name keeps its first place and
takes its last value. -/
def ofList (pairs : List (String × α)) : Entries α := insertAll [] pairs

/-- The same names in the same order with mapped values. -/
def mapValues {β : Type} (f : α → β) (entries : Entries α) : Entries β :=
  entries.map fun entry => (entry.1, f entry.2)

/-- What is found under a name after an insertion. -/
theorem get?_insert (entries : Entries α) (name other : String) (value : α) :
    (entries.insert name value).get? other =
      if name = other then some value else entries.get? other := by
  induction entries with
  | nil => simp [insert, get?]
  | cons entry rest ih =>
    by_cases here : entry.1 = name
    · by_cases same : name = other <;> simp [insert, get?, here, same]
    · by_cases same : name = other
      · subst same
        simp [insert, get?, here, ih]
      · by_cases found : entry.1 = other
        · have apart : other ≠ name := fun h => same h.symm
          simp [insert, get?, found, apart, same]
        · simp [insert, get?, here, same, found, ih]

/-- A name has a value exactly when it is among the names. -/
theorem isSome_get?_iff (entries : Entries α) (name : String) :
    (entries.get? name).isSome ↔ name ∈ entries.keys := by
  induction entries with
  | nil => simp [get?, keys]
  | cons entry rest ih =>
    by_cases found : entry.1 = name
    · simp [get?, keys, found]
    · have other : name ≠ entry.1 := fun h => found h.symm
      simpa [get?, keys, found, other] using ih

/-- Insertion keeps the order of the names and adds a new one at the end. -/
theorem keys_insert (entries : Entries α) (name : String) (value : α) :
    (entries.insert name value).keys =
      if name ∈ entries.keys then entries.keys else entries.keys ++ [name] := by
  induction entries with
  | nil => simp [insert, keys]
  | cons entry rest ih =>
    by_cases found : entry.1 = name
    · simp [insert, keys, found]
    · have other : name ≠ entry.1 := fun h => found h.symm
      by_cases member : name ∈ keys rest
      · have ih := ih.trans (if_pos member)
        simp only [keys] at ih member
        simp [insert, keys, found, other, ih, member]
      · have ih := ih.trans (if_neg member)
        simp only [keys] at ih member
        simp [insert, keys, found, other, ih, member]

theorem keys_nodup_insert {entries : Entries α} (h : entries.keys.Nodup)
    (name : String) (value : α) : (entries.insert name value).keys.Nodup := by
  rw [keys_insert]
  split
  · exact h
  · next absent =>
    rw [List.nodup_append]
    refine ⟨h, by simp, ?_⟩
    intro a ha b hb
    simp only [List.mem_singleton] at hb
    subst hb
    exact fun same => absent (same ▸ ha)

/-- The names after a removal are the other names, in their order. -/
theorem keys_erase (entries : Entries α) (name : String) :
    (entries.erase name).keys = entries.keys.filter (fun key => key ≠ name) := by
  simp only [erase, keys, List.filter_map]
  rfl

end Entries

end EventPolicy
