import EventPolicy.Proofs.Table.Merge
import EventPolicy.Toml.Reader

/-!
Tables read from TOML documents are well-formed. A draft changes by insertions into
its tables alone, and these keep names distinct, so each table of the document has
every name once.
-/

namespace EventPolicy

/-- Two steps succeed when the first does and the second does with its result. -/
theorem bind_eq_ok_iff {ε α β : Type} {first : Except ε α} {next : α → Except ε β} {result : β} :
    (first >>= next) = .ok result ↔ ∃ value, first = .ok value ∧ next value = .ok result := by
  cases first <;> simp [bind, Except.bind]

theorem Value.allWellFormed_iff {items : List Value} :
    Value.AllWellFormed items ↔ ∀ item ∈ items, item.WellFormed := by
  induction items with
  | nil => simp [Value.AllWellFormed]
  | cons item rest ih => simp [Value.AllWellFormed, ih]

namespace Toml

open Value

namespace Draft

/-- A change that leaves a well-formed table well-formed, if it can be made. -/
def Keeps (change : Table → Option Table) : Prop :=
  ∀ entries changed, (Value.table entries).WellFormed → change entries = some changed →
    (Value.table changed).WellFormed

theorem keeps_some : Keeps some := by
  rintro entries changed h ⟨⟩
  exact h

theorem keeps_addNew (name : String) {value : Value} (hvalue : value.WellFormed) :
    Keeps (addNew name value) := by
  intro entries changed h hchange
  rw [addNew] at hchange
  split at hchange
  · cases hchange
  · cases hchange
    exact Table.wellFormed_insert h name hvalue

theorem keeps_appendTable (name : String) : Keeps (appendTable name) := by
  intro entries changed h hchange
  rw [appendTable] at hchange
  split at hchange
  case h_1 =>
    cases hchange
    exact Table.wellFormed_insert h name ⟨Table.wellFormed_nil, trivial⟩
  case h_2 items hget =>
    cases hchange
    have hitems : (Value.list items).WellFormed := (Table.wellFormed_table_iff.mp h).2 name _ hget
    rw [Value.WellFormed, allWellFormed_iff] at hitems
    refine Table.wellFormed_insert h name (allWellFormed_iff.mpr ?_)
    simpa [or_imp, forall_and, Table.wellFormed_nil] using hitems
  case h_3 => cases hchange

/-- A change below a path keeps the tables on the way to it. -/
theorem keeps_changeAt {change : Table → Option Table} (hkeeps : Keeps change)
    (throughLists : Bool) (path : KeyPath) : Keeps (changeAt throughLists change path) := by
  induction path with
  | nil => exact hkeeps
  | cons name path ih =>
    intro entries changed h hchange
    have hvalues := (Table.wellFormed_table_iff.mp h).2 name
    rw [changeAt] at hchange
    split at hchange
    case h_1 =>
      obtain ⟨inner, hinner, rfl⟩ := Option.map_eq_some_iff.mp hchange
      exact Table.wellFormed_insert h name (ih _ inner Table.wellFormed_nil hinner)
    case h_2 below hget =>
      obtain ⟨inner, hinner, rfl⟩ := Option.map_eq_some_iff.mp hchange
      exact Table.wellFormed_insert h name (ih _ inner (hvalues _ hget) hinner)
    case h_3 items hget =>
      split at hchange
      · split at hchange
        next below hlast =>
          obtain ⟨inner, hinner, rfl⟩ := Option.map_eq_some_iff.mp hchange
          have hitems := allWellFormed_iff.mp (hvalues _ hget)
          have hbelow := hitems _ (List.mem_of_getLast? hlast)
          refine Table.wellFormed_insert h name (allWellFormed_iff.mpr fun item hitem => ?_)
          rcases List.mem_append.mp hitem with hitem | hitem
          · exact hitems item (List.dropLast_subset items hitem)
          · rw [List.mem_singleton.mp hitem]
            exact ih _ inner hbelow hinner
        next => cases hchange
      · cases hchange
    case h_4 => cases hchange

variable {draft next : Draft}

theorem wellFormed_of_openTable {path : KeyPath} (h : (Value.table draft.root).WellFormed)
    (hopen : draft.openTable path = some next) : (Value.table next.root).WellFormed := by
  rw [openTable] at hopen
  split at hopen
  · cases hopen
  · obtain ⟨root, hroot, hnext⟩ := Option.bind_eq_some_iff.mp hopen
    cases hnext
    exact keeps_changeAt keeps_some true path _ root h hroot

theorem wellFormed_of_openListTable {path : KeyPath} (h : (Value.table draft.root).WellFormed)
    (hopen : draft.openListTable path = some next) : (Value.table next.root).WellFormed := by
  rw [openListTable] at hopen
  split at hopen
  · cases hopen
  · obtain ⟨name, -, hopen⟩ := Option.bind_eq_some_iff.mp hopen
    obtain ⟨root, hroot, hnext⟩ := Option.bind_eq_some_iff.mp hopen
    cases hnext
    exact keeps_changeAt (keeps_appendTable name) true path.dropLast _ root h hroot

theorem wellFormed_of_addEntry {header key : KeyPath} {value : Value}
    (h : (Value.table draft.root).WellFormed) (hvalue : value.WellFormed)
    (hadd : draft.addEntry header key value = some next) :
    (Value.table next.root).WellFormed := by
  unfold addEntry at hadd
  obtain ⟨name, -, hadd⟩ := Option.bind_eq_some_iff.mp hadd
  simp only at hadd
  split at hadd
  · cases hadd
  · obtain ⟨root, hroot, hnext⟩ := Option.bind_eq_some_iff.mp hadd
    cases hnext
    exact keeps_changeAt (keeps_addNew name hvalue) true _ _ root h hroot

end Draft

theorem wellFormed_of_addInline {entries changed : Table} {closed other : List KeyPath}
    {key : KeyPath} {value : Value} (h : (Value.table entries).WellFormed)
    (hvalue : value.WellFormed)
    (hadd : addInline entries closed key value = some (changed, other)) :
    (Value.table changed).WellFormed := by
  unfold addInline at hadd
  obtain ⟨name, -, hadd⟩ := Option.bind_eq_some_iff.mp hadd
  split at hadd
  · cases hadd
  · obtain ⟨found, hfound, hnext⟩ := Option.bind_eq_some_iff.mp hadd
    cases hnext
    exact Draft.keeps_changeAt (Draft.keeps_addNew name hvalue) false _ _ _ h hfound

theorem require_eq_ok_iff {α : Type} {result : Option α} {value : α} :
    require result = .ok value ↔ result = some value := by
  cases result <;> simp [require]

theorem wellFormed_of_readCalendar {text rest : List Char} {value : Value}
    (h : readCalendar text = some (.ok (value, rest))) : value.WellFormed := by
  obtain ⟨⟨date, after⟩, -, h⟩ := Option.bind_eq_some_iff.mp h
  simp only at h
  repeat' split at h
  all_goals
    cases h
  all_goals trivial

theorem wellFormed_of_readBased {text rest : List Char} {value : Value}
    (h : readBased text = some (value, rest)) : value.WellFormed := by
  unfold readBased at h
  simp only at h
  split at h
  case h_4 => cases h
  all_goals
    obtain ⟨⟨digits, after⟩, -, hvalue⟩ := Option.map_eq_some_iff.mp h
    cases hvalue
    trivial

theorem wellFormed_of_readSpecial {text rest : List Char} {value : Value}
    (h : readSpecial text = some (value, rest)) : value.WellFormed := by
  simp only [readSpecial] at h
  split at h
  · cases h
    trivial
  · obtain ⟨after, -, hvalue⟩ := Option.map_eq_some_iff.mp h
    cases hvalue
    trivial

theorem wellFormed_of_readNumber {text rest : List Char} {value : Value}
    (h : readNumber text = .ok (value, rest)) : value.WellFormed := by
  unfold readNumber at h
  split at h
  case h_1 hbased =>
    cases h
    exact wellFormed_of_readBased hbased
  case h_2 =>
    split at h
    case h_1 =>
      split at h
      · cases h
      · cases h
        trivial
    case h_2 =>
      cases h
      trivial
    case h_3 =>
      split at h
      next hspecial =>
        cases h
        exact wellFormed_of_readSpecial hspecial
      next => cases h

theorem wellFormed_of_readScalar {text rest : List Char} {value : Value}
    (h : readScalar text = .ok (value, rest)) : value.WellFormed := by
  unfold readScalar at h
  split at h
  · cases h
    trivial
  · split at h
    · cases h
      trivial
    · split at h
      next hcalendar =>
        rw [h] at hcalendar
        exact wellFormed_of_readCalendar hcalendar
      next =>
        split at h
        · cases h
          trivial
        · exact wellFormed_of_readNumber h

/-- What the three readers give in some number of steps is well-formed. -/
structure ReadsWellFormed (fuel : Nat) : Prop where
  value : ∀ text value rest, readValue fuel text = .ok (value, rest) → value.WellFormed
  items : ∀ text items rest, readItems fuel text = .ok (items, rest) → AllWellFormed items
  inline : ∀ entries closed text result rest, (Value.table entries).WellFormed →
    readInline fuel entries closed text = .ok (result, rest) → (Value.table result).WellFormed

variable {fuel : Nat} {text rest : List Char}

theorem ReadsWellFormed.next_value (h : ReadsWellFormed fuel) {value : Value}
    (hread : readValue (fuel + 1) text = .ok (value, rest)) : value.WellFormed := by
  cases text with
  | nil => cases hread
  | cons c text =>
    rw [readValue] at hread
    split at hread
    · simp only at hread
      split at hread
      all_goals
        obtain ⟨found, -, hread⟩ := bind_eq_ok_iff.mp hread
        cases hread
        trivial
    · split at hread
      · simp only at hread
        split at hread
        all_goals
          obtain ⟨found, -, hread⟩ := bind_eq_ok_iff.mp hread
          cases hread
          trivial
      · split at hread
        · obtain ⟨start, -, hread⟩ := bind_eq_ok_iff.mp hread
          split at hread
          · cases hread
            trivial
          · obtain ⟨⟨items, after⟩, hitems, hread⟩ := bind_eq_ok_iff.mp hread
            cases hread
            exact h.items _ _ _ hitems
        · split at hread
          · split at hread
            · cases hread
              exact Table.wellFormed_nil
            · obtain ⟨⟨entries, after⟩, hentries, hread⟩ := bind_eq_ok_iff.mp hread
              cases hread
              exact h.inline _ _ _ _ _ Table.wellFormed_nil hentries
          · exact wellFormed_of_readScalar hread

theorem ReadsWellFormed.next_items (h : ReadsWellFormed fuel) {items : List Value}
    (hread : readItems (fuel + 1) text = .ok (items, rest)) : AllWellFormed items := by
  rw [readItems] at hread
  obtain ⟨⟨item, after⟩, hitem, hread⟩ := bind_eq_ok_iff.mp hread
  have hwell := h.value _ item after hitem
  obtain ⟨start, -, hread⟩ := bind_eq_ok_iff.mp hread
  split at hread
  · cases hread
    exact ⟨hwell, trivial⟩
  · obtain ⟨next, -, hread⟩ := bind_eq_ok_iff.mp hread
    split at hread
    · cases hread
      exact ⟨hwell, trivial⟩
    · obtain ⟨⟨more, after⟩, hmore, hread⟩ := bind_eq_ok_iff.mp hread
      cases hread
      exact ⟨hwell, h.items _ _ _ hmore⟩
  · cases hread

theorem ReadsWellFormed.next_inline (h : ReadsWellFormed fuel) {entries result : Table}
    {closed : List KeyPath} (hentries : (Value.table entries).WellFormed)
    (hread : readInline (fuel + 1) entries closed text = .ok (result, rest)) :
    (Value.table result).WellFormed := by
  rw [readInline] at hread
  obtain ⟨⟨key, after⟩, -, hread⟩ := bind_eq_ok_iff.mp hread
  simp only at hread
  split at hread
  · obtain ⟨⟨value, after⟩, hvalue, hread⟩ := bind_eq_ok_iff.mp hread
    obtain ⟨⟨changed, next⟩, hadd, hread⟩ := bind_eq_ok_iff.mp hread
    have hchanged := wellFormed_of_addInline hentries (h.value _ value after hvalue)
      (require_eq_ok_iff.mp hadd)
    simp only at hread
    split at hread
    · cases hread
      exact hchanged
    · exact h.inline _ _ _ result rest hchanged hread
    · cases hread
  · cases hread

theorem readsWellFormed (fuel : Nat) : ReadsWellFormed fuel := by
  induction fuel with
  | zero => exact ⟨by simp [readValue], by simp [readItems], by simp [readInline]⟩
  | succ fuel ih =>
    exact ⟨fun _ _ _ => ih.next_value, fun _ _ _ => ih.next_items,
      fun _ _ _ _ _ => ih.next_inline⟩

variable {draft next : Draft} {header path : KeyPath}

theorem wellFormed_of_readEntry (h : (Value.table draft.root).WellFormed)
    (hread : readEntry draft header text = .ok (next, rest)) :
    (Value.table next.root).WellFormed := by
  obtain ⟨⟨key, after⟩, -, hread⟩ := bind_eq_ok_iff.mp hread
  simp only at hread
  split at hread
  · obtain ⟨⟨value, after⟩, hvalue, hread⟩ := bind_eq_ok_iff.mp hread
    obtain ⟨added, hadd, hread⟩ := bind_eq_ok_iff.mp hread
    cases hread
    exact Draft.wellFormed_of_addEntry h ((readsWellFormed _).value _ value after hvalue)
      (require_eq_ok_iff.mp hadd)
  · cases hread

theorem wellFormed_of_readTableHeader (h : (Value.table draft.root).WellFormed)
    (hread : readTableHeader draft text = .ok ((next, path), rest)) :
    (Value.table next.root).WellFormed := by
  obtain ⟨⟨key, after⟩, -, hread⟩ := bind_eq_ok_iff.mp hread
  obtain ⟨opened, hopen, hread⟩ := bind_eq_ok_iff.mp hread
  split at hread
  · cases hread
    exact Draft.wellFormed_of_openTable h (require_eq_ok_iff.mp hopen)
  · cases hread

theorem wellFormed_of_readListHeader (h : (Value.table draft.root).WellFormed)
    (hread : readListHeader draft text = .ok ((next, path), rest)) :
    (Value.table next.root).WellFormed := by
  obtain ⟨⟨key, after⟩, -, hread⟩ := bind_eq_ok_iff.mp hread
  obtain ⟨opened, hopen, hread⟩ := bind_eq_ok_iff.mp hread
  split at hread
  · cases hread
    exact Draft.wellFormed_of_openListTable h (require_eq_ok_iff.mp hopen)
  · cases hread

/-- Every statement leaves the root of a draft well-formed. -/
theorem wellFormed_of_readStatement (h : (Value.table draft.root).WellFormed)
    (hread : readStatement draft header text = .ok ((next, path), rest)) :
    (Value.table next.root).WellFormed := by
  have hpending : (Value.table draft.declarePending.root).WellFormed := h
  unfold readStatement at hread
  split at hread
  · cases hread
    exact h
  · exact wellFormed_of_readListHeader hpending hread
  · exact wellFormed_of_readTableHeader hpending hread
  · split at hread
    · obtain ⟨⟨added, after⟩, hentry, hread⟩ := bind_eq_ok_iff.mp hread
      cases hread
      exact wellFormed_of_readEntry h hentry
    · split at hread
      · cases hread
        exact h
      · cases hread

theorem wellFormed_of_readStatements {table : Table} (h : (Value.table draft.root).WellFormed)
    (hread : readStatements fuel draft header text = .ok table) :
    (Value.table table).WellFormed := by
  induction fuel generalizing draft header text with
  | zero => cases hread
  | succ fuel ih =>
    rw [readStatements] at hread
    obtain ⟨⟨⟨added, path⟩, after⟩, hstatement, hread⟩ := bind_eq_ok_iff.mp hread
    have hadded := wellFormed_of_readStatement h hstatement
    obtain ⟨start, -, hread⟩ := bind_eq_ok_iff.mp hread
    split at hread
    · cases hread
      exact hadded
    · exact ih hadded hread
    · cases hread

/-- The table of every document that can be read is well-formed. -/
theorem wellFormed_of_read {document : String} {table : Table} (h : read document = .ok table) :
    (Value.table table).WellFormed :=
  wellFormed_of_readStatements Table.wellFormed_nil h

end Toml

end EventPolicy
