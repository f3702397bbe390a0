import EventPolicy.Proofs.Table.Layers
import Mathlib.Data.List.Induction

/-!
How leaves are arranged that come one after the other. A table stands where its
first leaf made it, so a leaf that comes later goes to the end of the innermost
table on its way, in front of what stands behind that table. The leaves stay in
the order in which they come exactly when those of every table come together.
-/

namespace EventPolicy.Table

variable {α β : Type}

/-- The number of leading names that two paths share. -/
def shared : List String → List String → Nat
  | name :: path, other :: rest => if name = other then shared path rest + 1 else 0
  | _, _ => 0

/-- Puts a leaf behind the last of those that share the most leading names with it. -/
def place (leaf : List String × α) : List (List String × α) → List (List String × α)
  | [] => [leaf]
  | first :: rest =>
    if ∃ other ∈ rest, shared leaf.1 first.1 ≤ shared leaf.1 other.1 then first :: place leaf rest
    else first :: leaf :: rest

/-- Places leaves one after the other. -/
def arrange (found : List (List String × α)) : List (List String × α) :=
  found.foldl (fun placed leaf => place leaf placed) []

theorem arrange_append_singleton (found : List (List String × α)) (leaf : List String × α) :
    arrange (found ++ [leaf]) = place leaf (arrange found) := by
  simp [arrange]

theorem place_perm (leaf : List String × α) (placed : List (List String × α)) :
    (place leaf placed).Perm (leaf :: placed) := by
  induction placed with
  | nil => exact .refl _
  | cons first rest ih =>
    rw [place]
    split
    · exact (ih.cons first).trans (.swap leaf first rest)
    · exact .swap leaf first rest

theorem arrange_perm (found : List (List String × α)) : (arrange found).Perm found := by
  induction found using List.reverseRecOn with
  | nil => exact .refl _
  | append_singleton found leaf ih =>
    rw [arrange_append_singleton]
    have hlast := List.perm_append_singleton leaf found
    exact (place_perm leaf _).trans ((ih.cons leaf).trans hlast.symm)

/-- Only the comparison of shared names decides where a leaf goes. -/
theorem place_map (leaf : List String × α) {f : List String × α → List String × β}
    (hshared : ∀ first other, shared (f leaf).1 (f first).1 ≤ shared (f leaf).1 (f other).1 ↔
      shared leaf.1 first.1 ≤ shared leaf.1 other.1) (placed : List (List String × α)) :
    place (f leaf) (placed.map f) = (place leaf placed).map f := by
  induction placed with
  | nil => rfl
  | cons first rest ih =>
    have hlater :
        (∃ other ∈ rest.map f, shared (f leaf).1 (f first).1 ≤ shared (f leaf).1 other.1) ↔
        ∃ other ∈ rest, shared leaf.1 first.1 ≤ shared leaf.1 other.1 := by
      simp only [List.mem_map, exists_exists_and_eq_and, hshared]
    simp only [List.map_cons, place, hlater, ih]
    split <;> rfl

/-- A leaf that shares no name with those in place goes last. -/
theorem place_of_apart {leaf : List String × α} {placed : List (List String × α)}
    (hapart : ∀ other ∈ placed, shared leaf.1 other.1 = 0) :
    place leaf placed = placed ++ [leaf] := by
  induction placed with
  | nil => rfl
  | cons first rest ih =>
    obtain ⟨hfirst, hrest⟩ := List.forall_mem_cons.mp hapart
    cases rest with
    | nil => simp [place]
    | cons next others =>
      have hlater : ∃ other ∈ next :: others, shared leaf.1 first.1 ≤ shared leaf.1 other.1 :=
        ⟨next, List.mem_cons_self, by simp [hfirst]⟩
      rw [place, if_pos hlater, ih hrest]
      rfl

/-- A leaf goes among those that share a name with it, not among what stands
before and behind them. -/
theorem place_among {leaf : List String × α} {before among after : List (List String × α)}
    (hbefore : ∀ other ∈ before, shared leaf.1 other.1 = 0)
    (hamong : ∀ other ∈ among, 0 < shared leaf.1 other.1) (hfilled : among ≠ [])
    (hafter : ∀ other ∈ after, shared leaf.1 other.1 = 0) :
    place leaf (before ++ among ++ after) = before ++ place leaf among ++ after := by
  -- Nothing before is the last that shares most, as the leaves behind it share a name.
  induction before with
  | nil =>
    simp only [List.nil_append]
    induction among with
    | nil => exact absurd rfl hfilled
    | cons first rest ih =>
      obtain ⟨hfirst, hrest⟩ := List.forall_mem_cons.mp hamong
      have hlater : (∃ other ∈ rest ++ after, shared leaf.1 first.1 ≤ shared leaf.1 other.1) ↔
          ∃ other ∈ rest, shared leaf.1 first.1 ≤ shared leaf.1 other.1 := by
        refine ⟨?_, fun ⟨other, hother, hle⟩ => ⟨other, List.mem_append_left _ hother, hle⟩⟩
        rintro ⟨other, hother, hle⟩
        rcases List.mem_append.mp hother with hother | hother
        · exact ⟨other, hother, hle⟩
        · have hnone := hafter other hother
          omega
      simp only [List.cons_append, place, hlater]
      split
      · next hbeyond =>
        obtain ⟨other, hother, -⟩ := hbeyond
        rw [ih hrest (List.ne_nil_of_mem hother), List.cons_append]
      · rfl
  | cons first rest ih =>
    obtain ⟨hfirst, hrest⟩ := List.forall_mem_cons.mp hbefore
    obtain ⟨other, hother⟩ := List.exists_mem_of_ne_nil among hfilled
    have hlater : ∃ other ∈ rest ++ among ++ after, shared leaf.1 first.1 ≤ shared leaf.1 other.1 :=
      ⟨other, by simp [hother], by omega⟩
    rw [List.cons_append, List.cons_append, place, if_pos hlater, ih hrest]
    rfl

/-- A path shares nothing with the leaves of a table that lacks its first name. -/
theorem shared_eq_zero_of_absent {entries : Table} {name : String}
    (habsent : name ∉ Entries.keys entries) (path : List String) :
    ∀ leaf ∈ leaves entries, shared (name :: path) leaf.1 = 0 := by
  intro leaf hleaf
  obtain ⟨other, found, rest, hentry, hpath, -⟩ := mem_leaves_iff.mp hleaf
  have hapart : name ≠ other := fun hsame => habsent (hsame ▸ List.mem_map_of_mem hentry)
  simp [hpath, shared, hapart]

/-- Paths share what leads to a table that both lie in. -/
theorem length_le_shared {table path other : List String} (hpath : table <+: path)
    (hother : table <+: other) : table.length ≤ shared path other := by
  induction table generalizing path other with
  | nil => simp
  | cons name table ih =>
    obtain ⟨rest, rfl⟩ := hpath
    obtain ⟨last, rfl⟩ := hother
    simpa [shared] using ih (List.prefix_append table rest) (List.prefix_append table last)

/-- What two paths share leads to a table that both lie in. -/
theorem exists_table_of_shared (path other : List String) :
    ∃ table, table <+: path ∧ table <+: other ∧ table.length = shared path other := by
  induction path generalizing other with
  | nil => exact ⟨[], by simp [shared]⟩
  | cons name path ih =>
    cases other with
    | nil => exact ⟨[], by simp [shared]⟩
    | cons another rest =>
      by_cases hname : name = another
      · subst hname
        obtain ⟨table, hpath, hrest, hlength⟩ := ih rest
        exact ⟨name :: table, by simpa using hpath, by simpa using hrest, by simp [shared, hlength]⟩
      · exact ⟨[], by simp [shared, hname]⟩

/-- Between two paths of one table stand only paths of that table. -/
def Gathered (paths : List (List String)) : Prop :=
  ∀ first between last, [first, between, last].Sublist paths →
    ∀ table, table <+: first → table <+: last → table <+: between

theorem Gathered.sublist {paths others : List (List String)} (h : Gathered paths)
    (hothers : others.Sublist paths) : Gathered others :=
  fun first between last hsublist => h first between last (hsublist.trans hothers)

theorem place_last {leaf : List String × α} {placed : List (List String × α)}
    (h : Gathered ((placed ++ [leaf]).map Prod.fst)) : place leaf placed = placed ++ [leaf] := by
  induction placed with
  | nil => rfl
  | cons first rest ih =>
    have hrest : Gathered ((rest ++ [leaf]).map Prod.fst) := h.sublist (List.sublist_cons_self _ _)
    cases rest with
    | nil => simp [place]
    | cons next others =>
      obtain ⟨table, hleaf, hfirst, hlength⟩ := exists_table_of_shared leaf.1 first.1
      have hbetween : [first.1, next.1, leaf.1].Sublist
          ((first :: next :: others ++ [leaf]).map Prod.fst) := by
        simp
      have hnext : table <+: next.1 := h _ _ _ hbetween table hfirst hleaf
      have hlater : shared leaf.1 first.1 ≤ shared leaf.1 next.1 :=
        hlength ▸ length_le_shared hleaf hnext
      rw [place, if_pos ⟨next, List.mem_cons_self, hlater⟩, ih hrest]
      rfl

/-- Leaves that come table by table stay in the order in which they come. -/
theorem arrange_of_gathered {found : List (List String × α)}
    (h : Gathered (found.map Prod.fst)) : arrange found = found := by
  induction found using List.reverseRecOn with
  | nil => rfl
  | append_singleton found leaf ih =>
    have hbefore : Gathered (found.map Prod.fst) :=
      h.sublist ((List.sublist_append_left found [leaf]).map Prod.fst)
    rw [arrange_append_singleton, ih hbefore]
    exact place_last h

/-- What stands between two paths of one table in document order is of that table. -/
theorem Precedes.between {names : List String → List String}
    (hdistinct : ∀ path, (names path).Nodup) {first between last : List String}
    (hfirst : Precedes names first between) (hlast : Precedes names between last)
    {table : List String} (htable : table <+: first)
    (hshared : table <+: last) : table <+: between := by
  induction table generalizing names first between last with
  | nil => exact List.nil_prefix
  | cons name table ih =>
    obtain ⟨rest, rfl⟩ := htable
    obtain ⟨others, rfl⟩ := hshared
    cases between with
    | nil => cases hfirst
    | cons another path =>
      rcases hfirst with hfirst | ⟨rfl, hfirst⟩
      · rcases hlast with hlast | ⟨rfl, -⟩
        · exact absurd hlast (not_sublist_swap (hdistinct []) hfirst)
        · exact absurd hfirst (not_sublist_swap (hdistinct []) hfirst)
      · rcases hlast with hlast | ⟨-, hlast⟩
        · exact absurd hlast (not_sublist_swap (hdistinct []) hlast)
        · have hbelow := ih (fun below => hdistinct (name :: below)) hfirst hlast
            (List.prefix_append table rest) (List.prefix_append table others)
          exact List.cons_prefix_cons.mpr ⟨rfl, hbelow⟩

/-- The leaves of every table stand together. -/
theorem gathered_leaves {table : Table} (hwell : (Value.table table).WellFormed) :
    Gathered ((leaves table).map Prod.fst) := by
  intro first between last hsublist above hfirst hlast
  have hnames : ∀ path, (namesAt (some (.table table)) path).Nodup := fun path =>
    namesAt_nodup (fun _ => wellFormed_of_some hwell) path
  have hordered := (List.pairwise_map.mpr (leavesOfValue_pairwise hwell)).sublist hsublist
  simp only [List.pairwise_cons, List.mem_cons, List.not_mem_nil, or_false, forall_eq_or_imp,
    forall_eq] at hordered
  exact hordered.1.1.between hnames hordered.2.1 hfirst hlast

end EventPolicy.Table
