import EventPolicy.Proofs.Table.Merge

/-!
Which layer a dotted key takes its value from. Layers are merged as nested
tables and flattened afterwards, and one key can be spelled by several paths,
since a quoted name may have dots in it. The last spelling of a key in document
order decides, in which the names of the lower layer stand first. So the upper
layer wins exactly when that last spelling has its value.
-/

namespace EventPolicy.Table

/-- A leaf of two layers: one of the upper layer, or one of the lower where the
upper is silent. -/
def LayeredLeaf (base override : Table) (path : List String) (value : Value) : Prop :=
  (path, value) ∈ leaves override ∨
    ((path, value) ∈ leaves base ∧ Silent (some (.table override)) path)

/-- No other leaf of the two layers that spells the key stands after the path. -/
def LastSpelling (base override : Table) (key : String) (path : List String) : Prop :=
  dotted "" path = key ∧ ∀ other value, LayeredLeaf base override other value →
    dotted "" other = key →
      ¬ Precedes (layeredNames (some (.table base)) (some (.table override))) path other

variable {base override : Table} {key : String} {path : List String} {value : Value}

theorem wellFormed_of_some {other : Value} (h : value.WellFormed)
    (hsome : some value = some other) : other.WellFormed :=
  Option.some.inj hsome ▸ h

theorem mem_leaves_merge_iff (hbase : (Value.table base).WellFormed)
    (hoverride : (Value.table override).WellFormed) :
    (path, value) ∈ leaves (merge base override) ↔ LayeredLeaf base override path value := by
  have hleaves : (path, value) ∈ leavesOfValue (overlay (some (.table base)) (.table override)) ↔
      _ := mem_leavesOfValue_overlay hoverride fun _ => wellFormed_of_some hbase
  simpa [overlay, leavesOfValue, LayeredLeaf, merge] using hleaves

theorem namesAt_nodup {value : Option Value} (h : ∀ found, value = some found → found.WellFormed)
    (path : List String) : (namesAt value path).Nodup := by
  induction path generalizing value with
  | nil =>
    unfold namesAt
    split
    next entries => exact (wellFormed_table_iff.mp (h _ rfl)).1
    next hcons => cases hcons
    next => exact List.nodup_nil
  | cons name path ih =>
    unfold namesAt
    split
    next hnil => cases hnil
    next entries other rest hcons =>
      obtain ⟨rfl, rfl⟩ := List.cons.inj hcons
      exact ih ((wellFormed_table_iff.mp (h _ rfl)).2 name)
    next => exact List.nodup_nil

theorem layeredNames_nodup (hbase : (Value.table base).WellFormed)
    (hoverride : (Value.table override).WellFormed) (path : List String) :
    (layeredNames (some (.table base)) (some (.table override)) path).Nodup := by
  have hnames : ∀ {table : Table}, (Value.table table).WellFormed →
      (namesAt (some (.table table)) path).Nodup := fun htable =>
    namesAt_nodup (fun _ => wellFormed_of_some htable) path
  exact nodup_append_new (hnames hbase) (hnames hoverride)

/-- The leaves of merged layers stand in the document order of both. -/
theorem leaves_merge_pairwise (hbase : (Value.table base).WellFormed)
    (hoverride : (Value.table override).WellFormed) :
    (leaves (merge base override)).Pairwise fun leaf other =>
      Precedes (layeredNames (some (.table base)) (some (.table override))) leaf.1 other.1 := by
  have hwell : (overlay (some (.table base)) (.table override)).WellFormed :=
    wellFormed_overlay hoverride fun _ => wellFormed_of_some hbase
  have hnames := namesAt_overlay hoverride (some (.table base))
  have hpairs := leavesOfValue_pairwise hwell
  simp only [overlay, leavesOfValue] at hnames hpairs
  exact hpairs.imp fun hbefore => hbefore.mono hnames

/-- What two layers hold under a key is the value of its last spelling. -/
theorem get?_flatten_merge_iff (hbase : (Value.table base).WellFormed)
    (hoverride : (Value.table override).WellFormed) :
    (flatten (merge base override) "").get? key = some value ↔
      ∃ path, LayeredLeaf base override path value ∧ LastSpelling base override key path := by
  have horder := leaves_merge_pairwise hbase hoverride
  have hdistinct := layeredNames_nodup hbase hoverride
  rw [get?_flatten_eq_some_iff]
  constructor
  · rintro ⟨before, path, after, hleaves, hkey, hafter⟩
    have hmember : (path, value) ∈ leaves (merge base override) := by simp [hleaves]
    refine ⟨path, (mem_leaves_merge_iff hbase hoverride).mp hmember, hkey, ?_⟩
    intro other found hother hspells hbefore
    have hfound := (mem_leaves_merge_iff hbase hoverride).mpr hother
    -- What stands before the last spelling precedes it; what stands behind spells other keys.
    rw [hleaves, List.pairwise_append] at horder
    rw [hleaves, List.mem_append, List.mem_cons] at hfound
    rcases hfound with hfound | hfound | hfound
    · exact (horder.2.2 _ hfound _ List.mem_cons_self).asymm hdistinct hbefore
    · obtain rfl : other = path := congrArg Prod.fst hfound
      exact hbefore.asymm hdistinct hbefore
    · exact hafter _ hfound hspells
  · rintro ⟨path, hleaf, hkey, hlast⟩
    have hmember := (mem_leaves_merge_iff hbase hoverride).mpr hleaf
    obtain ⟨before, after, hleaves⟩ := List.append_of_mem hmember
    refine ⟨before, path, after, hleaves, hkey, ?_⟩
    intro other hother hspells
    rw [hleaves, List.pairwise_append, List.pairwise_cons] at horder
    have hfound : (other.1, other.2) ∈ leaves (merge base override) := by simp [hleaves, hother]
    exact hlast other.1 other.2 ((mem_leaves_merge_iff hbase hoverride).mp hfound) hspells
      (horder.2.1.1 other hother)

/-- The upper layer wins for a key that the two layers spell in one way. -/
theorem override_wins_of_one_spelling (hbase : (Value.table base).WellFormed)
    (hoverride : (Value.table override).WellFormed)
    (hvalue : (flatten override "").get? key = some value)
    (hone : ∀ path found other another, LayeredLeaf base override path found →
      LayeredLeaf base override other another → dotted "" path = key → dotted "" other = key →
        path = other) :
    (flatten (merge base override) "").get? key = some value := by
  obtain ⟨before, path, after, hleaves, hkey, _⟩ := get?_flatten_eq_some_iff.mp hvalue
  have hleaf : LayeredLeaf base override path value := .inl (by simp [hleaves])
  refine (get?_flatten_merge_iff hbase hoverride).mpr ⟨path, hleaf, hkey, ?_⟩
  intro other found hother hspells hbefore
  obtain rfl := hone path value other found hleaf hother hkey hspells
  exact hbefore.asymm (layeredNames_nodup hbase hoverride) hbefore

/-- The upper layer wins for a key exactly when the last spelling of the key in
the two layers has its value. -/
theorem override_wins_iff (hbase : (Value.table base).WellFormed)
    (hoverride : (Value.table override).WellFormed) (hkey : key ∈ (flatten override "").keys) :
    (flatten (merge base override) "").get? key = (flatten override "").get? key ↔
      ∃ path value, (flatten override "").get? key = some value ∧
        LayeredLeaf base override path value ∧ LastSpelling base override key path := by
  obtain ⟨value, hvalue⟩ := Option.isSome_iff_exists.mp (Entries.isSome_get?_iff _ _ |>.mpr hkey)
  constructor
  · intro hwins
    obtain ⟨path, hpath⟩ := (get?_flatten_merge_iff hbase hoverride).mp (hwins.trans hvalue)
    exact ⟨path, value, hvalue, hpath⟩
  · rintro ⟨path, found, hfound, hpath⟩
    exact ((get?_flatten_merge_iff hbase hoverride).mpr ⟨path, hpath⟩).trans hfound.symm

/-- A quoted name of the lower layer does no harm where it stands before the nested one. -/
theorem override_wins_iff_of_quoted_before :
    let lower : Table := [("camelContext.exclude", .string "audit"),
      ("camelContext", .table [("include", .string "orders")])]
    let upper : Table := [("camelContext", .table [("exclude", .string "billing")])]
    (Value.table lower).WellFormed ∧ (Value.table upper).WellFormed ∧
      "camelContext.exclude" ∈ (flatten upper "").keys ∧
      ∃ path value, (flatten upper "").get? "camelContext.exclude" = some value ∧
        LayeredLeaf lower upper path value ∧
        LastSpelling lower upper "camelContext.exclude" path := by
  intro lower upper
  have hlower : (Value.table lower).WellFormed := by
    simp [lower, Value.WellFormed, Value.EntriesWellFormed, Entries.keys]
  have hupper : (Value.table upper).WellFormed := by
    simp [upper, Value.WellFormed, Value.EntriesWellFormed, Entries.keys]
  have hkey : "camelContext.exclude" ∈ (flatten upper "").keys := by decide
  exact ⟨hlower, hupper, hkey, (override_wins_iff hlower hupper hkey).mp rfl⟩

/-- A quoted name of the lower layer that stands behind the nested one hides
what the upper layer says. -/
theorem not_override_wins :
    ¬ ∀ (base override : Table) (key : String), (Value.table base).WellFormed →
      (Value.table override).WellFormed → key ∈ (flatten override "").keys →
        (flatten (merge base override) "").get? key = (flatten override "").get? key := by
  intro hwins
  have hhidden := hwins
    [("camelContext", .table [("include", .string "orders")]),
      ("camelContext.exclude", .string "audit")]
    [("camelContext", .table [("exclude", .string "billing")])]
    "camelContext.exclude"
    (by simp [Value.WellFormed, Value.EntriesWellFormed, Entries.keys])
    (by simp [Value.WellFormed, Value.EntriesWellFormed, Entries.keys])
    (by decide)
  have hclash : some (Value.string "audit") = some (Value.string "billing") := hhidden
  simp at hclash

end EventPolicy.Table
