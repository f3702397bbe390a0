import EventPolicy.Text.Segment

/-!
Cutting a text undoes joining its pieces. The pieces of a text are the one way
to write it as a join in which the separator stands only between pieces, or
also in the last piece if the number of pieces is limited.
-/

namespace EventPolicy.Text

theorem toList_join (separator : String) (pieces : List String) :
    (join separator pieces).toList = separator.toList.intercalate (pieces.map String.toList) := by
  induction pieces with
  | nil => rfl
  | cons piece rest ih =>
    cases rest with
    | nil => simp [join]
    | cons next rest =>
      rw [join, String.toList_append, String.toList_append, ih]
      simp [List.intercalate_cons_cons]

theorem splitAll_eq_splitOn (separator : Char) (text : List Char) :
    splitAll separator text = text.splitOn separator := by
  induction text with
  | nil => rfl
  | cons c rest ih =>
    rw [splitAll, List.splitOn_cons_eq_if_modifyHead, ← ih]
    by_cases hc : c = separator
    · simp [hc]
    · obtain ⟨piece, pieces, hrest⟩ := List.exists_cons_of_ne_nil (splitAll_ne_nil separator rest)
      simp [hc, hrest]

theorem not_mem_of_mem_splitAll {separator : Char} {text piece : List Char}
    (hpiece : piece ∈ splitAll separator text) : separator ∉ piece := by
  induction text generalizing piece with
  | nil => simp_all [splitAll]
  | cons c rest ih =>
    rw [splitAll] at hpiece
    by_cases hc : c = separator
    · rw [if_pos hc, List.mem_cons] at hpiece
      rcases hpiece with rfl | hpiece
      · exact List.not_mem_nil
      · exact ih hpiece
    · obtain ⟨first, others, hrest⟩ := List.exists_cons_of_ne_nil (splitAll_ne_nil separator rest)
      rw [if_neg hc, hrest] at hpiece
      rcases List.mem_cons.mp hpiece with rfl | hpiece
      · have hfirst : separator ∉ first := ih (by simp [hrest])
        simp [hfirst, Ne.symm hc]
      · exact ih (by simp [hrest, hpiece])

theorem splitAll_eq_iff {separator : Char} {text : List Char} {found : List (List Char)} :
    splitAll separator text = found ↔
      found ≠ [] ∧ text = [separator].intercalate found ∧ ∀ piece ∈ found, separator ∉ piece := by
  constructor
  · rintro rfl
    refine ⟨splitAll_ne_nil separator text, ?_, ?_⟩
    · rw [splitAll_eq_splitOn, List.intercalate_splitOn]
    · exact fun piece => not_mem_of_mem_splitAll
  · rintro ⟨hfound, rfl, hfree⟩
    rw [splitAll_eq_splitOn, List.splitOn_intercalate separator hfree hfound]

theorem splitAtMost_eq_iff {separator : Char} {limit : Nat} {text : List Char}
    {found : List (List Char)} (hlength : found.length = limit + 1) :
    splitAtMost separator limit text = found ↔
      text = [separator].intercalate found ∧ ∀ piece ∈ found.dropLast, separator ∉ piece := by
  induction limit generalizing text found with
  | zero =>
    obtain ⟨piece, rfl⟩ := List.length_eq_one_iff.mp hlength
    simp [splitAtMost]
  | succ limit ih =>
    match found, hlength with
    | before :: next :: rest, hlength =>
      have hrest : (next :: rest).length = limit + 1 := Nat.succ.inj hlength
      have hjoin : [separator].intercalate (before :: next :: rest) =
          before ++ separator :: [separator].intercalate (next :: rest) := by
        simp [List.intercalate_cons_cons]
      rw [hjoin, List.dropLast_cons_of_ne_nil (List.cons_ne_nil next rest), List.forall_mem_cons]
      rw [← and_assoc, ← cut_eq_some_iff, splitAtMost]
      cases hcut : cut separator text with
      | none => simp
      | some cuts =>
        obtain ⟨first, after⟩ := cuts
        simp only [List.cons.injEq, Option.some.injEq, Prod.mk.injEq, ih hrest, and_assoc]

/-- Lists of texts and of their characters are equal together. -/
theorem map_ofList_eq_iff {found : List (List Char)} {pieces : List String} :
    found.map String.ofList = pieces ↔ found = pieces.map String.toList := by
  constructor
  · rintro rfl
    simp [Function.comp_def]
  · rintro rfl
    simp [Function.comp_def]

theorem eq_join_iff {text : String} {separator : Char} {pieces : List String} :
    text = join (.singleton separator) pieces ↔
      text.toList = [separator].intercalate (pieces.map String.toList) := by
  rw [← String.toList_inj, toList_join, String.toList_singleton]

/-- All pieces of a text: they join to it, and none has the separator in it. -/
theorem allPieces_eq_iff {text : String} {separator : Char} {found : List String} :
    allPieces text separator = found ↔
      found ≠ [] ∧ text = join (.singleton separator) found ∧
        ∀ piece ∈ found, separator ∉ piece.toList := by
  rw [allPieces, map_ofList_eq_iff, splitAll_eq_iff, eq_join_iff]
  simp

/-- Pieces without the separator can be told from their join. -/
theorem join_injective {separator : Char} {pieces others : List String} (hpieces : pieces ≠ [])
    (hothers : others ≠ []) (hfree : ∀ piece ∈ pieces, separator ∉ piece.toList)
    (halso : ∀ piece ∈ others, separator ∉ piece.toList)
    (hjoin : join (.singleton separator) pieces = join (.singleton separator) others) :
    pieces = others := by
  have hcut := allPieces_eq_iff.mpr ⟨hpieces, rfl, hfree⟩
  exact hcut.symm.trans (allPieces_eq_iff.mpr ⟨hothers, hjoin, halso⟩)

/-- The pieces of a text between its first separators, if it has as many: they
join to it, and none but the last has the separator in it. -/
theorem pieces_eq_iff {text : String} {separator : Char} {limit : Nat} {found : List String}
    (hlength : found.length = limit + 1) :
    pieces text separator limit = found ↔
      text = join (.singleton separator) found ∧
        ∀ piece ∈ found.dropLast, separator ∉ piece.toList := by
  have hmapped : (found.map String.toList).length = limit + 1 := by rw [List.length_map, hlength]
  rw [pieces, map_ofList_eq_iff, splitAtMost_eq_iff hmapped, eq_join_iff, ← List.map_dropLast,
    List.forall_mem_map]

/-- A text with something behind its first separator. -/
theorem partition_eq_iff {text word rest : String} {separator : Char} (hrest : rest ≠ "") :
    partition text separator = (word, rest) ↔
      text = join (.singleton separator) [word, rest] ∧ separator ∉ word.toList := by
  have hjoin : text = join (.singleton separator) [word, rest] ↔
      text.toList = word.toList ++ separator :: rest.toList := by
    simp [eq_join_iff, List.intercalate_cons_cons]
  rw [hjoin, ← cut_eq_some_iff, partition]
  cases hcut : cut separator text.toList with
  | none => simp [Ne.symm hrest]
  | some cuts =>
    obtain ⟨before, after⟩ := cuts
    simp [← String.toList_inj]

end EventPolicy.Text
