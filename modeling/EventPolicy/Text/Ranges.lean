/-!
Sets of characters given as ranges of code points. The character properties
of this library are tables of such ranges.
-/

namespace EventPolicy.Text

/-- Whether a code point lies in one of the ranges, both ends included. -/
def inRanges (ranges : List (Nat × Nat)) (code : Nat) : Bool :=
  ranges.any fun range => range.1 ≤ code && code ≤ range.2

/-- A code point is in the ranges exactly when one of them holds it. -/
theorem inRanges_iff {ranges : List (Nat × Nat)} {code : Nat} :
    inRanges ranges code = true ↔ ∃ range ∈ ranges, range.1 ≤ code ∧ code ≤ range.2 := by
  simp [inRanges]

/-- No code point is both in ranges and in others that none of them meets. -/
theorem inRanges_eq_false {ranges others : List (Nat × Nat)} {code : Nat}
    (hapart : ∀ range ∈ ranges, ∀ other ∈ others, range.2 < other.1 ∨ other.2 < range.1)
    (h : inRanges ranges code = true) : inRanges others code = false := by
  rw [Bool.eq_false_iff]
  intro hin
  obtain ⟨range, hrange, hlow, hhigh⟩ := inRanges_iff.mp h
  obtain ⟨other, hother, hstart, hend⟩ := inRanges_iff.mp hin
  have hboth := hapart range hrange other hother
  omega

end EventPolicy.Text
