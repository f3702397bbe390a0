import EventPolicy.Proofs.Toml.Draft
import EventPolicy.Toml.Reader
import Mathlib.Data.List.DropRight

/-!
Documents that are lines with a key and a text each. The table of such a
document holds its lines, so its leaves are theirs, arranged table by table.
-/

namespace EventPolicy.Toml

/-- A line from its start, with what it writes and what stands behind it from
its end on: a key and a text, or nothing if it is blank or a comment. -/
inductive Line : List Char → List (KeyPath × String) → List Char → Prop
  | blank {text rest : List Char} (hend : skipComment (skipInline text) = .ok rest) :
    Line text [] rest
  | entry {text start after rest : List Char} {key : KeyPath} {value : String} {fuel : Nat}
    (hkey : readKey (skipInline text) = .ok (key, '=' :: start))
    (hvalue : readValue fuel (skipInline start) = .ok (.string value, after))
    (hend : skipComment (skipInline after) = .ok rest) : Line text [(key, value)] rest

/-- Lines up to the end of the text, with the keys and texts that they write. -/
inductive Lines : List Char → List (KeyPath × String) → Prop
  | last {text : List Char} {written : List (KeyPath × String)} (hline : Line text written []) :
    Lines text written
  | next {text rest : List Char} {written others : List (KeyPath × String)}
    (hline : Line text written ('\n' :: rest)) (hrest : Lines rest others) :
    Lines text (written ++ others)

theorem Lines.cons {text start after rest : List Char} {key : KeyPath} {value : String} {fuel : Nat}
    {others : List (KeyPath × String)} (hkey : readKey (skipInline text) = .ok (key, '=' :: start))
    (hvalue : readValue fuel (skipInline start) = .ok (.string value, after))
    (hend : skipComment (skipInline after) = .ok ('\n' :: rest)) (hrest : Lines rest others) :
    Lines text ((key, value) :: others) :=
  .next (.entry hkey hvalue hend) hrest

theorem Lines.skip {text rest : List Char} {others : List (KeyPath × String)}
    (hend : skipComment (skipInline text) = .ok ('\n' :: rest)) (hrest : Lines rest others) :
    Lines text others :=
  .next (.blank hend) hrest

theorem skipInline_skipInline (text : List Char) : skipInline (skipInline text) = skipInline text :=
  List.dropWhile_idempotent isInlineBlank text

theorem startsKey_of_readKey {text after : List Char} {key : KeyPath}
    (h : readKey text = .ok (key, after)) : ∃ c rest, text = c :: rest ∧ startsKey c = true := by
  cases text with
  | nil => simp [readKey, readKeyParts, readKeyPart, bind, Except.bind] at h
  | cons c rest =>
    refine ⟨c, rest, rfl, ?_⟩
    by_contra hother
    simp only [startsKey, Bool.or_eq_true, decide_eq_true_eq, not_or] at hother
    obtain ⟨⟨hbare, hquote⟩, hliteral⟩ := hother
    simp [readKey, readKeyParts, readKeyPart, hbare, hquote, hliteral, bind, Except.bind] at h

/-- A text is read alike with any fuel. -/
theorem readValue_text {fuel : Nat} {text after : List Char} {value : String}
    (h : readValue fuel text = .ok (.string value, after)) (more : Nat) :
    readValue (more + 1) text = .ok (.string value, after) := by
  cases fuel with
  | zero => simp [readValue] at h
  | succ fuel =>
    cases text with
    | nil => simp [readValue] at h
    | cons c rest =>
      rw [readValue] at h ⊢
      by_cases hquote : c = '"'
      · rwa [if_pos hquote] at h ⊢
      by_cases hliteral : c = '\''
      · rwa [if_neg hquote, if_pos hliteral] at h ⊢
      rw [if_neg hquote, if_neg hliteral] at h ⊢
      by_cases hlist : c = '['
      · rw [if_pos hlist] at h
        cases hfiller : skipFiller (rest.length + 1) rest with
        | error fault => simp [hfiller, bind, Except.bind] at h
        | ok start =>
          simp only [hfiller, bind, Except.bind] at h
          split at h
          · cases h
          · cases hitems : readItems fuel start <;> simp [hitems, pure, Except.pure] at h
      by_cases htable : c = '\x7b'
      · rw [if_neg hlist, if_pos htable] at h
        split at h
        · cases h
        · cases hentries : readInline fuel [] [] (skipInline rest) <;>
            simp [hentries, bind, Except.bind, pure, Except.pure] at h
      · rwa [if_neg hlist, if_neg htable] at h ⊢

/-- A statement that starts like a key is an entry. -/
theorem readEntry_of_readStatement {c : Char} (hc : startsKey c = true) {draft grown : Draft}
    {header inner : KeyPath} {rest after : List Char}
    (h : readStatement draft header (c :: rest) = .ok ((grown, inner), after)) :
    inner = header ∧ readEntry draft header (c :: rest) = .ok (grown, after) := by
  have hbracket : c ≠ '[' := by
    rintro rfl
    exact absurd hc (by decide)
  rw [readStatement, if_pos hc] at h
  · cases hentry : readEntry draft header (c :: rest) with
    | error fault => simp [hentry, bind, Except.bind] at h
    | ok result =>
      simp only [hentry, bind, Except.bind] at h
      cases h
      exact ⟨rfl, rfl⟩
  · exact fun _ hopen _ => hbracket hopen
  · exact hbracket

theorem Draft.Holds.readEntry {lines : List (KeyPath × String)} {draft grown : Draft}
    (h : Draft.Holds draft.root lines) {text start after behind : List Char} {key : KeyPath}
    {value : String} {fuel : Nat} (hkey : readKey text = .ok (key, '=' :: start))
    (hvalue : readValue fuel (skipInline start) = .ok (.string value, after))
    (hread : readEntry draft [] text = .ok (grown, behind)) :
    behind = after ∧ Draft.Holds grown.root (lines ++ [(key, value)]) := by
  simp only [Toml.readEntry, hkey, readValue_text hvalue, bind, Except.bind] at hread
  cases hadded : draft.addEntry [] key (.string value) with
  | none => simp [hadded, require] at hread
  | some added =>
    simp only [hadded, require, pure, Except.pure] at hread
    cases hread
    exact ⟨rfl, h.addEntry hadded⟩

/-- A line is read behind what stands before it: the draft holds what it writes. -/
theorem Line.step {text rest after : List Char} {written lines : List (KeyPath × String)}
    {draft grown : Draft} {header : KeyPath} (hline : Line text written rest)
    (hrest : rest = [] ∨ ∃ more, rest = '\n' :: more) (h : Draft.Holds draft.root lines)
    (hread : readStatement draft [] (skipInline text) = .ok ((grown, header), after)) :
    header = [] ∧ Draft.Holds grown.root (lines ++ written) ∧
      skipComment (skipInline after) = .ok rest := by
  cases hline with
  | blank hend =>
    have hnothing :
        readStatement draft [] (skipInline text) = .ok ((draft, []), skipInline text) := by
      cases hstart : skipInline text with
      | nil => rfl
      | cons c more =>
        rw [hstart, skipComment.eq_def] at hend
        split at hend
        · next hcomment =>
          obtain rfl := (List.cons.inj hcomment).1
          rfl
        · obtain rfl := Except.ok.inj hend
          obtain hrest | ⟨_, hrest⟩ := hrest
          · cases hrest
          · obtain rfl := (List.cons.inj hrest).1
            rfl
    rw [hnothing] at hread
    cases hread
    exact ⟨rfl, by simpa using h, by rwa [skipInline_skipInline]⟩
  | entry hkey hvalue hend =>
    obtain ⟨c, more, htext, hc⟩ := startsKey_of_readKey hkey
    rw [htext] at hread
    obtain ⟨rfl, hentry⟩ := readEntry_of_readStatement hc hread
    rw [← htext] at hentry
    obtain ⟨rfl, hheld⟩ := h.readEntry hkey hvalue hentry
    exact ⟨rfl, hheld, hend⟩

/-- A document that is read starts with a statement, and ends there or goes on in the next line. -/
theorem exists_statement_of_readStatements {fuel : Nat} {draft : Draft} {header : KeyPath}
    {text : List Char} {table : Table}
    (h : readStatements fuel draft header text = .ok table) :
    ∃ grown inner after rest less,
      readStatement draft header (skipInline text) = .ok ((grown, inner), after) ∧
      skipComment (skipInline after) = .ok rest ∧ (rest = [] → grown.root = table) ∧
      ∀ more, rest = '\n' :: more → readStatements less grown inner more = .ok table := by
  cases fuel with
  | zero => cases h
  | succ fuel =>
    rw [readStatements] at h
    cases hstatement : readStatement draft header (skipInline text) with
    | error fault => simp [hstatement, bind, Except.bind] at h
    | ok result =>
      obtain ⟨⟨grown, inner⟩, after⟩ := result
      cases hend : skipComment (skipInline after) with
      | error fault => simp [hstatement, hend, bind, Except.bind] at h
      | ok rest =>
        simp only [hstatement, hend, bind, Except.bind] at h
        refine ⟨grown, inner, after, rest, fuel, rfl, hend, ?_, ?_⟩
        · rintro rfl
          exact Except.ok.inj h
        · rintro more rfl
          exact h

/-- What was held before lines and what they write is held behind them. -/
theorem Lines.run {text : List Char} {lines others : List (KeyPath × String)}
    (hothers : Lines text others) {fuel : Nat} {draft : Draft} {table : Table}
    (h : Draft.Holds draft.root lines) (hread : readStatements fuel draft [] text = .ok table) :
    Draft.Holds table (lines ++ others) := by
  -- What each line adds is held behind what the lines above it added.
  induction hothers generalizing fuel draft lines with
  | last hline =>
    obtain ⟨grown, header, after, rest, less, hstatement, hend, hdone, -⟩ :=
      exists_statement_of_readStatements hread
    obtain ⟨-, hheld, hrest⟩ := hline.step (.inl rfl) h hstatement
    obtain rfl := Except.ok.inj (hend.symm.trans hrest)
    exact hdone rfl ▸ hheld
  | @next _ more written _ hline _ ih =>
    obtain ⟨grown, header, after, rest, less, hstatement, hend, -, hmore⟩ :=
      exists_statement_of_readStatements hread
    obtain ⟨rfl, hheld, hrest⟩ := hline.step (.inr ⟨more, rfl⟩) h hstatement
    obtain rfl := Except.ok.inj (hend.symm.trans hrest)
    rw [← List.append_assoc]
    exact ih hheld (hmore more rfl)

/-- The table of a document of lines holds them. -/
theorem read_holds {document : String} {lines : List (KeyPath × String)} {table : Table}
    (hlines : Lines (unifyLineEnds document.toList) lines) (hread : read document = .ok table) :
    Draft.Holds table lines := by
  have hheld : Draft.Holds table ([] ++ lines) := hlines.run Draft.holds_nil hread
  exact hheld

end EventPolicy.Toml
