import EventPolicy.Compiler.Basic

/-!
Runs of one compiler: any sequence of its operations, with changes of the
source between them. A run keeps a history of what each operation met and
answered. The state of the compiler and what it keeps are then facts about that
history, collected in `Consistent`, and hold after every step of every run.
-/

namespace EventPolicy.Compiler

/-- A rebuild keeps what its build made under the next number, or changes nothing
but the number of reads. -/
theorem rebuild_cases (compiler : Compiler) (listing : Listing) :
    (∃ policies, (listing.build compiler.lenient).result = .ok policies ∧
        (compiler.rebuild listing).result = .ok ⟨compiler.reads, policies⟩ ∧
        (compiler.rebuild listing).compiler =
          ⟨compiler.lenient, some ⟨compiler.reads, policies⟩, .built, compiler.reads + 1⟩) ∨
      ∃ error, (listing.build compiler.lenient).result = .error error ∧
        (compiler.rebuild listing).result = .error error ∧
        (compiler.rebuild listing).compiler = { compiler with reads := compiler.reads + 1 } := by
  cases hbuild : (listing.build compiler.lenient).result with
  | ok policies => exact .inl ⟨policies, rfl, by simp [rebuild, hbuild], by simp [rebuild, hbuild]⟩
  | error error => exact .inr ⟨error, rfl, by simp [rebuild, hbuild], by simp [rebuild, hbuild]⟩

/-- A recompilation keeps what its build made under the next number, or keeps nothing. -/
theorem recompile_cases (compiler : Compiler) (listing : Listing) :
    (∃ policies, (listing.build compiler.lenient).result = .ok policies ∧
        (compiler.recompile listing).result = .ok ⟨compiler.reads, policies⟩ ∧
        (compiler.recompile listing).compiler =
          ⟨compiler.lenient, some ⟨compiler.reads, policies⟩, .built, compiler.reads + 1⟩) ∨
      ∃ error, (listing.build compiler.lenient).result = .error error ∧
        (compiler.recompile listing).result = .error error ∧
        (compiler.recompile listing).compiler =
          ⟨compiler.lenient, none, .invalidated, compiler.reads + 1⟩ :=
  rebuild_cases { compiler with cache := none, state := .invalidated } listing

theorem cache_of_rebuild {compiler : Compiler} {listing : Listing} {edition : Edition}
    (h : (compiler.rebuild listing).result = .ok edition) :
    (compiler.rebuild listing).compiler.cache = some edition := by
  rcases rebuild_cases compiler listing with ⟨_, _, hresult, hafter⟩ | ⟨_, _, hresult, _⟩
  · cases hresult.symm.trans h
    rw [hafter]
  · cases hresult.symm.trans h

theorem cache_of_recompile {compiler : Compiler} {listing : Listing} {edition : Edition}
    (h : (compiler.recompile listing).result = .ok edition) :
    (compiler.recompile listing).compiler.cache = some edition :=
  cache_of_rebuild h

theorem cache_of_compile {compiler : Compiler} {listing : Listing} {edition : Edition}
    (h : (compiler.compile listing).result = .ok edition) :
    (compiler.compile listing).compiler.cache = some edition := by
  cases hcache : compiler.cache with
  | none =>
    simp only [compile, hcache] at h ⊢
    exact cache_of_rebuild h
  | some cached =>
    simp only [compile, hcache] at h ⊢
    exact congrArg some (Except.ok.inj h)

theorem compile_of_cached {compiler : Compiler} {edition : Edition}
    (hcache : compiler.cache = some edition) (source : Listing) :
    (compiler.compile source).result = .ok edition ∧
      (compiler.compile source).compiler = compiler := by
  simp [compile, hcache]

theorem reads_compile {compiler : Compiler} (hcache : compiler.cache = none) (source : Listing) :
    (compiler.compile source).compiler.reads = compiler.reads + 1 := by
  simp only [compile, hcache]
  rcases rebuild_cases compiler source with ⟨_, _, _, hafter⟩ | ⟨_, _, _, hafter⟩ <;> rw [hafter]

theorem reads_recompile (compiler : Compiler) (source : Listing) :
    (compiler.recompile source).compiler.reads = compiler.reads + 1 := by
  rcases recompile_cases compiler source with ⟨_, _, _, hafter⟩ | ⟨_, _, _, hafter⟩ <;> rw [hafter]

theorem compile_of_error {compiler : Compiler} {source : Listing} {error : BuildError}
    (herror : (compiler.compile source).result = .error error) :
    (compiler.compile source).compiler.cache = compiler.cache ∧
      (compiler.compile source).compiler.state = compiler.state := by
  cases hcache : compiler.cache with
  | some edition =>
    rw [(compile_of_cached hcache source).1] at herror
    cases herror
  | none =>
    simp only [compile, hcache] at herror ⊢
    rcases rebuild_cases compiler source with ⟨_, _, hresult, _⟩ | ⟨_, _, _, hafter⟩
    · rw [hresult] at herror
      cases herror
    · rw [hafter]
      exact ⟨hcache, rfl⟩

theorem build_of_recompile {compiler : Compiler} {source : Listing} {edition : Edition}
    (hresult : (compiler.recompile source).result = .ok edition) :
    edition.build = compiler.reads := by
  rcases recompile_cases compiler source with ⟨_, _, hbuilt, _⟩ | ⟨_, _, hfailed, _⟩
  · rw [hbuilt] at hresult
    cases hresult
    rfl
  · rw [hfailed] at hresult
    cases hresult

/-- What a recompilation answers was built from what the source offers then. -/
theorem policies_of_recompile {compiler : Compiler} {source : Listing} {edition : Edition}
    (hresult : (compiler.recompile source).result = .ok edition) :
    (source.build compiler.lenient).result = .ok edition.policies := by
  rcases recompile_cases compiler source with ⟨_, hbuild, hbuilt, _⟩ | ⟨_, _, hfailed, _⟩
  · cases hbuilt.symm.trans hresult
    exact hbuild
  · cases hfailed.symm.trans hresult

/-- What is done with a compiler and its source. -/
inductive Operation where
  | compile
  | recompile
  | current
  | change (source : Listing)

/-- What an operation answers: the result of a call, what is kept, or nothing. -/
inductive Answer where
  | result (result : Except BuildError Edition)
  | snapshot (cache : Option Edition)
  | nothing

/-- One operation in the history of a run: what the source offered when it
began, what it answered, and how often it read the keys of the source. -/
structure Entry where
  operation : Operation
  source : Listing
  answer : Answer
  reads : Nat

/-- A compiler, its source, and the operations so far, the last one first. -/
structure Run where
  compiler : Compiler
  source : Listing
  history : List Entry

namespace Entry

def Succeeds (entry : Entry) : Prop := ∃ edition, entry.answer = .result (.ok edition)

/-- No recompilation and no successful compilation. -/
def Quiet (entry : Entry) : Prop :=
  entry.operation ≠ .recompile ∧ ¬ (entry.operation = .compile ∧ entry.Succeeds)

def RecompileFails (entry : Entry) : Prop :=
  entry.operation = .recompile ∧ ∃ error, entry.answer = .result (.error error)

/-- A call that read the keys and answered the edition. -/
def Builds (entry : Entry) (edition : Edition) : Prop :=
  0 < entry.reads ∧ entry.answer = .result (.ok edition)

/-- An operation that answered the edition, as the result of a call or as what
is kept. -/
def Shows (entry : Entry) (edition : Edition) : Prop :=
  entry.answer = .result (.ok edition) ∨ entry.answer = .snapshot (some edition)

end Entry

/-- The latest entry that is not to be skipped is as described. -/
def Latest (skipped described : Entry → Prop) (history : List Entry) : Prop :=
  ∃ later entry earlier, history = later ++ entry :: earlier ∧ described entry ∧
    ∀ other ∈ later, skipped other

theorem latest_cons {skipped described : Entry → Prop} {entry : Entry} {history : List Entry} :
    Latest skipped described (entry :: history) ↔
      described entry ∨ (skipped entry ∧ Latest skipped described history) := by
  constructor
  · rintro ⟨later, found, earlier, hhistory, hfound, hlater⟩
    cases later with
    | nil =>
      obtain ⟨rfl, rfl⟩ := List.cons.inj hhistory
      exact .inl hfound
    | cons first rest =>
      obtain ⟨rfl, rfl⟩ := List.cons.inj hhistory
      obtain ⟨hfirst, hrest⟩ := List.forall_mem_cons.mp hlater
      exact .inr ⟨hfirst, rest, found, earlier, rfl, hfound, hrest⟩
  · rintro (hentry | ⟨hskipped, later, found, earlier, rfl, hfound, hlater⟩)
    · exact ⟨[], entry, history, rfl, hentry, by simp⟩
    · exact ⟨entry :: later, found, earlier, rfl, hfound,
        List.forall_mem_cons.mpr ⟨hskipped, hlater⟩⟩

/-- The last successful build is that of the edition: it was built from what the
source offered then. -/
def LastBuild (lenient : Bool) (edition : Edition) : List Entry → Prop :=
  Latest (fun entry => ∀ other, ¬ entry.Builds other) fun entry =>
    entry.Builds edition ∧ (entry.source.build lenient).result = .ok edition.policies

/-- The editions shown so far are told apart by their numbers, and all numbers
are below `reads`. -/
structure Numbered (reads : Nat) (history : List Entry) : Prop where
  lt : ∀ entry ∈ history, ∀ edition, entry.Shows edition → edition.build < reads
  unique : ∀ entry ∈ history, ∀ other ∈ history, ∀ edition same,
    entry.Shows edition → other.Shows same → edition.build = same.build → edition = same

theorem Numbered.cons_old {reads : Nat} {history : List Entry} (h : Numbered reads history)
    {entry : Entry} {more : Nat} (hreads : reads ≤ more)
    (hentry : ∀ edition, entry.Shows edition → ∃ earlier ∈ history, earlier.Shows edition) :
    Numbered more (entry :: history) := by
  have hshown : ∀ shown ∈ entry :: history, ∀ edition, shown.Shows edition →
      ∃ earlier ∈ history, earlier.Shows edition := by
    intro shown hmember edition hshows
    rcases List.mem_cons.mp hmember with rfl | hmember
    · exact hentry edition hshows
    · exact ⟨shown, hmember, hshows⟩
  constructor
  · intro shown hmember edition hshows
    obtain ⟨earlier, hearlier, hagain⟩ := hshown shown hmember edition hshows
    exact Nat.lt_of_lt_of_le (h.lt earlier hearlier edition hagain) hreads
  · intro shown hmember other hother edition same hshows hsame
    obtain ⟨earlier, hearlier, hagain⟩ := hshown shown hmember edition hshows
    obtain ⟨another, hanother, hsame⟩ := hshown other hother same hsame
    exact h.unique earlier hearlier another hanother edition same hagain hsame

theorem Numbered.cons_new {reads : Nat} {history : List Entry} (h : Numbered reads history)
    {entry : Entry} (policies : PolicySet)
    (hentry : ∀ edition, entry.Shows edition → edition = ⟨reads, policies⟩) :
    Numbered (reads + 1) (entry :: history) := by
  constructor
  · intro shown hmember edition hshows
    rcases List.mem_cons.mp hmember with rfl | hmember
    · rw [hentry edition hshows]
      exact Nat.lt_succ_self reads
    · exact Nat.lt_succ_of_lt (h.lt shown hmember edition hshows)
  · intro shown hmember other hother edition same hshows hsame hnumber
    rcases List.mem_cons.mp hmember with rfl | hold
    · rcases List.mem_cons.mp hother with rfl | hearlier
      · rw [hentry edition hshows, hentry same hsame]
      · have hlt := h.lt other hearlier same hsame
        rw [hentry edition hshows] at hnumber
        simp only at hnumber
        omega
    · have hlt := h.lt shown hold edition hshows
      rcases List.mem_cons.mp hother with rfl | hearlier
      · rw [hentry same hsame] at hnumber
        simp only at hnumber
        omega
      · exact h.unique shown hold other hearlier edition same hshows hsame hnumber

namespace Run

/-- A run that has not begun, over a source whose keys have been read `reads` times. -/
def begin (lenient : Bool) (reads : Nat) (source : Listing) : Run :=
  ⟨fresh lenient reads, source, []⟩

def told (run : Run) (operation : Operation) (report : CompilerReport) : Run :=
  { run with
    compiler := report.compiler
    history := ⟨operation, run.source, .result report.result,
      report.compiler.reads - run.compiler.reads⟩ :: run.history }

def step (run : Run) : Operation → Run
  | .compile => run.told .compile (run.compiler.compile run.source)
  | .recompile => run.told .recompile (run.compiler.recompile run.source)
  | .current => { run with
      history := ⟨.current, run.source, .snapshot run.compiler.cache, 0⟩ :: run.history }
  | .change source => { run with
      source
      history := ⟨.change source, run.source, .nothing, 0⟩ :: run.history }

def perform (run : Run) (operations : List Operation) : Run := operations.foldl step run

/-- What the history of a run says about its compiler. -/
structure Consistent (lenient : Bool) (run : Run) : Prop where
  lenient_eq : run.compiler.lenient = lenient
  isSome_iff : run.compiler.cache.isSome ↔ run.compiler.state = .built
  uninitialized_iff : run.compiler.state = .uninitialized ↔
    ∀ entry ∈ run.history, entry.Quiet
  invalidated_iff : run.compiler.state = .invalidated ↔
    Latest Entry.Quiet Entry.RecompileFails run.history
  lastBuild : ∀ edition, run.compiler.cache = some edition →
    LastBuild lenient edition run.history
  numbered : Numbered run.compiler.reads run.history

theorem Consistent.shown {lenient : Bool} {run : Run} (h : run.Consistent lenient)
    {edition : Edition} (hcache : run.compiler.cache = some edition) :
    ∃ entry ∈ run.history, entry.Shows edition := by
  obtain ⟨later, entry, earlier, hhistory, ⟨⟨_, hanswer⟩, _⟩, _⟩ := h.lastBuild edition hcache
  exact ⟨entry, by simp [hhistory], .inl hanswer⟩

/-- An operation that neither builds, recompiles nor makes a compilation succeed,
and leaves state and cache as they are. -/
theorem Consistent.quiet {lenient : Bool} {run : Run} (h : run.Consistent lenient)
    {entry : Entry} {reads : Nat} (source : Listing) (hreads : run.compiler.reads ≤ reads)
    (hquiet : entry.Quiet) (hbuilds : ∀ edition, ¬ entry.Builds edition)
    (hshows : ∀ edition, entry.Shows edition → run.compiler.cache = some edition) :
    Consistent lenient ⟨{ run.compiler with reads }, source, entry :: run.history⟩ := by
  have hcall : ¬ entry.RecompileFails := fun hfails => hquiet.1 hfails.1
  constructor
  case lenient_eq => exact h.lenient_eq
  case isSome_iff => exact h.isSome_iff
  case uninitialized_iff => simp [h.uninitialized_iff, hquiet]
  case invalidated_iff => simp [h.invalidated_iff, latest_cons, hquiet, hcall]
  case lastBuild =>
    intro edition hcache
    exact latest_cons.mpr (.inr ⟨hbuilds, h.lastBuild edition hcache⟩)
  case numbered =>
    exact h.numbered.cons_old hreads fun edition hedition => h.shown (hshows edition hedition)

/-- A call that answers an edition leaves the compiler built, and neither the
initial state nor an invalidation is visible in the history any more. -/
theorem Consistent.succeeds {lenient : Bool} {compiler : Compiler} {source : Listing}
    {entry : Entry} {history : List Entry} {edition : Edition}
    (hlenient : compiler.lenient = lenient) (hcache : compiler.cache = some edition)
    (hstate : compiler.state = .built)
    (hcall : entry.operation = .compile ∨ entry.operation = .recompile)
    (hanswer : entry.answer = .result (.ok edition))
    (hbuild : LastBuild lenient edition (entry :: history))
    (hnumbered : Numbered compiler.reads (entry :: history)) :
    Consistent lenient ⟨compiler, source, entry :: history⟩ := by
  have hquiet : ¬ entry.Quiet := by
    rintro ⟨hrecompile, hcompile⟩
    rcases hcall with hcall | hcall
    · exact hcompile ⟨hcall, edition, hanswer⟩
    · exact hrecompile hcall
  have hfails : ¬ entry.RecompileFails := by
    rintro ⟨_, error, herror⟩
    rw [hanswer] at herror
    cases herror
  constructor
  case lenient_eq => exact hlenient
  case isSome_iff => simp [hcache, hstate]
  case uninitialized_iff => simp [hstate, hquiet]
  case invalidated_iff => simp [hstate, latest_cons, hquiet, hfails]
  case lastBuild =>
    intro other hother
    cases hcache.symm.trans hother
    exact hbuild
  case numbered => exact hnumbered

theorem Consistent.builds {lenient : Bool} {run : Run} (h : run.Consistent lenient)
    {operation : Operation} (hcall : operation = .compile ∨ operation = .recompile)
    {policies : PolicySet} (hbuild : (run.source.build lenient).result = .ok policies) :
    Consistent lenient
      ⟨⟨lenient, some ⟨run.compiler.reads, policies⟩, .built, run.compiler.reads + 1⟩, run.source,
        ⟨operation, run.source, .result (.ok ⟨run.compiler.reads, policies⟩), 1⟩ ::
          run.history⟩ := by
  refine .succeeds rfl rfl rfl hcall rfl ?_ ?_
  · exact latest_cons.mpr (.inl ⟨⟨Nat.one_pos, rfl⟩, hbuild⟩)
  · refine h.numbered.cons_new policies fun edition hshows => ?_
    simpa [Entry.Shows, eq_comm] using hshows

theorem Consistent.recompileFails {lenient : Bool} {run : Run} (h : run.Consistent lenient)
    {entry : Entry} {error : BuildError} {reads : Nat} (hreads : run.compiler.reads ≤ reads)
    (hcall : entry.operation = .recompile) (hanswer : entry.answer = .result (.error error)) :
    Consistent lenient
      ⟨⟨run.compiler.lenient, none, .invalidated, reads⟩, run.source, entry :: run.history⟩ := by
  have hfails : entry.RecompileFails := ⟨hcall, error, hanswer⟩
  have hquiet : ¬ entry.Quiet := fun hquiet => hquiet.1 hcall
  constructor
  case lenient_eq => exact h.lenient_eq
  case isSome_iff => simp
  case uninitialized_iff => simp [hquiet]
  case invalidated_iff => simp [latest_cons, hfails]
  case lastBuild =>
    intro edition hcache
    cases hcache
  case numbered =>
    refine h.numbered.cons_old hreads ?_
    rintro edition (hshows | hshows) <;> rw [hanswer] at hshows <;> cases hshows

/-- Every operation keeps the run consistent. -/
theorem Consistent.step {lenient : Bool} {run : Run} (h : run.Consistent lenient)
    (operation : Operation) : (run.step operation).Consistent lenient := by
  obtain ⟨compiler, source, history⟩ := run
  obtain rfl : compiler.lenient = lenient := h.lenient_eq
  cases operation with
  | current =>
    refine h.quiet source (Nat.le_refl _) (by simp [Entry.Quiet]) (by simp [Entry.Builds]) ?_
    intro edition hshows
    simpa [Entry.Shows] using hshows
  | change other =>
    exact h.quiet other (Nat.le_refl _) (by simp [Entry.Quiet]) (by simp [Entry.Builds])
      (by simp [Entry.Shows])
  | compile =>
    simp only [Run.step, Compiler.compile]
    cases hcache : compiler.cache with
    | some edition =>
      have hstate : compiler.state = .built := h.isSome_iff.mp (by simp [hcache])
      refine .succeeds rfl hcache hstate (.inl rfl) rfl ?_ ?_
      · exact latest_cons.mpr (.inr ⟨by simp [Entry.Builds], h.lastBuild edition hcache⟩)
      · refine h.numbered.cons_old (Nat.le_refl _) fun other hshows => ?_
        have hother : other = edition := by simpa [Entry.Shows, eq_comm] using hshows
        exact hother ▸ h.shown hcache
    | none =>
      rcases rebuild_cases compiler source with
        ⟨policies, hbuild, hresult, hafter⟩ | ⟨error, hbuild, hresult, hafter⟩
      · simp only [told, hresult, hafter, Nat.add_sub_cancel_left]
        exact h.builds (.inl rfl) hbuild
      · simp only [told, hresult, hafter]
        refine h.quiet source (Nat.le_succ _) ?_ (by simp [Entry.Builds]) (by simp [Entry.Shows])
        simp [Entry.Quiet, Entry.Succeeds]
  | recompile =>
    simp only [Run.step]
    rcases recompile_cases compiler source with
      ⟨policies, hbuild, hresult, hafter⟩ | ⟨error, hbuild, hresult, hafter⟩
    · simp only [told, hresult, hafter, Nat.add_sub_cancel_left]
      exact h.builds (.inr rfl) hbuild
    · simp only [told, hresult, hafter]
      exact h.recompileFails (Nat.le_succ _) rfl rfl

theorem consistent_begin (lenient : Bool) (reads : Nat) (source : Listing) :
    (begin lenient reads source).Consistent lenient := by
  constructor
  case lenient_eq => rfl
  case isSome_iff => simp [begin, fresh]
  case uninitialized_iff => simp [begin, fresh]
  case invalidated_iff => simp [begin, fresh, Latest]
  case lastBuild => simp [begin, fresh]
  case numbered => exact ⟨by simp [begin], by simp [begin]⟩

/-- Every run is consistent after every step. -/
theorem consistent_perform {lenient : Bool} {run : Run} (h : run.Consistent lenient)
    (operations : List Operation) : (run.perform operations).Consistent lenient := by
  induction operations generalizing run with
  | nil => exact h
  | cons operation rest ih => exact ih (h.step operation)

/-- An operation adds one entry to the history, and what it shows is kept after it. -/
theorem history_step (run : Run) (operation : Operation) :
    ∃ entry, (run.step operation).history = entry :: run.history ∧
      ∀ edition, entry.Shows edition → (run.step operation).compiler.cache = some edition := by
  cases operation with
  | compile =>
    refine ⟨_, rfl, fun edition hshows => cache_of_compile ?_⟩
    simpa [Entry.Shows] using hshows
  | recompile =>
    refine ⟨_, rfl, fun edition hshows => cache_of_recompile ?_⟩
    simpa [Entry.Shows] using hshows
  | current =>
    refine ⟨_, rfl, fun edition hshows => ?_⟩
    simpa [Entry.Shows, step] using hshows
  | change source =>
    refine ⟨_, rfl, fun edition hshows => ?_⟩
    simp [Entry.Shows] at hshows

/-- What an edition holds was built from what some source offered. -/
def Built (lenient : Bool) (edition : Edition) : Prop :=
  ∃ listing : Listing, (listing.build lenient).result = .ok edition.policies

theorem Consistent.built {lenient : Bool} {run : Run} (h : run.Consistent lenient)
    {edition : Edition} (hcache : run.compiler.cache = some edition) : Built lenient edition := by
  obtain ⟨_, entry, _, _, ⟨_, hbuild⟩, _⟩ := h.lastBuild edition hcache
  exact ⟨entry.source, hbuild⟩

/-- Every edition that a run shows was built. -/
theorem built_of_shows {lenient : Bool} {run : Run} (h : run.Consistent lenient)
    (hbuilt : ∀ entry ∈ run.history, ∀ edition, entry.Shows edition → Built lenient edition)
    (operations : List Operation) :
    ∀ entry ∈ (run.perform operations).history, ∀ edition, entry.Shows edition →
      Built lenient edition := by
  induction operations generalizing run with
  | nil => exact hbuilt
  | cons operation rest ih =>
    obtain ⟨latest, hhistory, hkept⟩ := run.history_step operation
    refine ih (h.step operation) ?_
    rw [hhistory]
    exact List.forall_mem_cons.mpr
      ⟨fun edition hshows => (h.step operation).built (hkept edition hshows), hbuilt⟩

/-- After every step of every run, state and cache are what the history says, a
compilation answers what is kept or reads the keys once, a compilation that
fails changes nothing, and a recompilation reads the keys once and answers no
edition that was shown before. -/
theorem perform_consistent (lenient : Bool) (reads : Nat) (source : Listing)
    (operations : List Operation) :
    let run := (begin lenient reads source).perform operations
    run.Consistent lenient ∧
      (∀ edition, run.compiler.cache = some edition →
        (run.compiler.compile run.source).result = .ok edition ∧
          (run.compiler.compile run.source).compiler = run.compiler) ∧
      (run.compiler.cache = none →
        (run.compiler.compile run.source).compiler.reads = run.compiler.reads + 1) ∧
      (run.compiler.recompile run.source).compiler.reads = run.compiler.reads + 1 ∧
      (∀ error, (run.compiler.compile run.source).result = .error error →
        (run.compiler.compile run.source).compiler.cache = run.compiler.cache ∧
          (run.compiler.compile run.source).compiler.state = run.compiler.state) ∧
      ∀ edition, (run.compiler.recompile run.source).result = .ok edition →
        ∀ entry ∈ run.history, ∀ earlier, entry.Shows earlier → earlier.build ≠ edition.build := by
  intro run
  have hrun : run.Consistent lenient :=
    consistent_perform (consistent_begin lenient reads source) operations
  refine ⟨hrun, fun edition hcache => compile_of_cached hcache run.source,
    fun hcache => reads_compile hcache run.source, reads_recompile run.compiler run.source,
    fun error => compile_of_error, ?_⟩
  intro edition hresult entry hentry earlier hshows
  have hlt := hrun.numbered.lt entry hentry earlier hshows
  rw [build_of_recompile hresult]
  exact Nat.ne_of_lt hlt

end Run

end EventPolicy.Compiler
