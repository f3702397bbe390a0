import EventPolicy.Compiler.Callers

/-!
What every interleaving of callers keeps. `Move` lists the atomic steps of a
caller, and `step_cases` says that a schedule makes no others. The invariant
`Sound` ties the lock to the phases of the callers and says for each phase
inside the lock what is then kept and in which state the compiler is. Each move
keeps it, so every run does. A second invariant, `Since`, follows an edition
that a call has returned: whatever is kept or being built later is that edition
or has a higher number, and numbers are given in the order in which builds
begin.
-/

namespace EventPolicy.Callers

/-- The phases between taking the lock and giving it back. -/
def Phase.inside : Phase → Bool
  | .locked | .dropped | .starting | .building _ | .storing _ | .marking | .leaving _ => true
  | .ready | .waiting | .done _ => false

/-- The number of the build that a caller is at, until its edition is kept. -/
def Phase.making? : Phase → Option Nat
  | .building number => some number
  | .storing edition => some edition.build
  | _ => none

namespace System

/-- The atomic steps of a caller with a call and a phase: what becomes of the
shared parts of the system, and the next phase of the caller. -/
inductive Move (report : Nat → BuildReport) (system : System) (who : Nat) :
    Call → Phase → System → Phase → Prop
  | hit {edition : Edition} (hcache : system.cache = some edition) :
      Move report system who .compile .ready system (.done (.ok (some edition)))
  | miss (hcache : system.cache = none) : Move report system who .compile .ready system .waiting
  | enter : Move report system who .recompile .ready system .waiting
  | acquire {call : Call} (hfree : system.holder = none) :
      Move report system who call .waiting { system with holder := some who } .locked
  | present (hcache : system.cache.isSome) :
      Move report system who .compile .locked system (.leaving none)
  | absent (hcache : system.cache = none) :
      Move report system who .compile .locked system .starting
  | drop : Move report system who .recompile .locked { system with cache := none } .dropped
  | invalidate {call : Call} :
      Move report system who call .dropped
        { system with
          state := .invalidated, notices := system.notices ++ [.policySetInvalidated] }
        .starting
  | begin {call : Call} :
      Move report system who call .starting { system with builds := system.builds + 1 }
        (.building system.builds)
  | build {call : Call} {number : Nat} {policies : PolicySet}
      (hresult : (report number).result = .ok policies) :
      Move report system who call (.building number)
        { system with notices := system.notices ++ (report number).notices }
        (.storing ⟨number, policies⟩)
  | fail {call : Call} {number : Nat} {error : BuildError}
      (hresult : (report number).result = .error error) :
      Move report system who call (.building number)
        { system with notices := system.notices ++ (report number).notices }
        (.leaving (some error))
  | store {call : Call} {edition : Edition} :
      Move report system who call (.storing edition) { system with cache := some edition }
        .marking
  | mark {call : Call} :
      Move report system who call .marking { system with state := .built } (.leaving none)
  | leave {call : Call} :
      Move report system who call (.leaving none) { system with holder := none }
        (.done (.ok system.cache))
  | raise {call : Call} {error : BuildError} :
      Move report system who call (.leaving (some error)) { system with holder := none }
        (.done (.error error))

/-- A caller that does nothing: its call has ended, or it waits for a lock that is held. -/
def Rests (system : System) (who : Nat) : Prop :=
  ∀ caller, system.callers[who]? = some caller →
    (∃ result, caller.phase = .done result) ∨ caller.phase = .waiting ∧ system.holder ≠ none

/-- A step makes one of the moves of its caller, and nothing else but for a caller that rests. -/
theorem rests_or_moves (report : Nat → BuildReport) (system : System) (who : Nat) :
    system.Rests who ∧ system.step report who = system ∨
      ∃ caller shared phase, system.callers[who]? = some caller ∧
        Move report system who caller.call caller.phase shared phase ∧
        system.step report who = shared.move who caller phase := by
  cases hcaller : system.callers[who]? with
  | none => exact .inl ⟨by simp [Rests, hcaller], by simp [step, hcaller]⟩
  | some caller =>
    obtain ⟨call, phase⟩ := caller
    -- The cases are those of `advance`: the phase, then what the step looks at.
    have hstep : system.step report who = system.advance report who ⟨call, phase⟩ := by
      simp [step, hcaller]
    rw [hstep]
    have hrests (h : (∃ result, phase = .done result) ∨ phase = .waiting ∧ system.holder ≠ none) :
        system.Rests who := by
      intro found hfound
      cases hcaller.symm.trans hfound
      exact h
    have hmove {shared : System} {next : Phase} (h : Move report system who call phase shared next)
        (heq : system.advance report who ⟨call, phase⟩ = shared.move who ⟨call, phase⟩ next) :
        ∃ caller shared phase', some (Caller.mk call phase) = some caller ∧
          Move report system who caller.call caller.phase shared phase' ∧
          system.advance report who ⟨call, phase⟩ = shared.move who caller phase' :=
      ⟨_, shared, next, rfl, h, heq⟩
    cases phase with
    | ready =>
      right
      cases call with
      | compile =>
        cases hcache : system.cache with
        | some edition => exact hmove (.hit hcache) (by simp [advance, hcache])
        | none => exact hmove (.miss hcache) (by simp [advance, hcache])
      | recompile => exact hmove .enter (by simp [advance])
    | waiting =>
      cases hholder : system.holder with
      | some other =>
        exact .inl ⟨hrests (.inr ⟨rfl, by simp [hholder]⟩),
          by cases call <;> simp [advance, hholder]⟩
      | none =>
        exact .inr (hmove (.acquire hholder) (by cases call <;> simp [advance, hholder, move]))
    | locked =>
      right
      cases call with
      | compile =>
        cases hcache : system.cache with
        | some edition => exact hmove (.present (by simp [hcache])) (by simp [advance, hcache])
        | none => exact hmove (.absent hcache) (by simp [advance, hcache])
      | recompile => exact hmove .drop (by simp [advance, move])
    | dropped => exact .inr (hmove .invalidate (by cases call <;> simp [advance, move]))
    | starting => exact .inr (hmove .begin (by cases call <;> simp [advance, advanceBuild, move]))
    | building number =>
      right
      cases hresult : (report number).result with
      | ok policies =>
        exact hmove (.build hresult)
          (by cases call <;> simp [advance, advanceBuild, hresult, move])
      | error error =>
        exact hmove (.fail hresult)
          (by cases call <;> simp [advance, advanceBuild, hresult, move])
    | storing edition =>
      exact .inr (hmove .store (by cases call <;> simp [advance, advanceBuild, move]))
    | marking => exact .inr (hmove .mark (by cases call <;> simp [advance, advanceBuild, move]))
    | leaving failure =>
      right
      cases failure with
      | none => exact hmove .leave (by cases call <;> simp [advance, advanceBuild, move])
      | some error => exact hmove .raise (by cases call <;> simp [advance, advanceBuild, move])
    | done result =>
      exact .inl ⟨hrests (.inl ⟨result, rfl⟩), by cases call <;> simp [advance, advanceBuild]⟩

/-- A step changes nothing or makes one of the moves of its caller. -/
theorem step_cases (report : Nat → BuildReport) (system : System) (who : Nat) :
    system.step report who = system ∨
      ∃ caller shared phase, system.callers[who]? = some caller ∧
        Move report system who caller.call caller.phase shared phase ∧
        system.step report who = shared.move who caller phase :=
  (rests_or_moves report system who).imp_left And.right

variable {report : Nat → BuildReport} {system shared : System} {who : Nat} {call : Call}
  {caller : Caller} {old phase : Phase}

theorem Move.callers_eq (h : Move report system who call old shared phase) :
    shared.callers = system.callers := by
  cases h <;> rfl

theorem getElem?_move (hcaller : system.callers[who]? = some caller)
    (hmove : Move report system who caller.call caller.phase shared phase) (other : Nat) :
    (shared.move who caller phase).callers[other]? =
      if other = who then some { caller with phase } else system.callers[other]? := by
  have hlt : who < system.callers.length := (List.getElem?_eq_some_iff.mp hcaller).1
  by_cases hother : other = who
  · subst hother
    simp [move, hmove.callers_eq, hlt]
  · have hapart : who ≠ other := fun hsame => hother hsame.symm
    simp [move, hmove.callers_eq, hother, hapart]

theorem caller_of_move (hcaller : system.callers[who]? = some caller)
    (hmove : Move report system who caller.call caller.phase shared phase) {other : Nat}
    {another : Caller} (hanother : (shared.move who caller phase).callers[other]? = some another) :
    (other = who ∧ another = { caller with phase }) ∨
      (other ≠ who ∧ system.callers[other]? = some another) := by
  rw [getElem?_move hcaller hmove] at hanother
  split at hanother
  next hsame =>
    cases hanother
    exact .inl ⟨hsame, rfl⟩
  next hother => exact .inr ⟨hother, hanother⟩

/-- What every move keeps, every run keeps. -/
theorem run_keeps (report : Nat → BuildReport) {P : System → Prop}
    (hkeeps : ∀ {system shared : System} {who : Nat} {caller : Caller} {phase : Phase},
      P system → system.callers[who]? = some caller →
        Move report system who caller.call caller.phase shared phase →
        P (shared.move who caller phase))
    (h : P system) (schedule : List Nat) : P (system.run report schedule) := by
  induction schedule generalizing system with
  | nil => exact h
  | cons who rest ih =>
    refine ih ?_
    rcases step_cases report system who with hsame | ⟨caller, shared, phase, hcaller, hmove, hstep⟩
    · rwa [hsame]
    · rw [hstep]
      exact hkeeps h hcaller hmove

/-- A move keeps inside or outside the lock, takes it while it is free, or gives
it back as the call ends. -/
theorem Move.lock (h : Move report system who call old shared phase) :
    (phase.inside = old.inside ∧ shared.holder = system.holder) ∨
      (old.inside = false ∧ phase.inside = true ∧ system.holder = none ∧
        shared.holder = some who) ∨
      (old.inside = true ∧ (∃ result, phase = .done result) ∧ shared.holder = none) := by
  cases h with
  | acquire hfree => exact .inr (.inl ⟨rfl, rfl, hfree, rfl⟩)
  | leave | raise => exact .inr (.inr ⟨rfl, ⟨_, rfl⟩, rfl⟩)
  | _ => exact .inl ⟨rfl, rfl⟩

/-- Outside the lock a move changes nothing that is shared but the lock. -/
theorem Move.shared_of_outside (h : Move report system who call old shared phase)
    (houtside : old.inside = false) :
    shared.cache = system.cache ∧ shared.state = system.state ∧ shared.builds = system.builds := by
  cases h with
  | hit | miss | enter | acquire => exact ⟨rfl, rfl, rfl⟩
  | _ => cases houtside

/-- What is kept, and the state, while the caller inside the lock is in a phase.
The number of a build that has begun is below the number of builds. -/
def Held (system : System) : Phase → Prop
  | .locked => system.cache.isSome ↔ system.state = .built
  | .dropped => system.cache = none
  | .starting => system.cache = none ∧ system.state ≠ .built
  | .building number =>
    system.cache = none ∧ system.state ≠ .built ∧ number < system.builds
  | .storing edition =>
    system.cache = none ∧ system.state ≠ .built ∧ edition.build < system.builds
  | .marking => system.cache.isSome
  | .leaving none => system.cache.isSome ∧ system.state = .built
  | .leaving (some _) => system.cache = none ∧ system.state ≠ .built
  | .ready | .waiting | .done _ => True

theorem held_of_outside (h : phase.inside = false) : system.Held phase := by
  cases phase with
  | ready | waiting | done => trivial
  | _ => cases h

theorem Held.cache_eq_none {number : Nat} (h : system.Held phase)
    (hmaking : phase.making? = some number) : system.cache = none ∧ number < system.builds := by
  cases phase with
  | building other =>
    cases hmaking
    exact ⟨h.1, h.2.2⟩
  | storing edition =>
    cases hmaking
    exact ⟨h.1, h.2.2⟩
  | _ => cases hmaking

theorem Held.congr (h : system.Held phase) (hcache : shared.cache = system.cache)
    (hstate : shared.state = system.state) (hbuilds : shared.builds = system.builds) :
    shared.Held phase := by
  cases phase with
  | leaving failure =>
    cases failure <;> simpa only [Held, hcache, hstate] using h
  | ready | waiting | done => trivial
  | _ => simpa only [Held, hcache, hstate, hbuilds] using h

/-- A move leaves its caller where its new phase says. -/
theorem Move.held (h : Move report system who call old shared phase) (hheld : system.Held old)
    (hfree : system.holder = none → (system.cache.isSome ↔ system.state = .built)) :
    shared.Held phase := by
  cases h with
  | hit | miss | enter | leave | raise => exact held_of_outside rfl
  | acquire hholder => exact hfree hholder
  | present hcache => exact ⟨hcache, hheld.mp hcache⟩
  | absent hcache =>
    refine ⟨hcache, fun hstate => ?_⟩
    have hsome := hheld.mpr hstate
    simp [hcache] at hsome
  | drop => rfl
  | invalidate => exact ⟨hheld, by simp⟩
  | begin => exact ⟨hheld.1, hheld.2, Nat.lt_succ_self _⟩
  | build => exact hheld
  | fail => exact ⟨hheld.1, hheld.2.1⟩
  | store => rfl
  | mark => exact ⟨hheld, rfl⟩

theorem Move.builds_le (h : Move report system who call old shared phase) :
    system.builds ≤ shared.builds := by
  cases h with
  | begin => exact Nat.le_succ _
  | _ => exact Nat.le_refl _

/-- What is kept after a move was kept before it or has just been made. -/
theorem Move.cached (h : Move report system who call old shared phase) {edition : Edition}
    (hcache : shared.cache = some edition) :
    system.cache = some edition ∨ old = .storing edition := by
  cases h with
  | store =>
    cases hcache
    exact .inr rfl
  | drop => cases hcache
  | _ => exact .inl hcache

/-- A caller that makes an edition after a move made it before, or takes the next number. -/
theorem Move.making (h : Move report system who call old shared phase) {number : Nat}
    (hmaking : phase.making? = some number) :
    old.making? = some number ∨ number = system.builds := by
  cases h with
  | begin =>
    cases hmaking
    exact .inr rfl
  | build =>
    cases hmaking
    exact .inl rfl
  | _ => cases hmaking

theorem Move.answered (h : Move report system who call old shared phase) (hheld : system.Held old)
    {answer : Option Edition} (hdone : phase = .done (.ok answer)) :
    ∃ edition, answer = some edition ∧ system.cache = some edition := by
  cases h with
  | hit hcache =>
    cases hdone
    exact ⟨_, rfl, hcache⟩
  | leave =>
    cases hdone
    obtain ⟨edition, hcache⟩ := Option.isSome_iff_exists.mp hheld.1
    exact ⟨edition, hcache, hcache⟩
  | _ => cases hdone

theorem Move.freed (h : Move report system who call old shared phase) (hheld : system.Held old)
    (hinside : old.inside = true) {result : Except BuildError (Option Edition)}
    (hdone : phase = .done result) : shared.cache.isSome ↔ shared.state = .built := by
  cases h with
  | leave | raise =>
    obtain ⟨hcache, hstate⟩ := hheld
    simp [hcache, hstate]
  | hit => cases hinside
  | _ => cases hdone

/-- What is kept or being made after an edition was returned is that edition or
one whose build began later. -/
structure Since (edition : Edition) (system : System) : Prop where
  begun : edition.build < system.builds
  cached : ∀ other, system.cache = some other → other = edition ∨ edition.build < other.build
  making : ∀ (who : Nat) (caller : Caller) (number : Nat), system.callers[who]? = some caller →
    caller.phase.making? = some number → edition.build < number

/-- The invariant of callers and their compiler. -/
structure Sound (system : System) : Prop where
  holder_iff : ∀ who : Nat, system.holder = some who ↔
    ∃ caller, system.callers[who]? = some caller ∧ caller.phase.inside = true
  free : system.holder = none → (system.cache.isSome ↔ system.state = .built)
  held : ∀ (who : Nat) (caller : Caller), system.callers[who]? = some caller →
    system.Held caller.phase
  cached_lt : ∀ edition, system.cache = some edition → edition.build < system.builds
  returned : ∀ (who : Nat) (caller : Caller) (answer : Option Edition),
    system.callers[who]? = some caller → caller.phase = .done (.ok answer) →
      ∃ edition, answer = some edition ∧ Since edition system

/-- While something is kept, it is the latest edition. -/
theorem Sound.since_cached (h : system.Sound) {edition : Edition}
    (hcache : system.cache = some edition) : Since edition system := by
  constructor
  case begun => exact h.cached_lt edition hcache
  case cached =>
    intro other hother
    exact .inl (Option.some.inj (hother.symm.trans hcache))
  case making =>
    intro who caller number hcaller hmaking
    have hnone := ((h.held who caller hcaller).cache_eq_none hmaking).1
    rw [hcache] at hnone
    cases hnone

theorem Sound.inside_unique (h : system.Sound) {other : Nat} {another : Caller}
    (hcaller : system.callers[who]? = some caller)
    (hanother : system.callers[other]? = some another) (hinside : caller.phase.inside = true)
    (hagain : another.phase.inside = true) : who = other := by
  have hholder := (h.holder_iff who).mpr ⟨caller, hcaller, hinside⟩
  have hsame := (h.holder_iff other).mpr ⟨another, hanother, hagain⟩
  exact Option.some.inj (hholder.symm.trans hsame)

/-- To a caller inside the lock, a move of another changes nothing that is shared. -/
theorem Sound.unseen (h : system.Sound) (hcaller : system.callers[who]? = some caller)
    (hmove : Move report system who caller.call caller.phase shared phase) {other : Nat}
    {another : Caller} (hanother : system.callers[other]? = some another) (hother : other ≠ who)
    (hinside : another.phase.inside = true) :
    shared.cache = system.cache ∧ shared.state = system.state ∧ shared.builds = system.builds := by
  apply hmove.shared_of_outside
  cases houtside : caller.phase.inside with
  | false => rfl
  | true => exact absurd (h.inside_unique hanother hcaller hinside houtside) hother

/-- When the lock is free after a move, it was free and nothing else has changed,
or the caller has just given it back. -/
theorem Sound.freed_cases (h : system.Sound) (hcaller : system.callers[who]? = some caller)
    (hmove : Move report system who caller.call caller.phase shared phase)
    (hfree : shared.holder = none) :
    (system.holder = none ∧ shared.cache = system.cache ∧ shared.state = system.state ∧
        shared.builds = system.builds) ∨
      (caller.phase.inside = true ∧ ∃ result, phase = .done result) := by
  rcases hmove.lock with ⟨_, hsame⟩ | ⟨_, _, _, htaken⟩ | ⟨hinside, hdone, _⟩
  · left
    have hholder : system.holder = none := hsame.symm.trans hfree
    have houtside : caller.phase.inside = false := by
      refine Bool.eq_false_iff.mpr fun hinside => ?_
      have hsome := (h.holder_iff who).mpr ⟨caller, hcaller, hinside⟩
      rw [hholder] at hsome
      cases hsome
    exact ⟨hholder, hmove.shared_of_outside houtside⟩
  · rw [hfree] at htaken
    cases htaken
  · exact .inr ⟨hinside, hdone⟩

/-- A returned edition stays the latest or older than what is kept or made. -/
theorem Since.move {edition : Edition} (h : Since edition system)
    (hcaller : system.callers[who]? = some caller)
    (hmove : Move report system who caller.call caller.phase shared phase) :
    Since edition (shared.move who caller phase) := by
  constructor
  case begun => exact Nat.lt_of_lt_of_le h.begun hmove.builds_le
  case cached =>
    intro other hother
    rcases hmove.cached hother with hkept | hstoring
    · exact h.cached other hkept
    · exact .inr (h.making who caller other.build hcaller (by rw [hstoring]; rfl))
  case making =>
    intro other another number hanother hmaking
    rcases caller_of_move hcaller hmove hanother with ⟨_, rfl⟩ | ⟨_, hbefore⟩
    · rcases hmove.making hmaking with hbefore | rfl
      · exact h.making who caller number hcaller hbefore
      · exact h.begun
    · exact h.making other another number hbefore hmaking

/-- After a move the lock is held by the caller inside it, if there is one. -/
theorem Sound.holder_move (h : system.Sound) (hcaller : system.callers[who]? = some caller)
    (hmove : Move report system who caller.call caller.phase shared phase) (other : Nat) :
    shared.holder = some other ↔ ∃ another,
      (shared.move who caller phase).callers[other]? = some another ∧
        another.phase.inside = true := by
  have hmover : caller.phase.inside = true ↔ system.holder = some who := by
    rw [h.holder_iff who, hcaller]
    simp
  rw [getElem?_move hcaller hmove]
  by_cases hother : other = who
  · subst hother
    suffices hinside : shared.holder = some other ↔ phase.inside = true by simpa using hinside
    rcases hmove.lock with ⟨hinside, hholder⟩ | ⟨_, hnew, _, htaken⟩ | ⟨_, ⟨_, rfl⟩, hgiven⟩
    · rw [hinside, hholder, hmover]
    · simp [hnew, htaken]
    · simp [Phase.inside, hgiven]
  · have hapart : who ≠ other := fun hsame => hother hsame.symm
    rw [if_neg hother, ← h.holder_iff other]
    rcases hmove.lock with ⟨_, hholder⟩ | ⟨_, _, hfree, htaken⟩ | ⟨hold, _, hgiven⟩
    · rw [hholder]
    · simp [hfree, htaken, hapart]
    · simp [hmover.mp hold, hgiven, hapart]

/-- A move keeps the invariant. -/
theorem Sound.move (h : system.Sound) (hcaller : system.callers[who]? = some caller)
    (hmove : Move report system who caller.call caller.phase shared phase) :
    (shared.move who caller phase).Sound := by
  have hheld := h.held who caller hcaller
  constructor
  case holder_iff => exact h.holder_move hcaller hmove
  case free =>
    intro hholder
    rcases h.freed_cases hcaller hmove hholder with
      ⟨hbefore, hcache, hstate, _⟩ | ⟨hinside, _, hdone⟩
    · have hfree := h.free hbefore
      simpa only [System.move, hcache, hstate] using hfree
    · exact hmove.freed hheld hinside hdone
  case held =>
    intro other another hanother
    rcases caller_of_move hcaller hmove hanother with ⟨_, rfl⟩ | ⟨hother, hbefore⟩
    · exact (hmove.held hheld h.free).congr rfl rfl rfl
    -- Another caller inside the lock has seen this one change nothing.
    · cases hinside : another.phase.inside with
      | false => exact held_of_outside hinside
      | true =>
        obtain ⟨hcache, hstate, hbuilds⟩ := h.unseen hcaller hmove hbefore hother hinside
        exact (h.held other another hbefore).congr hcache hstate hbuilds
  case cached_lt =>
    intro edition hcache
    apply Nat.lt_of_lt_of_le _ hmove.builds_le
    rcases hmove.cached hcache with hkept | hstoring
    · exact h.cached_lt edition hkept
    · exact (hheld.cache_eq_none (by rw [hstoring]; rfl)).2
  case returned =>
    intro other another answer hanother hdone
    rcases caller_of_move hcaller hmove hanother with ⟨_, rfl⟩ | ⟨_, hbefore⟩
    · obtain ⟨edition, hanswer, hcache⟩ := hmove.answered hheld hdone
      exact ⟨edition, hanswer, (h.since_cached hcache).move hcaller hmove⟩
    · obtain ⟨edition, hanswer, hsince⟩ := h.returned other another answer hbefore hdone
      exact ⟨edition, hanswer, hsince.move hcaller hmove⟩

theorem Sound.run (h : system.Sound) (report : Nat → BuildReport) (schedule : List Nat) :
    (system.run report schedule).Sound :=
  run_keeps report Sound.move h schedule

/-- What a caller has been answered, if anything, is the edition or one whose
build began later. -/
def Follows (edition : Edition) (system : System) (who : Nat) : Prop :=
  ∀ caller other, system.callers[who]? = some caller → caller.phase = .done (.ok (some other)) →
    other = edition ∨ edition.build < other.build

theorem Follows.move {edition : Edition} {later : Nat} (h : Follows edition system later)
    (hsound : system.Sound) (hsince : Since edition system)
    (hcaller : system.callers[who]? = some caller)
    (hmove : Move report system who caller.call caller.phase shared phase) :
    Follows edition (shared.move who caller phase) later := by
  intro another other hanother hdone
  rcases caller_of_move hcaller hmove hanother with ⟨_, rfl⟩ | ⟨_, hbefore⟩
  · obtain ⟨found, hanswer, hcache⟩ := hmove.answered (hsound.held who caller hcaller) hdone
    cases hanswer
    exact hsince.cached other hcache
  · exact h another other hbefore hdone

/-- A call that begins after an edition was returned answers it or a later one. -/
theorem Follows.run {edition : Edition} {later : Nat} (h : Follows edition system later)
    (hsound : system.Sound) (hsince : Since edition system) (report : Nat → BuildReport)
    (schedule : List Nat) : Follows edition (system.run report schedule) later := by
  have hend := run_keeps report
    (P := fun reached => reached.Sound ∧ Since edition reached ∧ Follows edition reached later)
    (fun ⟨hsound, hsince, h⟩ hcaller hmove => ⟨hsound.move hcaller hmove,
      hsince.move hcaller hmove, h.move hsound hsince hcaller hmove⟩)
    ⟨hsound, hsince, h⟩ schedule
  exact hend.2.2

end System

theorem getElem?_start {compiler : Compiler} {calls : List Call} {who : Nat} {caller : Caller}
    (hcaller : (start compiler calls).callers[who]? = some caller) :
    caller.phase = .ready ∧ caller.call ∈ calls := by
  simp only [start, List.getElem?_map, Option.map_eq_some_iff] at hcaller
  obtain ⟨call, hcall, rfl⟩ := hcaller
  exact ⟨rfl, List.mem_of_getElem? hcall⟩

/-- Callers that have not begun are sound over a compiler that keeps an edition
exactly when it is built, one of its earlier builds. -/
theorem sound_start {compiler : Compiler}
    (hstate : compiler.cache.isSome ↔ compiler.state = .built)
    (hnumber : ∀ edition, compiler.cache = some edition → edition.build < compiler.reads)
    (calls : List Call) : (start compiler calls).Sound := by
  constructor
  case holder_iff =>
    intro who
    constructor
    · intro hholder
      cases hholder
    · rintro ⟨caller, hcaller, hinside⟩
      rw [(getElem?_start hcaller).1] at hinside
      cases hinside
  case free => exact fun _ => hstate
  case held =>
    intro who caller hcaller
    rw [(getElem?_start hcaller).1]
    trivial
  case cached_lt => exact hnumber
  case returned =>
    intro who caller answer hcaller hdone
    rw [(getElem?_start hcaller).1] at hdone
    cases hdone

end EventPolicy.Callers
