import EventPolicy.Proofs.Compiler.Completion
import EventPolicy.Proofs.Compiler.Runs

/-!
Callers that only compile, while nothing is kept and the source stays as it is.
If its build succeeds, the first caller at the lock builds and the others join
it; if it fails, every caller builds for itself. Both are invariants of a move,
`Joined` and `Raised`. The last theorem puts them together with what every
interleaving keeps.
-/

namespace EventPolicy.Callers

/-- A phase in which the caller has begun a build of its own, or joined one. -/
def Phase.begun : Phase → Bool
  | .building _ | .storing _ | .marking | .leaving _ | .done _ => true
  | .ready | .waiting | .locked | .dropped | .starting => false

/-- How callers stand that all meet the error. -/
def Phase.Raises (error : BuildError) : Phase → Prop
  | .leaving (some other) | .done (.error other) => other = error
  | .dropped | .storing _ | .marking | .leaving none | .done (.ok _) => False
  | .ready | .waiting | .locked | .starting | .building _ => True

namespace System

def Building (system : System) (who : Nat) : Prop :=
  ∃ call number, system.callers[who]? = some ⟨call, .building number⟩

/-- The next step of the caller begins a build. -/
def beginsBuild (system : System) (who : Nat) : Bool :=
  match system.callers[who]? with
  | some ⟨_, .starting⟩ => true
  | _ => false

/-- How many builds a caller has begun that ends its call with its first. -/
def begun (system : System) (who : Nat) : Nat :=
  match system.callers[who]? with
  | some caller => caller.phase.begun.toNat
  | none => 0

/-- The callers that begin a build in a run, in the order in which they do. -/
def builders (report : Nat → BuildReport) (system : System) : List Nat → List Nat
  | [] => []
  | who :: rest =>
    (if system.beginsBuild who then [who] else []) ++
      builders report (system.step report who) rest

theorem beginsBuild_eq_true {system : System} {who : Nat} :
    system.beginsBuild who = true ↔
      ∃ caller, system.callers[who]? = some caller ∧ caller.phase = .starting := by
  unfold beginsBuild
  split
  next call hcaller => simp [hcaller]
  next hother =>
    constructor
    · intro hfalse
      cases hfalse
    · rintro ⟨caller, hcaller, hphase⟩
      exact absurd (hcaller.trans (by rw [← hphase])) (hother caller.call)

theorem step_of_starting (report : Nat → BuildReport) {system : System} {who : Nat}
    {caller : Caller} (hcaller : system.callers[who]? = some caller)
    (hphase : caller.phase = .starting) :
    system.step report who =
      { system.move who caller (.building system.builds) with builds := system.builds + 1 } := by
  simp [step, hcaller, advance, advanceBuild, hphase]

theorem builds_step (report : Nat → BuildReport) (system : System) (who : Nat) :
    (system.step report who).builds =
      system.builds + (if system.beginsBuild who then 1 else 0) := by
  cases hbegins : system.beginsBuild who with
  | true =>
    obtain ⟨caller, hcaller, hphase⟩ := beginsBuild_eq_true.mp hbegins
    rw [step_of_starting report hcaller hphase]
    rfl
  | false =>
    rcases step_cases report system who with hsame | ⟨caller, shared, phase, hcaller, hmove, hstep⟩
    · simp [hsame]
    · rw [hstep]
      obtain ⟨call, old⟩ := caller
      cases hmove with
      | begin =>
        rw [beginsBuild_eq_true.mpr ⟨_, hcaller, rfl⟩] at hbegins
        cases hbegins
      | _ => rfl

/-- The number of builds counts those that begin one. -/
theorem builds_run (report : Nat → BuildReport) (system : System) (schedule : List Nat) :
    (system.run report schedule).builds =
      system.builds + (system.builders report schedule).length := by
  induction schedule generalizing system with
  | nil => rfl
  | cons who rest ih =>
    have hrest := ih (system.step report who)
    rw [builds_step] at hrest
    simp only [run, List.foldl_cons, builders, List.length_append] at hrest ⊢
    rw [hrest, Nat.add_assoc]
    split <;> rfl

/-- How callers that join one build stand while it makes the edition. -/
def Joins (edition : Edition) (system : System) : Phase → Prop
  | .locked => system.cache = none → system.builds = edition.build
  | .starting => system.builds = edition.build
  | .building number => number = edition.build ∧ system.builds = edition.build + 1
  | .storing other => other = edition ∧ system.builds = edition.build + 1
  | .done (.ok answer) => answer = some edition ∧ system.cache = some edition
  | .dropped | .leaving (some _) | .done (.error _) => False
  | .ready | .waiting | .marking | .leaving none => True

/-- Callers that join the build of one edition. -/
structure Joined (edition : Edition) (system : System) : Prop where
  compiles : ∀ (who : Nat) (caller : Caller), system.callers[who]? = some caller →
    caller.call = .compile
  free : system.holder = none → system.cache = none → system.builds = edition.build
  cached : ∀ other, system.cache = some other →
    other = edition ∧ system.builds = edition.build + 1
  joins : ∀ (who : Nat) (caller : Caller), system.callers[who]? = some caller →
    Joins edition system caller.phase

/-- Callers that all meet the error and change nothing. -/
structure Raised (error : BuildError) (state : CacheState) (system : System) : Prop where
  cache_eq : system.cache = none
  state_eq : system.state = state
  raises : ∀ (who : Nat) (caller : Caller), system.callers[who]? = some caller →
    caller.call = .compile ∧ caller.phase.Raises error

variable {report : Nat → BuildReport} {system shared : System} {who : Nat} {caller : Caller}
  {phase : Phase}

theorem Joins.congr {edition : Edition} (h : system.Joins edition phase)
    (hcache : shared.cache = system.cache) (hbuilds : shared.builds = system.builds) :
    shared.Joins edition phase := by
  cases phase with
  | leaving failure => cases failure <;> exact h
  | done result =>
    cases result with
    | ok answer => simpa only [Joins, hcache] using h
    | error error => exact h
  | ready | waiting | dropped | marking => exact h
  | _ => simpa only [Joins, hcache, hbuilds] using h

theorem Joins.outside {edition : Edition} (h : system.Joins edition phase)
    (houtside : phase.inside = false)
    (hkeeps : system.cache = some edition → shared.cache = some edition) :
    shared.Joins edition phase := by
  cases phase with
  | ready | waiting => trivial
  | done result =>
    cases result with
    | ok answer => exact ⟨h.1, hkeeps h.2⟩
    | error error => exact h.elim
  | _ => cases houtside

/-- A move leaves its caller joined, with no edition kept but the one. -/
theorem Joined.mover {edition : Edition} (h : system.Joined edition)
    {old : Phase} (hmove : Move report system who .compile old shared phase)
    (hresult : ∀ number, (report number).result = .ok edition.policies)
    (hjoins : system.Joins edition old) (hheld : system.Held old) :
    shared.Joins edition phase ∧
      ∀ other, shared.cache = some other → other = edition ∧ shared.builds = edition.build + 1 := by
  cases hmove with
  | hit hcache =>
    refine ⟨⟨?_, ?_⟩, h.cached⟩
    · rw [(h.cached _ hcache).1]
    · rw [hcache, (h.cached _ hcache).1]
  | miss | present | mark => exact ⟨trivial, h.cached⟩
  | acquire hfree => exact ⟨h.free hfree, h.cached⟩
  | absent hcache => exact ⟨hjoins hcache, h.cached⟩
  | invalidate => exact hjoins.elim
  | begin =>
    refine ⟨⟨hjoins, congrArg (· + 1) hjoins⟩, ?_⟩
    intro other hcache
    rw [hheld.1] at hcache
    cases hcache
  | build hbuilt =>
    obtain ⟨hnumber, hbuilds⟩ := hjoins
    refine ⟨⟨?_, hbuilds⟩, h.cached⟩
    rw [hresult] at hbuilt
    cases hbuilt
    rw [hnumber]
  | fail hfailed =>
    rw [hresult] at hfailed
    cases hfailed
  | store =>
    obtain ⟨rfl, hbuilds⟩ := hjoins
    refine ⟨trivial, ?_⟩
    intro other hcache
    cases hcache
    exact ⟨rfl, hbuilds⟩
  | leave =>
    obtain ⟨other, hcache⟩ := Option.isSome_iff_exists.mp hheld.1
    refine ⟨⟨?_, ?_⟩, h.cached⟩
    · rw [hcache, (h.cached other hcache).1]
    · rw [hcache, (h.cached other hcache).1]
  | raise => exact hjoins.elim

/-- A compilation never drops what is kept. -/
theorem Move.keeps {old : Phase} (h : Move report system who .compile old shared phase)
    (hheld : system.Held old) {edition : Edition}
    (hcache : system.cache = some edition) : shared.cache = some edition := by
  cases h with
  | store =>
    rw [hheld.1] at hcache
    cases hcache
  | _ => exact hcache

/-- What callers have joined stays kept. -/
theorem Joined.move {edition : Edition} (h : system.Joined edition) (hsound : system.Sound)
    (hcaller : system.callers[who]? = some caller)
    (hmove : Move report system who caller.call caller.phase shared phase)
    (hresult : ∀ number, (report number).result = .ok edition.policies) :
    (shared.move who caller phase).Joined edition := by
  have hcompile := h.compiles who caller hcaller
  have hheld := hsound.held who caller hcaller
  have hcompiled : Move report system who .compile caller.phase shared phase := hcompile ▸ hmove
  obtain ⟨hnew, hcached⟩ := h.mover hcompiled hresult (h.joins who caller hcaller) hheld
  constructor
  case compiles =>
    intro other another hanother
    rcases caller_of_move hcaller hmove hanother with ⟨_, rfl⟩ | ⟨_, hbefore⟩
    · exact hcompile
    · exact h.compiles other another hbefore
  case free =>
    intro hholder hnone
    rcases hsound.freed_cases hcaller hmove hholder with
      ⟨hbefore, hcache, _, hbuilds⟩ | ⟨_, result, rfl⟩
    · exact hbuilds.trans (h.free hbefore (hcache.symm.trans hnone))
    -- A call that gives the lock back answers what is kept, so something is.
    · cases result with
      | ok answer =>
        have hsome : (none : Option Edition) = some edition := hnone.symm.trans hnew.2
        cases hsome
      | error error => exact hnew.elim
  case cached => exact hcached
  case joins =>
    intro other another hanother
    rcases caller_of_move hcaller hmove hanother with ⟨_, rfl⟩ | ⟨hother, hbefore⟩
    · exact hnew.congr rfl rfl
    · have hjoins := h.joins other another hbefore
      cases hinside : another.phase.inside with
      | false => exact hjoins.outside hinside (hcompiled.keeps hheld)
      | true =>
        obtain ⟨hcache, _, hbuilds⟩ := hsound.unseen hcaller hmove hbefore hother hinside
        exact hjoins.congr hcache hbuilds

theorem Joined.run {edition : Edition} (h : system.Joined edition) (hsound : system.Sound)
    (hresult : ∀ number, (report number).result = .ok edition.policies) (schedule : List Nat) :
    (system.run report schedule).Joined edition := by
  have hend := run_keeps report (P := fun reached => reached.Sound ∧ reached.Joined edition)
    (fun ⟨hsound, h⟩ hcaller hmove =>
      ⟨hsound.move hcaller hmove, h.move hsound hcaller hmove hresult⟩)
    ⟨hsound, h⟩ schedule
  exact hend.2

/-- A move of a caller that meets the error changes nothing that is kept. A build
begins with the move that is counted, and no other. -/
theorem Raised.mover {error : BuildError} {state : CacheState} (h : system.Raised error state)
    {old : Phase} (hmove : Move report system who .compile old shared phase)
    (hresult : ∀ number, (report number).result = .error error) (hraises : old.Raises error) :
    shared.cache = none ∧ shared.state = state ∧ phase.Raises error ∧
      (phase.begun = true ↔ old = .starting ∨ old.begun = true) := by
  obtain ⟨hnone, hstate, _⟩ := h
  cases hmove with
  | hit hcache =>
    rw [hnone] at hcache
    cases hcache
  | present hcache =>
    rw [hnone] at hcache
    cases hcache
  | build hbuilt =>
    rw [hresult] at hbuilt
    cases hbuilt
  | fail hfailed =>
    rw [hresult] at hfailed
    cases hfailed
    exact ⟨hnone, hstate, rfl, by simp [Phase.begun]⟩
  | invalidate | store | mark | leave => exact hraises.elim
  | miss | acquire | absent | begin => exact ⟨hnone, hstate, trivial, by simp [Phase.begun]⟩
  | raise => exact ⟨hnone, hstate, hraises, by simp [Phase.begun]⟩

theorem beginsBuild_eq_false (hsame : system.step report who = system) :
    system.beginsBuild who = false := by
  have hbuilds := builds_step report system who
  rw [hsame] at hbuilds
  refine Bool.eq_false_iff.mpr fun hbegins => ?_
  rw [hbegins, if_pos rfl] at hbuilds
  omega

/-- A step of callers that all meet the error keeps it so, and counts a build of
the caller that begins one. -/
theorem Raised.step {error : BuildError} {state : CacheState} (h : system.Raised error state)
    (hresult : ∀ number, (report number).result = .error error) (who : Nat) :
    (system.step report who).Raised error state ∧
      ∀ other, (if system.beginsBuild who then [who] else []).count other + system.begun other =
        (system.step report who).begun other := by
  rcases step_cases report system who with hsame | ⟨caller, shared, phase, hcaller, hmove, hstep⟩
  · rw [beginsBuild_eq_false hsame, hsame]
    exact ⟨h, by simp⟩
  · rw [hstep]
    obtain ⟨hcompile, hraises⟩ := h.raises who caller hcaller
    have hcompiled : Move report system who .compile caller.phase shared phase := hcompile ▸ hmove
    obtain ⟨hnone, hstate, hnew, hbegun⟩ := h.mover hcompiled hresult hraises
    refine ⟨⟨hnone, hstate, ?_⟩, ?_⟩
    · intro other another hanother
      rcases caller_of_move hcaller hmove hanother with ⟨_, rfl⟩ | ⟨_, hbefore⟩
      · exact ⟨hcompile, hnew⟩
      · exact h.raises other another hbefore
    · intro other
      simp only [begun, getElem?_move hcaller hmove]
      by_cases hother : other = who
      · subst hother
        rw [hcaller, if_pos rfl]
        -- The step that is counted is the one that enters a phase in which a build has begun.
        by_cases hstarting : caller.phase = .starting
        · have hbegins := beginsBuild_eq_true.mpr ⟨caller, hcaller, hstarting⟩
          have hnow := hbegun.mpr (.inl hstarting)
          have hbefore : Phase.starting.begun = false := rfl
          simp [hbegins, hstarting, hnow, hbefore]
        · have hbegins : system.beginsBuild other ≠ true := by
            rw [Ne, beginsBuild_eq_true, hcaller]
            simpa using hstarting
          have hsame : phase.begun = caller.phase.begun := by
            rw [Bool.eq_iff_iff, hbegun]
            simp [hstarting]
          simp [hbegins, hsame]
      · have hapart : who ≠ other := fun hsame => hother hsame.symm
        rw [if_neg hother]
        split <;> simp [hapart]

/-- If every build fails, a run changes nothing that is kept, and each caller
begins at most one build of its own. -/
theorem Raised.run {error : BuildError} {state : CacheState} (h : system.Raised error state)
    (hresult : ∀ number, (report number).result = .error error) (schedule : List Nat) :
    (system.run report schedule).Raised error state ∧
      ∀ who, (system.builders report schedule).count who + system.begun who =
        (system.run report schedule).begun who := by
  induction schedule generalizing system with
  | nil => exact ⟨h, by simp [builders, System.run]⟩
  | cons who rest ih =>
    obtain ⟨hraised, hstep⟩ := h.step hresult who
    obtain ⟨hend, hrest⟩ := ih hraised
    refine ⟨hend, fun other => ?_⟩
    rw [builders, List.count_append, Nat.add_right_comm, hstep other, Nat.add_comm]
    exact hrest other

end System

theorem begun_start (compiler : Compiler) (calls : List Call) (who : Nat) :
    (start compiler calls).begun who = 0 := by
  unfold System.begun
  split
  next caller hcaller =>
    rw [(getElem?_start hcaller).1]
    rfl
  next => rfl

theorem joined_start {compiler : Compiler} {calls : List Call}
    (hcompile : ∀ call ∈ calls, call = .compile) (hcache : compiler.cache = none)
    (policies : PolicySet) : (start compiler calls).Joined ⟨compiler.reads, policies⟩ := by
  constructor
  case compiles =>
    intro who caller hcaller
    exact hcompile caller.call (getElem?_start hcaller).2
  case free => exact fun _ _ => rfl
  case cached =>
    intro other hother
    cases hcache.symm.trans hother
  case joins =>
    intro who caller hcaller
    rw [(getElem?_start hcaller).1]
    trivial

theorem raised_start {compiler : Compiler} {calls : List Call}
    (hcompile : ∀ call ∈ calls, call = .compile) (hcache : compiler.cache = none)
    (error : BuildError) : (start compiler calls).Raised error compiler.state := by
  refine ⟨hcache, rfl, fun who caller hcaller => ?_⟩
  obtain ⟨hphase, hcall⟩ := getElem?_start hcaller
  rw [hphase]
  exact ⟨hcompile caller.call hcall, trivial⟩

/-- Calls of `compile` that have all ended share the one build that succeeded. -/
theorem joined_ended {compiler : Compiler} {calls : List Call} {policies : PolicySet}
    (hsound : (start compiler calls).Sound) (hcompile : ∀ call ∈ calls, call = .compile)
    (hcache : compiler.cache = none) {report : Nat → BuildReport}
    (hresult : ∀ number, (report number).result = .ok policies) (schedule : List Nat)
    (hended : ((start compiler calls).run report schedule).Ended) :
    (∀ caller ∈ ((start compiler calls).run report schedule).callers,
        caller.phase = .done (.ok (some ⟨compiler.reads, policies⟩))) ∧
      (calls ≠ [] → ((start compiler calls).builders report schedule).length = 1) := by
  have hjoined := (joined_start hcompile hcache policies).run hsound hresult schedule
  have hbuilds := System.builds_run report (start compiler calls) schedule
  have hcalls := System.calls_run report (start compiler calls) schedule
  generalize (start compiler calls).run report schedule = reached at *
  have hdone : ∀ caller ∈ reached.callers,
      caller.phase = .done (.ok (some ⟨compiler.reads, policies⟩)) ∧
        reached.cache = some ⟨compiler.reads, policies⟩ := by
    intro caller hmember
    obtain ⟨who, hcaller⟩ := List.mem_iff_getElem?.mp hmember
    obtain ⟨result, hphase⟩ := hended caller hmember
    have hjoins := hjoined.joins who caller hcaller
    rw [hphase] at hjoins ⊢
    cases result with
    | ok answer =>
      obtain ⟨rfl, hkept⟩ := hjoins
      exact ⟨rfl, hkept⟩
    | error error => exact hjoins.elim
  refine ⟨fun caller hmember => (hdone caller hmember).1, fun hcaller => ?_⟩
  have hsome : reached.callers ≠ [] := by
    rintro hnil
    rw [hnil] at hcalls
    exact hcaller (by simpa [start] using hcalls.symm)
  obtain ⟨caller, hmember⟩ := List.exists_mem_of_ne_nil _ hsome
  have hcount : reached.builds = compiler.reads + 1 :=
    (hjoined.cached _ (hdone caller hmember).2).2
  exact Nat.add_left_cancel (hbuilds.symm.trans hcount)

/-- Calls of `compile` that have all ended raise the error of a build of their own. -/
theorem raised_ended {compiler : Compiler} {calls : List Call} {error : BuildError}
    (hcompile : ∀ call ∈ calls, call = .compile) (hcache : compiler.cache = none)
    {report : Nat → BuildReport} (hresult : ∀ number, (report number).result = .error error)
    (schedule : List Nat) (hended : ((start compiler calls).run report schedule).Ended) :
    (∀ caller ∈ ((start compiler calls).run report schedule).callers,
        caller.phase = .done (.error error)) ∧
      (∀ who < calls.length,
        ((start compiler calls).builders report schedule).count who = 1) ∧
      ((start compiler calls).run report schedule).cache = none ∧
      ((start compiler calls).run report schedule).state = compiler.state := by
  obtain ⟨hraised, hcount⟩ := (raised_start hcompile hcache error).run hresult schedule
  have hcalls := System.calls_run report (start compiler calls) schedule
  generalize (start compiler calls).run report schedule = reached at *
  have hdone : ∀ caller ∈ reached.callers, caller.phase = .done (.error error) := by
    intro caller hmember
    obtain ⟨who, hcaller⟩ := List.mem_iff_getElem?.mp hmember
    obtain ⟨result, hphase⟩ := hended caller hmember
    have hraises := (hraised.raises who caller hcaller).2
    rw [hphase] at hraises ⊢
    cases result with
    | ok answer => exact hraises.elim
    | error other =>
      cases hraises
      rfl
  refine ⟨hdone, fun who hwho => ?_, hraised.cache_eq, hraised.state_eq⟩
  have hlength : reached.callers.length = calls.length := by
    simpa [start] using congrArg List.length hcalls
  obtain ⟨caller, hcaller⟩ : ∃ caller, reached.callers[who]? = some caller :=
    ⟨_, List.getElem?_eq_getElem (hlength ▸ hwho)⟩
  have hbegun := hcount who
  rw [begun_start] at hbegun
  simp [System.begun, hcaller, hdone caller (List.mem_of_getElem? hcaller), Phase.begun] at hbegun
  exact hbegun

/-- Calls of any number of callers, interleaved in any order, over a compiler that
any run of one caller left behind. At most one of them builds, what is kept and
the state agree while the lock is free, no call answers nothing, and a
compilation that begins after a recompilation has answered an edition answers
that edition or one whose build began later. If all calls compile, nothing is
kept and the source stays as it is, then once they have all ended they share
one build, or each has raised the error of a build of its own and nothing has
changed. -/
theorem run_safe (lenient : Bool) (reads : Nat) (source : Listing)
    (operations : List Compiler.Operation) (calls : List Call) :
    let compiler := ((Compiler.Run.begin lenient reads source).perform operations).compiler
    (∀ (report : Nat → BuildReport) (schedule : List Nat),
      let reached := (start compiler calls).run report schedule
      reached.callers.map Caller.call = calls ∧
        (∀ who other, reached.Building who → reached.Building other → who = other) ∧
        (reached.holder = none → (reached.cache.isSome ↔ reached.state = .built)) ∧
        (∀ caller ∈ reached.callers, caller.phase ≠ .done (.ok none)) ∧
        ∀ (first later : Nat) (edition : Edition),
          reached.callers[first]? = some ⟨.recompile, .done (.ok (some edition))⟩ →
          reached.callers[later]? = some ⟨.compile, .ready⟩ →
          ∀ (rest : List Nat) (other : Edition),
            (reached.run report rest).callers[later]? =
                some ⟨.compile, .done (.ok (some other))⟩ →
              other = edition ∨ edition.build < other.build) ∧
    (compiler.cache = none → (∀ call ∈ calls, call = .compile) →
      ∀ (listing : Listing) (schedule : List Nat),
        let report := fun _ => listing.build compiler.lenient
        let reached := (start compiler calls).run report schedule
        let builders := (start compiler calls).builders report schedule
        reached.Ended →
          (∃ edition, (listing.build compiler.lenient).result = .ok edition.policies ∧
              (calls ≠ [] → builders.length = 1) ∧
              ∀ caller ∈ reached.callers, caller.phase = .done (.ok (some edition))) ∨
            ∃ error, (listing.build compiler.lenient).result = .error error ∧
              (∀ caller ∈ reached.callers, caller.phase = .done (.error error)) ∧
              (∀ who < calls.length, builders.count who = 1) ∧
              reached.cache = none ∧ reached.state = compiler.state) := by
  intro compiler
  have hrun := Compiler.Run.consistent_perform
    (Compiler.Run.consistent_begin lenient reads source) operations
  have hsound : (start compiler calls).Sound := by
    refine sound_start hrun.isSome_iff ?_ calls
    intro edition hcache
    obtain ⟨entry, hentry, hshows⟩ := hrun.shown hcache
    exact hrun.numbered.lt entry hentry edition hshows
  constructor
  · intro report schedule reached
    have hreached : reached.Sound := hsound.run report schedule
    refine ⟨?_, ?_, hreached.free, ?_, ?_⟩
    · rw [System.calls_run]
      simp [start, Function.comp_def]
    · rintro who other ⟨call, number, hcaller⟩ ⟨another, same, hother⟩
      exact hreached.inside_unique hcaller hother rfl rfl
    · intro caller hmember hphase
      obtain ⟨who, hcaller⟩ := List.mem_iff_getElem?.mp hmember
      obtain ⟨edition, hanswer, _⟩ := hreached.returned who caller none hcaller hphase
      cases hanswer
    · intro first later edition hfirst hlater rest other hother
      obtain ⟨found, hanswer, hsince⟩ := hreached.returned first _ (some edition) hfirst rfl
      cases hanswer
      have hbefore : System.Follows edition reached later := by
        intro caller answer hcaller hphase
        rw [hlater] at hcaller
        cases hcaller
        cases hphase
      exact hbefore.run hreached hsince report rest _ other hother rfl
  · intro hcache hcompile listing schedule report reached builders hended
    cases hbuild : (listing.build compiler.lenient).result with
    | ok policies =>
      obtain ⟨hdone, hone⟩ := joined_ended hsound hcompile hcache (fun _ => hbuild) schedule hended
      exact .inl ⟨⟨compiler.reads, policies⟩, rfl, hone, hdone⟩
    | error error =>
      exact .inr ⟨error, rfl, raised_ended hcompile hcache (fun _ => hbuild) schedule hended⟩

/-- Three callers that compile at once, over a source that offers a policy and over one that
lacks the value of its key. All calls end. In the first run the callers share one build, and
in the second each of them meets the error of its own. -/
theorem run_safe_of_three_compilations :
    let offering := Listing.ofTexts ["camelContext.exclude"] fun _ => some "audit"
    let lacking := Listing.ofTexts ["camelContext.exclude"] fun _ => none
    let compiler := ((Compiler.Run.begin false 0 offering).perform []).compiler
    let builders := fun listing : Listing =>
      (start compiler (List.replicate 3 .compile)).builders
        (fun _ => listing.build compiler.lenient) (allAtOnce 3)
    ((compileTogether compiler offering 3).Ended ∧ (builders offering).length = 1 ∧
      ∃ edition, ∀ caller ∈ (compileTogether compiler offering 3).callers,
        caller.phase = .done (.ok (some edition))) ∧
    (compileTogether compiler lacking 3).Ended ∧ (∀ who < 3, (builders lacking).count who = 1) ∧
      ∀ caller ∈ (compileTogether compiler lacking 3).callers,
        caller.phase = .done (.error (.absentKey "camelContext.exclude")) := by
  intro offering lacking compiler builders
  have hsafe := (run_safe false 0 offering [] (List.replicate 3 .compile)).2 rfl
    fun _ hcall => List.eq_of_mem_replicate hcall
  have hcache : compiler.cache = none := rfl
  have hended : ∀ listing, (compileTogether compiler listing 3).Ended := fun listing =>
    compileTogether_ended (by decide) (fun _ hkept => by cases hcache.symm.trans hkept) listing 3
  constructor
  · obtain ⟨policies, hbuilt⟩ :
        ∃ policies, (offering.build compiler.lenient).result = .ok policies := ⟨_, rfl⟩
    rcases hsafe offering (allAtOnce 3) (hended offering) with
      ⟨edition, _, hone, hdone⟩ | ⟨error, hfailed, _⟩
    · exact ⟨hended offering, hone (by simp), edition, hdone⟩
    · cases hbuilt.symm.trans hfailed
  · have hlacks : (lacking.build compiler.lenient).result =
        .error (.absentKey "camelContext.exclude") := rfl
    rcases hsafe lacking (allAtOnce 3) (hended lacking) with
      ⟨edition, hbuilt, _⟩ | ⟨error, hfailed, hdone, hown, _⟩
    · cases hlacks.symm.trans hbuilt
    · cases hlacks.symm.trans hfailed
      exact ⟨hended lacking, hown, hdone⟩

end EventPolicy.Callers
