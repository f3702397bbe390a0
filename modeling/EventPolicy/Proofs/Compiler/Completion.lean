import EventPolicy.Proofs.Compiler.Interleaving

/-!
Runs that end. Each move of a caller brings its call nearer to the end, so a caller
that holds the lock, or finds it free, ends its call within nine steps of its own.
Only a caller that waits for another can be held up, and the other can go on. So no
run is ever stuck: it can be continued until all calls have ended (`exists_ended`),
and a compilation by several callers at once is continued so (`compileTogether_ended`).
-/

namespace EventPolicy.Callers

/-- How many steps of its own a caller in the phase still needs at most. -/
def Phase.left : Phase → Nat
  | .ready => 9
  | .waiting => 8
  | .locked => 7
  | .dropped => 6
  | .starting => 5
  | .building _ => 4
  | .storing _ => 3
  | .marking => 2
  | .leaving _ => 1
  | .done _ => 0

theorem Phase.left_le (phase : Phase) : phase.left ≤ 9 := by
  cases phase <;> simp [left]

namespace System

/-- All calls have ended. -/
def Ended (system : System) : Prop :=
  ∀ caller ∈ system.callers, ∃ result, caller.phase = .done result

theorem calls_run (report : Nat → BuildReport) (system : System) (schedule : List Nat) :
    (system.run report schedule).callers.map Caller.call = system.callers.map Caller.call := by
  refine run_keeps report (P := fun reached =>
    reached.callers.map Caller.call = system.callers.map Caller.call) ?_ rfl schedule
  intro before shared who caller phase hbefore hcaller hmove
  rw [← hbefore]
  refine List.ext_getElem? fun other => ?_
  rw [List.getElem?_map, List.getElem?_map, getElem?_move hcaller hmove]
  split
  next hother =>
    rw [hother, hcaller]
    rfl
  next => rfl

variable {report : Nat → BuildReport} {system shared : System} {who : Nat} {call : Call}
  {caller : Caller} {old phase : Phase}

theorem length_callers_run (report : Nat → BuildReport) (system : System) (schedule : List Nat) :
    (system.run report schedule).callers.length = system.callers.length := by
  simpa using congrArg List.length (calls_run report system schedule)

theorem run_append (report : Nat → BuildReport) (system : System) (first second : List Nat) :
    system.run report (first ++ second) = (system.run report first).run report second :=
  List.foldl_append

theorem Move.left_lt (h : Move report system who call old shared phase) :
    phase.left < old.left := by
  cases h <;> simp [Phase.left]

/-- A caller that holds the lock or finds it free does not rest until its call has ended. -/
theorem Sound.done_of_rests (h : system.Sound) (hcaller : system.callers[who]? = some caller)
    (hlock : system.holder = none ∨ system.holder = some who) (hrests : system.Rests who) :
    system.holder = none ∧ ∃ result, caller.phase = .done result := by
  have hinside := (h.holder_iff who).mp
  rcases hrests caller hcaller with ⟨result, hdone⟩ | ⟨hwaiting, hheld⟩
  · refine ⟨hlock.resolve_right fun hholder => ?_, result, hdone⟩
    obtain ⟨found, hfound, hphase⟩ := hinside hholder
    cases hcaller.symm.trans hfound
    rw [hdone] at hphase
    cases hphase
  · obtain ⟨found, hfound, hphase⟩ := hinside (hlock.resolve_left hheld)
    cases hcaller.symm.trans hfound
    rw [hwaiting] at hphase
    cases hphase

/-- Steps of a caller that holds the lock or finds it free end its call and give the lock
back, and leave all other callers where they are. -/
theorem Sound.run_alone (h : system.Sound) (report : Nat → BuildReport)
    (hcaller : system.callers[who]? = some caller)
    (hlock : system.holder = none ∨ system.holder = some who) {steps : Nat}
    (hsteps : caller.phase.left ≤ steps) :
    let reached := system.run report (List.replicate steps who)
    reached.holder = none ∧
      (∃ result, reached.callers[who]? = some ⟨caller.call, .done result⟩) ∧
      ∀ other, other ≠ who → reached.callers[other]? = system.callers[other]? := by
  induction steps generalizing system caller with
  | zero =>
    have hrests : system.Rests who := by
      intro found hfound
      cases hcaller.symm.trans hfound
      left
      cases hphase : caller.phase with
      | done result => exact ⟨result, rfl⟩
      | _ => simp [hphase, Phase.left] at hsteps
    obtain ⟨hfree, result, hdone⟩ := h.done_of_rests hcaller hlock hrests
    exact ⟨hfree, ⟨result, by rw [← hdone]; exact hcaller⟩, fun _ _ => rfl⟩
  | succ steps ih =>
    intro reached
    have hreached : reached = (system.step report who).run report (List.replicate steps who) := rfl
    rcases rests_or_moves report system who with
      ⟨hrests, hsame⟩ | ⟨found, shared, phase, hfound, hmove, hstep⟩
    · obtain ⟨hfree, result, hdone⟩ := h.done_of_rests hcaller hlock hrests
      rw [hreached, hsame]
      exact ih h hcaller hlock (by simp [hdone, Phase.left])
    · cases hcaller.symm.trans hfound
      have hnow := getElem?_move hcaller hmove
      have hleft : phase.left ≤ steps := Nat.le_of_lt_succ (Nat.lt_of_lt_of_le hmove.left_lt hsteps)
      have hnext : (shared.move who caller phase).holder = none ∨
          (shared.move who caller phase).holder = some who := by
        rcases hmove.lock with ⟨_, hkept⟩ | ⟨_, _, _, htaken⟩ | ⟨_, _, hgiven⟩
        · exact hkept ▸ hlock
        · exact .inr htaken
        · exact .inl hgiven
      obtain ⟨hfree, hdone, hothers⟩ :=
        ih (h.move hcaller hmove) (by rw [hnow, if_pos rfl]) hnext hleft
      rw [hreached, hstep]
      refine ⟨hfree, hdone, fun other hother => ?_⟩
      rw [hothers other hother, hnow, if_neg hother]

/-- The call of the caller with an index has ended, or there is none. -/
def Over (system : System) (who : Nat) : Prop :=
  ∀ caller, system.callers[who]? = some caller → ∃ result, caller.phase = .done result

theorem ended_of_over (h : ∀ who < system.callers.length, system.Over who) : system.Ended := by
  intro caller hmember
  obtain ⟨who, hcaller⟩ := List.mem_iff_getElem?.mp hmember
  exact h who (List.getElem?_eq_some_iff.mp hcaller).1 caller hcaller

/-- A turn of a caller that holds the lock or finds it free ends its call, and no call that
has ended begins again. -/
theorem Sound.run_turn (h : system.Sound) (report : Nat → BuildReport)
    (hlock : system.holder = none ∨ system.holder = some who) :
    let reached := system.run report (List.replicate 9 who)
    reached.holder = none ∧ reached.Over who ∧ ∀ other, system.Over other → reached.Over other := by
  intro reached
  cases hcaller : system.callers[who]? with
  | none =>
    have hfree : system.holder = none := by
      refine hlock.resolve_right fun hholder => ?_
      obtain ⟨caller, hfound, _⟩ := (h.holder_iff who).mp hholder
      cases hcaller.symm.trans hfound
    have hstep : system.step report who = system := by simp [step, hcaller]
    have hsame : reached = system := by
      show (List.replicate 9 who).foldl (step report) system = system
      simp [List.replicate, hstep]
    rw [hsame]
    refine ⟨hfree, fun caller hfound => ?_, fun _ hover => hover⟩
    cases hcaller.symm.trans hfound
  | some caller =>
    obtain ⟨hfree, ⟨result, hdone⟩, hothers⟩ :=
      h.run_alone report hcaller hlock caller.phase.left_le
    have hover : reached.Over who := by
      intro found hfound
      cases hdone.symm.trans hfound
      exact ⟨result, rfl⟩
    refine ⟨hfree, hover, fun other hbefore => ?_⟩
    by_cases hother : other = who
    · exact hother ▸ hover
    · intro found hfound
      exact hbefore found ((hothers other hother).symm.trans hfound)

/-- Callers that take their turns one after the other end their calls. -/
theorem Sound.run_turns (h : system.Sound) (report : Nat → BuildReport)
    (hfree : system.holder = none) (turns : List Nat) :
    ∀ who, who ∈ turns ∨ system.Over who →
      (system.run report (turns.flatMap (List.replicate 9))).Over who := by
  induction turns generalizing system with
  | nil => exact fun who hwho => hwho.resolve_left List.not_mem_nil
  | cons first rest ih =>
    obtain ⟨hgiven, hover, hkept⟩ := h.run_turn report (.inl hfree : _ ∨ _ = some first)
    intro who hwho
    rw [List.flatMap_cons, run_append]
    refine ih (h.run report _) hgiven who ?_
    rcases hwho with hturn | hbefore
    · rcases List.mem_cons.mp hturn with rfl | hlater
      · exact .inr hover
      · exact .inl hlater
    · exact .inr (hkept who hbefore)

theorem Sound.ended_turns (h : system.Sound) (report : Nat → BuildReport)
    (hfree : system.holder = none) :
    (system.run report
      ((List.range system.callers.length).flatMap (List.replicate 9))).Ended := by
  refine ended_of_over fun who hwho => h.run_turns report hfree _ who (.inl ?_)
  rw [length_callers_run] at hwho
  exact List.mem_range.mpr hwho

/-- No run is stuck: whoever holds the lock can give it back, and then all calls can be
ended one after the other. -/
theorem Sound.exists_ended (h : system.Sound) (report : Nat → BuildReport) :
    ∃ rest, (system.run report rest).Ended := by
  cases hholder : system.holder with
  | none => exact ⟨_, h.ended_turns report hholder⟩
  | some who =>
    obtain ⟨hfree, _, _⟩ := h.run_turn report (.inr hholder)
    have hended := (h.run report (List.replicate 9 who)).ended_turns report hfree
    rw [← run_append] at hended
    exact ⟨_, hended⟩

end System

/-- After each of the first callers has looked at what is kept, the lock is still free
and the other callers have not begun. -/
theorem run_looks (report : Nat → BuildReport) (compiler : Compiler) (calls : List Call)
    (count : Nat) :
    let reached := (start compiler calls).run report (List.range count)
    reached.holder = none ∧ ∀ who, count ≤ who → ∀ caller, reached.callers[who]? = some caller →
      caller.phase = .ready := by
  induction count with
  | zero => exact ⟨rfl, fun who _ caller hcaller => (getElem?_start hcaller).1⟩
  | succ count ih =>
    obtain ⟨hfree, hready⟩ := ih
    rw [List.range_succ, System.run_append]
    generalize (start compiler calls).run report (List.range count) = reached at hfree hready
    change (reached.step report count).holder = none ∧ ∀ who, count + 1 ≤ who →
      ∀ caller, (reached.step report count).callers[who]? = some caller → caller.phase = .ready
    rcases System.step_cases report reached count with
      hsame | ⟨caller, shared, phase, hcaller, hmove, hstep⟩
    · rw [hsame]
      exact ⟨hfree, fun who hwho => hready who (Nat.le_of_succ_le hwho)⟩
    · have hlock : shared.holder = none := by
        obtain ⟨call, old⟩ := caller
        obtain rfl : old = .ready := hready count (Nat.le_refl count) _ hcaller
        cases hmove with
        | hit | miss | enter => exact hfree
      rw [hstep]
      refine ⟨hlock, fun who hwho another hanother => ?_⟩
      rcases System.caller_of_move hcaller hmove hanother with ⟨rfl, _⟩ | ⟨_, hbefore⟩
      · exact absurd hwho (Nat.not_succ_le_self who)
      · exact hready who (Nat.le_of_succ_le hwho) another hbefore

/-- Callers that compile at once all end their calls, over every source and whatever
the compiler keeps. -/
theorem compileTogether_ended {compiler : Compiler}
    (hstate : compiler.cache.isSome ↔ compiler.state = .built)
    (hnumber : ∀ edition, compiler.cache = some edition → edition.build < compiler.reads)
    (listing : Listing) (count : Nat) : (compileTogether compiler listing count).Ended := by
  have hsound := sound_start hstate hnumber (List.replicate count .compile)
  have hlooked := hsound.run (fun _ => listing.build compiler.lenient) (List.range count)
  have hended := hlooked.ended_turns (fun _ => listing.build compiler.lenient)
    (run_looks _ compiler _ count).1
  rw [System.length_callers_run] at hended
  simpa [compileTogether, allAtOnce, System.run_append, start] using hended

end EventPolicy.Callers
