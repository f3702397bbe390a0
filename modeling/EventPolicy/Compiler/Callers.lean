import EventPolicy.Compiler.Basic

/-!
Several callers of one compiler. A call is a sequence of atomic steps: an
unlocked look at what is kept, taking the lock, looking again or dropping what
is kept, the build, storing its result, and giving the lock back. Any order
of steps of different callers is a run. What the source offers may change
between builds, so a run is given the report of each build by its number.
-/

namespace EventPolicy.Callers

/-- What a caller asks for. -/
inductive Call where
  | compile
  | recompile
  deriving DecidableEq, Repr

/-- Where a caller stands, named for what it has done or does next. -/
inductive Phase where
  | ready
  | waiting
  | locked
  | dropped
  | starting
  | building (number : Nat)
  | storing (edition : Edition)
  | marking
  | leaving (failure : Option BuildError)
  | done (result : Except BuildError (Option Edition))

/-- A caller. -/
structure Caller where
  call : Call
  phase : Phase

/-- One compiler and its callers: what is kept, the state, which caller holds
the lock, how many builds have begun, and what has been told. -/
structure System where
  callers : List Caller
  cache : Option Edition
  state : CacheState
  holder : Option Nat
  builds : Nat
  notices : List Notice

namespace System

/-- The system with a caller in another phase. -/
def move (system : System) (who : Nat) (caller : Caller) (phase : Phase) : System :=
  { system with callers := system.callers.set who { caller with phase } }

/-- The step of a caller that holds the lock and has looked at what is kept or
dropped it. -/
def advanceBuild (report : Nat → BuildReport) (system : System) (who : Nat) (caller : Caller) :
    System :=
  match caller.phase with
  | .starting =>
    { system.move who caller (.building system.builds) with builds := system.builds + 1 }
  | .building number =>
    let told := system.notices ++ (report number).notices
    match (report number).result with
    | .ok policies => { system.move who caller (.storing ⟨number, policies⟩) with notices := told }
    | .error error => { system.move who caller (.leaving (some error)) with notices := told }
  | .storing edition => { system.move who caller .marking with cache := some edition }
  | .marking => { system.move who caller (.leaving none) with state := .built }
  | .leaving failure =>
    let result := match failure with
      | some error => .error error
      | none => .ok system.cache
    { system.move who caller (.done result) with holder := none }
  | _ => system

/-- The step of a caller. A caller that waits for a lock held by another, and
one whose call has ended, do nothing. -/
def advance (report : Nat → BuildReport) (system : System) (who : Nat) (caller : Caller) : System :=
  match caller.phase, caller.call with
  | .ready, .compile =>
    match system.cache with
    | some edition => system.move who caller (.done (.ok (some edition)))
    | none => system.move who caller .waiting
  | .ready, .recompile => system.move who caller .waiting
  | .waiting, _ =>
    match system.holder with
    | none => { system.move who caller .locked with holder := some who }
    | some _ => system
  | .locked, .compile =>
    if system.cache.isSome then system.move who caller (.leaving none)
    else system.move who caller .starting
  | .locked, .recompile => { system.move who caller .dropped with cache := none }
  | .dropped, _ =>
    { system.move who caller .starting with
      state := .invalidated, notices := system.notices ++ [.policySetInvalidated] }
  | _, _ => system.advanceBuild report who caller

/-- The step of the caller with an index; nothing happens if there is none. -/
def step (report : Nat → BuildReport) (system : System) (who : Nat) : System :=
  match system.callers[who]? with
  | some caller => system.advance report who caller
  | none => system

/-- The steps of callers in the order of a schedule. -/
def run (report : Nat → BuildReport) (system : System) (schedule : List Nat) : System :=
  schedule.foldl (step report) system

/-- The results of the calls that have ended. -/
def results (system : System) : List (Except BuildError (Option Edition)) :=
  system.callers.filterMap fun caller =>
    match caller.phase with
    | .done result => some result
    | _ => none

end System

/-- Callers that have not begun, over a compiler that nobody uses. -/
def start (compiler : Compiler) (calls : List Call) : System :=
  { callers := calls.map fun call => ⟨call, .ready⟩
    cache := compiler.cache
    state := compiler.state
    holder := none
    builds := compiler.reads
    notices := [] }

def finish (compiler : Compiler) (system : System) : Compiler :=
  { compiler with cache := system.cache, state := system.state, reads := system.builds }

/-- A schedule in which all callers look at what is kept before the first
build, and then end their calls one after the other. -/
def allAtOnce (count : Nat) : List Nat :=
  List.range count ++ (List.range count).flatMap (List.replicate 9)

def compileTogether (compiler : Compiler) (listing : Listing) (count : Nat) : System :=
  (start compiler (List.replicate count .compile)).run
    (fun _ => listing.build compiler.lenient) (allAtOnce count)

end EventPolicy.Callers
