import EventPolicy.Compiler.Build

/-!
The policy compiler. It keeps the policy set of its last successful build as
an edition, numbered by the build that made it. `compile` builds only if
nothing is kept; `recompile` drops what is kept and builds anew. A build that
fails keeps nothing.
-/

namespace EventPolicy

/-- Where the kept edition is in its life. -/
inductive CacheState where
  | uninitialized
  | built
  | invalidated
  deriving DecidableEq, Repr

def CacheState.name : CacheState → String
  | .uninitialized => "uninitialized"
  | .built => "built"
  | .invalidated => "invalidated"

/-- A policy set and the number of the build that made it. Two editions are
the same object exactly when their builds are. -/
structure Edition where
  build : Nat
  policies : PolicySet
  deriving DecidableEq

/-- A compiler: whether its builds are lenient, what it keeps, and how often
the keys of its source have been read. -/
structure Compiler where
  lenient : Bool
  cache : Option Edition
  state : CacheState
  reads : Nat

/-- What an operation of a compiler tells and what it results in. -/
structure CompilerReport where
  compiler : Compiler
  notices : List Notice
  result : Except BuildError Edition

namespace Compiler

/-- A compiler that keeps nothing, over a source that has been read `reads` times. -/
def fresh (lenient : Bool) (reads : Nat) : Compiler := ⟨lenient, none, .uninitialized, reads⟩

/-- Builds from a listing and keeps the result. -/
def rebuild (compiler : Compiler) (listing : Listing) : CompilerReport :=
  let report := listing.build compiler.lenient
  let reads := compiler.reads + 1
  match report.result with
  | .ok policies =>
    let edition : Edition := ⟨compiler.reads, policies⟩
    ⟨{ compiler with cache := some edition, state := .built, reads }, report.notices, .ok edition⟩
  | .error error => ⟨{ compiler with reads }, report.notices, .error error⟩

/-- The kept edition, or the result of a build if none is kept. -/
def compile (compiler : Compiler) (listing : Listing) : CompilerReport :=
  match compiler.cache with
  | some edition => ⟨compiler, [], .ok edition⟩
  | none => compiler.rebuild listing

/-- Drops the kept edition and builds a new one. -/
def recompile (compiler : Compiler) (listing : Listing) : CompilerReport :=
  let report := rebuild { compiler with cache := none, state := .invalidated } listing
  { report with notices := .policySetInvalidated :: report.notices }

end Compiler

end EventPolicy
