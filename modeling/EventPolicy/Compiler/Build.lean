import EventPolicy.Notice

/-!
Building a policy set from a listing of keys. Keys are taken in order; the
first key that fails ends the build. A key with an unknown qualifier is left
out, and so is a malformed key if the build is lenient; each key left out is
noticed and counted, and a finished build ends with a notice of its size and of
that count. The values are texts, unless a source was made of arguments that
nobody validated.
-/

namespace EventPolicy

/-- What a source offers to a build: keys in order, and the value of a key. -/
structure Listing where
  keys : List String
  value? : String → Option Value

/-- Why a build failed: a key without a value, or a key that its dialect
refuses. -/
inductive BuildError where
  | absentKey (key : String)
  | dialect (error : DialectError)
  deriving DecidableEq, Repr

/-- What becomes of one key. -/
inductive KeyOutcome where
  | compiled (policy : Policy)
  | leftOut (notice : Notice)
  | failed (error : BuildError)
  deriving DecidableEq

/-- What a build tells and what it results in. -/
structure BuildReport where
  notices : List Notice
  result : Except BuildError PolicySet

namespace Listing

/-- The listing of keys whose values are texts. -/
def ofTexts (keys : List String) (text? : String → Option String) : Listing :=
  ⟨keys, fun key => (text? key).map .string⟩

/-- The listing of the entries of a map. -/
def ofEntries (entries : Entries Value) : Listing := ⟨entries.keys, entries.get?⟩

/-- What becomes of a key and its value. -/
def compileEntry (lenient : Bool) (key : String) (value : Value) : KeyOutcome :=
  let (word, remainder) := Text.partition key '.'
  match Qualifier.ofSpelling? word with
  | none => .leftOut (.policyKeySkipped key word)
  | some qualifier =>
    match Dialect.policyOfValue qualifier key remainder value with
    | .ok policy => .compiled policy
    | .error (.malformedKey about reason) =>
      if lenient then .leftOut (.malformedPolicyKey key reason)
      else .failed (.dialect (.malformedKey about reason))
    | .error error => .failed (.dialect error)

/-- What becomes of a key of the listing. -/
def compileKey (listing : Listing) (lenient : Bool) (key : String) : KeyOutcome :=
  match listing.value? key with
  | none => .failed (.absentKey key)
  | some value => compileEntry lenient key value

/-- The keys taken in order: the notices told up to the first key that fails, the
count of the keys there that gave no policy, and the policies of all keys if
none fails. -/
def compileKeys (listing : Listing) (lenient : Bool) :
    List String → List Notice × Nat × Except BuildError (List Policy)
  | [] => ([], 0, .ok [])
  | key :: rest =>
    match listing.compileKey lenient key with
    | .failed error => ([], 0, .error error)
    | .leftOut notice =>
      let (notices, skipped, result) := compileKeys listing lenient rest
      (notice :: notices, skipped + 1, result)
    | .compiled policy =>
      let (notices, skipped, result) := compileKeys listing lenient rest
      (notices, skipped, result.map (policy :: ·))

def build (listing : Listing) (lenient : Bool) : BuildReport :=
  match listing.compileKeys lenient listing.keys with
  | (notices, skipped, .ok policies) =>
    ⟨notices ++ [.policySetCompiled policies.length skipped], .ok ⟨policies⟩⟩
  | (notices, _, .error error) => ⟨notices, .error error⟩

end Listing

end EventPolicy
