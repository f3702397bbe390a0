import EventPolicy.Proofs.Scope.Pruning

/-!
Which scopes pruning keeps. Without the signatures seen so far, pruning keeps the first
scope and of the pruned rest every scope that is not alike (`prune_cons`). From this
follow the places of what is kept and what becomes of two lists behind each other.
-/

namespace EventPolicy.Scope

variable {rest : List Scope} {first : Scope}

/-- No scope before the place has the signature of the scope at the place. -/
def IsFirst (scopes : List Scope) (place : Fin scopes.length) : Prop :=
  ∀ earlier < place, (scopes.get earlier).signature ≠ (scopes.get place).signature

instance (scopes : List Scope) : DecidablePred (IsFirst scopes) := fun place =>
  inferInstanceAs (Decidable (∀ earlier, earlier < place →
    (scopes.get earlier).signature ≠ (scopes.get place).signature))

theorem prune_cons_eq_pruneFrom (first : Scope) (rest : List Scope) :
    prune (first :: rest) = first :: pruneFrom [first.signature] rest := by
  simp [prune, pruneFrom]

/-- Signatures that are seen take the scopes that have them from what pruning keeps. -/
theorem pruneFrom_eq_filter (seen : List Signature) (scopes : List Scope) :
    pruneFrom seen scopes = (prune scopes).filter fun scope => scope.signature ∉ seen := by
  induction scopes generalizing seen with
  | nil => rfl
  | cons first rest ih =>
    rw [prune_cons_eq_pruneFrom, pruneFrom, ih [first.signature], List.filter_cons,
      List.filter_filter]
    split
    case isTrue hseen =>
      rw [ih seen, if_neg (by simpa using hseen)]
      refine List.filter_congr fun scope _ => ?_
      have hapart : scope.signature ∉ seen → scope.signature ≠ first.signature :=
        fun hfresh hsame => hfresh (hsame ▸ hseen)
      simpa using hapart
    case isFalse hseen =>
      rw [ih (first.signature :: seen), if_pos (by simpa using hseen)]
      refine congrArg (first :: ·) (List.filter_congr fun scope _ => ?_)
      simp [Bool.and_comm]

theorem prune_cons (first : Scope) (rest : List Scope) :
    prune (first :: rest) =
      first :: (prune rest).filter fun scope => scope.signature ≠ first.signature := by
  rw [prune_cons_eq_pruneFrom, pruneFrom_eq_filter]
  simp only [List.mem_singleton]

theorem prune_append (scopes others : List Scope) :
    prune (scopes ++ others) = prune scopes ++
      (prune others).filter fun scope => scope.signature ∉ scopes.map signature := by
  induction scopes with
  | nil => simp [prune, pruneFrom]
  | cons first rest ih =>
    rw [List.cons_append, prune_cons, prune_cons, ih, List.filter_append, List.filter_filter]
    simp

theorem prune_prune (scopes : List Scope) : prune (prune scopes) = prune scopes :=
  pruneFrom_eq_self (by simp) (nodup_prune scopes)

theorem isFirst_zero : IsFirst (first :: rest) 0 :=
  fun earlier hearlier => absurd hearlier (Fin.not_lt_zero earlier)

/-- Behind a scope, the first places are those of the rest at which its signature is not. -/
theorem isFirst_succ_iff {place : Fin rest.length} :
    IsFirst (first :: rest) place.succ ↔
      (rest.get place).signature ≠ first.signature ∧ IsFirst rest place := by
  refine Fin.forall_fin_succ.trans ?_
  simp [IsFirst, eq_comm]

/-- Pruning keeps the scopes at the places where their signatures first occur. -/
theorem prune_eq_map_get (scopes : List Scope) :
    prune scopes = ((List.finRange scopes.length).filter (IsFirst scopes ·)).map scopes.get := by
  induction scopes with
  | nil => rfl
  | cons first rest ih =>
    have hplaces : List.finRange (first :: rest).length =
        0 :: (List.finRange rest.length).map Fin.succ := List.finRange_succ
    have hzero : decide (IsFirst (first :: rest) 0) = true := decide_eq_true isFirst_zero
    have hsucc : ∀ place : Fin rest.length, decide (IsFirst (first :: rest) place.succ) =
        (decide ((rest.get place).signature ≠ first.signature) && decide (IsFirst rest place)) := by
      simp [isFirst_succ_iff]
    rw [prune_cons, ih, hplaces, List.filter_cons, if_pos hzero, List.filter_map, List.filter_map,
      List.filter_filter, List.map_cons, List.map_map]
    exact congrArg (first :: List.map rest.get ·)
      (List.filter_congr fun place _ => (hsucc place).symm)

/-- Signatures are equal exactly if the scopes agree in each part, of which the values are
compared as sets. -/
theorem signature_eq_iff_parts {a b : Scope} :
    a.signature = b.signature ↔ a.element = b.element ∧ a.method = b.method ∧
      a.language = b.language ∧ a.expression = b.expression ∧
        ∀ value, value ∈ a.values.toList ↔ value ∈ b.values.toList := by
  constructor
  · intro hsame
    obtain rfl := signature_eq_iff.mp hsame
    simp
  · rintro ⟨helement, hmethod, hlanguage, hexpression, hvalues⟩
    rw [signature, signature, helement, hmethod, ValueSet.ext hvalues, hlanguage, hexpression]

/-- Pruning keeps the scopes at the places before which their signatures do not occur, in
their order. So no signature is left twice and none is lost, pruning again changes
nothing, and of scopes behind others those are kept that would be kept alone and have
no signature of the others. Signatures are equal exactly if the scopes agree in every
part, and the order and the number of the values that a scope is made of do not show. -/
theorem prune_keeps_firsts (scopes : List Scope) :
    prune scopes = ((List.finRange scopes.length).filter (IsFirst scopes ·)).map scopes.get ∧
    ((prune scopes).map signature).Nodup ∧
    (∀ scope ∈ scopes, ∃ kept ∈ prune scopes, kept.signature = scope.signature) ∧
    prune (prune scopes) = prune scopes ∧
    (∀ others, prune (scopes ++ others) = prune scopes ++
      (prune others).filter fun scope => scope.signature ∉ scopes.map signature) ∧
    (∀ a b : Scope, a.signature = b.signature ↔
      a.element = b.element ∧ a.method = b.method ∧ a.language = b.language ∧
        a.expression = b.expression ∧
          ∀ value, value ∈ a.values.toList ↔ value ∈ b.values.toList) ∧
    ∀ (scope : Scope) (xs ys : List String),
      { scope with values := .ofList xs }.signature =
          { scope with values := .ofList ys }.signature ↔
        ∀ value, value ∈ xs ↔ value ∈ ys := by
  refine ⟨prune_eq_map_get scopes, nodup_prune scopes, fun scope hscope => ?_, prune_prune scopes,
    prune_append scopes, fun a b => signature_eq_iff_parts, fun scope xs ys => ?_⟩
  · exact ⟨scope, mem_prune_iff.mpr hscope, rfl⟩
  · rw [signature_eq_iff_parts]
    simp only [ValueSet.mem_ofList, true_and]

end EventPolicy.Scope
