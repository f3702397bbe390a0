import EventPolicy.Policy
import Mathlib.Data.List.Induction
import Mathlib.Data.List.Nodup
import Mathlib.Data.List.Pairwise

/-!
Pruning scopes of repetitions. What is left of scopes is one of each signature, in
the order in which the signatures first occur, and nothing else about the scopes can
be told from it (`prune_eq_prune_iff`). So the builder of policies never meets
repeated scopes, and refuses an empty list alone, while the check of a policy that is
given as it stands refuses both.
-/

namespace EventPolicy

/-- Lists of which the same members first occur in the same order. -/
def FirstsAlike {α : Type} [BEq α] (xs ys : List α) : Prop :=
  (∀ a, a ∈ xs ↔ a ∈ ys) ∧
    ∀ a ∈ xs, ∀ b ∈ xs, xs.idxOf a < xs.idxOf b ↔ ys.idxOf a < ys.idxOf b

namespace Scope

/-- Pruning keeps scopes that are neither seen nor alike. -/
theorem pruneFrom_eq_self {seen : List Signature} {scopes : List Scope}
    (hfresh : ∀ scope ∈ scopes, scope.signature ∉ seen)
    (hdistinct : (scopes.map signature).Nodup) : pruneFrom seen scopes = scopes := by
  induction scopes generalizing seen with
  | nil => rfl
  | cons scope rest ih =>
    obtain ⟨hscope, hrest⟩ := List.nodup_cons.mp hdistinct
    have hnew : scope.signature ∉ seen := hfresh scope List.mem_cons_self
    have hlater : ∀ other ∈ rest, other.signature ∉ scope.signature :: seen := by
      intro other hother
      have hapart : other.signature ≠ scope.signature := fun hsame =>
        hscope (hsame ▸ List.mem_map_of_mem hother)
      simp only [List.mem_cons, not_or]
      exact ⟨hapart, hfresh other (List.mem_cons_of_mem _ hother)⟩
    simp only [pruneFrom, hnew, if_false]
    rw [ih hlater hrest]

/-- Pruning keeps one scope of each signature that is not seen before. -/
theorem mem_pruneFrom_iff {seen : List Signature} {scopes : List Scope} {scope : Scope} :
    scope ∈ pruneFrom seen scopes ↔ scope ∈ scopes ∧ scope.signature ∉ seen := by
  refine ⟨mem_of_mem_pruneFrom, ?_⟩
  rintro ⟨hmember, hunseen⟩
  induction scopes generalizing seen with
  | nil => cases hmember
  | cons first rest ih =>
    rw [pruneFrom]
    split
    case isTrue hseen =>
      have hapart : scope ≠ first := fun hsame => hunseen (hsame ▸ hseen)
      exact ih ((List.mem_cons.mp hmember).resolve_left hapart) hunseen
    case isFalse =>
      by_cases hsame : scope = first
      · exact hsame ▸ List.mem_cons_self
      · have hsignature : scope.signature ≠ first.signature := mt signature_eq_iff.mp hsame
        have hrest := (List.mem_cons.mp hmember).resolve_left hsame
        exact List.mem_cons_of_mem _ (ih hrest (by simp [hsignature, hunseen]))

theorem mem_prune_iff {scopes : List Scope} {scope : Scope} :
    scope ∈ prune scopes ↔ scope ∈ scopes := by
  simp [prune, mem_pruneFrom_iff]

theorem prune_eq_nil_iff {scopes : List Scope} : prune scopes = [] ↔ scopes = [] := by
  simp [List.eq_nil_iff_forall_not_mem, mem_prune_iff]

/-- The place at which the signature of a scope first occurs. -/
def firstPlace (scopes : List Scope) (scope : Scope) : Nat :=
  (scopes.map signature).idxOf scope.signature

theorem firstPlace_cons_self (scope : Scope) (rest : List Scope) :
    firstPlace (scope :: rest) scope = 0 := by
  simp [firstPlace]

theorem firstPlace_cons_of_ne {first scope : Scope} (hapart : scope.signature ≠ first.signature)
    (rest : List Scope) : firstPlace (first :: rest) scope = firstPlace rest scope + 1 := by
  simp [firstPlace, Ne.symm hapart]

/-- Scopes in the order of their first places keep it behind a scope of a signature that
none of them has. -/
theorem ordered_cons {first : Scope} {rest kept : List Scope}
    (hapart : ∀ scope ∈ kept, scope.signature ≠ first.signature)
    (hordered : kept.Pairwise fun scope other => firstPlace rest scope < firstPlace rest other) :
    kept.Pairwise fun scope other =>
      firstPlace (first :: rest) scope < firstPlace (first :: rest) other := by
  refine hordered.imp_of_mem fun {scope other} hscope hother hbefore => ?_
  rw [firstPlace_cons_of_ne (hapart scope hscope), firstPlace_cons_of_ne (hapart other hother)]
  exact Nat.succ_lt_succ hbefore

/-- The scopes that pruning keeps stand in the order in which their signatures first
occur. -/
theorem pruneFrom_ordered (seen : List Signature) (scopes : List Scope) :
    (pruneFrom seen scopes).Pairwise fun scope other =>
      firstPlace scopes scope < firstPlace scopes other := by
  induction scopes generalizing seen with
  | nil => exact List.Pairwise.nil
  | cons first rest ih =>
    rw [pruneFrom]
    split
    case isTrue hseen =>
      refine ordered_cons (fun scope hscope hsame => ?_) (ih seen)
      exact (mem_pruneFrom_iff.mp hscope).2 (hsame ▸ hseen)
    case isFalse =>
      have hapart : ∀ scope ∈ pruneFrom (first.signature :: seen) rest,
          scope.signature ≠ first.signature := fun scope hscope hsame =>
        (mem_pruneFrom_iff.mp hscope).2 (hsame ▸ List.mem_cons_self)
      refine List.pairwise_cons.mpr ⟨fun other hother => ?_, ordered_cons hapart (ih _)⟩
      rw [firstPlace_cons_self, firstPlace_cons_of_ne (hapart other hother)]
      exact Nat.succ_pos _

theorem nodup_prune (scopes : List Scope) : ((prune scopes).map signature).Nodup := by
  refine List.pairwise_map.mpr ((pruneFrom_ordered [] scopes).imp fun hbefore hsame => ?_)
  rw [firstPlace, firstPlace, hsame] at hbefore
  exact Nat.lt_irrefl _ hbefore

/-- Two measures that grow along a list compare its members alike. -/
theorem lt_iff_lt_of_pairwise {α : Type} {f g : α → Nat} {members : List α}
    (hf : members.Pairwise fun a b => f a < f b) (hg : members.Pairwise fun a b => g a < g b)
    {a b : α} (ha : a ∈ members) (hb : b ∈ members) : f a < f b ↔ g a < g b := by
  have hforth : members.Pairwise fun a b => f a < f b ↔ g a < g b :=
    hf.imp₂ (fun _ _ hfirst hsecond => iff_of_true hfirst hsecond) hg
  have hback : members.Pairwise fun a b => f b < f a ↔ g b < g a :=
    hf.imp₂ (fun _ _ hfirst hsecond => by omega) hg
  exact hforth.forall_of_forall_of_flip (fun _ _ => by omega) hback ha hb

/-- What is left of scopes tells which signatures they have and in which order these
first occur, and nothing else. -/
theorem prune_eq_prune_iff {xs ys : List Scope} :
    prune xs = prune ys ↔ FirstsAlike (xs.map signature) (ys.map signature) := by
  constructor
  · intro hpruned
    have hmembers : ∀ scope, scope ∈ xs ↔ scope ∈ ys := fun scope => by
      rw [← mem_prune_iff, hpruned, mem_prune_iff]
    refine ⟨fun a => by simp only [List.mem_map, hmembers], ?_⟩
    intro a ha b hb
    obtain ⟨scope, hscope, rfl⟩ := List.mem_map.mp ha
    obtain ⟨other, hother, rfl⟩ := List.mem_map.mp hb
    have hordered : (prune xs).Pairwise fun scope other =>
        firstPlace ys scope < firstPlace ys other := by
      rw [hpruned]
      exact pruneFrom_ordered [] ys
    exact lt_iff_lt_of_pairwise (pruneFrom_ordered [] xs) hordered (mem_prune_iff.mpr hscope)
      (mem_prune_iff.mpr hother)
  · rintro ⟨hsignatures, horder⟩
    have hmembers : ∀ scope, scope ∈ xs ↔ scope ∈ ys := fun scope => by
      have hsame := hsignatures scope.signature
      simpa [signature_eq_iff] using hsame
    have hperm : (prune xs).Perm (prune ys) := by
      refine (List.perm_ext_iff_of_nodup (nodup_prune xs).of_map (nodup_prune ys).of_map).mpr ?_
      intro scope
      rw [mem_prune_iff, mem_prune_iff, hmembers]
    have hordered : (prune ys).Pairwise fun scope other =>
        firstPlace xs scope < firstPlace xs other := by
      refine (pruneFrom_ordered [] ys).imp_of_mem fun {scope other} hscope hother hbefore => ?_
      have hfirst := List.mem_map_of_mem (f := signature)
        ((hmembers scope).mpr (mem_prune_iff.mp hscope))
      have hsecond := List.mem_map_of_mem (f := signature)
        ((hmembers other).mpr (mem_prune_iff.mp hother))
      exact (horder _ hfirst _ hsecond).mpr hbefore
    exact hperm.eq_of_pairwise (fun _ _ _ _ hbefore hafter => absurd hafter (Nat.lt_asymm hbefore))
      (pruneFrom_ordered [] xs) hordered

end Scope

/-- A list has no more different members than members, and as many only if it repeats
none of them. -/
theorem length_eraseDups {α : Type} [BEq α] [LawfulBEq α] (members : List α) :
    members.eraseDups.length ≤ members.length ∧
      (members.eraseDups.length = members.length ↔ members.Nodup) := by
  induction members using List.reverseRecOn with
  | nil => simp
  | append_singleton earlier last ih =>
    obtain ⟨hle, hdistinct⟩ := ih
    have hnodup : (earlier ++ [last]).Nodup ↔ last ∉ earlier ∧ earlier.Nodup := by
      rw [← List.concat_eq_append, List.nodup_concat]
    rw [List.eraseDups_append, hnodup, List.length_append, List.length_append,
      List.length_singleton]
    by_cases hlast : last ∈ earlier
    · have hnew : [last].removeAll earlier = [] := by simp [List.removeAll, hlast]
      rw [hnew, List.eraseDups_nil, List.length_nil]
      exact ⟨by omega, by simp only [hlast, not_true, false_and, iff_false]; omega⟩
    · have hnew : [last].removeAll earlier = [last] := by simp [List.removeAll, hlast]
      rw [hnew, List.eraseDups_cons, List.filter_nil, List.eraseDups_nil, List.length_singleton]
      simpa [hlast] using ⟨hle, hdistinct⟩

namespace Policy

/-- The check by the number of different signatures is one for scopes that repeat none. -/
theorem fault?_eq_none_iff {policy : Policy} :
    policy.fault? = none ↔ policy.scopes ≠ [] ∧ (policy.scopes.map Scope.signature).Nodup := by
  have hdistinct := (length_eraseDups (policy.scopes.map Scope.signature)).2
  rw [List.length_map] at hdistinct
  unfold fault?
  split <;> simp_all

theorem isOk_checked_iff {policy : Policy} : (checked policy).isOk ↔ policy.fault? = none := by
  rw [checked]
  split <;> simp_all [Except.isOk, Except.toBool]

/-- The builder refuses an empty list of scopes and makes a policy of any other. -/
theorem build_eq (action : Action) (scopes : List Scope) (sourceKey : Option String) :
    build action scopes sourceKey =
      if scopes = [] then .error .noScopes else .ok ⟨action, Scope.prune scopes, sourceKey⟩ := by
  split
  case isTrue hempty =>
    rw [hempty]
    rfl
  case isFalse hfilled =>
    refine checked_eq_ok_iff.mpr ⟨fault?_eq_none_iff.mpr ⟨?_, Scope.nodup_prune scopes⟩, rfl⟩
    exact mt Scope.prune_eq_nil_iff.mp hfilled

/-- A policy that comes through the check as it stands is built as it stands. -/
theorem build_of_checked {action : Action} {scopes : List Scope} {sourceKey : Option String}
    {policy : Policy} (h : checked ⟨action, scopes, sourceKey⟩ = .ok policy) :
    build action scopes sourceKey = .ok policy := by
  obtain ⟨hfine, rfl⟩ := checked_eq_ok_iff.mp h
  obtain ⟨hfilled, hdistinct⟩ := fault?_eq_none_iff.mp hfine
  have hkept : Scope.prune scopes = scopes := Scope.pruneFrom_eq_self (by simp) hdistinct
  rw [build_eq, if_neg hfilled, hkept]

/-- Builds from the same action and key tell what is left of the scopes apart. -/
theorem build_eq_build_iff {action : Action} {xs ys : List Scope} {sourceKey : Option String} :
    build action xs sourceKey = build action ys sourceKey ↔ Scope.prune xs = Scope.prune ys := by
  constructor
  · intro hbuilt
    rw [build_eq, build_eq] at hbuilt
    by_cases hxs : xs = [] <;> by_cases hys : ys = []
    · rw [hxs, hys]
    · simp [hxs, hys] at hbuilt
    · simp [hxs, hys] at hbuilt
    · rw [if_neg hxs, if_neg hys] at hbuilt
      exact congrArg Policy.scopes (Except.ok.inj hbuilt)
  · intro hpruned
    rw [build, build, hpruned]

/-- The builder makes a policy of any scopes but none, while the check of a policy as it
stands refuses repeated scopes as well. Where the check lets a policy through the builder
makes the same one, and it makes the same of two lists of scopes exactly when the same
signatures first occur in them in the same order. -/
theorem build_drops_repetitions (action : Action) (sourceKey : Option String) :
    (∀ scopes, (build action scopes sourceKey).isOk ↔ scopes ≠ []) ∧
    (∀ scopes, (checked ⟨action, scopes, sourceKey⟩).isOk ↔
      scopes ≠ [] ∧ (scopes.map Scope.signature).Nodup) ∧
    (∀ scopes policy, checked ⟨action, scopes, sourceKey⟩ = .ok policy →
      build action scopes sourceKey = .ok policy) ∧
    ∀ xs ys, build action xs sourceKey = build action ys sourceKey ↔
      FirstsAlike (xs.map Scope.signature) (ys.map Scope.signature) := by
  refine ⟨fun scopes => ?_, fun scopes => ?_, fun scopes policy => build_of_checked,
    fun xs ys => build_eq_build_iff.trans Scope.prune_eq_prune_iff⟩
  · rw [build_eq]
    split <;> simp_all [Except.isOk, Except.toBool]
  · exact isOk_checked_iff.trans fault?_eq_none_iff

end Policy

end EventPolicy
