import EventPolicy.Compiler.Basic
import EventPolicy.Proofs.Compiler.Rules
import EventPolicy.Proofs.Compiler.Runs
import Mathlib.Algebra.BigOperators.Group.List.Basic
import Mathlib.Algebra.GroupWithZero.Nat
import Mathlib.Data.List.Nodup

/-!
The shape of compiled policies. Whatever keys and values a source offers, each
policy that a compiler answers looks at every element once at most, and the
qualifier of its key decides at which elements and in which order (`Shaped`).
What an evaluation does with a policy set relies on this: there is one scope to
ask for an element, only policies that include look at exchanges, and the
policies found by element are as many as there are scopes.
-/

namespace EventPolicy

namespace Scope

/-- A scope that a dialect makes beside others: an event, a filled pattern for a
place, or an expression on the exchange. -/
inductive Placed : Scope → Prop
  | event (kind : EventKind) : Placed (byEvent kind)
  | pattern {element : Element} {pattern : String}
      (helement : element ∈ [Element.bundle, .context, .endpoint]) (hpattern : pattern ≠ "") :
      Placed (byPattern element pattern)
  | exchange (language expression : String) : Placed (byExpression .exchange language expression)

end Scope

/-- What holds of every compiled policy. -/
structure Policy.Shaped (policy : Policy) : Prop where
  distinct : (policy.scopes.map Scope.element).Nodup
  elements : ∃ key qualifier, policy.sourceKey = some key ∧
    (Text.partition key '.').1 = Qualifier.spelling qualifier ∧
    policy.scopes.map Scope.element ∈ Dialect.elementsOf qualifier
  event : ∀ scope ∈ policy.scopes, scope.element = .event →
    scope.method = .oneValue ∧ ∃ kind : EventKind, scope.values.toList = [kind.name]
  listed : ∀ scope ∈ policy.scopes, scope.element = .context → scope.isExpression = false →
    policy.scopes = [scope] ∧ scope.method = .severalValues
  pattern : ∀ scope ∈ policy.scopes,
    scope.element = .bundle ∨ scope.element = .endpoint ∨
      scope.element = .context ∧ scope.isExpression = true →
    scope.method = .expression ∧ scope.language = some Scope.patternLanguage ∧
      ∃ text, scope.expression = some text ∧ text ≠ ""
  exchange : ∀ scope ∈ policy.scopes, scope.element = .exchange → policy.action = .includes

namespace Dialect

theorem placed_of_mem_places {location : List String} (hparts : ∀ part ∈ location, Part part)
    {scope : Scope} (h : scope ∈ places location) : scope.Placed := by
  match location with
  | [] => cases h
  | [bundle] =>
    obtain rfl := List.mem_singleton.mp h
    exact .pattern (by simp) (hparts bundle (by simp)).filled
  | bundle :: context :: rest =>
    simp only [places, List.mem_cons, List.not_mem_nil, or_false] at h
    rcases h with rfl | rfl
    · exact .pattern (by simp) (hparts bundle (by simp)).filled
    · exact .pattern (by simp) (hparts context (by simp)).filled

/-- The scopes of a draft are the contexts of a list or are placed beside each
other. -/
theorem Reads.scopes {remainder value : String} {qualifier : Qualifier} {draft : Draft}
    (h : Reads remainder value qualifier draft) :
    (∃ patterns, draft.scopes = [.byContexts patterns]) ∨
      ∀ scope ∈ draft.scopes, scope.Placed := by
  cases h with
  | camelContext => exact .inl ⟨_, rfl⟩
  | event hform =>
    refine .inr fun scope hscope => ?_
    simp only [List.mem_cons, List.not_mem_nil, or_false] at hscope
    rcases hscope with rfl | rfl | rfl
    · exact .event _
    · exact .pattern (by simp) hform.bundle
    · exact .pattern (by simp) hform.value
  | exchange hform =>
    refine .inr fun scope hscope => ?_
    rcases List.mem_cons.mp hscope with rfl | hscope
    · exact .event _
    · rcases List.mem_cons.mp hscope with rfl | hscope
      · exact .exchange _ _
      · exact placed_of_mem_places
          (fun part hpart => hform.parts part (List.mem_cons_of_mem _ hpart)) hscope
  | endpoint hform =>
    refine .inr fun scope hscope => ?_
    rcases List.mem_cons.mp hscope with rfl | hscope
    · exact .pattern (by simp) hform.value
    · exact placed_of_mem_places
        (fun part hpart => hform.parts part (List.mem_cons_of_mem _ hpart)) hscope

theorem eq_exchange_of_mem_elementsOf {qualifier : Qualifier} {elements : List Element}
    (h : elements ∈ elementsOf qualifier) (hexchange : .exchange ∈ elements) :
    qualifier = .exchange := by
  revert elements
  cases qualifier <;> decide

/-- Only drafts that include look at the exchange. -/
theorem Reads.action_of_exchange {remainder value : String} {qualifier : Qualifier} {draft : Draft}
    (h : Reads remainder value qualifier draft)
    (hexchange : Element.exchange ∈ draft.scopes.map Scope.element) :
    draft.action = .includes := by
  obtain rfl := eq_exchange_of_mem_elementsOf h.elements hexchange
  cases h
  rfl

end Dialect

namespace Listing

open Dialect

theorem shaped_of_compiled {lenient : Bool} {key text : String} {policy : Policy}
    (h : compileEntry lenient key (.string text) = .compiled policy) : policy.Shaped := by
  obtain ⟨qualifier, remainder, draft, hkey, hreads, rfl⟩ := reads_of_compiled h
  have hcut := (partition_eq_spelling_iff hreads.inOrder.remainder_ne_empty qualifier).mpr hkey
  constructor
  case distinct => exact nodup_of_mem_elementsOf hreads.elements
  case elements => exact ⟨key, qualifier, rfl, by rw [hcut], hreads.elements⟩
  case exchange =>
    intro scope hscope hexchange
    exact hreads.action_of_exchange (hexchange ▸ List.mem_map_of_mem hscope)
  case event =>
    intro scope hscope hevent
    rcases hreads.scopes with ⟨patterns, hscopes⟩ | hplaced
    · obtain rfl := List.mem_singleton.mp (hscopes ▸ hscope)
      cases hevent
    · cases hplaced scope hscope with
      | event kind => exact ⟨rfl, kind, rfl⟩
      | pattern helement hpattern =>
        cases hevent
        simp at helement
      | exchange language expression => cases hevent
  case listed =>
    intro scope hscope hcontext hlisted
    rcases hreads.scopes with ⟨patterns, hscopes⟩ | hplaced
    · obtain rfl := List.mem_singleton.mp (hscopes ▸ hscope)
      exact ⟨hscopes, rfl⟩
    · cases hplaced scope hscope with
      | event kind => cases hcontext
      | pattern helement hpattern => cases hlisted
      | exchange language expression => cases hlisted
  case pattern =>
    intro scope hscope hplace
    rcases hreads.scopes with ⟨patterns, hscopes⟩ | hplaced
    · obtain rfl := List.mem_singleton.mp (hscopes ▸ hscope)
      simp [Scope.byContexts, Scope.isExpression] at hplace
    · cases hplaced scope hscope with
      | event kind => simp [Scope.byEvent] at hplace
      | pattern helement hpattern => exact ⟨rfl, rfl, _, rfl, hpattern⟩
      | exchange language expression => simp [Scope.byExpression] at hplace

/-- Only a text as value makes a policy. -/
theorem text_of_compiled {lenient : Bool} {key : String} {value : Value} {policy : Policy}
    (h : compileEntry lenient key value = .compiled policy) : ∃ text, value = .string text := by
  cases htext : value.asText? with
  | some text =>
    cases value <;> cases htext
    exact ⟨text, rfl⟩
  | none =>
    unfold compileEntry at h
    simp only at h
    split at h
    · cases h
    · split at h
      · next made => exact (policyOfValue_ne_ok htext _ made).elim
      · split at h <;> cases h
      · cases h

/-- Every policy of a build has the shape of compiled policies. -/
theorem shaped_of_build {listing : Listing} {lenient : Bool} {set : PolicySet}
    (h : (listing.build lenient).result = .ok set) : ∀ policy ∈ set.policies, policy.Shaped := by
  intro policy hpolicy
  rw [(listing.policies_of_build h).2] at hpolicy
  obtain ⟨key, _, hkey⟩ := List.mem_filterMap.mp hpolicy
  have hcompiled := KeyOutcome.policy?_eq_some_iff.mp hkey
  unfold compileKey at hcompiled
  split at hcompiled
  · cases hcompiled
  · next value _ =>
    obtain ⟨text, rfl⟩ := text_of_compiled hcompiled
    exact shaped_of_compiled hcompiled

end Listing

namespace Policy

theorem Shaped.length_scopesFor_le {policy : Policy} (h : policy.Shaped) (element : Element) :
    (policy.scopesFor element).length ≤ 1 := by
  have hcount := List.nodup_iff_count_le_one.mp h.distinct element
  rw [List.count, List.countP_map, List.countP_eq_length_filter] at hcount
  exact hcount

theorem isEmpty_scopesFor_eq_false_iff {policy : Policy} {element : Element} :
    (policy.scopesFor element).isEmpty = false ↔ element ∈ policy.scopes.map Scope.element := by
  simp [scopesFor]

/-- A policy looks at as many elements as it has scopes. -/
theorem Shaped.countP_elements {policy : Policy} (h : policy.Shaped) :
    Element.all.countP (fun element => !(policy.scopesFor element).isEmpty) =
      policy.scopes.length := by
  have hall : Element.all.Nodup := by decide
  have hperm : (Element.all.filter fun element => !(policy.scopesFor element).isEmpty).Perm
      (policy.scopes.map Scope.element) := by
    refine (List.perm_ext_iff_of_nodup (hall.filter _) h.distinct).mpr fun element => ?_
    have hlisted : element ∈ Element.all := by cases element <;> decide
    simp only [List.mem_filter, hlisted, true_and, Bool.not_eq_true',
      isEmpty_scopesFor_eq_false_iff]
  rw [List.countP_eq_length_filter, hperm.length_eq, List.length_map]

end Policy

namespace PolicySet

theorem countP_eq_sum {α : Type} (holds : α → Bool) (items : List α) :
    items.countP holds = (items.map fun item => if holds item then 1 else 0).sum := by
  induction items with
  | nil => rfl
  | cons first rest ih => simp [List.countP_cons, ih, Nat.add_comm]

/-- Pairs may be counted by their first or by their second member. -/
theorem sum_countP_comm {α β : Type} (holds : α → β → Bool) (items : List α) (others : List β) :
    (items.map fun item => others.countP (holds item)).sum =
      (others.map fun other => items.countP fun item => holds item other).sum := by
  induction others with
  | nil => simp
  | cons first rest ih =>
    simp only [List.countP_cons, List.sum_map_add, ih, List.map_cons, List.sum_cons]
    rw [countP_eq_sum, Nat.add_comm]

/-- The policies found by element are together as many as the scopes. -/
theorem sum_length_byElement {set : PolicySet} (h : ∀ policy ∈ set.policies, policy.Shaped) :
    (Element.all.map fun element => (set.byElement element).length).sum =
      (set.policies.map fun policy => policy.scopes.length).sum := by
  simp only [byElement, ← List.countP_eq_length_filter]
  rw [sum_countP_comm]
  refine congrArg List.sum (List.map_congr_left fun policy hpolicy => ?_)
  exact (h policy hpolicy).countP_elements

/-- No policy that looks at the exchange excludes. -/
theorem not_mem_excludes {set : PolicySet} (h : ∀ policy ∈ set.policies, policy.Shaped)
    {policy : Policy} (hpolicy : policy ∈ set.byElement .exchange) : policy ∉ set.excludes := by
  obtain ⟨hmember, hlooks⟩ := List.mem_filter.mp hpolicy
  have hlooked : Element.exchange ∈ policy.scopes.map Scope.element :=
    Policy.isEmpty_scopesFor_eq_false_iff.mp (by simpa using hlooks)
  obtain ⟨scope, hscope, hexchange⟩ := List.mem_map.mp hlooked
  have hincludes := (h policy hmember).exchange scope hscope hexchange
  simp [excludes, hincludes]

end PolicySet

namespace Compiler.Run

/-- Every policy set that a compiler answers in any run, whatever the sources
offer, holds shaped policies only. So an element has one scope at most in a
policy, no policy that looks at the exchange excludes, and the policies found by
element are together as many as the scopes of the set. -/
theorem shown_policies_shaped (lenient : Bool) (reads : Nat) (source : Listing)
    (operations : List Operation) {entry : Entry} {edition : Edition}
    (hentry : entry ∈ ((begin lenient reads source).perform operations).history)
    (hshows : entry.Shows edition) :
    (∀ policy ∈ edition.policies.policies, policy.Shaped) ∧
    (∀ policy ∈ edition.policies.policies, ∀ element, (policy.scopesFor element).length ≤ 1) ∧
    (∀ policy ∈ edition.policies.byElement .exchange, policy ∉ edition.policies.excludes) ∧
    (Element.all.map fun element => (edition.policies.byElement element).length).sum =
      (edition.policies.policies.map fun policy => policy.scopes.length).sum := by
  obtain ⟨listing, hbuild⟩ := built_of_shows (consistent_begin lenient reads source)
    (by simp [begin]) operations entry hentry edition hshows
  have hshaped := Listing.shaped_of_build hbuild
  exact ⟨hshaped, fun policy hpolicy => (hshaped policy hpolicy).length_scopesFor_le,
    fun policy => PolicySet.not_mem_excludes hshaped, PolicySet.sum_length_byElement hshaped⟩

/-- One policy on the exchange and one on contexts, recompiled and looked at. -/
theorem shown_policies_shaped_of_exchange :
    let listing := Listing.ofEntries
      [("exchange.filter.exchangesent.xpath/org.acme", .string "//order"),
        ("camelContext.exclude", .string "audit")]
    let edition : Edition := ⟨0, ⟨[
      ⟨.includes, [.byEvent .exchangeSent, .byExpression .exchange "xpath" "//order",
        .byPattern .bundle "org.acme"], some "exchange.filter.exchangesent.xpath/org.acme"⟩,
      ⟨.excludes, [.byContexts ["audit"]], some "camelContext.exclude"⟩]⟩⟩
    (∃ entry ∈ ((begin false 0 listing).perform [.recompile, .current]).history,
      entry.Shows edition) ∧
    (∀ policy ∈ edition.policies.policies, policy.Shaped) ∧
    (∀ policy ∈ edition.policies.policies, ∀ element, (policy.scopesFor element).length ≤ 1) ∧
    (∀ policy ∈ edition.policies.byElement .exchange, policy ∉ edition.policies.excludes) ∧
    (Element.all.map fun element => (edition.policies.byElement element).length).sum =
      (edition.policies.policies.map fun policy => policy.scopes.length).sum := by
  intro listing edition
  have hentry : ⟨.current, listing, .snapshot (some edition), 0⟩ ∈
      ((begin false 0 listing).perform [.recompile, .current]).history := List.mem_cons_self
  exact ⟨⟨_, hentry, .inr rfl⟩, shown_policies_shaped false 0 listing _ hentry (.inr rfl)⟩

end Compiler.Run

end EventPolicy
