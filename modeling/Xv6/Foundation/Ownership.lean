import Mathlib.Logic.Function.Basic

/-!
# Ownership of numbered resources

Places hold the numbers of resources, zero for none, and a table says which
resources are in use.  A ledger is a pair of the two in which no resource is
held twice and every held resource is in use; it is exact if every resource in
use is held.
-/

namespace Ownership

variable {place : Type}

/-- The places and the table agree.  Resources outside the region are not
handed out, and `exact` says whether the table has no entry without a
holder. -/
structure Ledger (region : Nat → Prop) (exact : Prop) (used : Nat → Bool)
    (held : place → Nat) : Prop where
  /-- Zero is no resource. -/
  positive : ∀ resource, region resource → resource ≠ 0
  /-- Places hold resources of the region. -/
  inRegion : ∀ site, held site ≠ 0 → region (held site)
  /-- Resources that are held are in use. -/
  inUse : ∀ site, held site ≠ 0 → used (held site) = true
  /-- No resource is held by two places. -/
  single : ∀ site other, held site ≠ 0 → held site = held other → site = other
  /-- Resources in use are held. -/
  complete : exact → ∀ resource, region resource → used resource = true →
    ∃ site, held site = resource

namespace Ledger

variable {region : Nat → Prop} {exact : Prop} {used : Nat → Bool}
  {held : place → Nat}

/-- A resource that is not in use is not held. -/
theorem held_ne
    (ledger : Ledger region exact used held)
    (inside : region resource)
    (unused : used resource = false)
    (site : place) :
    held site ≠ resource := by
  rintro rfl
  have inUse := ledger.inUse site (ledger.positive _ inside)
  rw [unused] at inUse
  cases inUse

/-- An empty place takes an unused resource. -/
theorem grow [DecidableEq place]
    (ledger : Ledger region exact used held)
    (empty : held site = 0)
    (inside : region resource)
    (unused : used resource = false)
    (usedEq : ∀ other, region other → newUsed other = if resource = other then true else used other)
    (heldEq : ∀ other, newHeld other = if other = site then resource else held other) :
    Ledger region exact newUsed newHeld := by
  have elsewhere : ∀ other, held other ≠ resource :=
    ledger.held_ne inside unused
  have regionOf : ∀ other, newHeld other ≠ 0 → region (newHeld other) := by
    intro other holds
    rw [heldEq] at holds ⊢
    split
    · exact inside
    · rename_i different
      rw [if_neg different] at holds
      exact ledger.inRegion other holds
  refine ⟨ledger.positive, regionOf, ?_, ?_, ?_⟩
  · intro other holds
    rw [usedEq _ (regionOf other holds)]
    split
    · rfl
    · rename_i notNew
      rw [heldEq] at holds notNew ⊢
      by_cases same : other = site
      · rw [if_pos same] at notNew
        exact absurd rfl notNew
      · rw [if_neg same] at holds ⊢
        exact ledger.inUse other holds
  · intro one two holds equal
    rw [heldEq] at holds equal
    rw [heldEq two] at equal
    by_cases first : one = site
    · by_cases second : two = site
      · rw [first, second]
      · rw [if_pos first, if_neg second] at equal
        exact absurd equal.symm (elsewhere two)
    · rw [if_neg first] at holds equal
      by_cases second : two = site
      · rw [if_pos second] at equal
        exact absurd equal (elsewhere one)
      · rw [if_neg second] at equal
        exact ledger.single one two holds equal
  · intro isExact other inRegion inUse
    rw [usedEq other inRegion] at inUse
    by_cases new : resource = other
    · exact ⟨site, by rw [heldEq, if_pos rfl, new]⟩
    · rw [if_neg new] at inUse
      obtain ⟨holder, holds⟩ := ledger.complete isExact other inRegion inUse
      refine ⟨holder, ?_⟩
      rw [heldEq, if_neg, holds]
      rintro rfl
      rw [empty] at holds
      exact ledger.positive other inRegion holds.symm

end Ledger
end Ownership
