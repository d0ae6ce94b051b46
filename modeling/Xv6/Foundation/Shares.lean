import Mathlib

/-!
# Counts and shares

Items have counts, and holders have shares in them.  The books are balanced if
every count is the total of the shares.  A change that concerns a few holders
keeps the balance if it is even for them.
-/

namespace Shares

variable {holder item : Type}

/-- The count of every item is the total of the shares in it, of which only
finitely many holders have any. -/
def Balanced (count : item → Nat) (share : holder → item → Nat) : Prop :=
  ∃ holders : Finset holder, (∀ other, other ∉ holders → share other = 0) ∧
      ∀ thing, count thing = ∑ one ∈ holders, share one thing

/-- A share of one in at most one item. -/
def single [DecidableEq item] (one : Option item) (thing : item) : Nat :=
  if one = some thing then 1 else 0

@[simp] theorem single_none [DecidableEq item] :
    single (none : Option item) = 0 := by
  funext thing
  simp [single]

theorem single_some [DecidableEq item]
    (thing : item) :
    single (some thing) = Pi.single thing 1 := by
  funext other
  by_cases same : other = thing
  · simp [single, same]
  · have different : ¬thing = other := fun equal => same equal.symm
    simp [single, same, different]

theorem single_pos_iff [DecidableEq item] {one : Option item} :
    0 < single one thing ↔ one = some thing := by
  unfold single
  split
  · rename_i same
    exact iff_of_true Nat.one_pos same
  · rename_i different
    exact iff_of_false (Nat.lt_irrefl 0) different

/-- A sum that changes at one place. -/
theorem sum_change [DecidableEq holder] {holders : Finset holder}
    (before after : holder → Nat)
    (place : holder)
    (inside : place ∈ holders)
    (others : ∀ other, other ≠ place → after other = before other) :
    ∑ one ∈ holders, after one + before place = ∑ one ∈ holders, before one + after place := by
  rw [← Finset.add_sum_erase _ _ inside, ← Finset.add_sum_erase _ before inside]
  have same : ∑ one ∈ holders.erase place, after one = ∑ one ∈ holders.erase place, before one :=
    Finset.sum_congr rfl (fun other away => others other (Finset.ne_of_mem_erase away))
  rw [same]
  omega

/-- Two parts of a sum. -/
theorem pair_le_sum [DecidableEq holder] {holders : Finset holder}
    (parts : holder → Nat)
    (distinct : one ≠ other)
    (inside : one ∈ holders)
    (otherInside : other ∈ holders) :
    parts one + parts other ≤ ∑ some ∈ holders, parts some := by
  rw [← Finset.sum_pair distinct]
  refine Finset.sum_le_sum_of_subset ?_
  rw [Finset.insert_subset_iff, Finset.singleton_subset_iff]
  exact ⟨inside, otherInside⟩

namespace Balanced

variable {count : item → Nat} {share : holder → item → Nat}

/-- Nothing is counted and nobody has a share. -/
theorem zero : Balanced (0 : item → Nat) (0 : holder → item → Nat) :=
  ⟨∅, fun _ _ => rfl, fun _ => rfl⟩

/-- Any set of holders is part of one that counts. -/
theorem exists_superset [DecidableEq holder]
    (balanced : Balanced count share)
    (some : Finset holder) :
    ∃ holders, some ⊆ holders ∧ (∀ other, other ∉ holders → share other = 0) ∧
      ∀ thing, count thing = ∑ one ∈ holders, share one thing := by
  obtain ⟨holders, none, total⟩ := balanced
  refine ⟨holders ∪ some, Finset.subset_union_right, ?_, ?_⟩
  · intro other outside
    exact none other fun inside => outside (Finset.mem_union_left _ inside)
  · intro thing
    rw [total thing]
    refine Finset.sum_subset Finset.subset_union_left ?_
    intro other _ outside
    exact congrFun (none other outside) thing

/-- No share exceeds the count. -/
theorem share_le [DecidableEq holder]
    (balanced : Balanced count share)
    (one : holder)
    (thing : item) :
    share one thing ≤ count thing := by
  obtain ⟨holders, contained, _, total⟩ := balanced.exists_superset {one}
  rw [total thing]
  exact Finset.single_le_sum (f := fun one => share one thing)
    (fun _ _ => Nat.zero_le _) (Finset.singleton_subset_iff.mp contained)

/-- Nor do two. -/
theorem share_add_le [DecidableEq holder]
    (balanced : Balanced count share)
    (one other : holder)
    (distinct : one ≠ other)
    (thing : item) :
    share one thing + share other thing ≤ count thing := by
  obtain ⟨holders, contained, _, total⟩ := balanced.exists_superset {one, other}
  rw [Finset.insert_subset_iff, Finset.singleton_subset_iff] at contained
  rw [total thing]
  exact pair_le_sum (fun some => share some thing) distinct contained.1 contained.2

/-- An item that is counted has a holder. -/
theorem exists_share
    (balanced : Balanced count share)
    (counted : count thing ≠ 0) :
    ∃ one, share one thing ≠ 0 := by
  obtain ⟨holders, _, total⟩ := balanced
  rw [total thing] at counted
  obtain ⟨one, _, positive⟩ := Finset.exists_ne_zero_of_sum_ne_zero counted
  exact ⟨one, positive⟩

variable {newCount : item → Nat} {newShare : holder → item → Nat}

/-- Shares change for some holders only, and evenly so. -/
theorem exchange [DecidableEq holder]
    (balanced : Balanced count share)
    (changed : Finset holder)
    (others : ∀ other, other ∉ changed → newShare other = share other)
    (even : ∀ thing, newCount thing + ∑ one ∈ changed, share one thing =
      count thing + ∑ one ∈ changed, newShare one thing) :
    Balanced newCount newShare := by
  obtain ⟨holders, contained, none, total⟩ := balanced.exists_superset changed
  refine ⟨holders, ?_, ?_⟩
  · intro other outside
    rw [others other fun inside => outside (contained inside), none other outside]
  intro thing
  have same : ∑ one ∈ holders \ changed, newShare one thing =
      ∑ one ∈ holders \ changed, share one thing := by
    refine Finset.sum_congr rfl fun other inside => ?_
    rw [others other (Finset.mem_sdiff.mp inside).2]
  have before := Finset.sum_sdiff (f := fun one => share one thing) contained
  have after := Finset.sum_sdiff (f := fun one => newShare one thing) contained
  have evenly := even thing
  rw [total thing] at evenly
  omega

/-- The shares of one holder change. -/
theorem exchangeOne [DecidableEq holder]
    (balanced : Balanced count share)
    (one : holder)
    (others : ∀ other, other ≠ one → newShare other = share other)
    (even : ∀ thing, newCount thing + share one thing = count thing + newShare one thing) :
    Balanced newCount newShare := by
  refine balanced.exchange {one} ?_ ?_
  · intro other outside
    exact others other fun same => outside (Finset.mem_singleton.mpr same)
  · intro thing
    rw [Finset.sum_singleton, Finset.sum_singleton]
    exact even thing

/-- The shares of two holders change. -/
theorem exchangeTwo [DecidableEq holder]
    (balanced : Balanced count share)
    (one two : holder)
    (distinct : one ≠ two)
    (others : ∀ other, other ≠ one → other ≠ two → newShare other = share other)
    (even : ∀ thing, newCount thing + (share one thing + share two thing) =
      count thing + (newShare one thing + newShare two thing)) :
    Balanced newCount newShare := by
  refine balanced.exchange {one, two} ?_ ?_
  · intro other outside
    rw [Finset.mem_insert, Finset.mem_singleton, not_or] at outside
    exact others other outside.1 outside.2
  · intro thing
    rw [Finset.sum_pair distinct, Finset.sum_pair distinct]
    exact even thing

end Balanced

end Shares
