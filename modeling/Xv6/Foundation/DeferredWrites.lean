import Mathlib.Data.List.Basic

/-!
# Deferred writes and redo logs

A store maps addresses to contents.  A deferred write computes its target and
its contents from the store at the moment it is performed, so a list of
deferred writes describes an operation whose later writes read what earlier
ones left behind.  Cutting the operation off after some number of writes is
performing a prefix of the list.

A redo list copies slots to homes.  As long as no home is itself a slot, a
partly performed redo can be performed again from the start with the same
result, which is what makes recovery from a redo log idempotent.
-/

namespace DeferredWrites

open Function

variable {σ β : Type} [DecidableEq σ]

/-- A write whose target and contents depend on the current store. -/
abbrev Write (σ β : Type) := (σ → β) → σ × β

/-- Perform one write. -/
def perform (write : Write σ β) (store : σ → β) : σ → β :=
  update store (write store).1 (write store).2

/-- Perform a list of writes in order. -/
def performAll : List (Write σ β) → (σ → β) → σ → β
  | [], store => store
  | write :: writes, store => performAll writes (perform write store)

@[simp] theorem performAll_nil (store : σ → β) :
    performAll [] store = store := rfl

@[simp] theorem performAll_cons
    (write : Write σ β)
    (writes : List (Write σ β))
    (store : σ → β) :
    performAll (write :: writes) store = performAll writes (perform write store) := rfl

theorem performAll_append
    (first second : List (Write σ β))
    (store : σ → β) :
    performAll (first ++ second) store = performAll second (performAll first store) := by
  induction first generalizing store with
  | nil => rfl
  | cons write writes ih =>
    simp [ih]

/-- A write that always stores the same contents at the same address. -/
def put (address : σ) (contents : β) : Write σ β :=
  fun _ => (address, contents)

/-- A write that copies one address to another. -/
def copy (target source : σ) : Write σ β :=
  fun store => (target, store source)

variable {store : σ → β} {address : σ} {entries : List (σ × σ)}

/-- A write that leaves an address alone does not change it. -/
theorem perform_of_ne (other : address ≠ (write store).1) :
    perform write store address = store address :=
  update_of_ne other _ _

/-- Addresses outside the targets of every write keep their contents. -/
theorem performAll_of_avoids (avoids : ∀ write ∈ writes, ∀ current, (write current).1 ≠ address) :
    performAll writes store address = store address := by
  induction writes generalizing store with
  | nil => rfl
  | cons write writes ih =>
    rw [performAll_cons, ih]
    · exact perform_of_ne (avoids write List.mem_cons_self store).symm
    · intro later present
      exact avoids later (List.mem_cons_of_mem _ present)

/-! ## Assignments

The effect of a whole operation, as a list of address and contents pairs of
which the last one for an address counts. -/

/-- Store a list of contents in order. -/
def assign : List (σ × β) → (σ → β) → σ → β
  | [], store => store
  | entry :: entries, store =>
    assign entries (update store entry.1 entry.2)

@[simp] theorem assign_nil (store : σ → β) : assign [] store = store := rfl

@[simp] theorem assign_cons
    (entry : σ × β)
    (entries : List (σ × β))
    (store : σ → β) :
    assign (entry :: entries) store = assign entries (update store entry.1 entry.2) := rfl

theorem assign_append
    (first second : List (σ × β))
    (store : σ → β) :
    assign (first ++ second) store = assign second (assign first store) := by
  induction first generalizing store with
  | nil => rfl
  | cons entry entries ih => simp [ih]

theorem assign_of_avoids {entries : List (σ × β)}
    (avoids : ∀ entry ∈ entries, entry.1 ≠ address) :
    assign entries store address = store address := by
  induction entries generalizing store with
  | nil => rfl
  | cons entry entries ih =>
    have other := avoids entry List.mem_cons_self
    rw [assign_cons, ih]
    · exact update_of_ne other.symm _ _
    · intro later present
      exact avoids later (List.mem_cons_of_mem _ present)

/-- The result at an address depends on the old store only when nothing is
assigned there. -/
theorem assign_congr {entries : List (σ × β)}
    (agree : (∃ entry ∈ entries, entry.1 = address) ∨ left address = right address) :
    assign entries left address = assign entries right address := by
  induction entries generalizing left right with
  | nil =>
    rcases agree with ⟨entry, present, _⟩ | same
    · simp at present
    · exact same
  | cons entry entries ih =>
    apply ih
    by_cases here : entry.1 = address
    · right
      simp [here]
    · rcases agree with ⟨other, present, target⟩ | same
      · rcases List.mem_cons.mp present with rfl | later
        · exact absurd target here
        · exact Or.inl ⟨other, later, target⟩
      · right
        rw [update_of_ne (Ne.symm here), update_of_ne (Ne.symm here), same]

/-- An address assigned once, among distinct addresses, holds the contents
assigned to it. -/
theorem assign_of_mem_nodup {entries : List (σ × β)}
    (nodup : (entries.map Prod.fst).Nodup)
    (present : (address, contents) ∈ entries) :
    assign entries store address = contents := by
  induction entries generalizing store with
  | nil => simp at present
  | cons entry entries ih =>
    simp only [List.map_cons, List.nodup_cons] at nodup
    rw [assign_cons]
    rcases List.mem_cons.mp present with rfl | later
    · rw [assign_of_avoids]
      · simp
      · intro other otherPresent equal
        have member := List.mem_map_of_mem (f := Prod.fst) otherPresent
        rw [equal] at member
        exact nodup.1 member
    · exact ih nodup.2 later

/-! ## Redo lists -/

/-- The deferred copies of a redo list of homes and slots. -/
def redo (entries : List (σ × σ)) : List (Write σ β) :=
  entries.map fun entry => copy entry.1 entry.2

/-- No home of the redo list is one of its slots. -/
def Separated (entries : List (σ × σ)) : Prop :=
  ∀ home ∈ entries, ∀ slot ∈ entries, home.1 ≠ slot.2

omit [DecidableEq σ] in
theorem Separated.tail (separated : Separated (entry :: entries)) :
    Separated entries := by
  intro home homePresent slot slotPresent
  exact separated home (List.mem_cons_of_mem _ homePresent)
    slot (List.mem_cons_of_mem _ slotPresent)

/-- The entries a redo list assigns when the slots are read from `store`. -/
def redoEntries (entries : List (σ × σ)) (store : σ → β) : List (σ × β) :=
  entries.map fun entry => (entry.1, store entry.2)

omit [DecidableEq σ] in
theorem redoEntries_congr {left right : σ → β}
    (agree : ∀ entry ∈ entries, left entry.2 = right entry.2) :
    redoEntries entries left = redoEntries entries right := by
  apply List.map_congr_left
  intro entry present
  rw [agree entry present]

/-- A separated redo list assigns to the homes what its slots held at the
start. -/
theorem performAll_redo
    (separated : Separated entries)
    (store : σ → β) :
    performAll (redo entries) store = assign (redoEntries entries store) store := by
  induction entries generalizing store with
  | nil => rfl
  | cons entry entries ih =>
    have sameSlots : redoEntries entries (update store entry.1 (store entry.2)) =
        redoEntries entries store := by
      apply redoEntries_congr
      intro later present
      exact update_of_ne (separated entry List.mem_cons_self later
          (List.mem_cons_of_mem _ present)).symm _ _
    change performAll (redo entries) (update store entry.1 (store entry.2)) = _
    rw [ih separated.tail, sameSlots]
    rfl

/-- A redo cut off after some copies does not disturb the slots. -/
theorem performAll_redo_take_slot
    (separated : Separated entries)
    (count : Nat)
    (store : σ → β)
    (present : entry ∈ entries) :
    performAll (redo (entries.take count)) store entry.2 = store entry.2 := by
  apply performAll_of_avoids
  intro write writePresent current
  obtain ⟨home, homePresent, rfl⟩ := List.mem_map.mp writePresent
  exact separated home (List.mem_of_mem_take homePresent) entry present

/-- Redo is idempotent across interruptions: performing it from the start
after any prefix of it gives the result of performing it once. -/
theorem performAll_redo_take
    (separated : Separated entries)
    (count : Nat)
    (store : σ → β) :
    performAll (redo entries) (performAll (redo (entries.take count)) store) =
      performAll (redo entries) store := by
  rw [performAll_redo separated, performAll_redo separated store]
  rw [redoEntries_congr fun entry present =>
    performAll_redo_take_slot separated count store present]
  funext address
  apply assign_congr
  by_cases assigned : ∃ entry ∈ redoEntries entries store, entry.1 = address
  · exact Or.inl assigned
  · right
    apply performAll_of_avoids
    intro write writePresent current equal
    obtain ⟨home, homePresent, rfl⟩ := List.mem_map.mp writePresent
    apply assigned
    exact ⟨(home.1, store home.2), List.mem_map_of_mem (List.mem_of_mem_take homePresent), equal⟩

end DeferredWrites
