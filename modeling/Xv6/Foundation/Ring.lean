import Mathlib.Data.UInt

/-!
# Streams through a ring

A ring of fixed size holds a window of a growing stream: the element at a
position of the stream is in the slot of that position modulo the size.
Counters that wrap at 2 ^ 32 name the same slots if the size divides 2 ^ 32.
-/

namespace Ring

variable {α : Type} {size : Nat} [NeZero size]

/-- The slot of a position. -/
def slot (size : Nat) [NeZero size] (position : Nat) : Fin size :=
  ⟨position % size, Nat.mod_lt _ (Nat.pos_of_neZero size)⟩

variable {low high : Nat} {data : Fin size → α} {stream : List α}

/-- Positions less than a turn apart have different slots. -/
theorem slot_ne
    (less : low < high)
    (near : high < low + size) :
    slot size low ≠ slot size high := by
  intro same
  have equal : low % size = high % size := congrArg Fin.val same
  have divides : size ∣ high - low := (Nat.modEq_iff_dvd' less.le).mp equal
  have bound := Nat.le_of_dvd (by omega) divides
  omega

/-- The ring holds the stream from a position on. -/
structure Holds (data : Fin size → α) (stream : List α) (first : Nat) : Prop where
  /-- The window is no longer than the ring. -/
  bound : stream.length ≤ first + size
  /-- Every element of the window is in its slot. -/
  element : ∀ position, first ≤ position → position < stream.length →
    stream[position]? = some (data (slot size position))

theorem holds_nil (data : Fin size → α) : Holds data [] 0 where
  bound := Nat.zero_le _
  element := fun _ _ within => absurd within (Nat.not_lt_zero _)

/-- The next element goes into the slot after the window. -/
theorem Holds.put
    (holds : Holds data stream first)
    (room : stream.length < first + size)
    (value : α) :
    Holds (Function.update data (slot size stream.length) value) (stream ++ [value]) first where
  bound := by
    rw [List.length_append, List.length_singleton]
    omega
  element := by
    intro position from_first within
    rw [List.length_append, List.length_singleton] at within
    by_cases last : position = stream.length
    · rw [last, Function.update_self, List.getElem?_append_right le_rfl, Nat.sub_self]
      rfl
    · have before : position < stream.length := by omega
      have different : slot size position ≠ slot size stream.length :=
        slot_ne before (by omega)
      rw [Function.update_of_ne different, List.getElem?_append_left before]
      exact holds.element position from_first before

/-- The window moves on. -/
theorem Holds.advance
    (holds : Holds data stream first)
    (later : first ≤ next) :
    Holds data stream next where
  bound := holds.bound.trans (Nat.add_le_add_right later size)
  element := fun position reached within => holds.element position (later.trans reached) within

/-- The end of the stream is taken back. -/
theorem Holds.take
    (holds : Holds data stream first)
    (count : Nat) :
    Holds data (stream.take count) first where
  bound := (List.length_take_le' _ _).trans holds.bound
  element := by
    intro position from_first within
    rw [List.length_take] at within
    rw [List.getElem?_take_of_lt (by omega)]
    exact holds.element position from_first (by omega)

/-! ## Counters -/

/-- A counter names the slot of the position it counts. -/
theorem slot_toNat_ofNat
    (divides : size ∣ 2 ^ 32)
    (position : Nat) :
    slot size (UInt32.ofNat position).toNat = slot size position := by
  apply Fin.ext
  show (UInt32.ofNat position).toNat % size = position % size
  rw [UInt32.toNat_ofNat', Nat.mod_mod_of_dvd _ divides]

/-- The distance of two counters is the distance of what they count. -/
theorem toNat_sub_ofNat
    (ordered : low ≤ high)
    (near : high < low + 2 ^ 32) :
    (UInt32.ofNat high - UInt32.ofNat low).toNat = high - low := by
  rw [UInt32.toNat_sub, UInt32.toNat_ofNat', UInt32.toNat_ofNat']
  omega

theorem ofNat_eq_iff
    (ordered : low ≤ high)
    (near : high < low + 2 ^ 32) :
    UInt32.ofNat high = UInt32.ofNat low ↔ high = low := by
  constructor
  · intro same
    have equal := congrArg UInt32.toNat same
    rw [UInt32.toNat_ofNat', UInt32.toNat_ofNat'] at equal
    omega
  · intro same
    rw [same]

end Ring
