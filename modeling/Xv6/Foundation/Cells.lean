import Mathlib.Data.List.Basic
import Mathlib.Tactic.Ring
import Mathlib.Tactic.Linarith

/-!
# Fixed-length byte cells

A cell is an array of bytes of a fixed length: a disk sector, a page of
memory.  It is kept as the number whose digits to the base 256 are its bytes,
which makes runs over many cells quick to evaluate.  Programs see a cell
through ranges of bytes and through little-endian words, so the two operations
of this module are the byte range read `slice` and the byte range write
`splice`; the words are built on them.
-/

namespace Cells

/-- An array of `length` bytes. -/
@[ext] structure Cell (length : Nat) where
  /-- The number with these bytes as digits, the first byte the lowest. -/
  number : Nat
  /-- There are no digits behind the last byte. -/
  bound : number < 256 ^ length
  deriving DecidableEq

/-! ## Little-endian numbers -/

/-- The lowest `width` bytes of a number, the lowest byte first. -/
def leBytes : (width : Nat) → Nat → List UInt8
  | 0, _ => []
  | width + 1, value => UInt8.ofNat value :: leBytes width (value / 256)

/-- The number whose lowest byte comes first. -/
def leNat : List UInt8 → Nat
  | [] => 0
  | byte :: bytes => byte.toNat + 256 * leNat bytes

@[simp] theorem length_leBytes (width value : Nat) :
    (leBytes width value).length = width := by
  induction width generalizing value with
  | zero => rfl
  | succ width ih =>
    simp [leBytes, ih]

/-- Reading back the low bytes of a number gives it modulo the range. -/
theorem leNat_leBytes (width value : Nat) :
    leNat (leBytes width value) = value % 256 ^ width := by
  induction width generalizing value with
  | zero => simp [leBytes, leNat, Nat.mod_one]
  | succ width ih =>
    have byteRange : (2 : Nat) ^ 8 = 256 := rfl
    simp only [leBytes, leNat, ih, UInt8.toNat_ofNat', byteRange]
    rw [pow_succ' 256 width, Nat.mod_mul]

variable {width value index : Nat}

theorem leNat_leBytes_of_lt (fits : value < 256 ^ width) :
    leNat (leBytes width value) = value := by
  rw [leNat_leBytes, Nat.mod_eq_of_lt fits]

theorem leNat_lt (bytes : List UInt8) :
    leNat bytes < 256 ^ bytes.length := by
  induction bytes with
  | nil => simp [leNat]
  | cons byte bytes ih =>
    have byteBound := byte.toNat_lt
    simp only [leNat, List.length_cons, Nat.pow_succ']
    omega

/-! ## Digits -/

/-- A digit of a number to the base 256. -/
def digit (value index : Nat) : Nat := value / 256 ^ index % 256

theorem digit_mod (inside : index < width) :
    digit (value % 256 ^ width) index = digit value index := by
  have split : 256 ^ width = 256 ^ index * 256 ^ (width - index) := by
    rw [← pow_add]
    congr 1
    omega
  have divides : 256 ∣ 256 ^ (width - index) :=
    dvd_pow_self 256 (by omega)
  rw [digit, split, Nat.mod_mul_right_div_self, Nat.mod_mod_of_dvd _ divides, digit]

theorem digit_of_lt
    (small : value < 256 ^ width)
    (behind : width ≤ index) :
    digit value index = 0 := by
  have below : value < 256 ^ index :=
    lt_of_lt_of_le small (Nat.pow_le_pow_right (by decide) behind)
  rw [digit, Nat.div_eq_of_lt below]

/-- The digits of a number below the place where another one is put on top. -/
theorem digit_add_low (inside : index < width) :
    digit (low + 256 ^ width * high) index = digit low index := by
  rw [← digit_mod inside, Nat.add_mul_mod_self_left, digit_mod inside]

/-- The digits of a number that is put on top of another one. -/
theorem digit_add_high
    (small : low < 256 ^ width)
    (above : width ≤ index) :
    digit (low + 256 ^ width * high) index = digit high (index - width) := by
  have split : 256 ^ index = 256 ^ width * 256 ^ (index - width) := by
    rw [← pow_add]
    congr 1
    omega
  have positive : 0 < 256 ^ width := Nat.pow_pos (by decide)
  rw [digit, split, ← Nat.div_div_eq_div_mul, Nat.add_mul_div_left _ _ positive,
    Nat.div_eq_of_lt small, Nat.zero_add, digit]

theorem digit_div (value index places : Nat) :
    digit (value / 256 ^ places) index = digit value (places + index) := by
  rw [digit, Nat.div_div_eq_div_mul, ← pow_add, digit]

theorem digit_leNat (bytes : List UInt8) (index : Nat) :
    digit (leNat bytes) index = (bytes.getD index 0).toNat := by
  induction bytes generalizing index with
  | nil => simp [leNat, digit]
  | cons byte bytes ih =>
    have byteBound : byte.toNat < 256 ^ 1 := byte.toNat_lt
    have top : leNat (byte :: bytes) = byte.toNat + 256 ^ 1 * leNat bytes := by
      rw [pow_one]
      rfl
    cases index with
    | zero =>
      rw [top, digit_add_low (by omega), digit, pow_zero, Nat.div_one,
        Nat.mod_eq_of_lt (by rwa [pow_one] at byteBound), List.getD_cons_zero]
    | succ index =>
      rw [top, digit_add_high byteBound (by omega), Nat.add_sub_cancel, ih, List.getD_cons_succ]

/-! ## Byte ranges -/

namespace Cell

/-- One byte of a cell; bytes past the end read as zero. -/
def byte (cell : Cell length) (index : Nat) : UInt8 :=
  UInt8.ofNat (cell.number / 256 ^ index)

/-- The bytes of a range. -/
def slice (cell : Cell length) (start count : Nat) : List UInt8 :=
  (List.range count).map fun index => cell.byte (start + index)

/-- Overwrite the bytes from `start` on by a list of bytes. -/
def splice (cell : Cell length) (start : Nat) (bytes : List UInt8) : Cell length where
  number :=
    (cell.number % 256 ^ start + 256 ^ start * (leNat bytes +
      256 ^ bytes.length * (cell.number / 256 ^ (start + bytes.length)))) % 256 ^ length
  bound := Nat.mod_lt _ (Nat.pow_pos (by decide))

/-- The cell that holds only zero bytes. -/
def zero : Cell length where
  number := 0
  bound := Nat.pow_pos (by decide)

theorem toNat_byte (cell : Cell length) (index : Nat) :
    (cell.byte index).toNat = digit cell.number index := by
  rw [byte, UInt8.toNat_ofNat', digit]

@[simp] theorem byte_zero (index : Nat) :
    (zero : Cell length).byte index = 0 := by
  simp [byte, zero]

variable {index start : Nat} {bytes : List UInt8} {other width value : Nat}

theorem byte_eq_zero
    (cell : Cell length)
    (behind : length ≤ index) :
    cell.byte index = 0 := by
  apply UInt8.toNat.inj
  rw [toNat_byte, digit_of_lt cell.bound behind]
  rfl

@[simp] theorem length_slice (cell : Cell length) (start count : Nat) :
    (cell.slice start count).length = count := by
  simp [slice]

theorem getElem?_slice
    (cell : Cell length)
    (start count index : Nat) :
    (cell.slice start count)[index]? =
      if index < count then some (cell.byte (start + index)) else none := by
  by_cases inside : index < count
  · simp [slice, inside]
  · simp [slice, inside]

theorem slice_congr {left right : Cell length}
    (agree : ∀ index, index < count → left.byte (start + index) = right.byte (start + index)) :
    left.slice start count = right.slice start count := by
  apply List.map_congr_left
  intro index present
  exact agree index (List.mem_range.mp present)

/-- A byte inside the spliced range is the new byte. -/
theorem byte_splice_inside
    (cell : Cell length)
    (bound : index < length)
    (lower : start ≤ index)
    (upper : index < start + bytes.length) :
    (cell.splice start bytes).byte index = bytes.getD (index - start) 0 := by
  have low : cell.number % 256 ^ start < 256 ^ start :=
    Nat.mod_lt _ (Nat.pow_pos (by decide))
  apply UInt8.toNat.inj
  rw [toNat_byte, splice, digit_mod bound, digit_add_high low lower,
    digit_add_low (by omega), digit_leNat]

/-- A byte outside the spliced range is unchanged. -/
theorem byte_splice_outside
    (cell : Cell length)
    (outside : index < start ∨ start + bytes.length ≤ index) :
    (cell.splice start bytes).byte index = cell.byte index := by
  have low : cell.number % 256 ^ start < 256 ^ start :=
    Nat.mod_lt _ (Nat.pow_pos (by decide))
  by_cases bound : index < length
  · apply UInt8.toNat.inj
    rw [toNat_byte, toNat_byte, splice, digit_mod bound]
    rcases outside with before | behind
    · rw [digit_add_low before, digit_mod before]
    · rw [digit_add_high low (by omega), digit_add_high (leNat_lt bytes) (by omega), digit_div]
      congr 1
      omega
  · rw [byte_eq_zero _ (by omega), byte_eq_zero _ (by omega)]

/-- Reading a range just written gives the bytes written. -/
theorem slice_splice_same
    (cell : Cell length)
    (start : Nat)
    (bytes : List UInt8)
    (fits : start + bytes.length ≤ length) :
    (cell.splice start bytes).slice start bytes.length = bytes := by
  apply List.ext_getElem?
  intro index
  rw [getElem?_slice]
  by_cases inside : index < bytes.length
  · rw [if_pos inside, byte_splice_inside cell (by omega) (by omega) (by omega)]
    simp [inside]
  · rw [if_neg inside, List.getElem?_eq_none (by omega)]

/-- Reading a range disjoint from the one written. -/
theorem slice_splice_disjoint
    (cell : Cell length)
    {start other count : Nat}
    (disjoint : other + count ≤ start ∨ start + bytes.length ≤ other) :
    (cell.splice start bytes).slice other count = cell.slice other count := by
  apply slice_congr
  intro index inside
  exact byte_splice_outside cell (by omega)

/-! ## Words -/

/-- The little-endian number stored in `width` bytes. -/
def le (cell : Cell length) (start width : Nat) : Nat :=
  leNat (cell.slice start width)

/-- Store a number in `width` bytes. -/
def putLe (cell : Cell length) (start width value : Nat) : Cell length :=
  cell.splice start (leBytes width value)

/-- A number only depends on its own bytes. -/
theorem le_congr {left right : Cell length}
    (agree : ∀ index, index < width → left.byte (start + index) = right.byte (start + index)) :
    left.le start width = right.le start width := by
  rw [le, le, slice_congr agree]

theorem byte_putLe_outside
    (cell : Cell length)
    (outside : index < start ∨ start + width ≤ index) :
    (cell.putLe start width value).byte index = cell.byte index :=
  byte_splice_outside cell (by simpa using outside)

theorem le_putLe_same
    (cell : Cell length)
    (fits : start + width ≤ length) :
    (cell.putLe start width value).le start width = value % 256 ^ width := by
  have written := slice_splice_same cell start (leBytes width value) (by simpa using fits)
  rw [length_leBytes] at written
  rw [le, putLe, written, leNat_leBytes]

theorem le_putLe_disjoint
    (cell : Cell length)
    (disjoint : other + otherWidth ≤ start ∨ start + width ≤ other) :
    (cell.putLe start width value).le other otherWidth = cell.le other otherWidth := by
  rw [le, putLe, slice_splice_disjoint cell (by simpa using disjoint), le]

/-- The 32-bit word stored at a byte offset. -/
def word (cell : Cell length) (start : Nat) : UInt32 :=
  UInt32.ofNat (cell.le start 4)

/-- Store a 32-bit word at a byte offset. -/
def putWord (cell : Cell length) (start : Nat) (value : UInt32) : Cell length :=
  cell.putLe start 4 value.toNat

@[simp] theorem word_zero (start : Nat) :
    (zero : Cell length).word start = 0 := by
  have bytes : (zero : Cell length).slice start 4 = [0, 0, 0, 0] := by
    simp [slice, List.range_succ]
  rw [word, le, bytes]
  rfl

theorem word_putWord_same
    (cell : Cell length)
    {value : UInt32}
    (fits : start + 4 ≤ length) :
    (cell.putWord start value).word start = value := by
  have small : value.toNat < 256 ^ 4 := value.toNat_lt
  rw [word, putWord, le_putLe_same cell fits, Nat.mod_eq_of_lt small, UInt32.ofNat_toNat]

theorem word_putWord_disjoint
    (cell : Cell length)
    {value : UInt32}
    (disjoint : other + 4 ≤ start ∨ start + 4 ≤ other) :
    (cell.putWord start value).word other = cell.word other := by
  rw [word, putWord, le_putLe_disjoint cell disjoint, word]

/-- Store a list of 32-bit words one after the other. -/
def putWords (cell : Cell length) (start : Nat) : List UInt32 → Cell length
  | [] => cell
  | value :: values => (cell.putWord start value).putWords (start + 4) values

section

variable (cell : Cell length) (values : List UInt32)

include cell values

theorem byte_putWords_outside (outside : index < start ∨ start + 4 * values.length ≤ index) :
    (cell.putWords start values).byte index = cell.byte index := by
  induction values generalizing cell start with
  | nil => rfl
  | cons value values ih =>
    rw [List.length_cons] at outside
    rw [putWords, ih _ (by omega), putWord, byte_putLe_outside cell (by omega)]

theorem le_putWords_before (before : other + width ≤ start) :
    (cell.putWords start values).le other width = cell.le other width :=
  le_congr fun index inside =>
    byte_putWords_outside cell values (Or.inl (by omega))

theorem word_putWords_before (before : other + 4 ≤ start) :
    (cell.putWords start values).word other = cell.word other := by
  rw [word, le_putWords_before cell values before, word]

end

/-- Each stored word is read back at its own place. -/
theorem word_putWords
    (cell : Cell length)
    (fits : start + 4 * values.length ≤ length)
    (inside : index < values.length) :
    (cell.putWords start values).word (start + 4 * index) = values[index] := by
  induction values generalizing cell start index with
  | nil => simp at inside
  | cons value values ih =>
    simp only [List.length_cons] at fits inside
    cases index with
    | zero =>
      rw [putWords, word_putWords_before _ values (by omega), Nat.mul_zero,
        Nat.add_zero, word_putWord_same cell (by omega)]
      rfl
    | succ index =>
      have position : start + 4 * (index + 1) = start + 4 + 4 * index := by
        omega
      rw [putWords, position, ih _ (by omega) (by omega)]
      rfl

end Cell
end Cells
