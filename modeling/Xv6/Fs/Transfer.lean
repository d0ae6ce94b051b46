import Xv6.Fs.View

/-!
# Reading files

`readi` returns a range of the bytes of an inode.  It goes through the file block by
block.
-/

namespace Xv6

open Cells
open Faulting

namespace Fs

/-! ## Reading -/

/-- The bytes of a mapped block of a file. -/
theorem byte_of_mapped {disk : Disk} {off index : Nat}
    (mapped : fileBlock disk din (off / BSIZE) ≠ 0)
    (inside : off % BSIZE + index < BSIZE) :
    (disk (fileBlock disk din (off / BSIZE)).toNat).byte (off % BSIZE + index) =
      fileByte disk din (off + index) := by
  have sameBlock : (off + index) / BSIZE = off / BSIZE := by
    unfold BSIZE at *
    omega
  have position : (off + index) % BSIZE = off % BSIZE + index := by
    unfold BSIZE at *
    omega
  rw [fileByte, sameBlock, if_neg mapped, position]

/-- The part of a range that lies in one block. -/
theorem slice_of_mapped {disk : Disk} {off m : Nat}
    (mapped : fileBlock disk din (off / BSIZE) ≠ 0)
    (inside : off % BSIZE + m ≤ BSIZE) :
    (disk (fileBlock disk din (off / BSIZE)).toNat).slice (off % BSIZE) m =
      (List.range m).map fun index => fileByte disk din (off + index) := by
  apply List.map_congr_left
  intro index member
  have bound := List.mem_range.mp member
  exact byte_of_mapped mapped (by omega)

/-- A range of bytes as a first part and the rest. -/
theorem map_range_split
    (value : Nat → UInt8)
    (within : m ≤ n)
    (off : Nat) :
    ((List.range n).map fun index => value (off + index)) =
      ((List.range m).map fun index => value (off + index)) ++
        (List.range (n - m)).map fun index => value (off + m + index) := by
  have whole : n = m + (n - m) := by omega
  conv_lhs => rw [whole, List.range_add, List.map_append, List.map_map]
  congr 1
  apply List.map_congr_left
  intro index _
  rw [Function.comp_apply, Nat.add_assoc]

/-- The contents of a file. -/
def fileContents (disk : Disk) (din : Dinode) : List UInt8 :=
  (List.range din.size.toNat).map (fileByte disk din)

@[simp] theorem length_fileContents (disk : Disk) (din : Dinode) :
    (fileContents disk din).length = din.size.toNat := by
  simp [fileContents]

/-- A range of the contents of a file. -/
theorem fileContents_range
    (disk : Disk)
    (din : Dinode)
    (off n : Nat) :
    ((fileContents disk din).drop off).take n =
      (List.range (min n (din.size.toNat - off))).map fun index =>
        fileByte disk din (off + index) := by
  apply List.ext_getElem?
  intro index
  by_cases inside : index < min n (din.size.toNat - off)
  · rw [List.getElem?_take_of_lt (by omega), List.getElem?_drop]
    simp only [fileContents, List.getElem?_map]
    rw [List.getElem?_range (by omega), List.getElem?_range inside]
    rfl
  · rw [List.getElem?_eq_none, List.getElem?_eq_none]
    · simp only [List.length_map, List.length_range]
      omega
    · simp only [List.length_take, List.length_drop, length_fileContents]
      omega

/-- A sum that does not wrap around. -/
theorem toNat_add_of_noWrap {off n : UInt32}
    (noWrap : ¬off + n < off) :
    (off + n).toNat = off.toNat + n.toNat := by
  have offBound := off.toNat_lt
  have nBound := n.toNat_lt
  rw [UInt32.lt_iff_toNat_lt, UInt32.toNat_add] at noWrap
  rw [UInt32.toNat_add]
  omega

/-- The bytes that `readi` moves end with the file. -/
theorem toNat_readCount {size off n : UInt32}
    (inFile : ¬size < off)
    (noWrap : ¬off + n < off) :
    (readCount size off n).toNat = min n.toNat (size.toNat - off.toNat) := by
  have sum := toNat_add_of_noWrap noWrap
  rw [UInt32.lt_iff_toNat_lt] at inFile
  unfold readCount
  by_cases beyond : size < off + n
  · rw [if_pos beyond, UInt32.toNat_sub_of_le _ _ (by
      rw [UInt32.le_iff_toNat_le]
      omega)]
    rw [UInt32.lt_iff_toNat_lt, sum] at beyond
    omega
  · rw [if_neg beyond]
    rw [UInt32.lt_iff_toNat_lt, sum] at beyond
    omega

/-- What a transfer of a byte array comes to. -/
def transferOf : Option α → Transfer α
  | some result => .done result
  | none => .refused

section Read

variable {sb : Superblock} {strict : Prop} {slot : Slot} {fs : Fs}

/-- Mapping a block that is mapped changes nothing. -/
theorem bmap_of_mapped (mapped : fileBlock fs.disk (fs.icache slot).din bn ≠ 0) :
    bmap sb slot bn fs = .ok (fileBlock fs.disk (fs.icache slot).din bn, fs) := by
  have known : ∀ index, (fs.icache slot).din.addrs index ≠ 0 → bmapAddr sb slot index fs =
        .ok ((fs.icache slot).din.addrs index, fs) := by
    intro index nonzero
    have read : inode slot fs = .ok (fs.icache slot, fs) := rfl
    rw [bmapAddr, Run.bind_of_ok read, if_neg nonzero]
    rfl
  unfold bmap
  unfold fileBlock placeOf at *
  by_cases direct : bn < NDIRECT
  · simp only [dif_pos direct, blockAt_addr] at mapped ⊢
    exact known _ mapped
  by_cases inTable : bn - NDIRECT < NINDIRECT
  · simp only [dif_neg direct, dif_pos inTable, blockAt] at mapped ⊢
    by_cases table : (fs.icache slot).din.addrs indirect = 0
    · simp [table] at mapped
    · rw [if_neg table] at mapped ⊢
      have read : bread ((fs.icache slot).din.addrs indirect).toNat fs =
          .ok (fs.disk ((fs.icache slot).din.addrs indirect).toNat, fs) := rfl
      rw [if_pos inTable, Run.bind_of_ok (known indirect table), bmapEntry,
        Run.bind_of_ok read, if_neg mapped]
      rfl
  · simp only [dif_neg direct, dif_neg inTable] at mapped
    exact absurd rfl mapped

/-- Reading a range whose blocks are mapped changes nothing. -/
theorem readLoop_of_mapped
    (fuel n off : Nat)
    (enough : n ≤ fuel)
    (mapped : ∀ bn, off < (bn + 1) * BSIZE → bn * BSIZE < off + n →
      fileBlock fs.disk (fs.icache slot).din bn ≠ 0) :
    readLoop sb slot fuel n off fs = ((List.range n).map fun index =>
        fileByte fs.disk (fs.icache slot).din (off + index), .ok fs) := by
  induction fuel generalizing n off with
  | zero =>
    obtain rfl : n = 0 := by omega
    rfl
  | succ fuel ih =>
    unfold readLoop
    by_cases empty : n = 0
    · rw [if_pos empty, empty]
      rfl
    rw [if_neg empty]
    have bound := Nat.mod_lt off (show 0 < BSIZE by decide)
    have here : fileBlock fs.disk (fs.icache slot).din (off / BSIZE) ≠ 0 := by
      apply mapped
      · have := Nat.div_add_mod off BSIZE
        unfold BSIZE at *
        omega
      · have := Nat.div_mul_le_self off BSIZE
        omega
    have split : min n (BSIZE - off % BSIZE) ≤ n := Nat.min_le_left _ _
    have small : off % BSIZE + min n (BSIZE - off % BSIZE) ≤ BSIZE := by
      omega
    have positive : 0 < min n (BSIZE - off % BSIZE) := by omega
    simp only [bmap_of_mapped here]
    generalize min n (BSIZE - off % BSIZE) = m at *
    rw [ih (n - m) (off + m) (by omega) fun bn above below =>
      mapped bn (by omega) (by omega)]
    simp only
    rw [slice_of_mapped here small, ← map_range_split _ split]

/-- Reading from a file: the blocks of the range are mapped. -/
theorem readi_of_mapped
    (sb : Superblock)
    (file : (fs.icache slot).din.type ≠ T_DEV)
    (off n : UInt32)
    (mapped : ∀ bn, off.toNat < (bn + 1) * BSIZE → bn * BSIZE < off.toNat + n.toNat →
      bn * BSIZE < (fs.icache slot).din.size.toNat →
      fileBlock fs.disk (fs.icache slot).din bn ≠ 0) :
    readi sb slot off n fs = .ok (transferOf (readBytes
        (fileContents fs.disk (fs.icache slot).din) off n), fs) := by
  unfold readi readiStores
  simp only
  rw [if_neg file]
  by_cases refused : (fs.icache slot).din.size < off ∨ off + n < off
  · rw [if_pos refused, readBytes, length_fileContents, if_pos]
    · rfl
    · rwa [UInt32.lt_iff_toNat_lt] at refused
  rw [if_neg refused]
  obtain ⟨inFile, noWrap⟩ := not_or.mp refused
  have count := toNat_readCount inFile noWrap
  rw [UInt32.lt_iff_toNat_lt] at inFile
  rw [readLoop_of_mapped _ _ _ (le_refl _) fun bn above below => by
    rw [count] at below
    exact mapped bn above (by omega) (by omega)]
  simp only
  rw [readBytes, length_fileContents, if_neg, fileContents_range, count]
  · rfl
  · rwa [UInt32.lt_iff_toNat_lt] at refused

end Read

/-! ## Writing -/

/-- The bytes of a block into which a piece has been spliced. -/
theorem byte_splice_piece
    (block : Block)
    {src : List UInt8}
    (within : m ≤ src.length)
    (sameBlock : index / BSIZE = off / BSIZE) :
    (block.splice (off % BSIZE) (src.take m)).byte (index % BSIZE) =
      if off ≤ index ∧ index < off + m then src.getD (index - off) 0
      else block.byte (index % BSIZE) := by
  have length : (src.take m).length = m := by
    rw [List.length_take]
    omega
  have offEq := Nat.div_add_mod off BSIZE
  have indexEq := Nat.div_add_mod index BSIZE
  rw [sameBlock] at indexEq
  have bound := Nat.mod_lt index (show 0 < BSIZE by decide)
  by_cases here : off ≤ index ∧ index < off + m
  · rw [if_pos here, Cell.byte_splice_inside _ bound (by omega) (by omega)]
    have position : index % BSIZE - off % BSIZE = index - off := by omega
    rw [position, List.getD_eq_getElem?_getD, List.getD_eq_getElem?_getD,
      List.getElem?_take_of_lt (by omega)]
  · rw [if_neg here, Cell.byte_splice_outside]
    omega

end Fs
end Xv6
