import Xv6.Fs.Contents
import Xv6.Fs.Inode

/-!
# The files of a file system state

What the disk says about an inode: the blocks it holds and its bytes.
-/

namespace Xv6

open Cells

namespace Fs

/-! ## Blocks and bytes -/

/-- Where an inode keeps a block number: in `addrs`, or in its indirect
block. -/
inductive Place where
  | addr (index : Fin (NDIRECT + 1))
  | entry (index : Fin NINDIRECT)
  deriving DecidableEq

/-- The block number at a place. -/
def blockAt (disk : Disk) (din : Dinode) : Place → UInt32
  | .addr index => din.addrs index
  | .entry index =>
    if din.addrs indirect = 0 then 0
    else (disk (din.addrs indirect).toNat).word (4 * index.val)

/-- The place of a block of the file. -/
def placeOf (bn : Nat) : Option Place :=
  if direct : bn < NDIRECT then some (.addr (Fin.castSucc ⟨bn, direct⟩))
  else if entry : bn - NDIRECT < NINDIRECT then some (.entry ⟨bn - NDIRECT, entry⟩)
  else none

/-- The disk block of a block of the file, zero if it is not mapped. -/
def fileBlock (disk : Disk) (din : Dinode) (bn : Nat) : UInt32 :=
  match placeOf bn with
  | some place => blockAt disk din place
  | none => 0

/-- A byte of the file; blocks that are not mapped read as zero. -/
def fileByte (disk : Disk) (din : Dinode) (off : Nat) : UInt8 :=
  if fileBlock disk din (off / BSIZE) = 0 then 0
  else (disk (fileBlock disk din (off / BSIZE)).toNat).byte (off % BSIZE)

variable {bn : Nat} {place : Place} {disk : Disk} {din : Dinode}

theorem placeOf_ne_indirect (found : placeOf bn = some place) :
    place ≠ .addr indirect := by
  unfold placeOf at found
  split at found
  · rename_i direct
    obtain rfl := Option.some.inj found
    intro same
    have value := congrArg Fin.val (Place.addr.inj same)
    simp only [Fin.val_castSucc, indirect, Fin.val_last] at value
    omega
  · split at found
    · obtain rfl := Option.some.inj found
      simp
    · cases found

theorem placeOf_injective
    (found : placeOf bn = some place)
    (foundOther : placeOf other = some place) :
    bn = other := by
  unfold placeOf at found foundOther
  split at found
  · obtain rfl := Option.some.inj found
    split at foundOther
    · have same := Place.addr.inj (Option.some.inj foundOther)
      simpa using congrArg Fin.val same.symm
    · split at foundOther
      · cases Option.some.inj foundOther
      · cases foundOther
  · split at found
    · obtain rfl := Option.some.inj found
      split at foundOther
      · cases Option.some.inj foundOther
      · split at foundOther
        · have same := Place.entry.inj (Option.some.inj foundOther)
          have value := congrArg Fin.val same
          simp only at value
          omega
        · cases foundOther
    · cases found

theorem fileBlock_of_place (found : placeOf bn = some place) :
    fileBlock disk din bn = blockAt disk din place := by
  rw [fileBlock, found]

@[simp] theorem blockAt_addr
    (disk : Disk)
    (din : Dinode)
    (index : Fin (NDIRECT + 1)) :
    blockAt disk din (.addr index) = din.addrs index := rfl

/-- A file whose blocks stay where they are, and whose new blocks are zero, has
the same bytes. -/
theorem fileByte_of_grown
    (blocks : ∀ place, blockAt final grown place = blockAt disk din place ∨
      blockAt disk din place = 0 ∧ final (blockAt final grown place).toNat = Cell.zero)
    (data : ∀ bn, fileBlock disk din bn ≠ 0 →
      final (fileBlock disk din bn).toNat = disk (fileBlock disk din bn).toNat)
    (off : Nat) :
    fileByte final grown off = fileByte disk din off := by
  have step : fileBlock final grown (off / BSIZE) = fileBlock disk din (off / BSIZE) ∨
      fileBlock disk din (off / BSIZE) = 0 ∧
        final (fileBlock final grown (off / BSIZE)).toNat = Cell.zero := by
    unfold fileBlock
    split
    · exact blocks _
    · exact Or.inl rfl
  unfold fileByte
  rcases step with same | ⟨empty, zeroed⟩
  · rw [same]
    split
    · rfl
    · rename_i mapped
      rw [data _ mapped]
  · rw [if_pos empty, zeroed]
    split
    · rfl
    · exact Cell.byte_zero _

/-- An inode without its block addresses. -/
def fieldsOf (din : Dinode) : Dinode := { din with addrs := fun _ => 0 }

/-- The block numbers of an allocated inode in a disk that agrees on the
indirect block. -/
theorem blockAt_congr
    (agree : din.addrs indirect ≠ 0 →
      other (din.addrs indirect).toNat = disk (din.addrs indirect).toNat)
    (place : Place) :
    blockAt other din place = blockAt disk din place := by
  cases place with
  | addr index => rfl
  | entry index =>
    by_cases zero : din.addrs indirect = 0
    · simp only [blockAt, if_pos zero]
    · simp only [blockAt, if_neg zero, agree zero]

/-- An inode with one address replaced. -/
def withAddr (din : Dinode) (index : Fin (NDIRECT + 1)) (addr : UInt32) :
    Dinode :=
  { din with addrs := Function.update din.addrs index addr }

end Fs
end Xv6
