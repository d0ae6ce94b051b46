import Xv6.Foundation.Ownership
import Xv6.Fs.Transfer
import Xv6.Mkfs.Image

/-!
# The layout of an image

An image under construction denotes the contents of its inodes.  The blocks
behind the bitmap are handed out one after the other, each to one place of one
inode, and appending to an inode appends to its contents and changes no other.
-/

namespace Xv6

open Function
open Cells
open Ownership
open Fs (Place blockAt placeOf fileBlock fileByte withAddr fieldsOf)

namespace Mkfs

/-! ## Blocks and bytes -/

/-- The block that a place of an inode holds, zero for none. -/
def heldAt (disk : Disk) (dins : Nat → Dinode) (site : Nat × Place) : Nat :=
  (blockAt disk (dins site.1) site.2).toNat

/-- The blocks of the inodes are those in front of `freeblock`, and their bytes
are the contents of the files. -/
structure Layout (disk : Disk) (dins : Nat → Dinode) (freeblock : Nat)
    (contents : Nat → List UInt8) : Prop where
  /-- The blocks before the data are in use. -/
  start : usedblocks ≤ freeblock
  /-- The image is large enough. -/
  bound : freeblock ≤ sb.size
  /-- Each block in front of `freeblock` is held by one place. -/
  ledger : Ledger (fun block => usedblocks ≤ block) True
    (fun block => decide (block < freeblock)) (heldAt disk dins)
  /-- The other blocks are zero. -/
  blank : ∀ block, freeblock ≤ block → disk block = Cell.zero
  /-- The bytes of the files; behind their ends they are zero. -/
  bytes : ∀ inum off, fileByte disk (dins inum) off = (contents inum).getD off 0

/-- The data blocks do not include block zero. -/
theorem usedblocks_pos : 0 < usedblocks := by decide

theorem toNat_ofNat_block (bound : block < sb.size) :
    (UInt32.ofNat block).toNat = block :=
  UInt32.toNat_ofNat_of_lt' (lt_trans bound (by decide))

theorem ofNat_block_ne_zero
    (start : usedblocks ≤ block)
    (bound : block < sb.size) :
    UInt32.ofNat block ≠ 0 := by
  intro zero
  have value := toNat_ofNat_block bound
  rw [zero] at value
  have positive := usedblocks_pos
  have : (0 : UInt32).toNat = 0 := rfl
  omega

theorem heldAt_ne_zero_iff :
    heldAt disk dins (inum, place) ≠ 0 ↔ blockAt disk (dins inum) place ≠ 0 :=
  not_congr ⟨fun zero => UInt32.toNat.inj zero, fun zero => congrArg _ zero⟩

namespace Layout

variable {disk final : Disk} {dins newDins : Nat → Dinode} {freeblock : Nat}
  {contents : Nat → List UInt8} {inum : Nat}

/-- The next block is in no place. -/
theorem freeblock_ne
    (layout : Layout disk dins freeblock contents)
    (site : Nat × Place) :
    heldAt disk dins site ≠ freeblock :=
  layout.ledger.held_ne layout.start (decide_eq_false (Nat.lt_irrefl _)) site

/-- Blocks that are held are data blocks in front of `freeblock`. -/
theorem held_bounds
    (layout : Layout disk dins freeblock contents)
    (site : Nat × Place)
    (holds : heldAt disk dins site ≠ 0) :
    usedblocks ≤ heldAt disk dins site ∧ heldAt disk dins site < freeblock :=
  ⟨layout.ledger.inRegion site holds, of_decide_eq_true (layout.ledger.inUse site holds)⟩

variable {bn : Nat}

/-- A mapped block of a file is held at its place. -/
theorem place_of_mapped
    (disk : Disk)
    (dins : Nat → Dinode)
    (mapped : fileBlock disk (dins inum) bn ≠ 0) :
    ∃ place, placeOf bn = some place ∧
      heldAt disk dins (inum, place) = (fileBlock disk (dins inum) bn).toNat ∧
      heldAt disk dins (inum, place) ≠ 0 := by
  cases found : placeOf bn with
  | none =>
    rw [fileBlock, found] at mapped
    exact absurd rfl mapped
  | some place =>
    rw [Fs.fileBlock_of_place found] at mapped ⊢
    exact ⟨place, rfl, rfl, heldAt_ne_zero_iff.mpr mapped⟩

section

variable (layout : Layout disk dins freeblock contents)

include layout

/-- A place takes the next block, and at most indirect blocks are written. -/
theorem gain
    (room : freeblock < sb.size)
    (empty : heldAt disk dins site = 0)
    (held : heldAt final newDins = update (heldAt disk dins) site freeblock)
    (same : ∀ block, (∀ inum, heldAt disk dins (inum, .addr Fs.indirect) ≠ block) →
      final block = disk block) :
    Layout final newDins (freeblock + 1) contents where
  start := Nat.le_succ_of_le layout.start
  bound := room
  ledger := layout.ledger.grow empty layout.start (decide_eq_false (Nat.lt_irrefl _))
    (fun other _ => by
      by_cases new : freeblock = other
      · simp [new]
      · rw [if_neg new]
        exact decide_eq_decide.mpr (by omega))
    (fun other => by rw [held, update_apply])
  blank block behind := by
    rw [same block fun inum holds => ?_, layout.blank block (by omega)]
    have positive := usedblocks_pos
    have start := layout.start
    have bounds := layout.held_bounds (inum, .addr Fs.indirect) (by omega)
    omega
  bytes inum off := by
    rw [← layout.bytes inum off]
    apply Fs.fileByte_of_grown
    · intro place
      have heldNew := congrFun held (inum, place)
      rw [update_apply] at heldNew
      split at heldNew
      · rename_i here
        refine Or.inr ⟨?_, ?_⟩
        · rw [← here] at empty
          exact UInt32.toNat.inj empty
        · have blockEq : (blockAt final (newDins inum) place).toNat = freeblock :=
            heldNew
          rw [blockEq, same _ fun other => layout.freeblock_ne _, layout.blank _ (le_refl _)]
      · exact Or.inl (UInt32.toNat.inj heldNew)
    · intro bn mapped
      obtain ⟨place, found, heldEq, holds⟩ := place_of_mapped disk dins mapped
      rw [← heldEq]
      apply same
      intro other equal
      have sites := layout.ledger.single _ _ holds equal.symm
      exact Fs.placeOf_ne_indirect found (Prod.mk.inj sites).2

/-- An element of `addrs` takes the next block. -/
theorem heldAt_takeAddr
    (room : freeblock < sb.size)
    (empty : (dins inum).addrs index = 0) :
    heldAt disk (update dins inum (withAddr (dins inum) index (UInt32.ofNat freeblock))) =
      update (heldAt disk dins) (inum, .addr index) freeblock := by
  funext ⟨other, place⟩
  have value := toNat_ofNat_block room
  by_cases here : other = inum
  · subst here
    cases place with
    | addr otherIndex =>
      by_cases same : otherIndex = index
      · subst same
        simp [heldAt, withAddr, value]
      · rw [update_of_ne (by simpa using same)]
        simp [heldAt, withAddr, same]
    | entry entry =>
      rw [update_of_ne (by simp)]
      by_cases table : index = Fs.indirect
      · -- The new indirect block is zero and lists no blocks.
        subst table
        have nonzero := ofNat_block_ne_zero layout.start room
        simp [heldAt, blockAt, withAddr, empty, nonzero, value, layout.blank _ (le_refl _)]
      · simp [heldAt, blockAt, withAddr, Ne.symm table]
  · rw [update_of_ne (by simp [here])]
    simp [heldAt, here]

theorem takeAddr
    (room : freeblock < sb.size)
    (empty : (dins inum).addrs index = 0) :
    Layout disk (update dins inum (withAddr (dins inum) index (UInt32.ofNat freeblock)))
      (freeblock + 1) contents := by
  refine layout.gain room ?_ (layout.heldAt_takeAddr room empty) fun _ _ => rfl
  simp [heldAt, empty]

/-- An entry of an indirect block takes the next block. -/
theorem heldAt_takeEntry
    (entry : Fin NINDIRECT)
    (room : freeblock < sb.size)
    (table : (dins inum).addrs Fs.indirect ≠ 0) :
    heldAt (update disk ((dins inum).addrs Fs.indirect).toNat
        ((disk ((dins inum).addrs Fs.indirect).toNat).putWord (4 * entry.val)
          (UInt32.ofNat freeblock))) dins =
      update (heldAt disk dins) (inum, .entry entry) freeblock := by
  funext ⟨other, place⟩
  have value := toNat_ofNat_block room
  have holds : heldAt disk dins (inum, .addr Fs.indirect) ≠ 0 :=
    heldAt_ne_zero_iff.mpr table
  cases place with
  | addr index =>
    rw [update_of_ne (by simp)]
    rfl
  | entry otherEntry =>
    by_cases here : other = inum
    · subst here
      by_cases same : otherEntry = entry
      · subst same
        have inBlock : 4 * otherEntry.val + 4 ≤ BSIZE := by
          have bound : otherEntry.val < 128 := otherEntry.isLt
          unfold BSIZE
          omega
        simp [heldAt, blockAt, table, Cell.word_putWord_same _ inBlock, value]
      · have different : otherEntry.val ≠ entry.val := fun equal =>
          same (Fin.ext equal)
        rw [update_of_ne (by simpa using same)]
        simp only [heldAt, blockAt, if_neg table, update_self]
        rw [Cell.word_putWord_disjoint _ (by omega)]
    · rw [update_of_ne (by simp [here])]
      unfold heldAt
      rw [Fs.blockAt_congr]
      intro otherTable
      apply update_of_ne
      intro equal
      -- Two inodes do not share an indirect block.
      have sites := layout.ledger.single (inum, .addr Fs.indirect)
        (other, .addr Fs.indirect) holds equal.symm
      exact here (Prod.mk.inj sites).1.symm

theorem takeEntry
    (entry : Fin NINDIRECT)
    (room : freeblock < sb.size)
    (table : (dins inum).addrs Fs.indirect ≠ 0)
    (empty : blockAt disk (dins inum) (.entry entry) = 0) :
    Layout (update disk ((dins inum).addrs Fs.indirect).toNat
        ((disk ((dins inum).addrs Fs.indirect).toNat).putWord (4 * entry.val)
          (UInt32.ofNat freeblock))) dins (freeblock + 1) contents := by
  refine layout.gain room ?_ (layout.heldAt_takeEntry entry room table) ?_
  · simp [heldAt, empty]
  · intro block other
    exact update_of_ne (other inum).symm _ _

/-- Writing a block of a file does not change where blocks are. -/
theorem heldAt_write
    (mapped : fileBlock disk (dins inum) bn ≠ 0)
    (data : Block) :
    heldAt (update disk (fileBlock disk (dins inum) bn).toNat data) dins = heldAt disk dins := by
  funext ⟨other, place⟩
  obtain ⟨filePlace, found, heldEq, holds⟩ := place_of_mapped disk dins mapped
  unfold heldAt
  rw [Fs.blockAt_congr]
  intro table
  apply update_of_ne
  intro equal
  -- A block that holds bytes of a file is not an indirect block.
  have sites := layout.ledger.single (inum, filePlace) (other, .addr Fs.indirect)
    holds (heldEq.trans equal.symm)
  exact Fs.placeOf_ne_indirect found (Prod.mk.inj sites).2

end

theorem fileBlock_of_held
    (held : ∀ place, heldAt final newDins (inum, place) = heldAt disk dins (inum, place)) :
    fileBlock final (newDins inum) bn = fileBlock disk (dins inum) bn := by
  unfold fileBlock
  split
  · exact UInt32.toNat.inj (held _)
  · rfl

variable (layout : Layout disk dins freeblock contents)

include layout

/-- A block of a file is written. -/
theorem write
    (mapped : fileBlock disk (dins inum) bn ≠ 0)
    (data : Block)
    (newBytes : ∀ off, new.getD off 0 = if off / BSIZE = bn then data.byte (off % BSIZE)
      else (contents inum).getD off 0) :
    Layout (update disk (fileBlock disk (dins inum) bn).toNat data)
      dins freeblock (update contents inum new) := by
  have held := layout.heldAt_write mapped data
  obtain ⟨place, found, heldEq, holds⟩ := place_of_mapped disk dins mapped
  refine ⟨layout.start, layout.bound, by rw [held]; exact layout.ledger, ?_, ?_⟩
  · intro block behind
    have bounds := layout.held_bounds _ holds
    rw [update_of_ne (by omega), layout.blank block behind]
  intro other off
  have before := layout.bytes other off
  have sameBlock : fileBlock (update disk (fileBlock disk (dins inum) bn).toNat data)
      (dins other) (off / BSIZE) = fileBlock disk (dins other) (off / BSIZE) :=
    fileBlock_of_held fun place => congrFun held (other, place)
  unfold fileByte at before ⊢
  rw [sameBlock]
  by_cases here : other = inum ∧ off / BSIZE = bn
  · obtain ⟨rfl, rfl⟩ := here
    rw [if_neg mapped, update_self, update_self, newBytes, if_pos rfl]
  have target : (update contents inum new other).getD off 0 = (contents other).getD off 0 := by
    by_cases same : other = inum
    · subst same
      rw [update_self, newBytes, if_neg fun block => here ⟨rfl, block⟩]
    · rw [update_of_ne same]
  rw [target, ← before]
  split
  · rfl
  rename_i otherMapped
  obtain ⟨otherPlace, otherFound, otherHeld, otherHolds⟩ :=
    place_of_mapped disk dins otherMapped
  rw [update_of_ne]
  intro equal
  have sites := layout.ledger.single (other, otherPlace) (inum, place)
    otherHolds (by rw [otherHeld, heldEq, equal])
  obtain ⟨sameInum, samePlace⟩ := Prod.mk.inj sites
  rw [samePlace] at otherFound
  exact here ⟨sameInum, Fs.placeOf_injective otherFound found⟩

/-- Only the data blocks and the addresses of the inodes matter. -/
theorem heldAt_congr
    (agree : ∀ block, usedblocks ≤ block → final block = disk block)
    (addrs : ∀ inum, (newDins inum).addrs = (dins inum).addrs) :
    heldAt final newDins = heldAt disk dins := by
  funext ⟨other, place⟩
  cases place with
  | addr index => simp only [heldAt, Fs.blockAt_addr, addrs]
  | entry entry =>
    simp only [heldAt, blockAt, addrs]
    by_cases table : (dins other).addrs Fs.indirect = 0
    · rw [if_pos table, if_pos table]
    · have bounds := layout.held_bounds (other, .addr Fs.indirect) (heldAt_ne_zero_iff.mpr table)
      rw [if_neg table, if_neg table, agree ((dins other).addrs _).toNat bounds.1]

theorem congr
    (agree : ∀ block, usedblocks ≤ block → final block = disk block)
    (addrs : ∀ inum, (newDins inum).addrs = (dins inum).addrs) :
    Layout final newDins freeblock contents := by
  have held := layout.heldAt_congr agree addrs
  refine ⟨layout.start, layout.bound, by rw [held]; exact layout.ledger, ?_, ?_⟩
  · intro block behind
    rw [agree block (le_trans layout.start behind), layout.blank block behind]
  intro other off
  rw [← layout.bytes other off]
  apply Fs.fileByte_of_grown
  · intro place
    exact Or.inl (UInt32.toNat.inj (congrFun held (other, place)))
  · intro bn mapped
    obtain ⟨place, _, heldEq, holds⟩ := place_of_mapped disk dins mapped
    rw [← heldEq, agree _ (layout.held_bounds _ holds).1]

end Layout

end Mkfs
end Xv6
