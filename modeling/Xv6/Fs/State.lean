import Mathlib.Data.Finset.Card
import Mathlib.Data.Fintype.Basic
import Xv6.Foundation.Faulting
import Xv6.Params

/-!
# The state of the file system

The disk, the inode cache and the open transaction, as the functions of
`fs.c` see them, and the primitive accesses they are built from: reading and
logging a block, and reading and storing an inode of an inode block.

The log is transparent here: `log_write` changes the block that later reads
return, and the recovery of committed blocks is the subject of the log
modules.  What `log_write` checks and records of the open transaction is kept.
-/

namespace Xv6

open Function
open Cells
open Faulting

/-- Identity of a process. -/
abbrev Pid := Nat

/-! ## Inodes -/

/-- Directory. -/
abbrev T_DIR : Int16 := 1

/-- File. -/
abbrev T_FILE : Int16 := 2

/-- Device. -/
abbrev T_DEV : Int16 := 3

/-- An inode as it is stored on the disk. -/
structure Dinode where
  type : Int16
  major : Int16
  minor : Int16
  /-- Number of directory entries that count as links. -/
  nlink : Int16
  size : UInt32
  /-- Direct block addresses, and last the indirect block. -/
  addrs : Fin (NDIRECT + 1) → UInt32
  deriving DecidableEq

/-- A free inode with every field zero. -/
def Dinode.zero : Dinode where
  type := 0
  major := 0
  minor := 0
  nlink := 0
  size := 0
  addrs := fun _ => 0

/-- The 16-bit field at a byte offset. -/
def getShort (block : Block) (start : Nat) : Int16 :=
  (UInt16.ofNat (block.le start 2)).toInt16

/-- Store a 16-bit field at a byte offset. -/
def putShort (block : Block) (start : Nat) (value : Int16) : Block :=
  block.putLe start 2 value.toUInt16.toNat

/-- The inode at a position of an inode block. -/
def getDinode (block : Block) (position : Nat) : Dinode where
  type := getShort block (dinodeSize * position)
  major := getShort block (dinodeSize * position + 2)
  minor := getShort block (dinodeSize * position + 4)
  nlink := getShort block (dinodeSize * position + 6)
  size := block.word (dinodeSize * position + 8)
  addrs := fun index => block.word (dinodeSize * position + 12 + 4 * index.val)

/-- Store an inode at a position of an inode block. -/
def putDinode (block : Block) (position : Nat) (din : Dinode) : Block :=
  let typed := putShort block (dinodeSize * position) din.type
  let numbered := putShort (putShort typed (dinodeSize * position + 2) din.major)
    (dinodeSize * position + 4) din.minor
  let linked := putShort numbered (dinodeSize * position + 6) din.nlink
  let sized := linked.putWord (dinodeSize * position + 8) din.size
  sized.putWords (dinodeSize * position + 12) (List.ofFn din.addrs)

variable {start position : Nat}

theorem getShort_congr (same : left.le start 2 = right.le start 2) :
    getShort left start = getShort right start := by
  rw [getShort, getShort, same]

theorem getShort_putShort
    (block : Block)
    (value : Int16)
    (fits : start + 2 ≤ BSIZE) :
    getShort (putShort block start value) start = value := by
  have small : value.toUInt16.toNat < 256 ^ 2 := value.toUInt16.toNat_lt
  rw [getShort, putShort, Cell.le_putLe_same block fits, Nat.mod_eq_of_lt small, UInt16.ofNat_toNat]
  rfl

theorem getShort_putShort_disjoint
    (block : Block)
    (value : Int16)
    (disjoint : other + 2 ≤ start ∨ start + 2 ≤ other) :
    getShort (putShort block start value) other = getShort block other :=
  getShort_congr (Cell.le_putLe_disjoint block disjoint)

/-- Storing an inode changes its own bytes only. -/
theorem byte_putDinode
    (block : Block)
    (din : Dinode)
    (outside : index < dinodeSize * position ∨ dinodeSize * position + dinodeSize ≤ index) :
    (putDinode block position din).byte index = block.byte index := by
  unfold dinodeSize at outside
  simp only [putDinode, putShort, Cell.putWord, dinodeSize]
  rw [Cell.byte_putWords_outside _ _ (by simp; omega),
    Cell.byte_putLe_outside _ (by omega), Cell.byte_putLe_outside _ (by omega),
    Cell.byte_putLe_outside _ (by omega), Cell.byte_putLe_outside _ (by omega),
    Cell.byte_putLe_outside _ (by omega)]

/-- An inode only depends on its own bytes. -/
theorem getDinode_congr
    (agree : ∀ index, dinodeSize * position ≤ index → index < dinodeSize * position + dinodeSize →
      left.byte index = right.byte index) :
    getDinode left position = getDinode right position := by
  unfold dinodeSize at agree
  have short : ∀ offset, offset + 2 ≤ 64 → getShort left (64 * position + offset) =
        getShort right (64 * position + offset) := fun offset inside =>
    getShort_congr (Cell.le_congr fun index small =>
      agree _ (by omega) (by omega))
  have word : ∀ offset, offset + 4 ≤ 64 → left.word (64 * position + offset) =
        right.word (64 * position + offset) := fun offset inside => by
    rw [Cell.word, Cell.word, Cell.le_congr fun index small =>
      agree _ (by omega) (by omega)]
  unfold getDinode dinodeSize
  congr 1
  · exact short 0 (by omega)
  · exact short 2 (by omega)
  · exact short 4 (by omega)
  · exact short 6 (by omega)
  · exact word 8 (by omega)
  · funext index
    have bound : index.val < 12 + 1 := index.isLt
    rw [Nat.add_assoc]
    exact word _ (by omega)

/-- An inode is read back from where it was stored. -/
theorem getDinode_putDinode
    (block : Block)
    (din : Dinode)
    (bound : position < IPB) :
    getDinode (putDinode block position din) position = din := by
  have inBlock : 64 * position + 64 ≤ BSIZE := by
    unfold IPB dinodeSize at bound
    unfold BSIZE at *
    omega
  have before : ∀ (cell : Block) offset, offset + 2 ≤ 12 →
      getShort (cell.putWords (64 * position + 12) (List.ofFn din.addrs)) (64 * position + offset) =
        getShort cell (64 * position + offset) := fun cell offset inside =>
    getShort_congr (Cell.le_putWords_before cell _ (by omega))
  have sized : ∀ (cell : Block) offset, offset + 2 ≤ 8 →
      getShort (cell.putWord (64 * position + 8) din.size) (64 * position + offset) =
        getShort cell (64 * position + offset) := fun cell offset inside =>
    getShort_congr (Cell.le_putLe_disjoint cell (by omega))
  unfold getDinode putDinode dinodeSize
  obtain ⟨type, major, minor, nlink, size, addrs⟩ := din
  simp only [Dinode.mk.injEq]
  refine ⟨?_, ?_, ?_, ?_, ?_, ?_⟩
  · rw [← Nat.add_zero (64 * position), before _ 0 (by omega),
      sized _ 0 (by omega), getShort_putShort_disjoint _ _ (by omega),
      getShort_putShort_disjoint _ _ (by omega),
      getShort_putShort_disjoint _ _ (by omega), getShort_putShort _ _ (by omega)]
  · rw [before _ 2 (by omega), sized _ 2 (by omega), getShort_putShort_disjoint _ _ (by omega),
      getShort_putShort_disjoint _ _ (by omega), getShort_putShort _ _ (by omega)]
  · rw [before _ 4 (by omega), sized _ 4 (by omega),
      getShort_putShort_disjoint _ _ (by omega), getShort_putShort _ _ (by omega)]
  · rw [before _ 6 (by omega), sized _ 6 (by omega), getShort_putShort _ _ (by omega)]
  · rw [Cell.word_putWords_before _ _ (by omega), Cell.word_putWord_same _ (by omega)]
  · funext index
    have inside : index.val < (List.ofFn addrs).length := by simp
    have fits : 64 * position + 12 + 4 * (List.ofFn addrs).length ≤ BSIZE := by
      rw [List.length_ofFn]
      omega
    rw [Cell.word_putWords _ fits inside, List.getElem_ofFn]

/-- An entry of the inode cache. -/
structure Inode where
  inum : Nat
  ref : Nat
  /-- The process that has set `I_BUSY`, if it is set. -/
  busy : Option Pid
  valid : Bool
  din : Dinode

/-- An unused cache entry. -/
def Inode.unused : Inode where
  inum := 0
  ref := 0
  busy := none
  valid := false
  din := Dinode.zero

/-- Index of an entry of the inode cache, which stands for a pointer to it. -/
abbrev Slot := Fin NINODE

/-! ## States and computations -/

/-- The file system as a running process sees it. -/
structure Fs where
  /-- Contents of the blocks, as `bread` returns them. -/
  disk : Disk
  icache : Slot → Inode
  proc : Pid
  /-- The process whose transaction is open, while `log.busy` is set. -/
  owner : Option Pid
  /-- Sectors in the in-memory log header, which holds each of them once. -/
  logged : Finset Nat
  /-- Whether some `log_write` so far was made by a process other than the
  owner of the transaction.  No function of the kernel reads it. -/
  rogue : Bool

/-- Why a call of the kernel does not come to its end. -/
inductive Stop where
  | panic (text : String)
  /-- The process sleeps until another process wakes it up. -/
  | sleep
  deriving DecidableEq, Repr

/-- A function of the kernel that works on the file system. -/
abbrev FsM := Run Stop Fs

namespace Fs

/-- Stop the kernel. -/
def panic (text : String) : FsM α := Run.fault (Stop.panic text)

/-- The block with a given number. -/
def bread (block : Nat) : FsM Block := Run.gets fun fs => fs.disk block

/-- The state after a block has been logged. -/
def afterLogWrite (fs : Fs) (block : Nat) (data : Block) : Fs :=
  { fs with
    disk := update fs.disk block data
    logged := insert block fs.logged
    rogue := fs.rogue || decide (fs.owner ≠ some fs.proc) }

/-- Whether a log header with this many sectors takes no further one. -/
def LogFull (sb : Superblock) (sectors : Nat) : Prop :=
  LOGSIZE ≤ sectors ∨ (sb.nlog : Int) - 1 ≤ sectors

instance (sb : Superblock) (sectors : Nat) : Decidable (LogFull sb sectors) :=
  inferInstanceAs (Decidable (_ ∨ _))

/-- Log a modified block. -/
def logWrite (sb : Superblock) (block : Nat) (data : Block) : FsM Unit := do
  let fs ← Run.get
  if LogFull sb fs.logged.card then
    panic "too big a transaction"
  else if fs.owner = none then
    panic "write outside of trans"
  else
    Run.modify fun fs => fs.afterLogWrite block data

/-- The faults of a computation that logs no blocks outside `touched`. -/
def LogFault (sb : Superblock) (fs : Fs) (touched : Finset Nat)
    (reason : Stop) : Prop :=
  reason = .panic "too big a transaction" ∧ LogFull sb (fs.logged ∪ touched).card ∨
    reason = .panic "write outside of trans" ∧ fs.owner = none

variable {sb : Superblock}

theorem LogFull.mono
    (full : LogFull sb sectors)
    (le : sectors ≤ more) :
    LogFull sb more := by
  unfold LogFull at *
  omega

theorem LogFault.mono
    (fault : LogFault sb fs touched reason)
    (subset : touched ⊆ more) :
    LogFault sb fs more reason := by
  rcases fault with ⟨reasonEq, full⟩ | outside
  · exact Or.inl ⟨reasonEq, full.mono
      (Finset.card_le_card (Finset.union_subset_union_right subset))⟩
  · exact Or.inr outside

/-- A fault after a block has been logged, seen from before. -/
theorem LogFault.of_afterLogWrite
    (fault : LogFault sb (fs.afterLogWrite block data) touched reason) :
    LogFault sb fs (insert block touched) reason := by
  rcases fault with ⟨reasonEq, full⟩ | outside
  · refine Or.inl ⟨reasonEq, ?_⟩
    rw [Finset.union_insert, ← Finset.insert_union]
    exact full
  · exact Or.inr outside

theorem logWrite_spec
    (sb : Superblock)
    (fs : Fs)
    (block : Nat)
    (data : Block) :
    Run.Spec (logWrite sb block data) fs (fun _ final => final = fs.afterLogWrite block data)
      (LogFault sb fs {block}) := by
  apply Run.Spec.get_bind
  split
  · rename_i full
    exact Or.inl ⟨rfl, full.mono (Finset.card_le_card Finset.subset_union_left)⟩
  · split
    · rename_i outside
      exact Or.inr ⟨rfl, outside⟩
    · rfl

/-- The on-disk inode with a given number. -/
def dinode (disk : Disk) (inum : Nat) : Dinode :=
  getDinode (disk (IBLOCK inum)) (inum % IPB)

/-- Storing an inode on the disk changes this inode only. -/
theorem dinode_update_putDinode
    (disk : Disk)
    (inum other : Nat)
    (din : Dinode) :
    dinode (update disk (IBLOCK inum) (putDinode (disk (IBLOCK inum)) (inum % IPB) din)) other =
      if other = inum then din else dinode disk other := by
  have positive : 0 < IPB := by decide
  unfold dinode
  by_cases sameBlock : IBLOCK other = IBLOCK inum
  · rw [sameBlock, update_self]
    by_cases same : other = inum
    · rw [if_pos same, same, getDinode_putDinode _ _ (Nat.mod_lt _ positive)]
    · rw [if_neg same]
      apply getDinode_congr
      intro index lower upper
      apply byte_putDinode
      unfold IBLOCK IPB BSIZE dinodeSize at *
      omega
  · rw [update_of_ne sameBlock, if_neg]
    rintro rfl
    exact sameBlock rfl

/-- The state with one entry of the inode cache replaced. -/
def withInode (fs : Fs) (slot : Slot) (inode : Inode) : Fs :=
  { fs with icache := update fs.icache slot inode }

/-- Change one entry of the inode cache. -/
def setInode (slot : Slot) (inode : Inode) : FsM Unit :=
  Run.modify fun fs => fs.withInode slot inode

/-- The entry of the inode cache a pointer refers to. -/
def inode (slot : Slot) : FsM Inode := Run.gets fun fs => fs.icache slot

/-- Copy a modified in-memory inode to disk. -/
def iupdate (sb : Superblock) (slot : Slot) : FsM Unit := do
  let ip ← inode slot
  let block ← bread (IBLOCK ip.inum)
  logWrite sb (IBLOCK ip.inum) (putDinode block (ip.inum % IPB) ip.din)

end Fs
end Xv6
