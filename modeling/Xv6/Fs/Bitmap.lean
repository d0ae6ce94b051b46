import Xv6.Foundation.Scan
import Xv6.Fs.State

/-!
# The block allocator

One bit of the bitmap blocks stands for each block of the disk.  `balloc`
scans the bits of all `size` blocks in order and takes the first clear one;
`bfree` clears a bit.
-/

namespace Xv6

open Function
open Cells
open Faulting
open Scan

/-! ## Bits of a bitmap block -/

/-- The mask of a bit within its byte. -/
def bitMask (bit : Nat) : UInt8 := 1 <<< UInt8.ofNat (bit % 8)

/-- Whether a bit of a bitmap block is set. -/
def bitSet (block : Block) (bit : Nat) : Bool :=
  block.byte (bit / 8) &&& bitMask bit != 0

/-- The block with a bit set. -/
def setBit (block : Block) (bit : Nat) : Block :=
  block.splice (bit / 8) [block.byte (bit / 8) ||| bitMask bit]

/-- The block with a bit cleared. -/
def clearBit (block : Block) (bit : Nat) : Block :=
  block.splice (bit / 8) [block.byte (bit / 8) &&& ~~~bitMask bit]

/-- A mask selects its bit of a byte. -/
theorem and_mask_test :
    ∀ byte < 256, ∀ tested < 8, (UInt8.ofNat byte &&& 1 <<< UInt8.ofNat tested != 0) =
        (UInt8.ofNat byte).toBitVec.getLsbD tested := by
  decide +kernel

theorem byte_test
    (byte : UInt8)
    (bound : tested < 8) :
    (byte &&& 1 <<< UInt8.ofNat tested != 0) = byte.toBitVec.getLsbD tested := by
  have test := and_mask_test byte.toNat (UInt8.toNat_lt _) tested bound
  rwa [UInt8.ofNat_toNat] at test

/-- The bits of a mask. -/
theorem mask_getLsbD :
    ∀ marked < 8, ∀ tested < 8, ((1 : UInt8) <<< UInt8.ofNat marked).toBitVec.getLsbD tested =
        decide (marked = tested) := by
  decide

/-- Replacing the byte of one bit by a byte that differs from it in this bit
only changes this bit of the block only. -/
theorem bitSet_splice
    (block : Block)
    (bound : bit < BPB)
    (newByte : UInt8)
    (value : Bool)
    (test : ∀ tested < 8, (newByte &&& 1 <<< UInt8.ofNat tested != 0) =
      if bit % 8 = tested then value
      else (block.byte (bit / 8) &&& 1 <<< UInt8.ofNat tested != 0)) :
    bitSet (block.splice (bit / 8) [newByte]) other =
      if bit = other then value else bitSet block other := by
  have inBlock : bit / 8 < BSIZE := by
    unfold BPB at bound
    omega
  by_cases sameByte : other / 8 = bit / 8
  · have written : Cell.byte (block.splice (bit / 8) [newByte]) (other / 8) =
        newByte := by
      rw [sameByte, Cell.byte_splice_inside block inBlock (le_refl _) (by simp)]
      simp
    have here := test (other % 8) (Nat.mod_lt _ (by decide))
    unfold bitSet
    rw [written, bitMask, here, sameByte]
    by_cases same : bit = other
    · rw [if_pos same, if_pos (by rw [same])]
    · rw [if_neg same, if_neg (by omega)]
  · have kept : Cell.byte (block.splice (bit / 8) [newByte]) (other / 8) =
        block.byte (other / 8) := by
      apply Cell.byte_splice_outside
      simp only [List.length_singleton]
      omega
    unfold bitSet
    rw [kept, if_neg (by rintro rfl; exact sameByte rfl)]

theorem bitSet_setBit
    (block : Block)
    (bound : bit < BPB) :
    bitSet (setBit block bit) other = if bit = other then true else bitSet block other := by
  apply bitSet_splice block bound
  intro tested testedBound
  rw [byte_test _ testedBound, byte_test _ testedBound, UInt8.toBitVec_or,
    BitVec.getLsbD_or, bitMask, mask_getLsbD _ (Nat.mod_lt _ (by decide)) _ testedBound]
  by_cases same : bit % 8 = tested <;> simp [same]

theorem bitSet_clearBit
    (block : Block)
    (bound : bit < BPB) :
    bitSet (clearBit block bit) other = if bit = other then false else bitSet block other := by
  apply bitSet_splice block bound
  intro tested testedBound
  rw [byte_test _ testedBound, byte_test _ testedBound, UInt8.toBitVec_and,
    UInt8.toBitVec_not, BitVec.getLsbD_and, BitVec.getLsbD_not, bitMask,
    mask_getLsbD _ (Nat.mod_lt _ (by decide)) _ testedBound]
  by_cases same : bit % 8 = tested <;> simp [same, testedBound]

/-! ## Bits of the disk -/

namespace Fs

/-- The bitmap bit of a block. -/
def bit (sb : Superblock) (disk : Disk) (block : Nat) : Bool :=
  bitSet (disk (BBLOCK block sb.ninodes)) (block % BPB)

theorem BBLOCK_add
    (ninodes : Nat)
    (aligned : base % BPB = 0)
    (bound : offset < BPB) :
    BBLOCK (base + offset) ninodes = BBLOCK base ninodes ∧ (base + offset) % BPB = offset := by
  unfold BBLOCK
  unfold BPB BSIZE at *
  omega

/-- Changing one bitmap block through one of its bits. -/
theorem bit_update_bitmap
    (sb : Superblock)
    (disk : Disk)
    (data : Block)
    (change : ∀ other, other < BPB → bitSet data other = if block % BPB = other then value
      else bitSet (disk (BBLOCK block sb.ninodes)) other)
    (other : Nat) :
    bit sb (update disk (BBLOCK block sb.ninodes) data) other =
      if block = other then value else bit sb disk other := by
  unfold bit
  have otherBound : other % BPB < BPB := Nat.mod_lt _ (by decide)
  by_cases sameBlock : BBLOCK other sb.ninodes = BBLOCK block sb.ninodes
  · rw [sameBlock, update_self, change _ otherBound]
    have quotients : other / BPB = block / BPB := by
      unfold BBLOCK at sameBlock
      omega
    by_cases same : block = other
    · rw [if_pos same, if_pos (by rw [same])]
    · rw [if_neg same, if_neg]
      intro remainders
      apply same
      rw [← Nat.div_add_mod block BPB, ← Nat.div_add_mod other BPB, quotients, remainders]
  · rw [update_of_ne sameBlock, if_neg]
    rintro rfl
    exact sameBlock rfl

/-- Writing a block that holds no bitmap bits keeps all bits. -/
theorem bit_update_other
    (sb : Superblock)
    (disk : Disk)
    (data : Block)
    (other : ∀ bit, bit < sb.size → BBLOCK bit sb.ninodes ≠ block)
    (bound : tested < sb.size) :
    bit sb (update disk block data) tested = bit sb disk tested := by
  unfold bit
  rw [update_of_ne (other tested bound)]

/-! ## Allocating and freeing -/

/-- Zero a block. -/
def bzero (sb : Superblock) (block : Nat) : FsM Unit := do
  let _ ← bread block
  logWrite sb block Cell.zero

/-- The first clear bit of the bitmap block whose first bit belongs to block
`base`. -/
def freeBit (sb : Superblock) (data : Block) (base : Nat) : Option Nat :=
  scan (fun offset => decide (base + offset < sb.size) && !bitSet data offset) BPB 0

/-- The first clear bit of `count` bitmap blocks, as the first block of its
bitmap block and the offset in it. -/
def findFree (sb : Superblock) (disk : Disk) :
    (count base : Nat) → Option (Nat × Nat)
  | 0, _ => none
  | count + 1, base =>
    match freeBit sb (disk (BBLOCK base sb.ninodes)) base with
    | some offset => some (base, offset)
    | none => findFree sb disk count (base + BPB)

/-- Number of iterations of the loop over the bitmap blocks. -/
def bitmapBlocks (sb : Superblock) : Nat := (sb.size + BPB - 1) / BPB

/-- Allocate a zeroed disk block. -/
def balloc (sb : Superblock) : FsM UInt32 := do
  let fs ← Run.get
  match findFree sb fs.disk (bitmapBlocks sb) 0 with
  | none => panic "balloc: out of blocks"
  | some (base, offset) =>
    let data ← bread (BBLOCK base sb.ninodes)
    logWrite sb (BBLOCK base sb.ninodes) (setBit data offset)
    bzero sb (base + offset)
    pure (UInt32.ofNat (base + offset))

/-- Free a disk block. -/
def bfree (sb : Superblock) (block : UInt32) : FsM Unit := do
  let data ← bread (BBLOCK block.toNat sb.ninodes)
  if bitSet data (block.toNat % BPB) = false then
    panic "freeing free block"
  else
    logWrite sb (BBLOCK block.toNat sb.ninodes) (clearBit data (block.toNat % BPB))

/-- The scan over the bitmap blocks finds the least clear bit. -/
theorem findFree_spec
    (sb : Superblock)
    (disk : Disk)
    (count : Nat)
    (aligned : base % BPB = 0) :
    match findFree sb disk count base with
    | some (found, offset) =>
      base ≤ found ∧ found % BPB = 0 ∧ offset < BPB ∧
        found + offset < sb.size ∧ bit sb disk (found + offset) = false ∧
        ∀ earlier, base ≤ earlier → earlier < found + offset → bit sb disk earlier = true
    | none => ∀ block, base ≤ block → block < base + BPB * count →
        block < sb.size → bit sb disk block = true := by
  induction count generalizing base with
  | zero =>
    intro block lower upper
    omega
  | succ count ih =>
    have bitAt : ∀ offset, offset < BPB → bit sb disk (base + offset) =
        bitSet (disk (BBLOCK base sb.ninodes)) offset := by
      intro offset bound
      obtain ⟨sameBlock, position⟩ :=
        BBLOCK_add sb.ninodes aligned bound
      rw [bit, sameBlock, position]
    unfold findFree
    cases result : freeBit sb (disk (BBLOCK base sb.ninodes)) base with
    | some offset =>
      obtain ⟨_, upper, passes, first⟩ := scan_eq_some_iff.mp result
      rw [Nat.zero_add] at upper
      simp only [Bool.and_eq_true, decide_eq_true_eq, Bool.not_eq_true'] at passes
      refine ⟨le_refl _, aligned, upper, passes.1, ?_, ?_⟩
      · rw [bitAt offset upper]
        exact passes.2
      · intro earlier lower before
        have earlierOffset : earlier = base + (earlier - base) := by omega
        have absent := first (earlier - base) (Nat.zero_le _) (by omega)
        rw [earlierOffset, bitAt _ (by omega)]
        have inside : base + (earlier - base) < sb.size := by omega
        simpa [inside] using absent
    | none =>
      have full : ∀ block, base ≤ block → block < base + BPB →
          block < sb.size → bit sb disk block = true := by
        intro block lower upper inside
        have absent := scan_eq_none_iff.mp result (block - base) (Nat.zero_le _) (by omega)
        have blockOffset : block = base + (block - base) := by omega
        rw [blockOffset, bitAt _ (by omega)]
        have inside' : base + (block - base) < sb.size := by omega
        simpa [inside'] using absent
      have nextAligned : (base + BPB) % BPB = 0 := by
        rw [Nat.add_mod_right]
        exact aligned
      have later := ih nextAligned
      cases rest : findFree sb disk count (base + BPB) with
      | none =>
        simp only [rest] at later ⊢
        intro block lower upper inside
        by_cases near : block < base + BPB
        · exact full block lower near inside
        · exact later block (by omega) (by rw [Nat.mul_succ] at upper; omega)
            inside
      | some pair =>
        obtain ⟨found, offset⟩ := pair
        simp only [rest] at later ⊢
        obtain ⟨lower, foundAligned, offsetBound, inside, clear, before⟩ :=
          later
        refine ⟨by omega, foundAligned, offsetBound, inside, clear, ?_⟩
        intro earlier earlierLower earlierUpper
        by_cases near : earlier < base + BPB
        · exact full earlier earlierLower near (by omega)
        · exact before earlier (by omega) earlierUpper

/-- The first block whose bit is clear. -/
structure FirstFree (sb : Superblock) (disk : Disk) (block : Nat) : Prop where
  /-- It is a block of the disk. -/
  bound : block < sb.size
  /-- Its bit is clear. -/
  clear : bit sb disk block = false
  /-- All earlier bits are set. -/
  first : ∀ earlier < block, bit sb disk earlier = true

theorem FirstFree.unique {disk : Disk}
    (one : FirstFree sb disk block)
    (two : FirstFree sb disk other) :
    block = other := by
  rcases Nat.lt_trichotomy block other with less | same | greater
  · have set := two.first block less
    rw [one.clear] at set
    cases set
  · exact same
  · have set := one.first other greater
    rw [two.clear] at set
    cases set

/-- The state after a block has been marked in the bitmap and zeroed. -/
def afterBalloc (sb : Superblock) (fs : Fs) (block : Nat) : Fs :=
  (fs.afterLogWrite (BBLOCK block sb.ninodes)
    (setBit (fs.disk (BBLOCK block sb.ninodes)) (block % BPB))).afterLogWrite block Cell.zero

/-- The state after a block has been cleared in the bitmap. -/
def afterBfree (sb : Superblock) (fs : Fs) (block : Nat) : Fs :=
  fs.afterLogWrite (BBLOCK block sb.ninodes)
    (clearBit (fs.disk (BBLOCK block sb.ninodes)) (block % BPB))

theorem bzero_spec
    (sb : Superblock)
    (fs : Fs)
    (block : Nat) :
    Run.Spec (bzero sb block) fs (fun _ final => final = fs.afterLogWrite block Cell.zero)
      (LogFault sb fs {block}) := by
  apply Run.Spec.gets_bind
  exact logWrite_spec sb fs block Cell.zero

/-- `balloc` takes the first free block, or finds none. -/
theorem balloc_spec
    (sb : Superblock)
    (fs : Fs) :
    Run.Spec (balloc sb) fs (fun addr final => ∃ block, FirstFree sb fs.disk block ∧
        addr = UInt32.ofNat block ∧ final = afterBalloc sb fs block)
      (fun reason =>
        (reason = .panic "balloc: out of blocks" ∧ ∀ block < sb.size, bit sb fs.disk block = true) ∨
        ∃ block, FirstFree sb fs.disk block ∧
          LogFault sb fs {BBLOCK block sb.ninodes, block} reason) := by
  have search := findFree_spec sb fs.disk (bitmapBlocks sb) (Nat.zero_mod BPB)
  apply Run.Spec.get_bind
  cases found : findFree sb fs.disk (bitmapBlocks sb) 0 with
  | none =>
    simp only [found] at search
    refine Or.inl ⟨rfl, ?_⟩
    intro block bound
    refine search block (Nat.zero_le _) ?_ bound
    unfold bitmapBlocks
    have := Nat.div_add_mod (sb.size + BPB - 1) BPB
    have := Nat.mod_lt (sb.size + BPB - 1) (show 0 < BPB by decide)
    omega
  | some pair =>
    obtain ⟨base, offset⟩ := pair
    simp only [found] at search
    obtain ⟨_, aligned, offsetBound, inside, clear, before⟩ := search
    have firstFree : FirstFree sb fs.disk (base + offset) :=
      ⟨inside, clear, fun earlier less => before earlier (Nat.zero_le _) less⟩
    obtain ⟨sameBlock, position⟩ :=
      BBLOCK_add sb.ninodes aligned offsetBound
    apply Run.Spec.gets_bind
    apply Run.Spec.bind
    refine (logWrite_spec sb fs _ _).mono ?_ ?_
    · rintro _ _ rfl
      apply Run.Spec.bind
      refine (bzero_spec sb _ (base + offset)).mono ?_ ?_
      · rintro _ _ rfl
        refine ⟨base + offset, firstFree, rfl, ?_⟩
        rw [afterBalloc, sameBlock, position]
      · intro reason fault
        refine Or.inr ⟨base + offset, firstFree, ?_⟩
        rw [sameBlock]
        exact fault.of_afterLogWrite
    · intro reason fault
      refine Or.inr ⟨base + offset, firstFree, ?_⟩
      rw [sameBlock]
      exact fault.mono (by simp)

/-- Inside a transaction with room in the log, `balloc` returns the first free
block. -/
theorem balloc_eq_ok {fs : Fs}
    (firstFree : FirstFree sb fs.disk block)
    (owned : fs.owner ≠ none)
    (room : ¬LogFull sb (fs.logged ∪ {BBLOCK block sb.ninodes, block}).card) :
    balloc sb fs = .ok (UInt32.ofNat block, afterBalloc sb fs block) := by
  have spec := balloc_spec sb fs
  cases result : balloc sb fs with
  | ok pair =>
    obtain ⟨addr, final⟩ := pair
    obtain ⟨found, foundFree, rfl, rfl⟩ := spec.of_ok result
    rw [foundFree.unique firstFree]
  | error reason =>
    rcases spec.of_error result with ⟨_, full⟩ | ⟨found, foundFree, fault⟩
    · have set := full block firstFree.bound
      rw [firstFree.clear] at set
      cases set
    · rw [foundFree.unique firstFree] at fault
      rcases fault with ⟨_, full⟩ | ⟨_, outside⟩
      · exact absurd full room
      · exact absurd outside owned

/-- `bfree` clears the bit of a block, which has to be set. -/
theorem bfree_spec
    (sb : Superblock)
    (fs : Fs)
    (block : UInt32) :
    Run.Spec (bfree sb block) fs (fun _ final => bit sb fs.disk block.toNat = true ∧
        final = afterBfree sb fs block.toNat)
      (fun reason =>
        (reason = .panic "freeing free block" ∧ bit sb fs.disk block.toNat = false) ∨
        LogFault sb fs {BBLOCK block.toNat sb.ninodes} reason) := by
  apply Run.Spec.gets_bind
  split
  · rename_i clear
    exact Or.inl ⟨rfl, clear⟩
  · rename_i set
    refine (logWrite_spec sb fs _ _).mono ?_ (fun _ fault => Or.inr fault)
    rintro _ _ rfl
    exact ⟨by simpa [bit] using set, rfl⟩

/-! ## What allocating and freeing do to the bitmap -/

/-- Marking a block sets its bit; zeroing it touches no bit when it lies
outside the bitmap. -/
theorem bit_afterBalloc
    (sb : Superblock)
    (fs : Fs)
    (notBitmap : ∀ bit, bit < sb.size → BBLOCK bit sb.ninodes ≠ block)
    (bound : other < sb.size) :
    bit sb (afterBalloc sb fs block).disk other =
      if block = other then true else bit sb fs.disk other := by
  unfold afterBalloc afterLogWrite
  rw [bit_update_other sb _ _ notBitmap bound]
  apply bit_update_bitmap
  intro _ _
  exact bitSet_setBit _ (Nat.mod_lt _ (by decide))

theorem bit_afterBfree
    (sb : Superblock)
    (fs : Fs)
    (block other : Nat) :
    bit sb (afterBfree sb fs block).disk other =
      if block = other then false else bit sb fs.disk other := by
  unfold afterBfree afterLogWrite
  apply bit_update_bitmap
  intro _ _
  exact bitSet_clearBit _ (Nat.mod_lt _ (by decide))

end Fs
end Xv6
