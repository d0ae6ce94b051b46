import Xv6.Fs.Bitmap

/-!
# The allocator over a run

`mkfs` marks the blocks it has used, `balloc` scans every block of the disk
and `initlog` places the log at the end of the disk.  This module follows the
blocks that `balloc` hands out from a fresh image on, over any sequence of
allocations and frees.
-/

namespace Xv6

open Cells

/-! ## The image -/

namespace Mkfs

/-- The super block `mkfs` writes. -/
def sb : Superblock where
  size := 1024
  nblocks := 985
  ninodes := 200
  nlog := 10

/-- Number of bitmap blocks. -/
def bitblocks : Nat := sb.size / BPB + 1

/-- Blocks in use before any file is written: the first data block. -/
def usedblocks : Nat := sb.ninodes / IPB + 3 + bitblocks

/-- The bitmap block `mkfs` writes when the first `used` blocks are taken. -/
def balloc : (used : Nat) → Block
  | 0 => Cell.zero
  | used + 1 => setBit (balloc used) used

theorem bitSet_balloc
    (bound : used < BPB)
    (bit : Nat) :
    bitSet (balloc used) bit = decide (bit < used) := by
  induction used with
  | zero => simp [balloc, bitSet, Cell.byte, Cell.zero]
  | succ used ih =>
    rw [balloc, bitSet_setBit _ (by omega), ih (by omega)]
    by_cases last : used = bit
    · simp [last]
    · rw [if_neg last]
      exact decide_eq_decide.mpr (by omega)

/-- All bits of the disk are in the one bitmap block that `mkfs` writes. -/
theorem BBLOCK_eq (bound : block < sb.size) :
    BBLOCK block sb.ninodes = 28 ∧ block % BPB = block := by
  have size : sb.size = 1024 := rfl
  have inodeBlocks : sb.ninodes / IPB = 25 := rfl
  unfold BBLOCK
  rw [inodeBlocks]
  unfold BPB BSIZE
  omega

end Mkfs

/-- The blocks between the bitmap and the log. -/
def InDataArea (block : Nat) : Prop :=
  Mkfs.usedblocks ≤ block ∧ block < Mkfs.sb.size - Mkfs.sb.nlog

instance (block : Nat) : Decidable (InDataArea block) :=
  inferInstanceAs (Decidable (_ ∧ _))

/-! ## Runs -/

/-- What the kernel does to the allocator. -/
inductive AllocatorCall where
  /-- The open transaction is committed and a process opens the next one. -/
  | transaction (proc : Pid)
  | balloc
  | bfree (block : UInt32)

/-- The file system with the blocks that inodes hold. -/
structure Allocator where
  fs : Fs
  held : List UInt32

/-- One call, with the block it returned if it allocated one.  There is no
result when the kernel panics or does not make the call. -/
def AllocatorCall.step (state : Allocator) :
    AllocatorCall → Option (Option UInt32 × Allocator)
  | transaction proc =>
    some (none, { state with fs :=
      { state.fs with proc := proc, owner := some proc, logged := ∅ } })
  | balloc =>
    match Fs.balloc Mkfs.sb state.fs with
    | .ok (addr, fs) => some (some addr, ⟨fs, addr :: state.held⟩)
    | .error _ => none
  | bfree block =>
    if block ∈ state.held then
      match Fs.bfree Mkfs.sb block state.fs with
      | .ok (_, fs) => some (none, ⟨fs, state.held.erase block⟩)
      | .error _ => none
    else none

/-- The allocations of a run: the file system before each, and the block it
returned. -/
def allocations : List AllocatorCall → Allocator → List (Fs × UInt32)
  | [], _ => []
  | call :: calls, state =>
    match call.step state with
    | none => []
    | some (none, next) => allocations calls next
    | some (some addr, next) => (state.fs, addr) :: allocations calls next

/-- The kernel's state on an image with the first `used` blocks taken. -/
def Allocator.booted (disk : Disk) (used : Nat) : Allocator where
  fs :=
    { disk := Function.update disk (BBLOCK 0 Mkfs.sb.ninodes)
        (Mkfs.balloc used)
      icache := fun _ => Inode.unused
      proc := 0
      owner := none
      logged := ∅
      rogue := false }
  held := (List.range' Mkfs.usedblocks (used - Mkfs.usedblocks)).map UInt32.ofNat

/-- The blocks before the data area are taken, and no call frees them. -/
structure Allocator.Sound (state : Allocator) : Prop where
  /-- The bits of the blocks before the data area are set. -/
  metadata : ∀ block < Mkfs.usedblocks, Fs.bit Mkfs.sb state.fs.disk block = true
  /-- No block in use lies before the data area. -/
  held : ∀ block ∈ state.held, Mkfs.usedblocks ≤ block.toNat

theorem bit_booted
    (disk : Disk)
    (usedBound : used < BPB)
    (bound : block < Mkfs.sb.size) :
    Fs.bit Mkfs.sb (Allocator.booted disk used).fs.disk block = decide (block < used) := by
  obtain ⟨sameBlock, position⟩ := Mkfs.BBLOCK_eq bound
  obtain ⟨firstBlock, _⟩ := Mkfs.BBLOCK_eq (show 0 < Mkfs.sb.size by decide)
  rw [Fs.bit, sameBlock, position]
  simp only [Allocator.booted, firstBlock, Function.update_self]
  exact Mkfs.bitSet_balloc usedBound block

variable {used : Nat} {state : Allocator}

theorem Allocator.Sound.booted
    (disk : Disk)
    (lower : Mkfs.usedblocks ≤ used)
    (upper : used < BPB) :
    (Allocator.booted disk used).Sound where
  metadata := by
    intro block before
    have inside : block < Mkfs.sb.size := lt_trans before (by decide)
    rw [bit_booted disk upper inside]
    exact decide_eq_true (by omega)
  held := by
    intro block member
    obtain ⟨number, inRange, rfl⟩ := List.mem_map.mp member
    have bounds := List.mem_range'_1.mp inRange
    unfold BPB BSIZE at upper
    rw [UInt32.toNat_ofNat_of_lt' (lt_of_lt_of_le bounds.2 (by
      unfold UInt32.size
      omega))]
    exact bounds.1

/-- What `balloc` returns on a sound state: the first free block, which is not
before the data area. -/
theorem Allocator.Sound.balloc
    (sound : state.Sound)
    {fs : Fs}
    (returned : Fs.balloc Mkfs.sb state.fs = .ok (addr, fs)) :
    Fs.FirstFree Mkfs.sb state.fs.disk addr.toNat ∧ Mkfs.usedblocks ≤ addr.toNat ∧
      fs = Fs.afterBalloc Mkfs.sb state.fs addr.toNat := by
  obtain ⟨block, firstFree, rfl, rfl⟩ :=
    (Fs.balloc_spec Mkfs.sb state.fs).of_ok returned
  have small : block < UInt32.size :=
    lt_trans firstFree.bound (by decide)
  rw [UInt32.toNat_ofNat_of_lt' small]
  refine ⟨firstFree, ?_, rfl⟩
  by_contra before
  have set := sound.metadata block (by omega)
  rw [firstFree.clear] at set
  cases set

/-- What a call can do. -/
theorem AllocatorCall.step_cases {call : AllocatorCall}
    (stepped : call.step state = some (returned, next)) :
    (returned = none ∧ next.held = state.held ∧ next.fs.disk = state.fs.disk) ∨
      (∃ addr, returned = some addr ∧ next.held = addr :: state.held ∧
        Fs.balloc Mkfs.sb state.fs = .ok (addr, next.fs)) ∨
      ∃ block ∈ state.held, returned = none ∧ next.held = state.held.erase block ∧
        Fs.bfree Mkfs.sb block state.fs = .ok ((), next.fs) := by
  cases call with
  | transaction proc =>
    obtain ⟨rfl, rfl⟩ := Prod.mk.inj (Option.some.inj stepped)
    exact Or.inl ⟨rfl, rfl, rfl⟩
  | balloc =>
    simp only [step] at stepped
    split at stepped
    · rename_i addr fs result
      obtain ⟨rfl, rfl⟩ := Prod.mk.inj (Option.some.inj stepped)
      exact Or.inr (Or.inl ⟨addr, rfl, rfl, result⟩)
    · cases stepped
  | bfree block =>
    simp only [step] at stepped
    split at stepped
    · rename_i member
      split at stepped
      · rename_i fs result
        obtain ⟨rfl, rfl⟩ := Prod.mk.inj (Option.some.inj stepped)
        exact Or.inr (Or.inr ⟨block, member, rfl, rfl, result⟩)
      · cases stepped
    · cases stepped

/-- Every call keeps the blocks before the data area taken. -/
theorem Allocator.Sound.step
    (sound : state.Sound)
    {call : AllocatorCall}
    (stepped : call.step state = some (returned, next)) :
    next.Sound := by
  rcases AllocatorCall.step_cases stepped with
    ⟨_, heldEq, diskEq⟩ | ⟨addr, _, heldEq, result⟩ |
    ⟨freed, member, _, heldEq, result⟩
  · refine ⟨?_, heldEq ▸ sound.held⟩
    rw [diskEq]
    exact sound.metadata
  · obtain ⟨firstFree, lower, fsEq⟩ := sound.balloc result
    refine ⟨?_, ?_⟩
    · intro block before
      have inside : block < Mkfs.sb.size := lt_trans before (by decide)
      rw [fsEq, Fs.bit_afterBalloc Mkfs.sb state.fs ?_ inside]
      · simp [sound.metadata block before]
      · intro bit bound
        rw [(Mkfs.BBLOCK_eq bound).1]
        exact ne_of_lt (lt_of_lt_of_le (by decide) lower)
    · intro block member
      rw [heldEq] at member
      rcases List.mem_cons.mp member with rfl | old
      · exact lower
      · exact sound.held block old
  · obtain ⟨_, fsEq⟩ := (Fs.bfree_spec Mkfs.sb state.fs freed).of_ok result
    refine ⟨?_, ?_⟩
    · intro block before
      have lower := sound.held freed member
      rw [fsEq, Fs.bit_afterBfree, if_neg (by omega)]
      exact sound.metadata block before
    · intro block kept
      rw [heldEq] at kept
      exact sound.held block (List.mem_of_mem_erase kept)

/-- An allocation from a sound state returns a block of the data area exactly
when the data area has a free block. -/
theorem Allocator.Sound.balloc_inDataArea_iff
    (sound : state.Sound)
    {fs : Fs}
    (returned : Fs.balloc Mkfs.sb state.fs = .ok (addr, fs)) :
    InDataArea addr.toNat ↔ ∃ block, InDataArea block ∧
        Fs.bit Mkfs.sb state.fs.disk block = false := by
  obtain ⟨firstFree, lower, _⟩ := sound.balloc returned
  constructor
  · intro inside
    exact ⟨addr.toNat, inside, firstFree.clear⟩
  · rintro ⟨block, inside, clear⟩
    refine ⟨lower, lt_of_le_of_lt ?_ inside.2⟩
    by_contra before
    have set := firstFree.first block (by omega)
    rw [clear] at set
    cases set

theorem Allocator.Sound.allocations_iff
    (sound : state.Sound)
    (calls : List AllocatorCall) :
    ∀ call ∈ allocations calls state, InDataArea call.2.toNat ↔ ∃ block, InDataArea block ∧
        Fs.bit Mkfs.sb call.1.disk block = false := by
  induction calls generalizing state with
  | nil =>
    intro call member
    cases member
  | cons first calls ih =>
    intro call member
    unfold allocations at member
    split at member
    · cases member
    · rename_i next stepped
      exact ih (sound.step stepped) call member
    rename_i addr next stepped
    rcases List.mem_cons.mp member with rfl | later
    · rcases AllocatorCall.step_cases stepped with
        ⟨none, _⟩ | ⟨_, same, _, result⟩ | ⟨_, _, none, _⟩
      · cases none
      · obtain rfl := Option.some.inj same
        exact sound.balloc_inDataArea_iff result
      · cases none
    · exact ih (sound.step stepped) call later

/-- The first allocation on an image returns the first block after those
`mkfs` has used. -/
theorem allocations_first
    (disk : Disk)
    (bound : used < Mkfs.sb.size) :
    ∃ fs : Fs, fs.disk = (Allocator.booted disk used).fs.disk ∧
      allocations [.transaction 0, .balloc] (Allocator.booted disk used) =
        [(fs, UInt32.ofNat used)] := by
  have usedBound : used < BPB := lt_trans bound (by decide)
  have firstFree :
      Fs.FirstFree Mkfs.sb (Allocator.booted disk used).fs.disk used := by
    refine ⟨bound, ?_, ?_⟩
    · rw [bit_booted disk usedBound bound]
      exact decide_eq_false (lt_irrefl used)
    · intro earlier before
      rw [bit_booted disk usedBound (lt_trans before bound)]
      exact decide_eq_true before
  have room : ¬Fs.LogFull Mkfs.sb (∅ ∪ {BBLOCK used Mkfs.sb.ninodes, used} : Finset Nat).card := by
    intro full
    have small : (∅ ∪ {BBLOCK used Mkfs.sb.ninodes, used} : Finset Nat).card ≤
        2 := by
      rw [Finset.empty_union]
      exact Finset.card_le_two
    rcases full.mono small with tooMany | tooMany
    · exact absurd tooMany (by decide)
    · exact absurd tooMany (by decide)
  let opened : Fs := { (Allocator.booted disk used).fs with
    proc := 0, owner := some 0, logged := ∅ }
  have returned : Fs.balloc Mkfs.sb opened =
      .ok (UInt32.ofNat used, Fs.afterBalloc Mkfs.sb opened used) :=
    Fs.balloc_eq_ok firstFree (by simp [opened]) room
  refine ⟨opened, rfl, ?_⟩
  simp only [allocations, AllocatorCall.step]
  rw [returned]

/-- From an image of `mkfs` on, over every run: all blocks that `balloc`
returns lie between the bitmap and the log exactly when, before each
allocation, some block there is free.  Otherwise the scan runs on into the
log, whose blocks `mkfs` leaves unmarked. -/
theorem balloc_inDataArea_iff_room
    (disk : Disk)
    (used : Nat)
    (lower : Mkfs.usedblocks ≤ used)
    (upper : used < BPB)
    (calls : List AllocatorCall) :
    (∀ call ∈ allocations calls (Allocator.booted disk used), InDataArea call.2.toNat) ↔
      ∀ call ∈ allocations calls (Allocator.booted disk used), ∃ block, InDataArea block ∧
          Fs.bit Mkfs.sb call.1.disk block = false := by
  have sound := Allocator.Sound.booted disk lower upper
  exact forall₂_congr (sound.allocations_iff calls)

theorem balloc_inDataArea_iff_room_sample :
    Mkfs.usedblocks ≤ 30 ∧ ∀ call ∈ allocations [.transaction 0, .balloc]
          (Allocator.booted (fun _ => Cell.zero) 30),
        InDataArea call.2.toNat := by
  refine ⟨by decide, ?_⟩
  apply (balloc_inDataArea_iff_room (fun _ => Cell.zero) 30 (by decide)
    (by decide) [.transaction 0, .balloc]).mpr
  obtain ⟨fs, diskEq, trace⟩ :=
    allocations_first (fun _ => Cell.zero) (show 30 < Mkfs.sb.size by decide)
  intro call member
  rw [trace] at member
  obtain rfl := List.mem_singleton.mp member
  refine ⟨30, by decide, ?_⟩
  rw [diskEq, bit_booted _ (by decide) (by decide)]
  decide

/-- On an image whose files fill the data area, the first allocation returns
the block of the log header. -/
theorem balloc_returns_log_header :
    ¬∀ (disk : Disk) (used : Nat), Mkfs.usedblocks ≤ used → used < BPB →
      ∀ (calls : List AllocatorCall), ∀ call ∈ allocations calls (Allocator.booted disk used),
          InDataArea call.2.toNat := by
  intro always
  obtain ⟨fs, _, trace⟩ :=
    allocations_first (fun _ => Cell.zero) (show 1014 < Mkfs.sb.size by decide)
  have inside := always (fun _ => Cell.zero) 1014 (by decide) (by decide)
    [.transaction 0, .balloc] (fs, UInt32.ofNat 1014) (by rw [trace]; simp)
  exact absurd inside (show ¬InDataArea (UInt32.ofNat 1014).toNat by decide)

end Xv6
