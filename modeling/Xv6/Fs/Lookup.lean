import Xv6.Fs.Names
import Xv6.Fs.Transfer

/-!
# Looking up inodes

`iget` and `ilock` on a cache that agrees with the disk, and the scan of a
directory up to the entry with a name.
-/

namespace Xv6

open Faulting

namespace Fs

variable {sb : Superblock} {fs : Fs} {slot : Slot} {inum : Nat}

@[simp] theorem withInode_disk (fs : Fs) (slot : Slot) (inode : Inode) :
    (fs.withInode slot inode).disk = fs.disk := rfl

@[simp] theorem withInode_proc (fs : Fs) (slot : Slot) (inode : Inode) :
    (fs.withInode slot inode).proc = fs.proc := rfl

@[simp] theorem withInode_self (fs : Fs) (slot : Slot) (inode : Inode) :
    (fs.withInode slot inode).icache slot = inode := by
  simp [withInode]

theorem withInode_other
    (fs : Fs)
    (inode : Inode)
    (different : other ≠ slot) :
    (fs.withInode slot inode).icache other = fs.icache other := by
  simp [withInode, different]

/-! ## The inode cache -/

/-- The entry that `iget` leaves behind: one that was referenced before has one
more reference, and a new one has not been read. -/
def Got (old entry : Inode) (inum : Nat) : Prop :=
  (0 < old.ref ∧ old.inum = inum ∧ entry = { old with ref := old.ref + 1 }) ∨
    (old.ref = 0 ∧ entry = { old with
      inum := inum, ref := 1, busy := none, valid := false })

namespace Got

variable {old entry : Inode}

theorem inum_eq (got : Got old entry inum) : entry.inum = inum := by
  rcases got with ⟨_, same, rfl⟩ | ⟨_, rfl⟩
  · exact same
  · rfl

theorem ref_pos (got : Got old entry inum) : 0 < entry.ref := by
  rcases got with ⟨_, _, rfl⟩ | ⟨_, rfl⟩
  · exact Nat.succ_pos _
  · exact Nat.one_pos

theorem busy_eq
    (got : Got old entry inum)
    (unlocked : old.busy = none) :
    entry.busy = none := by
  rcases got with ⟨_, _, rfl⟩ | ⟨_, rfl⟩
  · exact unlocked
  · rfl

/-- An entry that has been read before agrees with the disk. -/
theorem din_eq {disk : Disk}
    (got : Got old entry inum)
    (synced : 0 < old.ref → old.valid = true → old.din = dinode disk old.inum)
    (valid : entry.valid = true) :
    entry.din = dinode disk inum := by
  rcases got with ⟨referenced, rfl, rfl⟩ | ⟨_, rfl⟩
  · exact synced referenced valid
  · cases valid

end Got

/-- `iget` finds an entry as long as one is free. -/
theorem iget_spec
    (fs : Fs)
    (inum : Nat)
    (room : ∃ slot, (fs.icache slot).ref = 0) :
    ∃ slot entry, iget inum fs = .ok (slot, fs.withInode slot entry) ∧
      Got (fs.icache slot) entry inum := by
  unfold iget
  rw [Run.bind_of_ok (Run.get_apply fs)]
  cases found : (List.finRange NINODE).find? fun slot =>
      0 < (fs.icache slot).ref && (fs.icache slot).inum == inum with
  | some slot =>
    have passes := List.find?_some found
    simp only [Bool.and_eq_true, decide_eq_true_eq, beq_iff_eq] at passes
    exact ⟨slot, _, rfl, Or.inl ⟨passes.1, passes.2, rfl⟩⟩
  | none =>
    cases spare : (List.finRange NINODE).find? fun slot =>
        (fs.icache slot).ref == 0 with
    | some slot =>
      have free := List.find?_some spare
      simp only [beq_iff_eq] at free
      exact ⟨slot, _, rfl, Or.inr ⟨free, rfl⟩⟩
    | none =>
      obtain ⟨slot, free⟩ := room
      have fails := List.find?_eq_none.mp spare slot (List.mem_finRange slot)
      simp [free] at fails

/-- The entry that `ilock` leaves behind. -/
def lockedEntry (fs : Fs) (slot : Slot) : Inode :=
  { fs.icache slot with
    busy := some fs.proc, valid := true
    din := dinode fs.disk (fs.icache slot).inum }

/-- Locking an inode that agrees with the disk. -/
theorem ilock_synced
    (referenced : 0 < (fs.icache slot).ref)
    (unlocked : (fs.icache slot).busy = none)
    (synced : (fs.icache slot).valid = true →
      (fs.icache slot).din = dinode fs.disk (fs.icache slot).inum)
    (typed : (dinode fs.disk (fs.icache slot).inum).type ≠ 0) :
    ilock slot fs = .ok ((), fs.withInode slot (fs.lockedEntry slot)) := by
  have acquired : ilockAcquire slot fs = .ok ((), fs.withInode slot
      { fs.icache slot with busy := some fs.proc }) := by
    rw [ilockAcquire, Run.bind_of_ok (Run.get_apply fs), if_neg (by omega),
      if_neg (by simp [unlocked])]
    rfl
  rw [ilock, Run.bind_of_ok acquired, ilockLoad, Run.bind_of_ok (Run.get_apply _)]
  simp only [withInode_self]
  by_cases valid : (fs.icache slot).valid = true
  · rw [if_pos valid]
    have same : fs.lockedEntry slot = { fs.icache slot with busy := some fs.proc } := by
      rw [lockedEntry, ← synced valid, ← valid]
    rw [same]
    rfl
  · have read : setInode slot (fs.lockedEntry slot)
        (fs.withInode slot { fs.icache slot with busy := some fs.proc }) =
        .ok ((), fs.withInode slot (fs.lockedEntry slot)) := by
      simp [setInode, withInode]
    rw [if_neg valid]
    exact (Run.bind_of_ok read).trans (congrFun (if_neg typed) _)

/-- Unlocking a locked inode. -/
theorem iunlock_eq
    (referenced : 0 < (fs.icache slot).ref)
    (locked : (fs.icache slot).busy = some pid) :
    iunlock slot fs = .ok ((), fs.withInode slot { fs.icache slot with busy := none }) := by
  have read : inode slot fs = .ok (fs.icache slot, fs) := rfl
  rw [iunlock, Run.bind_of_ok read, if_neg]
  · rfl
  · rintro (unlocked | none)
    · simp [locked] at unlocked
    · omega

/-! ## Scanning a directory -/

/-- The scan of a directory stops at the first entry that passes the test. -/
theorem dirScan_found
    (sb : Superblock)
    (text : String)
    (test : List UInt8 → Bool)
    (entry : Nat → List UInt8)
    (last : Nat)
    (inside : ∀ index, index ≤ last → direntSize * index < (fs.icache slot).din.size.toNat)
    (read : ∀ index, index ≤ last →
      readi sb slot (UInt32.ofNat (direntSize * index)) (UInt32.ofNat direntSize)
        fs = .ok (.done (entry index), fs))
    (sized : ∀ index, index ≤ last → (entry index).length = direntSize)
    (passes : test (entry last) = true)
    (fuel index : Nat)
    (fails : ∀ other, index ≤ other → other < last → test (entry other) = false)
    (before : index ≤ last)
    (enough : last - index < fuel) :
    dirScan sb slot text test fuel (direntSize * index) fs =
      .ok ((direntSize * last, some (entry last)), fs) := by
  induction fuel generalizing index with
  | zero => omega
  | succ fuel ih =>
    have ip : inode slot fs = .ok (fs.icache slot, fs) := rfl
    rw [dirScan, Run.bind_of_ok ip, if_pos (inside index before),
      Run.bind_of_ok (read index before)]
    simp only
    rw [if_pos (sized index before)]
    by_cases here : index = last
    · subst here
      rw [if_pos passes]
      rfl
    · rw [if_neg (by rw [fails index (le_refl _) (by omega)]; decide)]
      exact ih (index + 1)
        (fun other above below => fails other (by omega) below) (by omega) (by omega)

end Fs
end Xv6
