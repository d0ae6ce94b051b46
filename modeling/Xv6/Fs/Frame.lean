import Xv6.Fs.Dir

/-!
# What the inode layer leaves alone

The functions on the contents of inodes and directories only change the disk,
the transaction and the in-memory copies of inodes: the entries of the inode
cache stay with their numbers, references and locks.
-/

namespace Xv6

open Faulting

namespace Fs

/-- The entries of the inode cache have the same numbers, references and flags,
and the same process runs. -/
structure SameCache (fs final : Fs) : Prop where
  /-- The inode numbers. -/
  inum : ∀ slot, (final.icache slot).inum = (fs.icache slot).inum
  /-- The reference counts. -/
  ref : ∀ slot, (final.icache slot).ref = (fs.icache slot).ref
  /-- The locks. -/
  busy : ∀ slot, (final.icache slot).busy = (fs.icache slot).busy
  /-- The flag `I_VALID`. -/
  valid : ∀ slot, (final.icache slot).valid = (fs.icache slot).valid
  /-- The running process. -/
  proc : final.proc = fs.proc
  /-- The owner of the transaction. -/
  owner : final.owner = fs.owner

theorem SameCache.refl (fs : Fs) : SameCache fs fs :=
  ⟨fun _ => rfl, fun _ => rfl, fun _ => rfl, fun _ => rfl, rfl, rfl⟩

theorem SameCache.trans {fs middle final : Fs}
    (first : SameCache fs middle)
    (second : SameCache middle final) :
    SameCache fs final where
  inum slot := (second.inum slot).trans (first.inum slot)
  ref slot := (second.ref slot).trans (first.ref slot)
  busy slot := (second.busy slot).trans (first.busy slot)
  valid slot := (second.valid slot).trans (first.valid slot)
  proc := second.proc.trans first.proc
  owner := second.owner.trans first.owner

/-- Changing the in-memory copy of an inode. -/
theorem SameCache.withDin
    (fs : Fs)
    (slot : Slot)
    (din : Dinode) :
    SameCache fs (fs.withInode slot { fs.icache slot with din := din }) := by
  have entry : ∀ other, (fs.withInode slot { fs.icache slot with din := din }).icache other =
        if other = slot then { fs.icache slot with din := din }
        else fs.icache other := by
    intro other
    simp only [withInode, Function.update_apply]
  refine ⟨?_, ?_, ?_, ?_, rfl, rfl⟩ <;>
    · intro other
      rw [entry]
      split
      · rename_i same
        rw [same]
      · rfl

/-- The panic of `iput`. -/
def iputBusy : Stop := .panic "iput busy"

/-- The computation leaves the cache entries alone, and does not stop with the
panic of `iput`. -/
def Keeps (run : FsM α) : Prop :=
  ∀ fs, Run.Spec run fs (fun _ final => SameCache fs final)
    fun reason => reason ≠ iputBusy

theorem Keeps.pure (value : α) : Keeps (Pure.pure value : FsM α) :=
  fun fs => SameCache.refl fs

theorem Keeps.panic (other : text ≠ "iput busy") :
    Keeps (Fs.panic text : FsM α) :=
  fun _ same => other (Stop.panic.inj same)

theorem Keeps.bind {next : α → FsM β}
    (keeps : Keeps first)
    (continues : ∀ value, Keeps (next value)) :
    Keeps (first >>= next) := by
  intro fs
  apply Run.Spec.bind
  refine (keeps fs).mono ?_ (fun _ => id)
  intro value middle same
  exact (continues value middle).mono (fun _ _ later => same.trans later) fun _ => id

/-- Reading the state. -/
theorem Keeps.get_bind {next : Fs → FsM α}
    (continues : ∀ fs, Run.Spec (next fs) fs (fun _ final => SameCache fs final)
      fun reason => reason ≠ iputBusy) :
    Keeps (Run.get >>= next) :=
  fun fs => Run.Spec.get_bind (continues fs)

theorem Keeps.bread (block : Nat) : Keeps (Fs.bread block) :=
  fun fs => SameCache.refl fs

theorem Keeps.inode (slot : Slot) : Keeps (Fs.inode slot) :=
  fun fs => SameCache.refl fs

/-- Changing the in-memory copy of an inode that has just been read. -/
theorem Keeps.inode_bind_setDin
    (slot : Slot)
    (change : Dinode → Dinode)
    {next : FsM α}
    (continues : Keeps next) :
    Keeps (do
      let ip ← Fs.inode slot
      Fs.setInode slot { ip with din := change ip.din }
      next) := by
  intro fs
  apply Run.Spec.gets_bind
  apply Run.Spec.modify_bind
  exact (continues _).mono (fun _ _ later => (SameCache.withDin fs slot _).trans later) fun _ => id

variable (sb : Superblock)

theorem keeps_logWrite (block : Nat) (data : Block) :
    Keeps (logWrite sb block data) := by
  intro fs
  refine (logWrite_spec sb fs block data).mono ?_ ?_
  · rintro _ _ rfl
    exact ⟨fun _ => rfl, fun _ => rfl, fun _ => rfl, fun _ => rfl, rfl, rfl⟩
  · rintro reason (⟨rfl, _⟩ | ⟨rfl, _⟩) same
    · exact absurd (Stop.panic.inj same) (by decide)
    · exact absurd (Stop.panic.inj same) (by decide)

theorem keeps_iupdate (slot : Slot) : Keeps (iupdate sb slot) :=
  (Keeps.inode slot).bind fun _ => (Keeps.bread _).bind fun _ =>
    keeps_logWrite sb _ _

theorem keeps_bzero (block : Nat) : Keeps (bzero sb block) :=
  (Keeps.bread block).bind fun _ => keeps_logWrite sb _ _

theorem keeps_balloc : Keeps (balloc sb) := by
  apply Keeps.get_bind
  intro fs
  split
  · exact Keeps.panic (by decide) fs
  · exact ((Keeps.bread _).bind fun _ => (keeps_logWrite sb _ _).bind fun _ =>
      (keeps_bzero sb _).bind fun _ => Keeps.pure _) fs

theorem keeps_bfree (block : UInt32) : Keeps (bfree sb block) := by
  refine (Keeps.bread _).bind fun data => ?_
  split
  · exact Keeps.panic (by decide)
  · exact keeps_logWrite sb _ _

theorem keeps_setAddr (slot : Slot) (index : Fin (NDIRECT + 1)) (addr : UInt32) :
    Keeps (setAddr slot index addr) := by
  intro fs
  exact SameCache.withDin fs slot _

theorem keeps_bmapAddr (slot : Slot) (index : Fin (NDIRECT + 1)) :
    Keeps (bmapAddr sb slot index) := by
  refine (Keeps.inode slot).bind fun ip => ?_
  split
  · exact (keeps_balloc sb).bind fun addr => (keeps_setAddr slot index addr).bind
      fun _ => Keeps.pure _
  · exact Keeps.pure _

theorem keeps_bmapEntry (table : UInt32) (entry : Nat) :
    Keeps (bmapEntry sb table entry) := by
  refine (Keeps.bread _).bind fun block => ?_
  split
  · exact (keeps_balloc sb).bind fun _ => (keeps_logWrite sb _ _).bind fun _ =>
      Keeps.pure _
  · exact Keeps.pure _

theorem keeps_bmap (slot : Slot) (bn : Nat) : Keeps (bmap sb slot bn) := by
  unfold bmap
  split
  · exact keeps_bmapAddr sb slot _
  · split
    · exact (keeps_bmapAddr sb slot _).bind fun _ => keeps_bmapEntry sb _ _
    · exact Keeps.panic (by decide)

/-- A loop that started in a state ends as `Keeps` says. -/
def KeptBy (fs : Fs) : Except Stop Fs → Prop
  | .ok final => SameCache fs final
  | .error reason => reason ≠ iputBusy

theorem KeptBy.after (same : SameCache fs middle) :
    {ending : Except Stop Fs} → KeptBy middle ending → KeptBy fs ending
  | .ok _, later => same.trans later
  | .error _, later => later

theorem readLoop_keptBy
    (slot : Slot)
    (fuel n off : Nat)
    (fs : Fs) :
    KeptBy fs (readLoop sb slot fuel n off fs).2 := by
  induction fuel generalizing n off fs with
  | zero => exact SameCache.refl fs
  | succ fuel ih =>
    unfold readLoop
    split
    · exact SameCache.refl fs
    · split
      · rename_i reason faulted
        exact (keeps_bmap sb slot _ fs).of_error faulted
      · rename_i addr middle mapped
        exact (ih _ _ middle).after ((keeps_bmap sb slot _ fs).of_ok mapped)

theorem keeps_readi (slot : Slot) (off n : UInt32) :
    Keeps (readi sb slot off n) := by
  intro fs
  unfold Run.Spec readi readiStores
  dsimp only
  split_ifs
  · exact SameCache.refl fs
  · exact SameCache.refl fs
  · exact SameCache.refl fs
  have ending := readLoop_keptBy sb slot (readCount (fs.icache slot).din.size off n).toNat
    (readCount (fs.icache slot).din.size off n).toNat off.toNat fs
  cases returned : (readLoop sb slot (readCount (fs.icache slot).din.size off n).toNat
      (readCount (fs.icache slot).din.size off n).toNat off.toNat fs).2 with
  | ok final =>
    rw [returned] at ending
    exact ending
  | error reason =>
    rw [returned] at ending
    exact ending

theorem keeps_writeLoop (slot : Slot) (fuel off : Nat) (src : List UInt8) :
    Keeps (writeLoop sb slot fuel off src) := by
  induction fuel generalizing off src with
  | zero => exact Keeps.pure _
  | succ fuel ih =>
    unfold writeLoop
    split
    · exact Keeps.pure _
    · exact (keeps_bmap sb slot _).bind fun _ => (Keeps.bread _).bind fun _ =>
        (keeps_logWrite sb _ _).bind fun _ => ih _ _

theorem keeps_writei (slot : Slot) (src : List UInt8) (off : UInt32) :
    Keeps (writei sb slot src off) := by
  refine (Keeps.inode slot).bind fun ip => ?_
  dsimp only
  split_ifs
  · exact Keeps.pure _
  · exact Keeps.pure _
  · exact Keeps.pure _
  · exact Keeps.pure _
  refine (keeps_writeLoop sb slot _ _ _).bind fun _ => ?_
  intro fs
  apply Run.Spec.gets_bind
  split
  · apply Run.Spec.modify_bind
    exact ((keeps_iupdate sb slot).bind fun _ => Keeps.pure _) _ |>.mono
      (fun _ _ later => (SameCache.withDin fs slot _).trans later) fun _ => id
  · exact SameCache.refl fs

theorem keeps_dirScan
    (dp : Slot)
    (other : text ≠ "iput busy")
    (test : List UInt8 → Bool)
    (fuel off : Nat) :
    Keeps (dirScan sb dp text test fuel off) := by
  induction fuel generalizing off with
  | zero => exact Keeps.pure _
  | succ fuel ih =>
    refine (Keeps.inode dp).bind fun ip => ?_
    split
    · refine (keeps_readi sb dp _ _).bind fun transfer => ?_
      split
      · split
        · split
          · exact Keeps.pure _
          · exact ih _
        · exact Keeps.panic other
      · exact Keeps.panic other
    · exact Keeps.pure _

theorem keeps_dirlinkWrite (dp : Slot) (name : Name) (inum : Nat) :
    Keeps (dirlinkWrite sb dp name inum) := by
  refine (Keeps.inode dp).bind fun ip => ?_
  refine (keeps_dirScan sb dp (by decide) _ _ _).bind fun found => ?_
  refine (keeps_writei sb dp _ _).bind fun transfer => ?_
  split
  · split
    · exact Keeps.pure _
    · exact Keeps.panic (by decide)
  · exact Keeps.panic (by decide)

theorem keeps_isdirempty (dp : Slot) : Keeps (isdirempty sb dp) :=
  (Keeps.inode dp).bind fun _ => (keeps_dirScan sb dp (by decide) _ _ _).bind fun _ =>
    Keeps.pure _

theorem keeps_clearEntry (dp : Slot) (off : Nat) : Keeps (clearEntry sb dp off) := by
  refine (keeps_writei sb dp _ _).bind fun transfer => ?_
  split
  · split
    · exact Keeps.pure _
    · exact Keeps.panic (by decide)
  · exact Keeps.panic (by decide)

theorem keeps_freeDirect (slot : Slot) (indices : List (Fin (NDIRECT + 1))) :
    Keeps (freeDirect sb slot indices) := by
  induction indices with
  | nil => exact Keeps.pure _
  | cons index rest ih =>
    refine (Keeps.inode slot).bind fun ip => ?_
    split
    · exact ih
    · exact (keeps_bfree sb _).bind fun _ => (keeps_setAddr slot index 0).bind
        fun _ => ih

theorem keeps_freeIndirect (table : Block) (entries : List Nat) :
    Keeps (freeIndirect sb table entries) := by
  induction entries with
  | nil => exact Keeps.pure _
  | cons entry rest ih =>
    refine Keeps.bind ?_ fun _ => ih
    unfold bfreeAddr
    split
    · exact Keeps.pure _
    · exact keeps_bfree sb _

theorem keeps_itrunc (slot : Slot) : Keeps (itrunc sb slot) := by
  have ending : Keeps (do
      let ip ← inode slot
      setInode slot { ip with din := { ip.din with size := 0 } }
      iupdate sb slot) :=
    Keeps.inode_bind_setDin slot (fun din => { din with size := 0 }) (keeps_iupdate sb slot)
  refine (keeps_freeDirect sb slot _).bind fun _ => ?_
  refine (Keeps.inode slot).bind fun ip => ?_
  split
  · exact ending
  · exact (Keeps.bread _).bind fun _ => (keeps_freeIndirect sb _ _).bind fun _ =>
      (keeps_bfree sb _).bind fun _ => (keeps_setAddr slot _ _).bind fun _ => ending

end Fs
end Xv6
