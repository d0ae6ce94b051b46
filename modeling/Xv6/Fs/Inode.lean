import Xv6.Fs.Bitmap

/-!
# Inodes

The functions of `fs.c` on inodes: the inode cache, the map from the blocks
of a file to disk blocks, and reading, writing and truncating a file.
-/

namespace Xv6

open Faulting

/-- What a transfer between memory and an inode comes to. -/
inductive Transfer (α : Type) where
  | done (result : α)
  | refused
  | device
  deriving DecidableEq, Repr

/-- Major number of the console, the only entry of the device switch. -/
abbrev CONSOLE : Int16 := 1

namespace Fs

/-! ## The inode cache -/

/-- Find the inode in the cache, or take a free entry for it. -/
def iget (inum : Nat) : FsM Slot := do
  let fs ← Run.get
  match (List.finRange NINODE).find? fun slot =>
      0 < (fs.icache slot).ref && (fs.icache slot).inum == inum with
  | some slot =>
    setInode slot { fs.icache slot with ref := (fs.icache slot).ref + 1 }
    pure slot
  | none =>
    match (List.finRange NINODE).find? fun slot =>
        (fs.icache slot).ref == 0 with
    | some slot =>
      setInode slot
        { fs.icache slot with
          inum := inum, ref := 1, busy := none, valid := false }
      pure slot
    | none => panic "iget: no inodes"

/-- Take another reference to an inode. -/
def idup (slot : Slot) : FsM Slot := do
  let ip ← inode slot
  setInode slot { ip with ref := ip.ref + 1 }
  pure slot

/-- Allocate an inode of the given type: the first free one. -/
def ialloc (sb : Superblock) (type : Int16) : FsM Slot := do
  let fs ← Run.get
  match (List.range' 1 (sb.ninodes - 1)).find? fun inum =>
      (dinode fs.disk inum).type == 0 with
  | some inum =>
    let block ← bread (IBLOCK inum)
    logWrite sb (IBLOCK inum) (putDinode block (inum % IPB) { Dinode.zero with type := type })
    iget inum
  | none => panic "ialloc: no inodes"

/-- Set `I_BUSY`, or sleep while it is set. -/
def ilockAcquire (slot : Slot) : FsM Unit := do
  let fs ← Run.get
  let ip := fs.icache slot
  if ip.ref < 1 then panic "ilock"
  else if ip.busy.isSome then Run.fault .sleep
  else setInode slot { ip with busy := some fs.proc }

/-- Read the inode from the disk unless `I_VALID` is set. -/
def ilockLoad (slot : Slot) : FsM Unit := do
  let fs ← Run.get
  let ip := fs.icache slot
  if ip.valid then pure ()
  else
    let din := dinode fs.disk ip.inum
    setInode slot { ip with valid := true, din := din }
    if din.type = 0 then panic "ilock: no type" else pure ()

/-- Lock an inode. -/
def ilock (slot : Slot) : FsM Unit := do
  ilockAcquire slot
  ilockLoad slot

/-- Locking an unlocked inode that is already read from the disk. -/
theorem ilock_valid
    (referenced : 1 ≤ (fs.icache slot).ref)
    (unlocked : (fs.icache slot).busy = none)
    (valid : (fs.icache slot).valid = true) :
    ilock slot fs = .ok ((), fs.withInode slot { fs.icache slot with busy := some fs.proc }) := by
  have acquired : ilockAcquire slot fs = .ok ((), fs.withInode slot
      { fs.icache slot with busy := some fs.proc }) := by
    rw [ilockAcquire, Run.bind_of_ok (Run.get_apply fs), if_neg (by omega),
      if_neg (by simp [unlocked])]
    rfl
  rw [ilock, Run.bind_of_ok acquired, ilockLoad, Run.bind_of_ok (Run.get_apply _),
    if_pos (by simp [withInode, valid])]
  rfl

/-- Unlock an inode. -/
def iunlock (slot : Slot) : FsM Unit := do
  let ip ← inode slot
  if ip.busy.isNone ∨ ip.ref < 1 then panic "iunlock"
  else setInode slot { ip with busy := none }

/-! ## Blocks of an inode -/

/-- Record a block address in the in-memory inode. -/
def setAddr (slot : Slot) (index : Fin (NDIRECT + 1)) (addr : UInt32) :
    FsM Unit := do
  let ip ← inode slot
  setInode slot
    { ip with din :=
      { ip.din with addrs := Function.update ip.din.addrs index addr } }

/-- The address in `addrs`, allocating a block if there is none. -/
def bmapAddr (sb : Superblock) (slot : Slot) (index : Fin (NDIRECT + 1)) :
    FsM UInt32 := do
  let ip ← inode slot
  if ip.din.addrs index = 0 then
    let addr ← balloc sb
    setAddr slot index addr
    pure addr
  else pure (ip.din.addrs index)

/-- Index of the indirect block in `addrs`. -/
def indirect : Fin (NDIRECT + 1) := Fin.last NDIRECT

/-- The address in an indirect block, allocating a block if there is none. -/
def bmapEntry (sb : Superblock) (table : UInt32) (entry : Nat) : FsM UInt32 := do
  let block ← bread table.toNat
  if block.word (4 * entry) = 0 then
    let addr ← balloc sb
    logWrite sb table.toNat (block.putWord (4 * entry) addr)
    pure addr
  else pure (block.word (4 * entry))

/-- The disk block of a block of the file, allocating it if necessary. -/
def bmap (sb : Superblock) (slot : Slot) (bn : Nat) : FsM UInt32 :=
  if direct : bn < NDIRECT then
    bmapAddr sb slot (Fin.castSucc ⟨bn, direct⟩)
  else if bn - NDIRECT < NINDIRECT then do
    let table ← bmapAddr sb slot indirect
    bmapEntry sb table (bn - NDIRECT)
  else panic "bmap: out of range"

/-- Free a block address unless it is zero. -/
def bfreeAddr (sb : Superblock) (addr : UInt32) : FsM Unit :=
  if addr = 0 then pure () else bfree sb addr

/-- Free the direct blocks of an inode. -/
def freeDirect (sb : Superblock) (slot : Slot) :
    List (Fin (NDIRECT + 1)) → FsM Unit
  | [] => pure ()
  | index :: rest => do
      let ip ← inode slot
      if ip.din.addrs index = 0 then pure ()
      else
        bfree sb (ip.din.addrs index)
        setAddr slot index 0
      freeDirect sb slot rest

/-- Free the blocks listed in an indirect block. -/
def freeIndirect (sb : Superblock) (table : Block) : List Nat → FsM Unit
  | [] => pure ()
  | entry :: rest => do
      bfreeAddr sb (table.word (4 * entry))
      freeIndirect sb table rest

/-- Discard the contents of an inode. -/
def itrunc (sb : Superblock) (slot : Slot) : FsM Unit := do
  freeDirect sb slot ((List.finRange NDIRECT).map Fin.castSucc)
  let ip ← inode slot
  if ip.din.addrs indirect = 0 then pure ()
  else
    let table ← bread (ip.din.addrs indirect).toNat
    freeIndirect sb table (List.range NINDIRECT)
    bfree sb (ip.din.addrs indirect)
    setAddr slot indirect 0
  let ip ← inode slot
  setInode slot { ip with din := { ip.din with size := 0 } }
  iupdate sb slot

/-! ## Contents of an inode -/

/-- The loop of `readi`: the bytes it stores, those before a panic included,
and how it ends.  `fuel` bounds the number of rounds; each round moves at
least one of the `n` bytes. -/
def readLoop (sb : Superblock) (slot : Slot) :
    (fuel n off : Nat) → Fs → List UInt8 × Except Stop Fs
  | 0, _, _, fs => ([], .ok fs)
  | fuel + 1, n, off, fs =>
    if n = 0 then ([], .ok fs)
    else
      match bmap sb slot (off / BSIZE) fs with
      | .error reason => ([], .error reason)
      | .ok (addr, fs) =>
        let m := min n (BSIZE - off % BSIZE)
        let later := readLoop sb slot fuel (n - m) (off + m) fs
        ((fs.disk addr.toNat).slice (off % BSIZE) m ++ later.1, later.2)

/-- Number of bytes `readi` moves: `n`, clipped to the end of the file. -/
def readCount (size off n : UInt32) : UInt32 :=
  if size < off + n then size - off else n

/-- Read from an inode: what is stored from the destination on, and the
result. -/
def readiStores (sb : Superblock) (slot : Slot) (off n : UInt32) (fs : Fs) :
    List UInt8 × Except Stop (Transfer UInt32 × Fs) :=
  let din := (fs.icache slot).din
  if din.type = T_DEV then
    if din.major < 0 ∨ Int16.ofNat NDEV ≤ din.major ∨ din.major ≠ CONSOLE then
      ([], .ok (.refused, fs))
    else ([], .ok (.device, fs))
  else if din.size < off ∨ off + n < off then ([], .ok (.refused, fs))
  else
    let count := readCount din.size off n
    let (bytes, ending) :=
      readLoop sb slot count.toNat count.toNat off.toNat fs
    (bytes, ending.map fun fs => (.done count, fs))

/-- Read from an inode: the bytes read. -/
def readi (sb : Superblock) (slot : Slot) (off n : UInt32) :
    FsM (Transfer (List UInt8)) := fun fs =>
  let (bytes, ending) := readiStores sb slot off n fs
  ending.map fun
    | (.done _, fs) => (.done bytes, fs)
    | (.refused, fs) => (.refused, fs)
    | (.device, fs) => (.device, fs)

/-- The loop of `writei`. -/
def writeLoop (sb : Superblock) (slot : Slot) :
    (fuel off : Nat) → (src : List UInt8) → FsM Unit
  | 0, _, _ => pure ()
  | fuel + 1, off, src =>
    if src = [] then pure ()
    else do
      let addr ← bmap sb slot (off / BSIZE)
      let block ← bread addr.toNat
      let m := min src.length (BSIZE - off % BSIZE)
      logWrite sb addr.toNat (block.splice (off % BSIZE) (src.take m))
      writeLoop sb slot fuel (off + m) (src.drop m)

/-- Write to an inode. -/
def writei (sb : Superblock) (slot : Slot) (src : List UInt8) (off : UInt32) :
    FsM (Transfer UInt32) := do
  let ip ← inode slot
  let n := UInt32.ofNat src.length
  if ip.din.type = T_DEV then
    if ip.din.major < 0 ∨ Int16.ofNat NDEV ≤ ip.din.major ∨ ip.din.major ≠ CONSOLE then
      pure .refused
    else pure .device
  else if ip.din.size < off ∨ off + n < off then pure .refused
  else if MAXFILE * BSIZE < (off + n).toNat then pure .refused
  else
    writeLoop sb slot src.length off.toNat src
    let ip ← inode slot
    if 0 < n ∧ ip.din.size < off + n then
      setInode slot { ip with din := { ip.din with size := off + n } }
      iupdate sb slot
    pure (.done n)

end Fs
end Xv6
