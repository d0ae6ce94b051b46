import Xv6.Fs.Allocator
import Xv6.Fs.Dir

/-!
# The program that makes file systems

`mkfs.c`: sectors, inodes, appending to an inode, and the loop over the input
files.  The fields of inodes and the entries of indirect blocks stand for their
values; `xshort` and `xint` put them on the disk in the byte order in which the
kernel reads them.
-/

namespace Xv6

open Cells
open Faulting

namespace Mkfs

/-! ## States -/

/-- The image, and the counters of `mkfs`. -/
structure State where
  disk : Disk
  freeblock : Nat
  usedblocks : Nat
  freeinode : Nat

/-- Why `mkfs` exits before its end. -/
inductive Exit where
  | assertion (text : String)
  /-- A sector behind the end of the image is read. -/
  | read
  deriving DecidableEq, Repr

/-- A function of `mkfs`. -/
abbrev MkfsM := Run Exit State

/-- `assert`. -/
def assert (text : String) (condition : Prop) [Decidable condition] : MkfsM Unit :=
  if condition then pure () else Run.fault (.assertion text)

/-- Write a sector. -/
def wsect (sec : Nat) (buf : Block) : MkfsM Unit :=
  Run.modify fun state =>
    { state with disk := Function.update state.disk sec buf }

/-- Read a sector; the image has `size` of them. -/
def rsect (sec : Nat) : MkfsM Block :=
  if sec < sb.size then Run.gets fun state => state.disk sec
  else Run.fault .read

/-- The block of an inode. -/
def i2b (inum : Nat) : Nat := inum / IPB + 2

/-- Write an inode. -/
def winode (inum : Nat) (din : Dinode) : MkfsM Unit := do
  let buf ← rsect (i2b inum)
  wsect (i2b inum) (putDinode buf (inum % IPB) din)

/-- Read an inode. -/
def rinode (inum : Nat) : MkfsM Dinode := do
  let buf ← rsect (i2b inum)
  pure (getDinode buf (inum % IPB))

/-- Take the next inode. -/
def ialloc (type : Int16) : MkfsM Nat := do
  let state ← Run.get
  Run.modify fun state => { state with freeinode := state.freeinode + 1 }
  winode state.freeinode { Dinode.zero with type := type, nlink := 1, size := 0 }
  pure state.freeinode

/-- Take the next block. -/
def nextBlock : MkfsM UInt32 := do
  let state ← Run.get
  Run.modify fun state =>
    { state with
      freeblock := state.freeblock + 1, usedblocks := state.usedblocks + 1 }
  pure (UInt32.ofNat state.freeblock)

/-! ## Appending -/

/-- Take a block for an element of `addrs` that is zero. -/
def needAddr (din : Dinode) (index : Fin (NDIRECT + 1)) : MkfsM Dinode :=
  if din.addrs index = 0 then do
    let block ← nextBlock
    pure { din with addrs := Function.update din.addrs index block }
  else pure din

/-- Take a block for an entry of the indirect block that is zero. -/
def needEntry (table : Nat) (entry : Nat) : MkfsM UInt32 := do
  let indirect ← rsect table
  if indirect.word (4 * entry) = 0 then
    let block ← nextBlock
    wsect table (indirect.putWord (4 * entry) block)
    pure block
  else pure (indirect.word (4 * entry))

/-- The block with number `fbn` of the file, which is taken if there is none
yet. -/
def needBlock (din : Dinode) (fbn : Nat) : MkfsM (UInt32 × Dinode) :=
  if direct : fbn < NDIRECT then do
    let index : Fin (NDIRECT + 1) := Fin.castSucc ⟨fbn, direct⟩
    let din ← needAddr din index
    pure (din.addrs index, din)
  else do
    let din ← needAddr din Fs.indirect
    let x ← needEntry (din.addrs Fs.indirect).toNat (fbn - NDIRECT)
    pure (x, din)

/-- The loop of `iappend`.  `fuel` bounds the number of rounds. -/
def iappendLoop : (fuel : Nat) → Dinode → (off : Nat) → (p : List UInt8) → MkfsM (Dinode × Nat)
  | 0, din, off, _ => pure (din, off)
  | fuel + 1, din, off, p =>
    if p = [] then pure (din, off)
    else do
      let fbn := off / BSIZE
      assert "fbn < MAXFILE" (fbn < MAXFILE)
      let (x, din) ← needBlock din fbn
      let n1 := min p.length ((fbn + 1) * BSIZE - off)
      let buf ← rsect x.toNat
      wsect x.toNat (buf.splice (off - fbn * BSIZE) (p.take n1))
      iappendLoop fuel din (off + n1) (p.drop n1)

/-- Append bytes to an inode. -/
def iappend (inum : Nat) (p : List UInt8) : MkfsM Unit := do
  let din ← rinode inum
  let (din, off) ← iappendLoop p.length din din.size.toNat p
  winode inum { din with size := UInt32.ofNat off }

/-! ## The image -/

/-- An input file: its name on the command line, and the pieces in which `read`
delivers its contents. -/
structure Input where
  argument : Name
  /-- It is a string: its only zero byte is the one that ends it. -/
  string : 0 ∉ argument
  /-- What the calls of `read` return, up to the first that returns nothing. -/
  chunks : List (List UInt8)

namespace Input

/-- The name without one leading underscore. -/
def name (file : Input) : Name :=
  if file.argument.head? = some 95 then file.argument.tail else file.argument

/-- The contents of the file. -/
def contents (file : Input) : List UInt8 := file.chunks.flatten

end Input

/-- Append the pieces of a file. -/
def appendAll (inum : Nat) : List (List UInt8) → MkfsM Unit
  | [] => pure ()
  | chunk :: rest => do
      iappend inum chunk
      appendAll inum rest

/-- The body of the loop over the input files. -/
def addFile (rootino : Nat) (file : Input) : MkfsM Unit := do
  assert "index(argv[i], '/') == 0" (slash ∉ file.argument)
  let inum ← ialloc T_FILE
  iappend rootino (dirent inum file.name)
  appendAll inum file.chunks

/-- The loop over the input files. -/
def addFiles (rootino : Nat) : List Input → MkfsM Unit
  | [] => pure ()
  | file :: rest => do
      addFile rootino file
      addFiles rootino rest

/-- Round the size of the root directory up. -/
def fixRoot (rootino : Nat) : MkfsM Unit := do
  let din ← rinode rootino
  let off := (din.size.toNat / BSIZE + 1) * BSIZE
  winode rootino { din with size := UInt32.ofNat off }

/-- Write the bitmap. -/
def writeBitmap : MkfsM Unit := do
  let state ← Run.get
  assert "used < 512*8" (state.usedblocks < BSIZE * 8)
  wsect (sb.ninodes / IPB + 3) (balloc state.usedblocks)

/-- The super block. -/
def superblock : Block :=
  Cell.zero.putWords 0 [UInt32.ofNat sb.size, UInt32.ofNat sb.nblocks, UInt32.ofNat sb.ninodes,
      UInt32.ofNat sb.nlog]

/-- `main`, from the super block on. -/
@[irreducible] def main (files : List Input) : MkfsM Unit := do
  wsect 1 superblock
  let rootino ← ialloc T_DIR
  assert "rootino == ROOTINO" (rootino = ROOTINO)
  iappend rootino (dirent rootino dot)
  iappend rootino (dirent rootino dotdot)
  addFiles rootino files
  fixRoot rootino
  writeBitmap

/-- The state in which every sector has been zeroed. -/
def initial : State where
  disk := fun _ => Cell.zero
  freeblock := usedblocks
  usedblocks := usedblocks
  freeinode := 1

/-- What `mkfs` makes of its input files. -/
def mkfs (files : List Input) : Except Exit State :=
  match main files initial with
  | .ok (_, state) => .ok state
  | .error reason => .error reason

end Mkfs
end Xv6
