import Xv6.Foundation.Cells

/-!
# Parameters and the on-disk layout

The constants of `param.h`, `fs.h`, `fcntl.h` and `memlayout.h`, and the arithmetic of
`fs.h` that places inodes and bitmap bits on the disk.
-/

namespace Xv6

open Cells

/-- Bytes in a disk block. -/
abbrev BSIZE : Nat := 512

/-- Data sectors the in-memory log header has room for. -/
abbrev LOGSIZE : Nat := 10

/-- Device numbers the device switch has room for. -/
abbrev NDEV : Nat := 10

/-- Entries of the inode cache. -/
abbrev NINODE : Nat := 50

/-- Entries of the open-file table. -/
abbrev NFILE : Nat := 100

/-- Descriptors of one process. -/
abbrev NOFILE : Nat := 16

/-- Inode number of the root directory. -/
abbrev ROOTINO : Nat := 1

/-- Direct block addresses of an inode. -/
abbrev NDIRECT : Nat := 12

/-- Block addresses in an indirect block. -/
abbrev NINDIRECT : Nat := 128

/-- Blocks of the largest file. -/
abbrev MAXFILE : Nat := NDIRECT + NINDIRECT

/-- Bytes of an on-disk inode. -/
abbrev dinodeSize : Nat := 64

/-- Inodes per block. -/
abbrev IPB : Nat := BSIZE / dinodeSize

/-- Bitmap bits per block. -/
abbrev BPB : Nat := BSIZE * 8

/-- Bytes of a file name in a directory entry. -/
abbrev DIRSIZ : Nat := 14

/-- Bytes of a directory entry. -/
abbrev direntSize : Nat := 16

/-- First kernel virtual address. -/
abbrev KERNBASE : Nat := 0x80000000

/-- Mode bits of `open`. -/
abbrev O_RDONLY : UInt32 := 0

@[inherit_doc O_RDONLY]
abbrev O_WRONLY : UInt32 := 1

@[inherit_doc O_RDONLY]
abbrev O_RDWR : UInt32 := 2

@[inherit_doc O_RDONLY]
abbrev O_CREATE : UInt32 := 0x200

/-- A disk sector. -/
abbrev Block := Cell BSIZE

/-- Sector contents of a disk. -/
abbrev Disk := Nat → Block

/-- The value of a 32-bit word read as a signed integer. -/
def asInt (word : UInt32) : Int :=
  if word.toNat < 2 ^ 31 then word.toNat else (word.toNat : Int) - 2 ^ 32

/-- The fields of the super block. -/
structure Superblock where
  size : Nat
  nblocks : Nat
  ninodes : Nat
  nlog : Nat
  deriving DecidableEq, Repr

/-- Block holding an inode. -/
def IBLOCK (inum : Nat) : Nat := inum / IPB + 2

/-- Block holding the bitmap bit of a block. -/
def BBLOCK (block ninodes : Nat) : Nat := block / BPB + ninodes / IPB + 3

end Xv6
