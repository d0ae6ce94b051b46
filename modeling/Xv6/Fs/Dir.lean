import Xv6.Fs.Inode

/-!
# Directories

The functions of `fs.c` and `sysfile.c` that read and write directory
entries, the comparison and copying of names, and the splitting of paths.
-/

namespace Xv6

open Cells

/-! ## Names -/

/-- A name as it is passed around: its bytes without the terminating zero. -/
abbrev Name := List UInt8

/-- Compare at most `n` characters of two strings, which end at a zero byte or
at the end of the list. -/
def strncmp : (n : Nat) → (p q : List UInt8) → Int
  | 0, _, _ => 0
  | n + 1, p, q =>
    if p.headD 0 ≠ 0 ∧ p.headD 0 = q.headD 0 then strncmp n p.tail q.tail
    else (p.headD 0).toNat - (q.headD 0).toNat

/-- Copy at most `n` characters of a string and fill up with zeros. -/
def strncpy : (t : List UInt8) → (n : Nat) → List UInt8
  | _, 0 => []
  | t, n + 1 =>
    if t.headD 0 = 0 then List.replicate (n + 1) 0
    else t.headD 0 :: strncpy t.tail n

/-- Compare two names. -/
def namecmp (s t : List UInt8) : Int := strncmp DIRSIZ s t

/-- The name `.`. -/
def dot : Name := [46]

/-- The name `..`. -/
def dotdot : Name := [46, 46]

/-- The character that separates path elements. -/
def slash : UInt8 := 47

/-- The next element of a path and what follows it, or nothing if the path has
no element. -/
def skipelem (path : List UInt8) : Option (Name × List UInt8) :=
  match path.dropWhile (· == slash) with
  | [] => none
  | char :: rest =>
    let elem := (char :: rest).takeWhile (· != slash)
    let after := (char :: rest).dropWhile (· != slash)
    some (elem.take DIRSIZ, after.dropWhile (· == slash))

/-- The elements that `skipelem` takes off a path one after the other; `fuel`
bounds their number. -/
def elements : (fuel : Nat) → (path : List UInt8) → List Name
  | 0, _ => []
  | fuel + 1, path =>
    match skipelem path with
    | none => []
    | some (name, rest) => name :: elements fuel rest

/-- All elements of a path. -/
def pathElements (path : List UInt8) : List Name := elements path.length path

/-! ## Directory entries -/

/-- The inode number of a directory entry. -/
def direntInum (de : List UInt8) : Nat := leNat (de.take 2)

/-- The name field of a directory entry. -/
def direntName (de : List UInt8) : List UInt8 := de.drop 2

/-- The bytes of a directory entry. -/
def dirent (inum : Nat) (name : Name) : List UInt8 :=
  leBytes 2 inum ++ strncpy name DIRSIZ

namespace Fs

/-- The loops over directory entries: read the entries from an offset on until
one of them passes the test or the end is reached, and return the offset and
that entry.  `fuel` bounds the number of entries; a short read is a panic. -/
def dirScan (sb : Superblock) (dp : Slot) (text : String)
    (test : List UInt8 → Bool) :
    (fuel off : Nat) → FsM (Nat × Option (List UInt8))
  | 0, off => pure (off, none)
  | fuel + 1, off => do
      let ip ← inode dp
      if off < ip.din.size.toNat then
        match ← readi sb dp (UInt32.ofNat off) (UInt32.ofNat direntSize) with
        | .done de =>
          if de.length = direntSize then
            if test de then pure (off, some de)
            else dirScan sb dp text test fuel (off + direntSize)
          else panic text
        | _ => panic text
      else pure (off, none)

/-- The number of rounds a scan of a directory can make. -/
def scanFuel (din : Dinode) : Nat := din.size.toNat / direntSize + 1

/-- Look for a directory entry, and return its inode and its offset. -/
def dirlookup (sb : Superblock) (dp : Slot) (name : Name) :
    FsM (Option (Slot × Nat)) := do
  let ip ← inode dp
  if ip.din.type ≠ T_DIR then panic "dirlookup not DIR"
  else
    let (off, found) ← dirScan sb dp "dirlink read"
      (fun de => direntInum de != 0 && namecmp name (direntName de) == 0)
      (scanFuel ip.din) 0
    match found with
    | none => pure none
    | some de =>
      let slot ← iget (direntInum de)
      pure (some (slot, off))

/-- The part of `dirlink` behind the check that the name is not present: look
for an empty entry and write the new one.  Returns the offset of the entry. -/
def dirlinkWrite (sb : Superblock) (dp : Slot) (name : Name) (inum : Nat) :
    FsM Nat := do
  let ip ← inode dp
  let (off, _) ← dirScan sb dp "dirlink read" (fun de => direntInum de == 0) (scanFuel ip.din) 0
  match ← writei sb dp (dirent inum name) (UInt32.ofNat off) with
  | .done n =>
    if n = UInt32.ofNat direntSize then pure off else panic "dirlink"
  | _ => panic "dirlink"

/-- Whether the directory is empty except for its first two entries. -/
def isdirempty (sb : Superblock) (dp : Slot) : FsM Bool := do
  let ip ← inode dp
  let (_, found) ← dirScan sb dp "isdirempty: readi"
    (fun de => direntInum de != 0) (scanFuel ip.din) (2 * direntSize)
  pure found.isNone

/-- The write of `sys_unlink` that clears an entry. -/
def clearEntry (sb : Superblock) (dp : Slot) (off : Nat) : FsM Unit := do
  match ← writei sb dp (List.replicate direntSize 0) (UInt32.ofNat off) with
  | .done n =>
    if n = UInt32.ofNat direntSize then pure () else panic "unlink: writei"
  | _ => panic "unlink: writei"

end Fs
end Xv6
