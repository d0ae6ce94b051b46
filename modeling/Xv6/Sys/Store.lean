import Xv6.Fs.Contents
import Xv6.Fs.Names
import Xv6.Sys.Calls

/-!
# The file system as a program sees it

The calls of `sysfile.c` while no other process runs: regular files are byte arrays,
directories lists of entries, and free blocks are counted.  References that a call
takes and gives back itself are left out.  What a call does on the disk is in a
transaction, so that a panic leaves the store of the last commit.
-/

namespace Xv6

open Function
open Faulting
open Cells
open Call (maxWrite)

namespace Store

/-- A directory entry. -/
structure Dirent where
  /-- The inode number; zero for an empty entry. -/
  inum : Nat
  name : List UInt8
  deriving DecidableEq

namespace Dirent

/-- What `sys_unlink` writes over an entry. -/
def empty : Dirent := ⟨0, List.replicate DIRSIZ 0⟩

/-- The bytes of an entry. -/
def bytes (de : Dirent) : List UInt8 := leBytes 2 de.inum ++ de.name

/-- The test of `dirlookup`. -/
def hasName (name : Name) (de : Dirent) : Bool :=
  de.inum != 0 && namecmp name de.name == 0

end Dirent

/-- What an inode holds, by type. -/
inductive Node where
  | dir (entries : List Dirent)
  | file (contents : List UInt8)
  | dev (major minor : Int16)
  deriving DecidableEq

namespace Node

/-- `ip->type`. -/
def type : Node → Int16
  | .dir _ => T_DIR
  | .file _ => T_FILE
  | .dev _ _ => T_DEV

/-- `ip->size`. -/
def size : Node → Nat
  | .dir entries => direntSize * entries.length
  | .file contents => contents.length
  | .dev _ _ => 0

end Node

/-- An inode in use. -/
structure Inode where
  node : Node
  nlink : Int16

/-- An open file. -/
structure OpenFile where
  ref : Nat
  /-- The number of the inode; none for an end of a pipe. -/
  inum : Option Nat
  off : UInt32
  readable : Bool
  writable : Bool

end Store

/-- The file system, and what is open. -/
@[ext]
structure Store where
  ninodes : Nat
  inodes : Nat → Option Store.Inode
  free : Nat
  /-- References to an inode that outlast a call: open files and current directories. -/
  refs : Nat → Nat
  ftable : FileId → Option Store.OpenFile
  ofile : Fd → Option FileId
  cwd : Nat
  /-- What devices return for the next reads: nothing if they refuse. -/
  input : List (Option (List UInt8))

namespace Store

/-- A panic, with what is on the disk. -/
structure Crash where
  text : String
  disk : Store

/-! ## Blocks -/

/-- The blocks of an inode: data, and the indirect block. -/
def blocks (size : Nat) : Nat :=
  (size + (BSIZE - 1)) / BSIZE + if NDIRECT * BSIZE < size then 1 else 0

/-! ## Directories and paths -/

/-- `dirlookup`: the inode number of the first entry with a name. -/
def dirlookup (entries : List Dirent) (name : Name) : Option Nat :=
  (entries.find? (Dirent.hasName name)).map Dirent.inum

/-- The offset that `dirlookup` reports, in entries. -/
def dirIndex (entries : List Dirent) (name : Name) : Nat :=
  entries.findIdx (Dirent.hasName name)

/-- `isdirempty`: only the first two entries are in use. -/
def isdirempty (entries : List Dirent) : Bool :=
  (entries.drop 2).all fun de => de.inum == 0

/-- The entries after `dirlink` has written a new one over the first empty one, or behind
the last one. -/
def dirlink (entries : List Dirent) (name : Name) (inum : Nat) : List Dirent :=
  let index := entries.findIdx fun de => de.inum == 0
  let de : Dirent := ⟨inum, strncpy name DIRSIZ⟩
  if index < entries.length then entries.set index de else entries ++ [de]

/-- `ilock`. -/
def ilock (s : Store) (inum : Nat) : Except String Inode :=
  match s.inodes inum with
  | some ip => .ok ip
  | none => .error "ilock: no type"

/-- The loop of `namex`. -/
def namexLoop (s : Store) (nameiparent : Bool) :
    (elements : List Name) → (inum : Nat) → (name : Name) → Except String (Option (Nat × Name))
  | [], inum, name => pure (if nameiparent then none else some (inum, name))
  | name :: rest, inum, _ => do
      let ip ← s.ilock inum
      match ip.node with
      | .dir entries =>
        if nameiparent && rest.isEmpty then pure (some (inum, name))
        else
          match dirlookup entries name with
          | some next => s.namexLoop nameiparent rest next name
          | none => pure none
      | _ => pure none

/-- Where a path starts. -/
def start (s : Store) (path : Path) : Nat :=
  if path.head? = some slash then ROOTINO else s.cwd

/-- `namei`. -/
def namei (s : Store) (path : Path) : Except String (Option Nat) := do
  let found ← s.namexLoop false (pathElements path) (s.start path) []
  pure (found.map Prod.fst)

/-- `nameiparent`: the parent, and the last element of the path. -/
def nameiparent (s : Store) (path : Path) : Except String (Option (Nat × Name)) :=
  s.namexLoop true (pathElements path) (s.start path) []

/-- Look at the store.  A panic leaves it as it is. -/
def look (part : Store → Except String α) : Run Crash Store α := fun s =>
  match part s with
  | .ok value => .ok (value, s)
  | .error text => .error ⟨text, s⟩

/-! ## Inodes -/

/-- `ialloc`: the first free inode. -/
def ialloc (s : Store) : Option Nat :=
  (List.range' 1 (s.ninodes - 1)).find? fun inum => (s.inodes inum).isNone

/-- The end of `iput`: an inode without links and references is freed. -/
def reap (inum : Nat) (s : Store) : Store :=
  match s.inodes inum with
  | some ip =>
    if s.refs inum = 0 ∧ ip.nlink = 0 then
      { s with
        inodes := update s.inodes inum none
        free := s.free + blocks ip.node.size }
    else s
  | none => s

/-- `iput` of a reference that has outlasted calls. -/
def iput (inum : Nat) (s : Store) : Store :=
  reap inum { s with refs := update s.refs inum (s.refs inum - 1) }

/-- The part of `create` that makes a regular file. -/
def createFile (dp : Nat) (parent : Inode) (entries : List Dirent) (name : Name) :
    Run Crash Store (Option Nat) := fun s =>
  match s.ialloc with
  | none => .error ⟨"ialloc: no inodes", s⟩
  | some inum =>
    let new := dirlink entries name inum
    if MAXFILE * BSIZE < direntSize * new.length then .error ⟨"dirlink", s⟩
    else if blocks (direntSize * entries.length) + s.free < blocks (direntSize * new.length) then
      .error ⟨"balloc: out of blocks", s⟩
    else
      .ok (some inum, { s with
          inodes := update (update s.inodes inum (some ⟨.file [], 1⟩))
            dp (some { parent with node := .dir new })
          free := s.free + blocks (direntSize * entries.length) -
            blocks (direntSize * new.length) })

/-- `create` with the type of a regular file. -/
def create (path : Path) : Run Crash Store (Option Nat) := do
  match ← look (·.nameiparent path) with
  | none => pure none
  | some (dp, name) => do
      let parent ← look (·.ilock dp)
      match parent.node with
      | .dir entries =>
        match dirlookup entries name with
        | some inum => do
            let ip ← look (·.ilock inum)
            pure (if ip.node.type = T_FILE then some inum else none)
        | none => createFile dp parent entries name
      | _ => look fun _ => .error "dirlookup not DIR"

/-! ## Open files -/

/-- `filealloc`. -/
def filealloc (s : Store) : Option FileId :=
  (List.finRange NFILE).find? fun f => (s.ftable f).isNone

/-- `fdalloc`. -/
def fdalloc (s : Store) : Option Fd :=
  (List.finRange NOFILE).find? fun fd => (s.ofile fd).isNone

/-- The open file that `sys_open` makes. -/
def OpenFile.new (inum : Nat) (omode : UInt32) : OpenFile where
  ref := 1
  inum := some inum
  off := 0
  readable := omode &&& O_WRONLY = 0
  writable := omode &&& O_WRONLY ≠ 0 ∨ omode &&& O_RDWR ≠ 0

/-- A new open file behind a descriptor. -/
def install (inum : Nat) (omode : UInt32) (f : FileId) (fd : Fd) (s : Store) : Store :=
  { s with
    refs := update s.refs inum (s.refs inum + 1)
    ftable := update s.ftable f (some (.new inum omode))
    ofile := update s.ofile fd (some f) }

/-- The end of `sys_open`. -/
def openInode (inum : Nat) (omode : UInt32) : Run Crash Store (Option Fd) := fun s =>
  match s.filealloc, s.fdalloc with
  | some f, some fd => .ok (some fd, s.install inum omode f fd)
  | _, _ => .ok (none, s)

/-- `sys_open`. -/
def sysOpen (path : Path) (omode : UInt32) : Run Crash Store (Option Fd) := do
  if omode &&& O_CREATE ≠ 0 then
    match ← create path with
    | some inum => openInode inum omode
    | none => pure none
  else
    match ← look (·.namei path) with
    | some inum => do
        let ip ← look (·.ilock inum)
        if ip.node.type = T_DIR ∧ omode ≠ O_RDONLY then pure none
        else openInode inum omode
    | none => pure none

/-- `fileclose`. -/
def fileclose (f : FileId) : Run Crash Store Unit := fun s =>
  match s.ftable f with
  | none => .error ⟨"fileclose", s⟩
  | some file =>
    if 1 < file.ref then
      .ok ((), { s with
        ftable := update s.ftable f (some { file with ref := file.ref - 1 }) })
    else
      let closed := { s with ftable := update s.ftable f none }
      match file.inum with
      | some inum => .ok ((), closed.iput inum)
      | none => .ok ((), closed)

/-- `sys_close`. -/
def sysClose (fd : Fd) : Run Crash Store Int := fun s =>
  match s.ofile fd with
  | none => .ok (-1, s)
  | some f =>
    (do
      Run.modify fun (s : Store) => { s with ofile := update s.ofile fd none }
      fileclose f
      pure 0) s

/-- What is behind an open file. -/
def behind (s : Store) (f : FileId) : Option (OpenFile × Nat × Inode) := do
  let file ← s.ftable f
  let inum ← file.inum
  let ip ← s.inodes inum
  pure (file, inum, ip)

/-- An open file with another offset. -/
def seek (f : FileId) (file : OpenFile) (off : UInt32) (s : Store) : Store :=
  { s with ftable := update s.ftable f (some { file with off := off }) }

/-- The bytes of a directory. -/
def dirBytes (entries : List Dirent) : List UInt8 := entries.flatMap Dirent.bytes

/-- `fileread`: the bytes, or nothing for -1. -/
def fileread (f : FileId) (n : UInt32) : Run Crash Store (Option (List UInt8)) := fun s =>
  match s.behind f with
  | some (file, _, ip) =>
    if file.readable = false then .ok (none, s)
    else
      match ip.node with
      | .dev _ _ =>
        match s.input with
        | [] => .ok (some [], s)
        | none :: rest => .ok (none, { s with input := rest })
        | some bytes :: rest =>
          let bytes := bytes.take n.toNat
          .ok (some bytes,
            seek f file (file.off + UInt32.ofNat bytes.length) { s with input := rest })
      | .file contents =>
        match readBytes contents file.off n with
        | some bytes =>
          .ok (some bytes, s.seek f file (file.off + UInt32.ofNat bytes.length))
        | none => .ok (none, s)
      | .dir entries =>
        match readBytes (dirBytes entries) file.off n with
        | some bytes =>
          .ok (some bytes, s.seek f file (file.off + UInt32.ofNat bytes.length))
        | none => .ok (none, s)
  | none => .ok (none, s)

/-- `sys_read`. -/
def sysRead (fd : Fd) (n : UInt32) : Run Crash Store (Option (List UInt8)) := fun s =>
  match s.ofile fd with
  | some f => fileread f n s
  | none => .ok (none, s)

/-- A regular file with other contents, and an open file of it with another offset. -/
def put (inum : Nat) (ip : Inode) (contents : List UInt8) (f : FileId) (file : OpenFile)
    (off : UInt32) (s : Store) : Store :=
  { s with
    inodes := update s.inodes inum (some { ip with node := .file contents })
    free := s.free + blocks ip.node.size - blocks contents.length
    ftable := update s.ftable f (some { file with off := off }) }

/-- One transaction of `filewrite`: whether the bytes have been written. -/
def fileWritei (f : FileId) (src : List UInt8) : Run Crash Store Bool := fun s =>
  match s.behind f with
  | some (file, inum, ip) =>
    match ip.node with
    | .file contents =>
      match writeBytes contents src file.off with
      | none => .ok (false, s)
      | some new =>
        if blocks contents.length + s.free < blocks new.length then
          .error ⟨"balloc: out of blocks", s⟩
        else
          .ok (true, s.put inum ip new f file (file.off + UInt32.ofNat src.length))
    -- the console takes all bytes
    | .dev _ _ => .ok (true, s.seek f file (file.off + UInt32.ofNat src.length))
    -- no directory is open for writing
    | .dir _ => .ok (false, s)
  | none => .ok (false, s)

/-- The loop of `filewrite`; `fuel` bounds the number of rounds, each of which writes at
least one byte. -/
def filewriteLoop (f : FileId) : (fuel : Nat) → (src : List UInt8) → Run Crash Store Bool
  | 0, _ => pure true
  | fuel + 1, src =>
    if src = [] then pure true
    else do
      let n1 := min src.length maxWrite
      if ← fileWritei f (src.take n1) then filewriteLoop f fuel (src.drop n1)
      else pure false

/-- `filewrite`. -/
def filewrite (f : FileId) (src : List UInt8) : Run Crash Store Int := fun s =>
  match s.behind f with
  | some (file, _, _) =>
    if file.writable = false then .ok (-1, s)
    else
      (do if ← filewriteLoop f src.length src then pure (src.length : Int) else pure (-1)) s
  | none => .ok (-1, s)

/-- `sys_write`. -/
def sysWrite (fd : Fd) (src : List UInt8) : Run Crash Store Int := fun s =>
  match s.ofile fd with
  | some f => filewrite f src s
  | none => .ok (-1, s)

/-! ## Removing a name -/

/-- What `sys_unlink` is about to remove. -/
structure Removal where
  dp : Nat
  parent : Inode
  entries : List Dirent
  name : Name
  inum : Nat
  ip : Inode

/-- The checks of `sys_unlink`: what can be removed, or nothing. -/
def removal (s : Store) (path : Path) : Except String (Option Removal) := do
  match ← s.nameiparent path with
  | none => pure none
  | some (dp, name) => do
      let parent ← s.ilock dp
      if namecmp name dot = 0 ∨ namecmp name dotdot = 0 then pure none
      else
        match parent.node with
        | .dir entries =>
          match dirlookup entries name with
          | none => pure none
          | some inum => do
              let ip ← s.ilock inum
              if ip.nlink < 1 then .error "unlink: nlink < 1"
              else
                match ip.node with
                | .dir below =>
                  if isdirempty below then
                    pure (some ⟨dp, parent, entries, name, inum, ip⟩)
                  else pure none
                | _ => pure (some ⟨dp, parent, entries, name, inum, ip⟩)
        | _ => .error "dirlookup not DIR"

/-- The directory without the entry. -/
def Removal.cleared (r : Removal) : List Dirent :=
  r.entries.set (dirIndex r.entries r.name) .empty

/-- The transaction of `sys_unlink`. -/
def remove (s : Store) (r : Removal) : Store :=
  let nlink := if r.ip.node.type = T_DIR then r.parent.nlink - 1 else r.parent.nlink
  reap r.inum
    { s with
      inodes := update (update s.inodes r.dp (some ⟨.dir r.cleared, nlink⟩))
        r.inum (some { r.ip with nlink := r.ip.nlink - 1 }) }

/-- `sys_unlink`. -/
def sysUnlink (path : Path) : Run Crash Store Int := do
  match ← look (·.removal path) with
  | none => pure (-1)
  | some r => do
      Run.modify fun s => s.remove r
      pure 0

end Store
end Xv6
