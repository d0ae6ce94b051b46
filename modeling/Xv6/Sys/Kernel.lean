import Xv6.Foundation.Interleaving
import Xv6.Fs.Dir

/-!
# The kernel state and its operations

The file system together with the open-file table and the processes, and the
operations that system calls are made of.  Each operation is what a process
does without another process seeing an intermediate state: it runs under the
spin lock of its table, or on an inode that the process has locked, or on data
of the process itself.
-/

namespace Xv6

open Function
open Faulting

/-! ## States -/

/-- Index of an entry of the open-file table, which stands for a pointer to
it. -/
abbrev FileId := Fin NFILE

/-- A file descriptor. -/
abbrev Fd := Fin NOFILE

/-- The types of open files. -/
inductive FileType where
  | none
  | pipe
  | inode
  deriving DecidableEq, Repr

/-- An entry of the open-file table. -/
structure File where
  type : FileType
  ref : Nat
  readable : Bool
  writable : Bool
  pipe : Nat
  ip : Slot
  off : UInt32

/-- An unused entry. -/
def File.unused : File where
  type := .none
  ref := 0
  readable := false
  writable := false
  pipe := 0
  ip := ⟨0, by decide⟩
  off := 0

/-- What the file system calls use of a process. -/
structure Proc where
  cwd : Option Slot
  ofile : Fd → Option FileId
  /-- Whether `fork` is still making the process. -/
  embryo : Bool

/-- A process that `allocproc` has just taken. -/
def Proc.new : Proc where
  cwd := none
  ofile := fun _ => none
  embryo := true

/-- What opening and closing use of a pipe.  A pipe is named by the number of
pipes that had been made before it, so that its page can be followed after it
has been freed. -/
structure PipeEnds where
  readopen : Bool
  writeopen : Bool
  /-- How often the page has been freed.  No function of the kernel reads it. -/
  frees : Nat
  deriving DecidableEq

/-- A pipe that has not been made yet. -/
def PipeEnds.unmade : PipeEnds where
  readopen := false
  writeopen := false
  frees := 0

/-- The ends of a pipe after one of them is closed; the last one frees the
page. -/
def PipeEnds.close (ends : PipeEnds) (writable : Bool) : PipeEnds :=
  let closed := if writable then { ends with writeopen := false }
    else { ends with readopen := false }
  if closed.readopen = false ∧ closed.writeopen = false then
    { closed with frees := closed.frees + 1 }
  else closed

/-- What is left to do when the last reference to a file is gone. -/
inductive Closing where
  | nothing
  | inode (ip : Slot)
  | pipe (p : Nat) (writable : Bool)

/-- The state of the kernel. -/
structure Kernel where
  fs : Fs
  ftable : FileId → File
  procs : Pid → Option Proc
  pipes : Nat → PipeEnds
  npipes : Nat
  /-- How often an inode number has been allocated.  No function of the kernel
  reads it. -/
  born : Nat → Nat
  /-- For a slot of a directory, how often the number in it had been allocated
  when the entry was made.  No function of the kernel reads it. -/
  made : Nat → Nat → Nat

/-- A function of the kernel. -/
abbrev KernelM := Run Stop Kernel

/-! ## Operations -/

/-- The operations, with the types of their results. -/
inductive Op : Type → Type where
  | beginTrans : Op Unit
  | commitTrans : Op Unit
  | igetRoot : Op Slot
  | idupCwd : Op Slot
  | ilock (ip : Slot) : Op Unit
  | iunlock (ip : Slot) : Op Unit
  /-- `iput` up to the release of the spin lock: whether the inode is to be
  freed. -/
  | iputBegin (ip : Slot) : Op Bool
  /-- The rest of `iput` for an inode to be freed. -/
  | iputFree (ip : Slot) : Op Unit
  | stat (ip : Slot) : Op Dinode
  | dirlookup (dp : Slot) (name : Name) : Op (Option (Slot × Nat))
  /-- `dirlink` behind its `dirlookup`, with the number of an inode. -/
  | dirlinkWrite (dp : Slot) (name : Name) (ip : Slot) : Op Unit
  | isdirempty (dp : Slot) : Op Bool
  | clearEntry (dp : Slot) (off : Nat) : Op Unit
  | ialloc (type : Int16) : Op Slot
  /-- Set `major`, `minor` and `nlink = 1`, and `iupdate`. -/
  | setNew (ip : Slot) (major minor : Int16) : Op Unit
  | incNlink (ip : Slot) : Op Unit
  | decNlink (ip : Slot) : Op Unit
  | readi (ip : Slot) (off n : UInt32) : Op (Transfer (List UInt8))
  | filealloc : Op (Option FileId)
  | fdalloc (f : FileId) : Op (Option Fd)
  | filedup (f : FileId) : Op Unit
  | fdFile (fd : Fd) : Op (Option FileId)
  | fdTake (fd : Fd) : Op (Option FileId)
  | fdClear (fd : Fd) : Op Unit
  | file (f : FileId) : Op File
  /-- The end of `sys_open`: fill in an open file. -/
  | fileInit (f : FileId) (ip : Slot) (readable writable : Bool) : Op Unit
  /-- The end of `pipealloc`: fill in a pipe and the files of its two ends. -/
  | pipeInit (rf wf : FileId) : Op Unit
  | pipeclose (p : Nat) (writable : Bool) : Op Unit
  /-- `fileclose` up to the release of the spin lock: what is left to do. -/
  | fileDrop (f : FileId) : Op Closing
  /-- `readi` at the offset of a file, which it advances. -/
  | fileReadi (f : FileId) (n : UInt32) : Op (Transfer (List UInt8))
  /-- `writei` at the offset of a file, which it advances. -/
  | fileWritei (f : FileId) (src : List UInt8) : Op (Transfer UInt32)
  /-- Advance the offset of a file after a device transfer. -/
  | fileAdvance (f : FileId) (n : UInt32) : Op Unit
  | cwd : Op (Option Slot)
  | setCwd (ip : Slot) : Op Unit
  /-- `allocproc` in `fork`, with a new identity. -/
  | allocproc (child : Pid) : Op Bool
  /-- The way out of `fork` when there is no memory for the child. -/
  | forkAbort (child : Pid) : Op Unit
  /-- `np->ofile[fd] = filedup(proc->ofile[fd])`, if the file is open. -/
  | forkFile (child : Pid) (fd : Fd) : Op Unit
  | forkCwd (child : Pid) : Op Unit
  | forkEnd (child : Pid) : Op Unit
  /-- The end of `exit`: `proc->cwd = 0`, and the process is gone. -/
  | gone : Op Unit
  | panic (text : String) : Op Empty

namespace Kernel

/-! ### Effects -/

/-- Stop the kernel. -/
def panic (text : String) : KernelM α := Run.fault (Stop.panic text)

/-- Run a function of the file system. -/
def onFs (run : FsM α) : KernelM α := fun kernel =>
  match run kernel.fs with
  | .ok (value, fs) => .ok (value, { kernel with fs := fs })
  | .error reason => .error reason

/-- The running process. -/
def myproc : KernelM Proc := do
  let kernel ← Run.get
  match kernel.procs kernel.fs.proc with
  | some proc => pure proc
  | none => Run.fault .sleep

/-- Change the running process. -/
def setProc (proc : Option Proc) : KernelM Unit :=
  Run.modify fun kernel =>
    { kernel with procs := update kernel.procs kernel.fs.proc proc }

/-- An entry of the open-file table. -/
def file (f : FileId) : KernelM File := Run.gets fun kernel => kernel.ftable f

/-- Change an entry of the open-file table. -/
def setFile (f : FileId) (entry : File) : KernelM Unit :=
  Run.modify fun kernel =>
    { kernel with ftable := update kernel.ftable f entry }

/-- Open a transaction, or sleep while one is open. -/
def beginTrans : FsM Unit := do
  let fs ← Run.get
  if fs.owner.isSome then Run.fault .sleep
  else Run.modify fun fs => { fs with owner := some fs.proc }

/-- Close the transaction. -/
def commitTrans : FsM Unit :=
  Run.modify fun fs => { fs with owner := none, logged := ∅ }

/-- `iput` up to the release of the spin lock: whether the inode is to be
freed. -/
def iputBegin (ip : Slot) : FsM Bool := do
  let fs ← Run.get
  let inode := fs.icache ip
  if inode.ref = 1 ∧ inode.valid = true ∧ inode.din.nlink = 0 then
    if inode.busy.isSome then Fs.panic "iput busy"
    else
      Fs.setInode ip { inode with busy := some fs.proc }
      pure true
  else
    Fs.setInode ip { inode with ref := inode.ref - 1 }
    pure false

/-- The rest of `iput` for an inode to be freed. -/
def iputFree (sb : Superblock) (ip : Slot) : FsM Unit := do
  Fs.itrunc sb ip
  let inode ← Fs.inode ip
  Fs.setInode ip { inode with din := { inode.din with type := 0 } }
  Fs.iupdate sb ip
  let inode ← Fs.inode ip
  Fs.setInode ip { inode with busy := none, valid := false, ref := inode.ref - 1 }

/-- Change the fields of an inode and copy it to the disk. -/
def updateInode (sb : Superblock) (ip : Slot) (change : Dinode → Dinode) :
    FsM Unit := do
  let inode ← Fs.inode ip
  Fs.setInode ip { inode with din := change inode.din }
  Fs.iupdate sb ip

/-- Allocate an entry of the open-file table. -/
def filealloc : KernelM (Option FileId) := do
  let kernel ← Run.get
  match (List.finRange NFILE).find? fun f => (kernel.ftable f).ref == 0 with
  | some f =>
    setFile f { kernel.ftable f with ref := 1 }
    pure (some f)
  | none => pure none

/-- Allocate a descriptor for a file. -/
def fdalloc (f : FileId) : KernelM (Option Fd) := do
  let proc ← myproc
  match (List.finRange NOFILE).find? fun fd => (proc.ofile fd).isNone with
  | some fd =>
    setProc (some { proc with ofile := update proc.ofile fd (some f) })
    pure (some fd)
  | none => pure none

/-- Take another reference to a file. -/
def filedup (f : FileId) : KernelM Unit := do
  let entry ← file f
  if entry.ref < 1 then panic "filedup"
  else setFile f { entry with ref := entry.ref + 1 }

/-- Drop a reference to a file; the last one leaves the inode or the pipe to be
closed. -/
def fileDrop (f : FileId) : KernelM Closing := do
  let entry ← file f
  if entry.ref < 1 then panic "fileclose"
  else if 1 < entry.ref then
    setFile f { entry with ref := entry.ref - 1 }
    pure .nothing
  else
    setFile f { entry with ref := 0, type := .none }
    match entry.type with
    | .pipe => pure (.pipe entry.pipe entry.writable)
    | .inode => pure (.inode entry.ip)
    | .none => pure .nothing

/-- Make a pipe for two files. -/
def pipeInit (rf wf : FileId) : KernelM Unit := do
  let kernel ← Run.get
  Run.modify fun kernel =>
    { kernel with
      pipes := update kernel.pipes kernel.npipes
        { readopen := true, writeopen := true, frees := 0 }
      npipes := kernel.npipes + 1 }
  let entry ← file rf
  setFile rf
    { entry with
      type := .pipe, readable := true, writable := false, pipe := kernel.npipes }
  let entry ← file wf
  setFile wf
    { entry with
      type := .pipe, readable := false, writable := true, pipe := kernel.npipes }

/-- Close an end of a pipe. -/
def pipeclose (p : Nat) (writable : Bool) : KernelM Unit :=
  Run.modify fun kernel =>
    { kernel with
      pipes := update kernel.pipes p ((kernel.pipes p).close writable) }

/-- Read at the offset of a file and advance it. -/
def fileReadi (sb : Superblock) (f : FileId) (n : UInt32) :
    KernelM (Transfer (List UInt8)) := do
  let entry ← file f
  let result ← onFs (Fs.readi sb entry.ip entry.off n)
  match result with
  | .done bytes =>
    setFile f { entry with off := entry.off + UInt32.ofNat bytes.length }
  | _ => pure ()
  pure result

/-- Write at the offset of a file and advance it. -/
def fileWritei (sb : Superblock) (f : FileId) (src : List UInt8) :
    KernelM (Transfer UInt32) := do
  let entry ← file f
  let result ← onFs (Fs.writei sb entry.ip src entry.off)
  match result with
  | .done n => setFile f { entry with off := entry.off + n }
  | _ => pure ()
  pure result

/-- Allocate an inode, and count the allocation. -/
def ialloc (sb : Superblock) (type : Int16) : KernelM Slot := do
  let ip ← onFs (Fs.ialloc sb type)
  Run.modify fun kernel =>
    let inum := (kernel.fs.icache ip).inum
    { kernel with
      born := update kernel.born inum (kernel.born inum + 1) }
  pure ip

/-- Write a directory entry, and record which allocation of the number it was
made for. -/
def dirlinkWrite (sb : Superblock) (dp : Slot) (name : Name) (ip : Slot) :
    KernelM Unit := do
  let target ← onFs (Fs.inode ip)
  let off ← onFs (Fs.dirlinkWrite sb dp name target.inum)
  Run.modify fun kernel =>
    let dir := (kernel.fs.icache dp).inum
    { kernel with
      made := update kernel.made dir (update (kernel.made dir) (off / direntSize)
          (kernel.born target.inum)) }

/-- Change a process that `fork` is making. -/
def setChild (child : Pid) (proc : Option Proc) : KernelM Unit :=
  Run.modify fun kernel =>
    { kernel with procs := update kernel.procs child proc }

/-- A process that `fork` is making. -/
def child (pid : Pid) : KernelM Proc := do
  let kernel ← Run.get
  match kernel.procs pid with
  | some np => pure np
  | none => Run.fault .sleep

/-- Take a process for `fork`. -/
def allocproc (pid : Pid) : KernelM Bool := do
  let kernel ← Run.get
  if (kernel.procs pid).isSome then pure false
  else
    setChild pid (some Proc.new)
    pure true

/-- Give the child an open file of its parent. -/
def forkFile (pid : Pid) (fd : Fd) : KernelM Unit := do
  let proc ← myproc
  match proc.ofile fd with
  | some f => do
      filedup f
      let np ← child pid
      setChild pid (some { np with ofile := update np.ofile fd (some f) })
  | none => pure ()

/-- Give the child the directory of its parent. -/
def forkCwd (pid : Pid) : KernelM Unit := do
  let proc ← myproc
  match proc.cwd with
  | some ip => do
      let ip ← onFs (Fs.idup ip)
      let np ← child pid
      setChild pid (some { np with cwd := some ip })
  | none => Run.fault .sleep

/-- Let the child run. -/
def forkEnd (pid : Pid) : KernelM Unit := do
  let np ← child pid
  setChild pid (some { np with embryo := false })

/-- The effect of an operation of the running process. -/
def effect (sb : Superblock) : {β : Type} → Op β → KernelM β
  | _, .beginTrans => onFs beginTrans
  | _, .commitTrans => onFs commitTrans
  | _, .igetRoot => onFs (Fs.iget ROOTINO)
  | _, .idupCwd => do
      let proc ← myproc
      match proc.cwd with
      | some ip => onFs (Fs.idup ip)
      | none => Run.fault .sleep
  | _, .ilock ip => onFs (Fs.ilock ip)
  | _, .iunlock ip => onFs (Fs.iunlock ip)
  | _, .iputBegin ip => onFs (iputBegin ip)
  | _, .iputFree ip => onFs (iputFree sb ip)
  | _, .stat ip => onFs (do
      let inode ← Fs.inode ip
      pure inode.din)
  | _, .dirlookup dp name => onFs (Fs.dirlookup sb dp name)
  | _, .dirlinkWrite dp name ip => dirlinkWrite sb dp name ip
  | _, .isdirempty dp => onFs (Fs.isdirempty sb dp)
  | _, .clearEntry dp off => onFs (Fs.clearEntry sb dp off)
  | _, .ialloc type => ialloc sb type
  | _, .setNew ip major minor => onFs (updateInode sb ip fun din =>
    { din with major := major, minor := minor, nlink := 1 })
  | _, .incNlink ip => onFs (updateInode sb ip fun din =>
    { din with nlink := din.nlink + 1 })
  | _, .decNlink ip => onFs (updateInode sb ip fun din =>
    { din with nlink := din.nlink - 1 })
  | _, .readi ip off n => onFs (Fs.readi sb ip off n)
  | _, .filealloc => filealloc
  | _, .fdalloc f => fdalloc f
  | _, .filedup f => filedup f
  | _, .fdFile fd => do
      let proc ← myproc
      pure (proc.ofile fd)
  | _, .fdTake fd => do
      let proc ← myproc
      pure (proc.ofile fd)
  | _, .fdClear fd => do
      let proc ← myproc
      setProc (some { proc with ofile := update proc.ofile fd none })
  | _, .file f => file f
  | _, .fileInit f ip readable writable => do
      let entry ← file f
      setFile f
        { entry with
          type := .inode, ip := ip, off := 0
          readable := readable, writable := writable }
  | _, .pipeInit rf wf => pipeInit rf wf
  | _, .pipeclose p writable => pipeclose p writable
  | _, .fileDrop f => fileDrop f
  | _, .fileReadi f n => fileReadi sb f n
  | _, .fileWritei f src => fileWritei sb f src
  | _, .fileAdvance f n => do
      let entry ← file f
      setFile f { entry with off := entry.off + n }
  | _, .cwd => do
      let proc ← myproc
      pure proc.cwd
  | _, .setCwd ip => do
      let proc ← myproc
      setProc (some { proc with cwd := some ip })
  | _, .allocproc child => allocproc child
  | _, .forkAbort child => setChild child none
  | _, .forkFile child fd => forkFile child fd
  | _, .forkCwd child => forkCwd child
  | _, .forkEnd child => forkEnd child
  | _, .gone => setProc none
  | _, .panic text => panic text

/-- The effect of an operation of a process, which the scheduler has made the
running one. -/
def exec (sb : Superblock) (pid : Pid) (operation : Op β) : KernelM β := do
  Run.modify fun kernel => { kernel with fs := { kernel.fs with proc := pid } }
  effect sb operation

end Kernel
end Xv6
