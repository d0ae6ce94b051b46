import Xv6.Sys.Kernel

/-!
# The file system calls

The functions of `fs.c`, `file.c`, `sysfile.c`, `exec.c` and `proc.c` that are
made of several operations, as programs over the operations of the kernel.
-/

namespace Xv6

open Interleaving
open Interleaving.Program (perform)

/-- A function of the kernel during which other processes can run. -/
abbrev Call := Program Op

/-- The bytes of a path without the terminating zero. -/
abbrev Path := List UInt8

namespace Call

/-- Stop the kernel. -/
def panic (text : String) : Call α := .call (.panic text) fun never => never.elim

/-! ## Inodes and paths -/

/-- Drop a reference to an inode. -/
def iput (ip : Slot) : Call Unit := do
  if ← perform (.iputBegin ip) then perform (.iputFree ip)

/-- Unlock, then put. -/
def iunlockput (ip : Slot) : Call Unit := do
  perform (.iunlock ip)
  iput ip

/-- Write a new directory entry, unless the name is present. -/
def dirlink (dp : Slot) (name : Name) (ip : Slot) : Call Bool := do
  match ← perform (.dirlookup dp name) with
  | some (old, _) => do
      iput old
      pure false
  | none => do
      perform (.dirlinkWrite dp name ip)
      pure true

/-- The loop of `namex` from an inode on. -/
def namexLoop (nameiparent : Bool) (ip : Slot) :
    List Name → Call (Option (Slot × Name))
  | [] =>
    if nameiparent then do
      iput ip
      pure none
    else pure (some (ip, []))
  | name :: rest => do
      perform (.ilock ip)
      let din ← perform (.stat ip)
      if din.type ≠ T_DIR then
        iunlockput ip
        pure none
      else if nameiparent && rest.isEmpty then
        perform (.iunlock ip)
        pure (some (ip, name))
      else
        match ← perform (.dirlookup ip name) with
        | none => do
            iunlockput ip
            pure none
        | some (next, _) => do
            iunlockput ip
            namexLoop nameiparent next rest

/-- Look up the inode of a path, or of its parent together with the last
element. -/
def namex (path : Path) (nameiparent : Bool) : Call (Option (Slot × Name)) := do
  if path.head? = some slash then
    let ip ← perform .igetRoot
    namexLoop nameiparent ip (pathElements path)
  else
    let ip ← perform .idupCwd
    namexLoop nameiparent ip (pathElements path)

/-- Look up the inode of a path. -/
def namei (path : Path) : Call (Option Slot) := do
  match ← namex path false with
  | some (ip, _) => pure (some ip)
  | none => pure none

/-- Look up the parent of a path, and its last element. -/
def nameiparent (path : Path) : Call (Option (Slot × Name)) := namex path true

/-! ## Open files -/

/-- Close a file. -/
def fileclose (f : FileId) : Call Unit := do
  match ← perform (.fileDrop f) with
  | .pipe p writable => perform (.pipeclose p writable)
  | .inode ip => do
      perform .beginTrans
      iput ip
      perform .commitTrans
  | .nothing => pure ()

/-- Get the fields of the inode of a file. -/
def filestat (f : FileId) : Call Int := do
  let entry ← perform (.file f)
  match entry.type with
  | .inode => do
      perform (.ilock entry.ip)
      let _ ← perform (.stat entry.ip)
      perform (.iunlock entry.ip)
      pure 0
  | _ => pure (-1)

/-- The driver of the console unlocks the inode while it works. -/
def deviceTransfer (ip : Slot) : Call Unit := do
  perform (.iunlock ip)
  perform (.ilock ip)

/-- Read from a file.  `device` is what the console driver or the pipe
returns. -/
def fileread (f : FileId) (n : UInt32) (device : Int) : Call Int := do
  let entry ← perform (.file f)
  if entry.readable = false then pure (-1)
  else
    match entry.type with
    | .pipe => pure device
    | .inode => do
        perform (.ilock entry.ip)
        match ← perform (.fileReadi f n) with
        | .done bytes => do
            perform (.iunlock entry.ip)
            pure bytes.length
        | .refused => do
            perform (.iunlock entry.ip)
            pure (-1)
        | .device => do
            deviceTransfer entry.ip
            if 0 < device then
              perform (.fileAdvance f (UInt32.ofNat device.toNat))
            perform (.iunlock entry.ip)
            pure device
    | .none => panic "fileread"

/-- Bytes that `filewrite` writes in one transaction. -/
def maxWrite : Nat := (LOGSIZE - 1 - 1 - 2) / 2 * 512

/-- The loop of `filewrite`: whether all bytes were written.  `fuel` bounds the
number of rounds; each writes at least one byte. -/
def filewriteLoop (f : FileId) (ip : Slot) :
    (fuel : Nat) → (src : List UInt8) → Call Bool
  | 0, _ => pure true
  | fuel + 1, src =>
    if src = [] then pure true
    else do
      let n1 := min src.length maxWrite
      perform .beginTrans
      perform (.ilock ip)
      match ← perform (.fileWritei f (src.take n1)) with
      | .done n => do
          perform (.iunlock ip)
          perform .commitTrans
          if n ≠ UInt32.ofNat n1 then panic "short filewrite"
          else filewriteLoop f ip fuel (src.drop n1)
      | .refused => do
          perform (.iunlock ip)
          perform .commitTrans
          pure false
      | .device => do
          deviceTransfer ip
          perform (.fileAdvance f (UInt32.ofNat n1))
          perform (.iunlock ip)
          perform .commitTrans
          filewriteLoop f ip fuel (src.drop n1)

/-- Write to a file.  A negative count is no list; `device` is what the pipe
returns. -/
def filewrite (f : FileId) (src : Option (List UInt8)) (device : Int) :
    Call Int := do
  let entry ← perform (.file f)
  if entry.writable = false then pure (-1)
  else
    match entry.type with
    | .pipe => pure device
    | .inode =>
      match src with
      | none => pure (-1)
      | some src => do
          if ← filewriteLoop f entry.ip src.length src then pure src.length
          else pure (-1)
    | .none => panic "filewrite"

/-! ## System calls -/

/-- Run a call on the file of a descriptor. -/
def withFile (fd : Int) (use : FileId → Call Int) : Call Int :=
  if bound : 0 ≤ fd ∧ fd.toNat < NOFILE then do
    match ← perform (.fdFile ⟨fd.toNat, bound.2⟩) with
    | some f => use f
    | none => pure (-1)
  else pure (-1)

/-- `sys_dup`. -/
def sysDup (fd : Int) : Call Int :=
  withFile fd fun f => do
    match ← perform (.fdalloc f) with
    | some fd => do
        perform (.filedup f)
        pure fd.val
    | none => pure (-1)

/-- `sys_read`. -/
def sysRead (fd : Int) (n : UInt32) (device : Int) : Call Int :=
  withFile fd fun f => fileread f n device

/-- `sys_write`. -/
def sysWrite (fd : Int) (src : Option (List UInt8)) (device : Int) : Call Int :=
  withFile fd fun f => filewrite f src device

/-- `sys_fstat`. -/
def sysFstat (fd : Int) : Call Int := withFile fd filestat

/-- `sys_close`. -/
def sysClose (fd : Int) : Call Int :=
  if bound : 0 ≤ fd ∧ fd.toNat < NOFILE then do
    match ← perform (.fdTake ⟨fd.toNat, bound.2⟩) with
    | some f => do
        perform (.fdClear ⟨fd.toNat, bound.2⟩)
        fileclose f
        pure 0
    | none => pure (-1)
  else pure (-1)

/-- The label `bad` of `sys_link`. -/
def linkBad (ip : Slot) : Call Int := do
  perform (.ilock ip)
  perform (.decNlink ip)
  iunlockput ip
  perform .commitTrans
  pure (-1)

/-- `sys_link`. -/
def sysLink (old new : Path) : Call Int := do
  match ← namei old with
  | none => pure (-1)
  | some ip => do
      perform .beginTrans
      perform (.ilock ip)
      let din ← perform (.stat ip)
      if din.type = T_DIR then
        iunlockput ip
        perform .commitTrans
        pure (-1)
      else
        perform (.incNlink ip)
        perform (.iunlock ip)
        match ← nameiparent new with
        | none => linkBad ip
        | some (dp, name) => do
            perform (.ilock dp)
            if ← dirlink dp name ip then
              iunlockput dp
              iput ip
              perform .commitTrans
              pure 0
            else
              iunlockput dp
              linkBad ip

/-- The label `bad` of `sys_unlink`. -/
def unlinkBad (dp : Slot) : Call Int := do
  iunlockput dp
  perform .commitTrans
  pure (-1)

/-- `sys_unlink`. -/
def sysUnlink (path : Path) : Call Int := do
  match ← nameiparent path with
  | none => pure (-1)
  | some (dp, name) => do
      perform .beginTrans
      perform (.ilock dp)
      if namecmp name dot = 0 ∨ namecmp name dotdot = 0 then unlinkBad dp
      else
        match ← perform (.dirlookup dp name) with
        | none => unlinkBad dp
        | some (ip, off) => do
            perform (.ilock ip)
            let din ← perform (.stat ip)
            if din.nlink < 1 then panic "unlink: nlink < 1"
            else if din.type = T_DIR then
              if ← perform (.isdirempty ip) then
                perform (.clearEntry dp off)
                perform (.decNlink dp)
                iunlockput dp
                perform (.decNlink ip)
                iunlockput ip
                perform .commitTrans
                pure 0
              else
                iunlockput ip
                unlinkBad dp
            else
              perform (.clearEntry dp off)
              iunlockput dp
              perform (.decNlink ip)
              iunlockput ip
              perform .commitTrans
              pure 0

/-- The entries `.` and `..` of a new directory. -/
def createDots (ip dp : Slot) : Call Unit := do
  perform (.incNlink dp)
  if ← dirlink ip dot ip then
    if ← dirlink ip dotdot dp then pure ()
    else panic "create dots"
  else panic "create dots"

/-- `create`: the inode, locked. -/
def create (path : Path) (type major minor : Int16) : Call (Option Slot) := do
  match ← nameiparent path with
  | none => pure none
  | some (dp, name) => do
      perform (.ilock dp)
      match ← perform (.dirlookup dp name) with
      | some (ip, _) => do
          iunlockput dp
          perform (.ilock ip)
          let din ← perform (.stat ip)
          if type = T_FILE ∧ din.type = T_FILE then pure (some ip)
          else
            iunlockput ip
            pure none
      | none => do
          let ip ← perform (.ialloc type)
          perform (.ilock ip)
          perform (.setNew ip major minor)
          if type = T_DIR then createDots ip dp
          if ← dirlink dp name ip then
            iunlockput dp
            pure (some ip)
          else panic "create: dirlink"

/-- The end of `sys_open`, with the inode locked. -/
def openFile (ip : Slot) (omode : UInt32) : Call Int := do
  match ← perform .filealloc with
  | none => do
      iunlockput ip
      pure (-1)
  | some f => do
      match ← perform (.fdalloc f) with
      | none => do
          fileclose f
          iunlockput ip
          pure (-1)
      | some fd => do
          perform (.iunlock ip)
          perform (.fileInit f ip (omode &&& O_WRONLY = 0)
            (omode &&& O_WRONLY ≠ 0 ∨ omode &&& O_RDWR ≠ 0))
          pure fd.val

/-- `sys_open`. -/
def sysOpen (path : Path) (omode : UInt32) : Call Int := do
  if omode &&& O_CREATE ≠ 0 then
    perform .beginTrans
    let ip ← create path T_FILE 0 0
    perform .commitTrans
    match ip with
    | none => pure (-1)
    | some ip => openFile ip omode
  else
    match ← namei path with
    | none => pure (-1)
    | some ip => do
        perform (.ilock ip)
        let din ← perform (.stat ip)
        if din.type = T_DIR ∧ omode ≠ O_RDONLY then
          iunlockput ip
          pure (-1)
        else openFile ip omode

/-- `sys_mkdir` and `sys_mknod` behind the argument checks; without a path the
arguments were refused. -/
def sysMake (path : Option Path) (type major minor : Int16) : Call Int := do
  perform .beginTrans
  match path with
  | none => do
      perform .commitTrans
      pure (-1)
  | some path =>
    match ← create path type major minor with
    | none => do
        perform .commitTrans
        pure (-1)
    | some ip => do
        iunlockput ip
        perform .commitTrans
        pure 0

/-- `sys_mkdir`. -/
def sysMkdir (path : Option Path) : Call Int := sysMake path T_DIR 0 0

/-- `sys_mknod`. -/
def sysMknod (path : Option Path) (major minor : Int16) : Call Int :=
  sysMake path T_DEV major minor

/-- Put the current directory, if there is one. -/
def putCwd : Call Unit := do
  match ← perform .cwd with
  | some ip => iput ip
  | none => pure ()

/-- `sys_chdir`. -/
def sysChdir (path : Path) : Call Int := do
  match ← namei path with
  | none => pure (-1)
  | some ip => do
      perform (.ilock ip)
      let din ← perform (.stat ip)
      if din.type ≠ T_DIR then
        iunlockput ip
        pure (-1)
      else
        perform (.iunlock ip)
        putCwd
        perform (.setCwd ip)
        pure 0

/-- The transfers of `exec` from the file, whose number and ranges depend on
its contents. -/
def execReads (ip : Slot) : List (UInt32 × UInt32) → Call Unit
  | [] => pure ()
  | (off, n) :: rest => do
      match ← perform (.readi ip off n) with
      | .device => deviceTransfer ip
      | _ => pure ()
      execReads ip rest

/-- What `exec` does with the file system. -/
def sysExec (path : Path) (reads : List (UInt32 × UInt32)) : Call Int := do
  match ← namei path with
  | none => pure (-1)
  | some ip => do
      perform (.ilock ip)
      execReads ip reads
      iunlockput ip
      pure 0

/-- `pipealloc`: the files of the two ends.  `memory` says whether `kalloc` finds
a page. -/
def pipealloc (memory : Bool) : Call (Option (FileId × FileId)) := do
  match ← perform .filealloc with
  | none => pure none
  | some f0 => do
      match ← perform .filealloc with
      | none => do
          fileclose f0
          pure none
      | some f1 =>
        if memory then do
          perform (.pipeInit f0 f1)
          pure (some (f0, f1))
        else do
          fileclose f0
          fileclose f1
          pure none

/-- `sys_pipe`. -/
def sysPipe (memory : Bool) : Call Int := do
  match ← pipealloc memory with
  | none => pure (-1)
  | some (rf, wf) => do
      match ← perform (.fdalloc rf) with
      | none => do
          fileclose rf
          fileclose wf
          pure (-1)
      | some fd0 => do
          match ← perform (.fdalloc wf) with
          | none => do
              perform (.fdClear fd0)
              fileclose rf
              fileclose wf
              pure (-1)
          | some _ => pure 0

/-- Give the child the open files of its parent. -/
def forkFiles (child : Pid) : List Fd → Call Unit
  | [] => pure ()
  | fd :: rest => do
      perform (.forkFile child fd)
      forkFiles child rest

/-- `fork`.  `memory` says whether `copyuvm` finds memory for the child. -/
def sysFork (child : Pid) (memory : Bool) : Call Int := do
  if ← perform (.allocproc child) then
    if memory then
      forkFiles child (List.finRange NOFILE)
      perform (.forkCwd child)
      perform (.forkEnd child)
      pure child
    else
      perform (.forkAbort child)
      pure (-1)
  else pure (-1)

/-- Close the files of a list of descriptors. -/
def closeAll : List Fd → Call Unit
  | [] => pure ()
  | fd :: rest => do
      match ← perform (.fdTake fd) with
      | some f => do
          fileclose f
          perform (.fdClear fd)
      | none => pure ()
      closeAll rest

/-- `exit`. -/
def sysExit (isInit : Bool) : Call Int := do
  if isInit then panic "init exiting"
  else
    closeAll (List.finRange NOFILE)
    putCwd
    perform .gone
    pure 0

end Call

/-- The file system calls with their arguments. -/
inductive SysCall where
  | dup (fd : Int)
  | read (fd : Int) (n : UInt32) (device : Int)
  | write (fd : Int) (src : Option (List UInt8)) (device : Int)
  | close (fd : Int)
  | fstat (fd : Int)
  | link (old new : Path)
  | unlink (path : Path)
  | open (path : Path) (omode : UInt32)
  | mkdir (path : Option Path)
  | mknod (path : Option Path) (major minor : Int16)
  | chdir (path : Path)
  | exec (path : Path) (reads : List (UInt32 × UInt32))
  | pipe (memory : Bool)
  | fork (child : Pid) (memory : Bool)
  | exit

/-- The first process, which `exit` does not let go. -/
def initproc : Pid := 1

/-- The program of a call and its result. -/
def SysCall.call (pid : Pid) : SysCall → Call Int
  | .dup fd => Call.sysDup fd
  | .read fd n device => Call.sysRead fd n device
  | .write fd src device => Call.sysWrite fd src device
  | .close fd => Call.sysClose fd
  | .fstat fd => Call.sysFstat fd
  | .link old new => Call.sysLink old new
  | .unlink path => Call.sysUnlink path
  | .open path omode => Call.sysOpen path omode
  | .mkdir path => Call.sysMkdir path
  | .mknod path major minor => Call.sysMknod path major minor
  | .chdir path => Call.sysChdir path
  | .exec path reads => Call.sysExec path reads
  | .pipe memory => Call.sysPipe memory
  | .fork child memory => Call.sysFork child memory
  | .exit => Call.sysExit (decide (pid = initproc))

/-- The program of a call. -/
def SysCall.program (pid : Pid) (call : SysCall) : Call Unit := do
  let _ ← call.call pid
  pure ()

end Xv6
