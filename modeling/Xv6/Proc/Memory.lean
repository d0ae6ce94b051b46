import Xv6.Vm.Guarded

/-!
# The calls that take and give pages

Kernel stacks, address spaces and pipes are made of pages of `kalloc`.  The module
has the functions of `proc.c`, `exec.c`, `pipe.c`, `file.c` and `main.c` that take
pages and give them back, over the free list, the process table and the open-file
table.  Pages are followed by their numbers.  A page that is given back while it is
free is a fault of its own.

What the functions read from files and from user memory is part of the call: a
header of a program says what `exec` finds there.
-/

namespace Xv6
namespace Memory

open Function
open Faulting
open Vm

/-! ## States -/

/-- Entries of the process table. -/
abbrev NPROC : Nat := 64

/-- `p->state`, as far as pages depend on it. -/
inductive SlotState where
  | unused
  /-- `EMBRYO`: the kernel stack is there, the address space is not. -/
  | embryo
  | alive
  | zombie
  deriving DecidableEq, Repr

/-- The fields of struct proc that matter here. -/
structure Slot where
  state : SlotState
  parent : Option (Fin NPROC)
  kstack : Nat
  pgdir : PageDir
  sz : UInt32
  ofile : Fin NOFILE → Option (Fin NFILE)

/-- The fields of struct file that matter here. -/
structure OpenFile where
  ref : Nat
  /-- The page of `f->pipe` and `f->writable`, if the type is `FD_PIPE`. -/
  pipe : Option (Nat × Bool)

/-- The fields of struct pipe that matter here. -/
structure Ends where
  readopen : Bool
  writeopen : Bool

/-- A pipe with one end closed. -/
def Ends.close (ends : Ends) (writable : Bool) : Ends :=
  if writable then { ends with writeopen := false } else { ends with readopen := false }

/-- The page allocator and the tables. -/
structure Machine where
  free : List Nat
  slot : Fin NPROC → Slot
  file : Fin NFILE → OpenFile
  ends : Nat → Ends
  kpgdir : Option PageDir
  cpustack : List Nat
  initproc : Option (Fin NPROC)

/-- A function of the kernel. -/
abbrev MachineM := Run Stop Machine

/-- No page directory. -/
def noDir : PageDir := ⟨0, fun _ => none⟩

/-- The state in which `main` starts. -/
def Machine.blank : Machine where
  free := []
  slot := fun _ => ⟨.unused, none, 0, noDir, 0, fun _ => none⟩
  file := fun _ => ⟨0, none⟩
  ends := fun _ => ⟨false, false⟩
  kpgdir := none
  cpustack := []
  initproc := none

/-- Change a slot of the process table. -/
def Machine.setSlot (m : Machine) (p : Fin NPROC) (slot : Slot) : Machine :=
  { m with slot := update m.slot p slot }

/-- Change an open file. -/
def Machine.setFile (m : Machine) (f : Fin NFILE) (file : OpenFile) : Machine :=
  { m with file := update m.file f file }

/-- Change a pipe. -/
def Machine.setEnds (m : Machine) (page : Nat) (ends : Ends) : Machine :=
  { m with ends := update m.ends page ends }

/-- Stop the kernel. -/
def panic (text : String) : MachineM α := Run.fault (.panic text)

/-- Run a function of `vm.c` on a page directory, with the free list of the
machine. -/
def onDir (dir : PageDir) (run : VmM α) : MachineM (α × PageDir) := fun m =>
  match run ⟨m.free, dir, []⟩ with
  | .ok (result, vm) => .ok ((result, vm.dir), { m with free := vm.free })
  | .error reason => .error reason

/-- `kalloc`. -/
def kalloc : MachineM (Option Nat) := do
  let (page, _) ← onDir noDir Vm.kalloc
  pure page

/-- `kfree`, which faults on a page that is free. -/
def kfree (link : Link) (page : Nat) : MachineM Unit := do
  let _ ← onDir noDir (Guarded.kfree link page)

/-! ## Open files and pipes -/

/-- `filealloc`. -/
def filealloc : MachineM (Option (Fin NFILE)) := do
  let m ← Run.get
  match (List.finRange NFILE).find? fun f => (m.file f).ref == 0 with
  | some f =>
    Run.modify (·.setFile f { m.file f with ref := 1 })
    pure (some f)
  | none => pure none

/-- `filedup`. -/
def filedup (f : Fin NFILE) : MachineM Unit := do
  let m ← Run.get
  if (m.file f).ref < 1 then panic "filedup"
  else Run.modify (·.setFile f { m.file f with ref := (m.file f).ref + 1 })

/-- `pipeclose`. -/
def pipeclose (link : Link) (p : Nat) (writable : Bool) : MachineM Unit := do
  Run.modify fun m => m.setEnds p ((m.ends p).close writable)
  let m ← Run.get
  if (m.ends p).readopen = false ∧ (m.ends p).writeopen = false then kfree link p
  else pure ()

/-- `fileclose`. -/
def fileclose (link : Link) (f : Fin NFILE) : MachineM Unit := do
  let m ← Run.get
  if (m.file f).ref < 1 then panic "fileclose"
  else if 1 < (m.file f).ref then
    Run.modify (·.setFile f { m.file f with ref := (m.file f).ref - 1 })
  else
    Run.modify (·.setFile f ⟨0, none⟩)
    match (m.file f).pipe with
    | some (p, writable) => pipeclose link p writable
    | none => pure ()

/-- `fdalloc`. -/
def fdalloc (p : Fin NPROC) (f : Fin NFILE) : MachineM (Option (Fin NOFILE)) := do
  let m ← Run.get
  match (List.finRange NOFILE).find? fun fd => ((m.slot p).ofile fd).isNone with
  | some fd =>
    Run.modify (·.setSlot p { m.slot p with ofile := update (m.slot p).ofile fd (some f) })
    pure (some fd)
  | none => pure none

/-- `proc->ofile[fd] = 0`. -/
def fdclear (p : Fin NPROC) (fd : Fin NOFILE) : MachineM Unit :=
  Run.modify fun m => m.setSlot p
    { m.slot p with ofile := update (m.slot p).ofile fd none }

/-- `pipealloc`. -/
def pipealloc (link : Link) : MachineM (Option (Fin NFILE × Fin NFILE)) := do
  match ← filealloc with
  | none => pure none
  | some f0 =>
    match ← filealloc with
    | none =>
      fileclose link f0
      pure none
    | some f1 =>
      match ← kalloc with
      | none =>
        fileclose link f0
        fileclose link f1
        pure none
      | some p =>
        Run.modify (·.setEnds p ⟨true, true⟩)
        Run.modify fun m => m.setFile f0 { m.file f0 with pipe := some (p, false) }
        Run.modify fun m => m.setFile f1 { m.file f1 with pipe := some (p, true) }
        pure (some (f0, f1))

/-- `sys_pipe`. -/
def pipe (link : Link) (p : Fin NPROC) : MachineM Unit := do
  match ← pipealloc link with
  | none => pure ()
  | some (rf, wf) =>
    match ← fdalloc p rf with
    | none =>
      fileclose link rf
      fileclose link wf
    | some fd0 =>
      match ← fdalloc p wf with
      | none =>
        fdclear p fd0
        fileclose link rf
        fileclose link wf
      | some _ => pure ()

/-- The part of `sys_open` that takes an open file and a descriptor. -/
def openFile (link : Link) (p : Fin NPROC) : MachineM Unit := do
  match ← filealloc with
  | none => pure ()
  | some f =>
    match ← fdalloc p f with
    | none => fileclose link f
    | some _ => pure ()

/-- `sys_dup`. -/
def dup (p : Fin NPROC) (fd : Fin NOFILE) : MachineM Unit := do
  let m ← Run.get
  match (m.slot p).ofile fd with
  | none => pure ()
  | some f =>
    match ← fdalloc p f with
    | none => pure ()
    | some _ => filedup f

/-- `sys_close`. -/
def close (link : Link) (p : Fin NPROC) (fd : Fin NOFILE) : MachineM Unit := do
  let m ← Run.get
  match (m.slot p).ofile fd with
  | none => pure ()
  | some f =>
    fdclear p fd
    fileclose link f

/-! ## Processes -/

/-- `allocproc`. -/
def allocproc : MachineM (Option (Fin NPROC)) := do
  let m ← Run.get
  match (List.finRange NPROC).find? fun p => (m.slot p).state == .unused with
  | none => pure none
  | some p =>
    match ← kalloc with
    | none => pure none
    | some page =>
      Run.modify (·.setSlot p { m.slot p with state := .embryo, kstack := page })
      pure (some p)

/-- `growproc`; `n` is a signed number. -/
def growproc (link : Link) (p : Fin NPROC) (n : UInt32) : MachineM Unit := do
  let m ← Run.get
  let proc := m.slot p
  if 0 < asInt n then
    let (sz, dir) ← onDir proc.pgdir (Guarded.allocuvm link proc.sz (proc.sz + n))
    Run.modify (·.setSlot p { proc with pgdir := dir, sz := if sz = 0 then proc.sz else sz })
  else if asInt n < 0 then
    let (sz, dir) ← onDir proc.pgdir (Guarded.deallocuvm link proc.sz (proc.sz + n))
    Run.modify (·.setSlot p { proc with pgdir := dir, sz := if sz = 0 then proc.sz else sz })
  else pure ()

/-- The loop of `fork` over the descriptors. -/
def dupFiles (p : Fin NPROC) : List (Fin NOFILE) → MachineM Unit
  | [] => pure ()
  | fd :: rest => do
      let m ← Run.get
      match (m.slot p).ofile fd with
      | some f => filedup f
      | none => pure ()
      dupFiles p rest

/-- `fork`. -/
def fork (link : Link) (p : Fin NPROC) : MachineM Unit := do
  match ← allocproc with
  | none => pure ()
  | some np =>
    let m ← Run.get
    let (made, dir) ← onDir noDir (Guarded.copyuvm link (m.slot p).pgdir (m.slot p).sz)
    if made then
      dupFiles p (List.finRange NOFILE)
      Run.modify (·.setSlot np { m.slot np with
          state := .alive
          parent := some p
          pgdir := dir
          sz := (m.slot p).sz
          ofile := fun fd => ((m.slot p).ofile fd).or ((m.slot np).ofile fd) })
    else
      kfree link (m.slot np).kstack
      Run.modify (·.setSlot np { m.slot np with state := .unused })

/-- What `loaduvm` makes of a segment. -/
inductive Loading where
  | unaligned
  | unmapped
  | short
  | loaded
  deriving DecidableEq, Repr

/-- What `exec` finds in a program header. -/
inductive Header where
  /-- It cannot be read, or takes less memory than it has in the file. -/
  | refused
  | skipped
  | segment (stop : UInt32) (loading : Loading)
  deriving DecidableEq, Repr

/-- The loop of `exec` over the program headers: the size of the image. -/
def loadSegments (link : Link) : List Header → UInt32 → VmM (Option UInt32)
  | [], sz => pure (some sz)
  | .refused :: _, _ => pure none
  | .skipped :: rest, sz => loadSegments link rest sz
  | .segment stop loading :: rest, sz => do
      let sz ← Guarded.allocuvm link sz stop
      if sz = 0 then pure none
      else
        match loading with
        | .unaligned => Vm.panic "loaduvm: addr must be page aligned"
        | .unmapped => Vm.panic "loaduvm: address should exist"
        | .short => pure none
        | .loaded => loadSegments link rest sz

/-- The user stack of `exec`; `pushes` says whether the arguments fit. -/
def allocStack (link : Link) (sz : UInt32) (pushes : Bool) : VmM (Option UInt32) := do
  let sz ← Guarded.allocuvm link (PGROUNDUP sz) (PGROUNDUP sz + 2 * 4096)
  if sz = 0 then pure none
  else
    clearpteu (sz - 2 * 4096)
    pure (if pushes then some sz else none)

/-- The user memory of `exec`, in an address space that has the kernel's part. -/
def loadImage (link : Link) (headers : List Header) (pushes : Bool) : VmM (Option UInt32) := do
  match ← loadSegments link headers 0 with
  | none => pure none
  | some sz => allocStack link sz pushes

/-- The address space that `exec` makes, and its size; a failure gives it back. -/
def buildImage (link : Link) (headers : List Header) (pushes : Bool) : VmM (Option UInt32) := do
  if ← setupkvm link then
    match ← loadImage link headers pushes with
    | none =>
      Guarded.freevm link
      pure none
    | some sz => pure (some sz)
  else pure none

/-- `exec` of a file with the headers, or of a file that is not executable. -/
def exec (link : Link) (p : Fin NPROC) (headers : Option (List Header)) (pushes : Bool) :
    MachineM Unit := do
  match headers with
  | none => pure ()
  | some headers =>
    let (image, dir) ← onDir noDir (buildImage link headers pushes)
    match image with
    | none => pure ()
    | some sz =>
      let m ← Run.get
      Run.modify (·.setSlot p { m.slot p with pgdir := dir, sz := sz })
      let _ ← onDir (m.slot p).pgdir (Guarded.freevm link)

/-- The loop of `exit` over the descriptors. -/
def closeFiles (link : Link) (p : Fin NPROC) : List (Fin NOFILE) → MachineM Unit
  | [] => pure ()
  | fd :: rest => do
      let m ← Run.get
      match (m.slot p).ofile fd with
      | some f =>
        fileclose link f
        fdclear p fd
      | none => pure ()
      closeFiles link p rest

/-- `exit`. -/
def exit (link : Link) (p : Fin NPROC) : MachineM Unit := do
  let m ← Run.get
  if m.initproc = some p then panic "init exiting"
  else
    closeFiles link p (List.finRange NOFILE)
    Run.modify fun m =>
      { m with slot := fun q =>
          { m.slot q with
            parent := if (m.slot q).parent = some p then m.initproc else (m.slot q).parent } }
    Run.modify fun m => m.setSlot p { m.slot p with state := .zombie }

/-- `wait`, which leaves everything as it is if there is no zombie. -/
def wait (link : Link) (p : Fin NPROC) : MachineM Unit := do
  let m ← Run.get
  match (List.finRange NPROC).find? fun q =>
      (m.slot q).parent == some p && (m.slot q).state == .zombie with
  | none => pure ()
  | some q =>
    kfree link (m.slot q).kstack
    let _ ← onDir (m.slot q).pgdir (Guarded.freevm link)
    Run.modify (·.setSlot q { m.slot q with state := .unused, parent := none })

/-! ## Runs -/

/-- The calls that take and give pages. -/
inductive Call where
  | fork
  | exec (headers : Option (List Header)) (pushes : Bool)
  | sbrk (n : UInt32)
  | pipe
  | open
  | dup (fd : Fin NOFILE)
  | close (fd : Fin NOFILE)
  | exit
  | wait
  deriving DecidableEq, Repr

/-- A call of a process. -/
def call (link : Link) (p : Fin NPROC) : Call → MachineM Unit
  | .fork => fork link p
  | .exec headers pushes => exec link p headers pushes
  | .sbrk n => growproc link p n
  | .pipe => pipe link p
  | .open => openFile link p
  | .dup fd => dup p fd
  | .close fd => close link p fd
  | .exit => exit link p
  | .wait => wait link p

/-- `freerange`, over numbers of pages. -/
def freerange (link : Link) : List Nat → MachineM Unit
  | [] => pure ()
  | page :: rest => do
      kfree link page
      freerange link rest

/-- `kvmalloc`; without memory the processor is left without a page directory. -/
def kvmalloc (link : Link) : MachineM Unit := do
  let (made, dir) ← onDir noDir (setupkvm link)
  if made then Run.modify fun m => { m with kpgdir := some dir }
  else panic "trap"

/-- `startothers`, with the number of other processors. -/
def startothers : Nat → MachineM Unit
  | 0 => pure ()
  | others + 1 => do
      match ← kalloc with
      | some page => Run.modify fun m => { m with cpustack := page :: m.cpustack }
      | none => pure ()
      startothers others

/-- `inituvm`; without a page it writes through a null pointer. -/
def inituvm : VmM Unit := do
  match ← Vm.kalloc with
  | none => Vm.panic "trap"
  | some page =>
    let _ ← mappages 0 4096 (UInt32.ofNat (PGSIZE * page)) ⟨true, true⟩

/-- The address space of `userinit`. -/
def initImage (link : Link) : VmM Unit := do
  if ← setupkvm link then inituvm
  else Vm.panic "userinit: out of memory?"

/-- `userinit`. -/
def userinit (link : Link) : MachineM Unit := do
  match ← allocproc with
  | none => panic "trap"
  | some p =>
    Run.modify fun m => { m with initproc := some p }
    let (_, dir) ← onDir noDir (initImage link)
    Run.modify fun m => m.setSlot p { m.slot p with state := .alive, pgdir := dir, sz := 4096 }

/-- The first page behind the kernel. -/
def firstPage (link : Link) : Nat := (link.kend.toNat + (PGSIZE - 1)) / PGSIZE - USERPAGES

/-- The end of the memory that `kinit1` hands out. -/
abbrev firstPages : Nat := 4 * 1024 * 1024 / PGSIZE

/-- The pages from one on, up to another one. -/
@[irreducible] def pagesBetween (start stop : Nat) : List Nat := List.range' start (stop - start)

/-- What `main` does with pages, given those that `kinit1` and `kinit2` hand out. -/
def bootFrom (link : Link) (others : Nat) (below above : List Nat) : MachineM Unit := do
  freerange link below
  kvmalloc link
  startothers others
  freerange link above
  userinit link

/-- `main`. -/
def boot (link : Link) (others : Nat) : MachineM Unit :=
  bootFrom link others (pagesBetween (firstPage link) firstPages)
    (pagesBetween firstPages (PHYSTOP / PGSIZE))

/-- Calls one after the other; a process that is not alive makes none. -/
def calls (link : Link) : List (Fin NPROC × Call) → MachineM Unit
  | [] => pure ()
  | (p, one) :: rest => do
      let m ← Run.get
      if (m.slot p).state = .alive then call link p one else pure ()
      calls link rest

/-- A run of the machine from its start. -/
def history (link : Link) (others : Nat) (sequence : List (Fin NPROC × Call)) : MachineM Unit := do
  boot link others
  calls link sequence

end Memory
end Xv6
