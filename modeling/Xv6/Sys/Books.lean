import Xv6.Fs.Frame
import Xv6.Sys.Kernel

/-!
# The books of the kernel

What the kernel keeps accounts of: the references and locks of the inode cache,
the references of the open-file table, the files and directories of processes,
and the ends of pipes.  The books forget the disk, the contents of inodes and
the offsets of files.  Every operation posts a definite change to the books.
-/

namespace Xv6

open Function
open Faulting

/-- The books. -/
structure Books where
  /-- Inode numbers of the entries of the inode cache. -/
  inum : Slot → Nat
  ref : Slot → Nat
  busy : Slot → Option Pid
  file : FileId → File
  proc : Pid → Option Proc
  pipes : Nat → PipeEnds
  npipes : Nat

/-- The books of a kernel. -/
def Kernel.books (kernel : Kernel) : Books where
  inum slot := (kernel.fs.icache slot).inum
  ref slot := (kernel.fs.icache slot).ref
  busy slot := (kernel.fs.icache slot).busy
  file f := { kernel.ftable f with off := 0 }
  proc := kernel.procs
  pipes := kernel.pipes
  npipes := kernel.npipes

/-- What closing the last reference to a file leaves to do. -/
def File.leaves (entry : File) : Closing :=
  match entry.type with
  | .pipe => .pipe entry.pipe entry.writable
  | .inode => .inode entry.ip
  | .none => .nothing

/-- One more reference. -/
def File.dup (entry : File) : File := { entry with ref := entry.ref + 1 }

/-- One reference less. -/
def File.drop (entry : File) : File := { entry with ref := entry.ref - 1 }

/-- The last reference is gone. -/
def File.close (entry : File) : File := { entry with ref := 0, type := .none }

/-- An end of a pipe. -/
def File.pipeEnd (entry : File) (p : Nat) (writable : Bool) : File :=
  { entry with
    type := .pipe, readable := !writable, writable := writable, pipe := p }

/-- An open inode. -/
def File.openInode (entry : File) (ip : Slot) (readable writable : Bool) : File :=
  { entry with
    type := .inode, ip := ip, readable := readable, writable := writable }

namespace Books

/-! ## Postings -/

/-- The current directory of a process. -/
def cwd (books : Books) (pid : Pid) : Option Slot :=
  (books.proc pid).bind Proc.cwd

/-- A descriptor of a process. -/
def ofile (books : Books) (pid : Pid) (fd : Fd) : Option FileId :=
  (books.proc pid).bind fun proc => proc.ofile fd

/-- One more reference to an inode. -/
def addRef (books : Books) (ip : Slot) : Books :=
  { books with ref := books.ref + Pi.single ip 1 }

/-- One reference to an inode less. -/
def dropRef (books : Books) (ip : Slot) : Books :=
  { books with ref := books.ref - Pi.single ip 1 }

/-- A process locks an inode. -/
def lock (books : Books) (ip : Slot) (pid : Pid) : Books :=
  { books with busy := update books.busy ip (some pid) }

/-- An inode is unlocked. -/
def unlock (books : Books) (ip : Slot) : Books :=
  { books with busy := update books.busy ip none }

/-- A free entry of the cache is taken for an inode number. -/
def assign (books : Books) (ip : Slot) (inum : Nat) : Books :=
  { books with
    inum := update books.inum ip inum
    busy := update books.busy ip none }

/-- `iget`: another reference to the entry of an inode number, or the first to
a free entry. -/
def Gets (books : Books) (inum : Nat) (ip : Slot) (final : Books) : Prop :=
  0 < books.ref ip ∧ books.inum ip = inum ∧ final = books.addRef ip ∨ books.ref ip = 0 ∧
      (∀ other, 0 < books.ref other → books.inum other ≠ inum) ∧
        final = (books.assign ip inum).addRef ip

/-- An entry of the open-file table changes. -/
def setFile (books : Books) (f : FileId) (entry : File) : Books :=
  { books with file := update books.file f entry }

/-- A process changes. -/
def setProc (books : Books) (pid : Pid) (proc : Option Proc) : Books :=
  { books with proc := update books.proc pid proc }

/-- A descriptor of a process changes. -/
def setFd (books : Books) (pid : Pid) (fd : Fd) (value : Option FileId) : Books :=
  books.setProc pid ((books.proc pid).map fun proc =>
    { proc with ofile := update proc.ofile fd value })

/-- The current directory of a process changes. -/
def setCwd (books : Books) (pid : Pid) (ip : Slot) : Books :=
  books.setProc pid ((books.proc pid).map fun proc => { proc with cwd := some ip })

/-- A new pipe. -/
def newPipe (books : Books) : Books :=
  { books with
    pipes := update books.pipes books.npipes
      { readopen := true, writeopen := true, frees := 0 }
    npipes := books.npipes + 1 }

/-- An end of a pipe is closed. -/
def closeEnd (books : Books) (p : Nat) (writable : Bool) : Books :=
  { books with
    pipes := update books.pipes p ((books.pipes p).close writable) }

/-- The last step of `pipealloc`. -/
def openPipe (books : Books) (rf wf : FileId) : Books :=
  let read := books.newPipe.setFile rf ((books.file rf).pipeEnd books.npipes false)
  read.setFile wf ((read.file wf).pipeEnd books.npipes true)

/-- `fileclose` up to the release of the spin lock. -/
def Drops (books : Books) (f : FileId) (left : Closing) (final : Books) : Prop :=
  1 < (books.file f).ref ∧ left = .nothing ∧ final = books.setFile f (books.file f).drop ∨
    (books.file f).ref = 1 ∧ left = (books.file f).leaves ∧
      final = books.setFile f (books.file f).close

/-- An entry of the inode cache changes. -/
def setEntry (books : Books) (ip : Slot) (inum ref : Nat) (busy : Option Pid) :
    Books :=
  { books with
    inum := update books.inum ip inum
    ref := update books.ref ip ref
    busy := update books.busy ip busy }

variable (books : Books)

include books

theorem addRef_eq_setEntry (ip : Slot) :
    books.addRef ip = books.setEntry ip (books.inum ip) (books.ref ip + 1) (books.busy ip) := by
  have counts : books.ref + Pi.single ip 1 = update books.ref ip (books.ref ip + 1) := by
    funext slot
    by_cases same : slot = ip
    · simp [same]
    · simp [same]
  rw [addRef, setEntry, counts, update_eq_self, update_eq_self]

theorem dropRef_eq_setEntry (ip : Slot) :
    books.dropRef ip = books.setEntry ip (books.inum ip) (books.ref ip - 1) (books.busy ip) := by
  have counts : books.ref - Pi.single ip 1 = update books.ref ip (books.ref ip - 1) := by
    funext slot
    by_cases same : slot = ip
    · simp [same]
    · simp [same]
  rw [dropRef, setEntry, counts, update_eq_self, update_eq_self]

theorem lock_eq_setEntry
    (ip : Slot)
    (pid : Pid) :
    books.lock ip pid = books.setEntry ip (books.inum ip) (books.ref ip) (some pid) := by
  rw [lock, setEntry, update_eq_self, update_eq_self]

theorem unlock_eq_setEntry (ip : Slot) :
    books.unlock ip = books.setEntry ip (books.inum ip) (books.ref ip) none := by
  rw [unlock, setEntry, update_eq_self, update_eq_self]

theorem assign_eq_setEntry
    (ip : Slot)
    (inum : Nat) :
    books.assign ip inum = books.setEntry ip inum (books.ref ip) none := by
  rw [assign, setEntry, update_eq_self]

theorem setEntry_setEntry
    (ip : Slot)
    (inum ref otherInum otherRef : Nat)
    (busy otherBusy : Option Pid) :
    (books.setEntry ip inum ref busy).setEntry ip otherInum otherRef otherBusy =
      books.setEntry ip otherInum otherRef otherBusy := by
  simp only [setEntry, update_idem]

end Books

/-- What an operation of a process with a result changes in the books. -/
def Op.Posts (pid : Pid) (books final : Books) : {β : Type} → Op β → β → Prop
  | _, .igetRoot, ip => books.Gets ROOTINO ip final
  | _, .idupCwd, ip => books.cwd pid = some ip ∧ final = books.addRef ip
  | _, .ilock ip, _ => books.busy ip = none ∧ final = books.lock ip pid
  | _, .iunlock ip, _ => final = books.unlock ip
  | _, .iputBegin ip, freed =>
    if freed then books.busy ip = none ∧ final = books.lock ip pid
    else final = books.dropRef ip
  | _, .iputFree ip, _ => final = (books.unlock ip).dropRef ip
  | _, .dirlookup _ _, found =>
    match found with
    | some (ip, _) => ∃ inum, books.Gets inum ip final
    | none => final = books
  | _, .ialloc _, ip => ∃ inum, books.Gets inum ip final
  | _, .filealloc, found =>
    match found with
    | some f => (books.file f).ref = 0 ∧ final = books.setFile f (books.file f).dup
    | none => final = books
  | _, .fdalloc f, found =>
    match found with
    | some fd => books.ofile pid fd = none ∧ final = books.setFd pid fd (some f)
    | none => final = books
  | _, .filedup f, _ => final = books.setFile f (books.file f).dup
  | _, .fdFile fd, found => found = books.ofile pid fd ∧ final = books
  | _, .fdTake fd, found => found = books.ofile pid fd ∧ final = books
  | _, .fdClear fd, _ => final = books.setFd pid fd none
  | _, .file f, entry =>
    entry.type = (books.file f).type ∧ entry.ip = (books.file f).ip ∧ final = books
  | _, .fileInit f ip readable writable, _ =>
    final = books.setFile f ((books.file f).openInode ip readable writable)
  | _, .pipeInit rf wf, _ => final = books.openPipe rf wf
  | _, .pipeclose p writable, _ => final = books.closeEnd p writable
  | _, .fileDrop f, left => books.Drops f left final
  | _, .cwd, found => found = books.cwd pid ∧ final = books
  | _, .setCwd ip, _ => final = books.setCwd pid ip
  | _, .allocproc child, made =>
    if made then books.proc child = none ∧ final = books.setProc child (some Proc.new)
    else final = books
  | _, .forkAbort child, _ => final = books.setProc child none
  | _, .forkFile child fd, _ =>
    match books.ofile pid fd with
    | some f =>
      final = (books.setFile f (books.file f).dup).setFd child fd (some f)
    | none => final = books
  | _, .forkCwd child, _ =>
    ∃ ip, books.cwd pid = some ip ∧ final = (books.addRef ip).setCwd child ip
  | _, .forkEnd child, _ =>
    final = books.setProc child ((books.proc child).map fun np => { np with embryo := false })
  | _, .gone, _ => final = books.setProc pid none
  | _, _, _ => final = books

/-- The operation stops with the panic of `iput`. -/
def Op.Busy (books : Books) : {β : Type} → Op β → Prop
  | _, .iputBegin ip => books.ref ip = 1 ∧ (books.busy ip).isSome
  | _, .panic text => text = "iput busy"
  | _, _ => False

/-! ## Operations post what they say -/

namespace Fs

/-- What `iget` does to the cache. -/
def Gets (fs : Fs) (inum : Nat) (slot : Slot) (final : Fs) : Prop :=
  0 < (fs.icache slot).ref ∧ (fs.icache slot).inum = inum ∧ final = fs.withInode slot
        { fs.icache slot with ref := (fs.icache slot).ref + 1 } ∨
    (fs.icache slot).ref = 0 ∧
      (∀ other, 0 < (fs.icache other).ref → (fs.icache other).inum ≠ inum) ∧
        final = fs.withInode slot
          { fs.icache slot with
            inum := inum, ref := 1, busy := none, valid := false }

theorem iget_gets (inum : Nat) (fs : Fs) :
    Run.Spec (iget inum) fs (fun slot final => fs.Gets inum slot final)
      fun reason => reason ≠ iputBusy := by
  apply Run.Spec.get_bind
  cases found : (List.finRange NINODE).find? fun slot =>
      decide (0 < (fs.icache slot).ref) && (fs.icache slot).inum == inum with
  | some slot =>
    have passes := List.find?_some found
    rw [Bool.and_eq_true, decide_eq_true_eq, beq_iff_eq] at passes
    exact Or.inl ⟨passes.1, passes.2, rfl⟩
  | none =>
    have absent : ∀ other, 0 < (fs.icache other).ref → (fs.icache other).inum ≠ inum := by
      intro other used same
      have fails := List.find?_eq_none.mp found other (List.mem_finRange other)
      simp [used, same] at fails
    dsimp only
    cases free : (List.finRange NINODE).find? fun slot =>
        (fs.icache slot).ref == 0 with
    | some slot =>
      have passes := List.find?_some free
      exact Or.inr ⟨beq_iff_eq.mp passes, absent, rfl⟩
    | none => exact fun same => absurd (Stop.panic.inj same) (by decide)

theorem ilock_locks (ip : Slot) (fs : Fs) :
    Run.Spec (ilock ip) fs (fun _ final => (fs.icache ip).busy = none ∧ ∃ valid din,
        final = fs.withInode ip
          { fs.icache ip with busy := some fs.proc, valid := valid, din := din })
      fun reason => reason ≠ iputBusy := by
  apply Run.Spec.bind
  apply Run.Spec.get_bind
  dsimp only
  split_ifs with unused taken
  · exact fun same => absurd (Stop.panic.inj same) (by decide)
  · exact fun same => by cases same
  have free : (fs.icache ip).busy = none := by simpa using taken
  apply Run.Spec.get_bind
  dsimp only
  split_ifs
  · exact ⟨free, _, _, rfl⟩
  · exact fun same => absurd (Stop.panic.inj same) (by decide)
  · refine ⟨free, true, dinode fs.disk (fs.icache ip).inum, ?_⟩
    simp only [withInode, update_idem, update_self]

end Fs

namespace Kernel

variable {fault : Stop → Prop} {pid : Pid} {proc : Proc}

/-- A function of the file system changes the file system only. -/
theorem onFs_spec {run : FsM α} {post : α → Fs → Prop}
    (spec : Run.Spec run kernel.fs post fault) :
    Run.Spec (onFs run) kernel
      (fun value final => ∃ fs, post value fs ∧ final = { kernel with fs := fs })
      fault := by
  unfold Run.Spec onFs
  cases returned : run kernel.fs with
  | ok pair =>
    exact ⟨pair.2, spec.of_ok returned, rfl⟩
  | error reason => exact spec.of_error returned

variable (kernel : Kernel)

theorem books_sameCache {fs : Fs}
    (same : Fs.SameCache kernel.fs fs) :
    ({ kernel with fs := fs } : Kernel).books = kernel.books := by
  unfold books
  rw [show (fun slot => (fs.icache slot).inum) = _ from funext same.inum,
    show (fun slot => (fs.icache slot).ref) = _ from funext same.ref,
    show (fun slot => (fs.icache slot).busy) = _ from funext same.busy]

theorem books_withInode
    (ip : Slot)
    (entry : Inode) :
    ({ kernel with fs := kernel.fs.withInode ip entry } : Kernel).books =
      kernel.books.setEntry ip entry.inum entry.ref entry.busy := by
  have part : ∀ {γ : Type} (field : Inode → γ),
      (fun slot => field ((kernel.fs.withInode ip entry).icache slot)) =
        update (fun slot => field (kernel.fs.icache slot)) ip (field entry) := by
    intro γ field
    funext slot
    simp only [Fs.withInode, update_apply]
    split <;> rfl
  unfold books Books.setEntry
  rw [part Inode.inum, part Inode.ref, part Inode.busy]

theorem books_setFile
    (f : FileId)
    (entry : File) :
    ({ kernel with ftable := update kernel.ftable f entry } :
        Kernel).books =
      kernel.books.setFile f { entry with off := 0 } := by
  have files : (fun other =>
      ({ update kernel.ftable f entry other with off := 0 } : File)) =
        update kernel.books.file f { entry with off := 0 } := by
    funext other
    simp only [update_apply]
    split <;> rfl
  exact congrArg (fun file => { kernel.books with file := file }) files

theorem books_gets {ip : Slot} {fs : Fs}
    (gets : kernel.fs.Gets inum ip fs) :
    kernel.books.Gets inum ip ({ kernel with fs := fs } : Kernel).books := by
  rcases gets with ⟨used, number, rfl⟩ | ⟨free, absent, rfl⟩
  · refine Or.inl ⟨used, number, ?_⟩
    rw [books_withInode, Books.addRef_eq_setEntry]
    rfl
  · refine Or.inr ⟨free, absent, ?_⟩
    rw [books_withInode, Books.addRef_eq_setEntry, Books.assign_eq_setEntry,
      Books.setEntry_setEntry]
    simp only [Books.setEntry, update_self]
    rw [show kernel.books.ref ip = 0 from free]

/-- The operations that only touch the disk, the transaction and the in-memory
copies of inodes. -/
theorem onFs_keeps {run : FsM α}
    (keeps : Fs.Keeps run) :
    Run.Spec (onFs run) kernel (fun _ final => final.books = kernel.books)
      fun reason => reason ≠ Fs.iputBusy := by
  refine (onFs_spec (keeps kernel.fs)).mono ?_ fun _ => id
  rintro _ _ ⟨fs, same, rfl⟩
  exact books_sameCache kernel same

theorem onFs_iget (inum : Nat) :
    Run.Spec (onFs (Fs.iget inum)) kernel (fun ip final => kernel.books.Gets inum ip final.books)
      fun reason => reason ≠ Fs.iputBusy := by
  refine (onFs_spec (Fs.iget_gets inum kernel.fs)).mono ?_ fun _ => id
  rintro ip _ ⟨fs, gets, rfl⟩
  exact books_gets kernel gets

theorem onFs_idup (ip : Slot) :
    Run.Spec (onFs (Fs.idup ip)) kernel
      (fun result final => result = ip ∧ final.books = kernel.books.addRef ip)
      fun reason => reason ≠ Fs.iputBusy := by
  refine ⟨rfl, ?_⟩
  exact (books_withInode kernel ip _).trans (Books.addRef_eq_setEntry kernel.books ip).symm

theorem onFs_ilock (ip : Slot) :
    Run.Spec (onFs (Fs.ilock ip)) kernel (fun _ final => kernel.books.busy ip = none ∧
        final.books = kernel.books.lock ip kernel.fs.proc)
      fun reason => reason ≠ Fs.iputBusy := by
  refine (onFs_spec (Fs.ilock_locks ip kernel.fs)).mono ?_ fun _ => id
  rintro _ _ ⟨_, ⟨free, valid, din, rfl⟩, rfl⟩
  refine ⟨free, ?_⟩
  rw [books_withInode, Books.lock_eq_setEntry]
  rfl

theorem onFs_iunlock (ip : Slot) :
    Run.Spec (onFs (Fs.iunlock ip)) kernel (fun _ final => final.books = kernel.books.unlock ip)
      fun reason => reason ≠ Fs.iputBusy := by
  have unlocks : Run.Spec (Fs.iunlock ip) kernel.fs (fun _ final => final = kernel.fs.withInode ip
        { kernel.fs.icache ip with busy := none })
      fun reason => reason ≠ Fs.iputBusy := by
    apply Run.Spec.gets_bind
    split
    · exact fun same => absurd (Stop.panic.inj same) (by decide)
    · rfl
  refine (onFs_spec unlocks).mono ?_ fun _ => id
  rintro _ _ ⟨_, rfl, rfl⟩
  rw [books_withInode, Books.unlock_eq_setEntry]
  rfl

theorem onFs_iputBegin (ip : Slot) :
    Run.Spec (onFs (iputBegin ip)) kernel
      (fun freed final => if freed then kernel.books.busy ip = none ∧
          final.books = kernel.books.lock ip kernel.fs.proc
        else final.books = kernel.books.dropRef ip)
      fun reason => reason = Fs.iputBusy →
        kernel.books.ref ip = 1 ∧ (kernel.books.busy ip).isSome := by
  have begins : Run.Spec (iputBegin ip) kernel.fs
      (fun freed final => ∃ entry, final = kernel.fs.withInode ip entry ∧
        entry.inum = (kernel.fs.icache ip).inum ∧ if freed then (kernel.fs.icache ip).busy = none ∧
          entry.ref = (kernel.fs.icache ip).ref ∧ entry.busy = some kernel.fs.proc
        else entry.ref = (kernel.fs.icache ip).ref - 1 ∧ entry.busy = (kernel.fs.icache ip).busy)
      fun reason => reason = Fs.iputBusy →
        (kernel.fs.icache ip).ref = 1 ∧ ((kernel.fs.icache ip).busy).isSome := by
    apply Run.Spec.get_bind
    dsimp only
    split_ifs with last locked
    · exact fun _ => ⟨last.1, locked⟩
    · exact ⟨_, rfl, rfl, by simpa using locked, rfl, rfl⟩
    · exact ⟨_, rfl, rfl, rfl, rfl⟩
  refine (onFs_spec begins).mono ?_ fun _ => id
  rintro freed _ ⟨_, ⟨entry, rfl, inum, changed⟩, rfl⟩
  rw [books_withInode, inum]
  split
  · rename_i isFreed
    rw [if_pos isFreed] at changed
    obtain ⟨free, ref, busy⟩ := changed
    rw [ref, busy, Books.lock_eq_setEntry]
    exact ⟨free, rfl⟩
  · rename_i notFreed
    rw [if_neg notFreed] at changed
    obtain ⟨ref, busy⟩ := changed
    rw [ref, busy, Books.dropRef_eq_setEntry]
    rfl

theorem onFs_iputFree
    (sb : Superblock)
    (ip : Slot) :
    Run.Spec (onFs (iputFree sb ip)) kernel
      (fun _ final => final.books = (kernel.books.unlock ip).dropRef ip)
      fun reason => reason ≠ Fs.iputBusy := by
  have frees : Run.Spec (iputFree sb ip) kernel.fs
      (fun _ final => ∃ middle, Fs.SameCache kernel.fs middle ∧ final = middle.withInode ip
          { middle.icache ip with
            busy := none, valid := false, ref := (middle.icache ip).ref - 1 })
      fun reason => reason ≠ Fs.iputBusy := by
    apply Run.Spec.bind
    refine (Fs.keeps_itrunc sb ip kernel.fs).mono ?_ fun _ => id
    intro _ middle truncated
    apply Run.Spec.gets_bind
    apply Run.Spec.modify_bind
    apply Run.Spec.bind
    refine (Fs.keeps_iupdate sb ip _).mono ?_ fun _ => id
    intro _ last updated
    exact ⟨last, (truncated.trans (Fs.SameCache.withDin middle ip _)).trans updated, rfl⟩
  refine (onFs_spec frees).mono ?_ fun _ => id
  rintro _ _ ⟨_, ⟨middle, same, rfl⟩, rfl⟩
  have books := books_withInode ({ kernel with fs := middle } : Kernel) ip
    { middle.icache ip with
      busy := none, valid := false, ref := (middle.icache ip).ref - 1 }
  rw [books_sameCache kernel same] at books
  refine books.trans ?_
  rw [Books.dropRef_eq_setEntry, Books.unlock_eq_setEntry, Books.setEntry_setEntry]
  simp only [same.inum, same.ref, Books.setEntry, update_self]
  rfl

theorem onFs_dirlookup
    (sb : Superblock)
    (dp : Slot)
    (name : Name) :
    Run.Spec (onFs (Fs.dirlookup sb dp name)) kernel (fun found final => match found with
        | some (ip, _) => ∃ inum, kernel.books.Gets inum ip final.books
        | none => final.books = kernel.books)
      fun reason => reason ≠ Fs.iputBusy := by
  have looks : Run.Spec (Fs.dirlookup sb dp name) kernel.fs
      (fun found final => ∃ middle, Fs.SameCache kernel.fs middle ∧ match found with
        | some (ip, _) => ∃ inum, middle.Gets inum ip final
        | none => final = middle)
      fun reason => reason ≠ Fs.iputBusy := by
    apply Run.Spec.gets_bind
    split
    · exact fun same => absurd (Stop.panic.inj same) (by decide)
    apply Run.Spec.bind
    refine (Fs.keeps_dirScan sb dp (by decide) _ _ _ kernel.fs).mono ?_
      fun _ => id
    rintro ⟨off, found⟩ middle same
    cases found with
    | none => exact ⟨middle, same, rfl⟩
    | some de =>
      apply Run.Spec.bind
      refine (Fs.iget_gets (direntInum de) middle).mono ?_ fun _ => id
      intro ip final gets
      exact ⟨middle, same, _, gets⟩
  refine (onFs_spec looks).mono ?_ fun _ => id
  rintro found _ ⟨fs, ⟨middle, same, left⟩, rfl⟩
  have unchanged := books_sameCache kernel same
  cases found with
  | none =>
    obtain rfl : fs = middle := left
    exact unchanged
  | some pair =>
    obtain ⟨inum, gets⟩ := left
    have books := books_gets ({ kernel with fs := middle } : Kernel) gets
    rw [unchanged] at books
    exact ⟨inum, books⟩

theorem ialloc_gets
    (sb : Superblock)
    (type : Int16) :
    Run.Spec (ialloc sb type) kernel (fun ip final => ∃ inum, kernel.books.Gets inum ip final.books)
      fun reason => reason ≠ Fs.iputBusy := by
  have allocates : Run.Spec (Fs.ialloc sb type) kernel.fs
      (fun ip final => ∃ middle, Fs.SameCache kernel.fs middle ∧ ∃ inum, middle.Gets inum ip final)
      fun reason => reason ≠ Fs.iputBusy := by
    apply Run.Spec.get_bind
    split
    · rename_i inum _
      apply Run.Spec.gets_bind
      apply Run.Spec.bind
      refine (Fs.keeps_logWrite sb _ _ kernel.fs).mono ?_ fun _ => id
      intro _ middle same
      exact (Fs.iget_gets inum middle).mono
        (fun ip final gets => ⟨middle, same, inum, gets⟩) fun _ => id
    · exact fun same => absurd (Stop.panic.inj same) (by decide)
  apply Run.Spec.bind
  refine (onFs_spec allocates).mono ?_ fun _ => id
  rintro ip _ ⟨fs, ⟨middle, same, inum, gets⟩, rfl⟩
  have books := books_gets ({ kernel with fs := middle } : Kernel) gets
  rw [books_sameCache kernel same] at books
  exact ⟨inum, books⟩

/-! ### Files and processes -/

theorem myproc_bind {next : Proc → KernelM α}
    (sleeps : fault .sleep)
    (continues : ∀ proc, kernel.procs kernel.fs.proc = some proc →
      Run.Spec (next proc) kernel post fault) :
    Run.Spec (myproc >>= next) kernel post fault := by
  apply Run.Spec.bind
  apply Run.Spec.get_bind
  cases running : kernel.procs kernel.fs.proc with
  | none => exact sleeps
  | some proc => exact continues proc running

theorem child_bind
    (pid : Pid)
    {next : Proc → KernelM α}
    (sleeps : fault .sleep)
    (continues : ∀ np, kernel.procs pid = some np → Run.Spec (next np) kernel post fault) :
    Run.Spec (child pid >>= next) kernel post fault := by
  apply Run.Spec.bind
  apply Run.Spec.get_bind
  cases found : kernel.procs pid with
  | none => exact sleeps
  | some np => exact continues np found

theorem cwd_of_running (running : kernel.procs pid = some proc) :
    kernel.books.cwd pid = proc.cwd := by
  rw [Books.cwd, show kernel.books.proc pid = some proc from running]
  rfl

theorem ofile_of_running
    (running : kernel.procs pid = some proc)
    (fd : Fd) :
    kernel.books.ofile pid fd = proc.ofile fd := by
  rw [Books.ofile, show kernel.books.proc pid = some proc from running]
  rfl

theorem books_setProc
    (running : kernel.procs pid = some proc)
    (change : Proc → Proc) :
    ({ kernel with
      procs := update kernel.procs pid (some (change proc)) } :
        Kernel).books =
      kernel.books.setProc pid ((kernel.books.proc pid).map change) := by
  rw [show kernel.books.proc pid = some proc from running]
  rfl

theorem books_setFd
    (running : kernel.procs pid = some proc)
    (fd : Fd)
    (value : Option FileId) :
    ({ kernel with
      procs := update kernel.procs pid (some { proc with ofile := update proc.ofile fd value }) } :
        Kernel).books = kernel.books.setFd pid fd value :=
  books_setProc kernel running fun proc =>
    { proc with ofile := update proc.ofile fd value }

theorem onFs_beginTrans :
    Run.Spec (onFs beginTrans) kernel (fun _ final => final.books = kernel.books)
      fun reason => reason ≠ Fs.iputBusy := by
  have begins : Run.Spec beginTrans kernel.fs
      (fun _ final => final = { kernel.fs with owner := some kernel.fs.proc })
      fun reason => reason ≠ Fs.iputBusy := by
    apply Run.Spec.get_bind
    split
    · exact fun same => by cases same
    · rfl
  refine (onFs_spec begins).mono ?_ fun _ => id
  rintro _ _ ⟨_, rfl, rfl⟩
  rfl

theorem sleep_ne_iputBusy : Stop.sleep ≠ Fs.iputBusy := fun same => by cases same

theorem filealloc_posts :
    Run.Spec filealloc kernel (fun found final => Op.filealloc.Posts kernel.fs.proc kernel.books
        final.books found)
      fun reason => reason ≠ Fs.iputBusy := by
  apply Run.Spec.get_bind
  cases found : (List.finRange NFILE).find? fun f =>
      (kernel.ftable f).ref == 0 with
  | none => exact rfl
  | some f =>
    have free : (kernel.ftable f).ref = 0 := by
      simpa using List.find?_some found
    refine ⟨free, ?_⟩
    refine (books_setFile kernel f _).trans ?_
    simp only [File.dup, books, free]

theorem fdalloc_posts (f : FileId) :
    Run.Spec (fdalloc f) kernel (fun found final => (Op.fdalloc f).Posts kernel.fs.proc kernel.books
        final.books found)
      fun reason => reason ≠ Fs.iputBusy := by
  apply myproc_bind kernel sleep_ne_iputBusy
  intro proc running
  cases found : (List.finRange NOFILE).find? fun fd =>
      (proc.ofile fd).isNone with
  | none => exact rfl
  | some fd =>
    have free : proc.ofile fd = none := by
      simpa using List.find?_some found
    exact ⟨(ofile_of_running kernel running fd).trans free, books_setFd kernel running fd (some f)⟩

theorem filedup_posts (f : FileId) :
    Run.Spec (filedup f) kernel
      (fun _ final => final.books = kernel.books.setFile f (kernel.books.file f).dup ∧
        final.procs = kernel.procs ∧ final.fs = kernel.fs)
      fun reason => reason ≠ Fs.iputBusy := by
  apply Run.Spec.gets_bind
  split
  · exact fun same => absurd (Stop.panic.inj same) (by decide)
  · exact ⟨books_setFile kernel f _, rfl, rfl⟩

theorem fileDrop_posts (f : FileId) :
    Run.Spec (fileDrop f) kernel (fun left final => kernel.books.Drops f left final.books)
      fun reason => reason ≠ Fs.iputBusy := by
  apply Run.Spec.gets_bind
  split_ifs with none several
  · exact fun same => absurd (Stop.panic.inj same) (by decide)
  · exact Or.inl ⟨several, rfl, books_setFile kernel f _⟩
  have one : (kernel.ftable f).ref = 1 := by omega
  apply Run.Spec.modify_bind
  have closed := books_setFile kernel f
    { kernel.ftable f with ref := 0, type := .none }
  cases type : (kernel.ftable f).type with
  | none => exact Or.inr ⟨one, by simp [File.leaves, books, type], closed⟩
  | pipe => exact Or.inr ⟨one, by simp [File.leaves, books, type], closed⟩
  | inode => exact Or.inr ⟨one, by simp [File.leaves, books, type], closed⟩

theorem pipeInit_posts (rf wf : FileId) :
    Run.Spec (pipeInit rf wf) kernel (fun _ final => final.books = kernel.books.openPipe rf wf)
      fun reason => reason ≠ Fs.iputBusy := by
  let made : Kernel :=
    { kernel with
      pipes := update kernel.pipes kernel.npipes
        { readopen := true, writeopen := true, frees := 0 }
      npipes := kernel.npipes + 1 }
  let read : Kernel :=
    { made with
      ftable := update kernel.ftable rf
        { kernel.ftable rf with
          type := .pipe, readable := true, writable := false
          pipe := kernel.npipes } }
  have readBooks : read.books = kernel.books.newPipe.setFile rf
      ((kernel.books.file rf).pipeEnd kernel.books.npipes false) :=
    books_setFile made rf _
  have written := books_setFile read wf
    { read.ftable wf with
      type := .pipe, readable := false, writable := true, pipe := kernel.npipes }
  refine written.trans ?_
  rw [Books.openPipe, ← readBooks]
  rfl

/-- The books do not show offsets. -/
theorem books_advance
    (f : FileId)
    (off : UInt32) :
    ({ kernel with
      ftable := update kernel.ftable f
        { kernel.ftable f with off := off } } : Kernel).books = kernel.books := by
  refine (books_setFile kernel f _).trans ?_
  exact congrArg (fun file => { kernel.books with file := file })
    (update_eq_self f kernel.books.file)

theorem fileReadi_books
    (sb : Superblock)
    (f : FileId)
    (n : UInt32) :
    Run.Spec (fileReadi sb f n) kernel (fun _ final => final.books = kernel.books)
      fun reason => reason ≠ Fs.iputBusy := by
  apply Run.Spec.gets_bind
  apply Run.Spec.bind
  refine (onFs_spec (Fs.keeps_readi sb (kernel.ftable f).ip (kernel.ftable f).off n
    kernel.fs)).mono ?_ fun _ => id
  rintro result _ ⟨fs, same, rfl⟩
  have unchanged := books_sameCache kernel same
  cases result with
  | done bytes => exact (books_advance { kernel with fs := fs } f _).trans unchanged
  | refused => exact unchanged
  | device => exact unchanged

theorem fileWritei_books
    (sb : Superblock)
    (f : FileId)
    (src : List UInt8) :
    Run.Spec (fileWritei sb f src) kernel (fun _ final => final.books = kernel.books)
      fun reason => reason ≠ Fs.iputBusy := by
  apply Run.Spec.gets_bind
  apply Run.Spec.bind
  refine (onFs_spec (Fs.keeps_writei sb (kernel.ftable f).ip src
    (kernel.ftable f).off kernel.fs)).mono ?_ fun _ => id
  rintro result _ ⟨fs, same, rfl⟩
  have unchanged := books_sameCache kernel same
  cases result with
  | done count => exact (books_advance { kernel with fs := fs } f _).trans unchanged
  | refused => exact unchanged
  | device => exact unchanged

theorem dirlinkWrite_books
    (sb : Superblock)
    (dp : Slot)
    (name : Name)
    (ip : Slot) :
    Run.Spec (dirlinkWrite sb dp name ip) kernel (fun _ final => final.books = kernel.books)
      fun reason => reason ≠ Fs.iputBusy := by
  apply Run.Spec.bind
  refine (onFs_keeps kernel (Fs.Keeps.inode ip)).mono ?_ fun _ => id
  intro target middle same
  apply Run.Spec.bind
  refine (onFs_keeps middle (Fs.keeps_dirlinkWrite sb dp name _)).mono ?_ fun _ => id
  intro off final later
  exact later.trans same

theorem allocproc_posts (pid : Pid) :
    Run.Spec (allocproc pid) kernel
      (fun made final => (Op.allocproc pid).Posts kernel.fs.proc kernel.books final.books made)
      fun reason => reason ≠ Fs.iputBusy := by
  apply Run.Spec.get_bind
  split
  · exact rfl
  · rename_i absent
    exact ⟨Option.not_isSome_iff_eq_none.mp absent, rfl⟩

theorem forkFile_posts
    (pid : Pid)
    (fd : Fd) :
    Run.Spec (forkFile pid fd) kernel
      (fun _ final => (Op.forkFile pid fd).Posts kernel.fs.proc kernel.books final.books ())
      fun reason => reason ≠ Fs.iputBusy := by
  apply myproc_bind kernel sleep_ne_iputBusy
  intro proc running
  simp only [Op.Posts, ofile_of_running kernel running]
  cases proc.ofile fd with
  | none => exact rfl
  | some f =>
    apply Run.Spec.bind
    refine (filedup_posts kernel f).mono ?_ fun _ => id
    rintro _ middle ⟨dup, procs, _⟩
    apply child_bind middle pid sleep_ne_iputBusy
    intro np found
    change _ = Books.setFd _ pid fd (some f)
    rw [← dup]
    exact books_setFd middle found fd (some f)

theorem forkCwd_posts (pid : Pid) :
    Run.Spec (forkCwd pid) kernel (fun _ final => (Op.forkCwd pid).Posts kernel.fs.proc kernel.books
        final.books ())
      fun reason => reason ≠ Fs.iputBusy := by
  apply myproc_bind kernel sleep_ne_iputBusy
  intro proc running
  simp only [Op.Posts, cwd_of_running kernel running]
  cases cwd : proc.cwd with
  | none => exact sleep_ne_iputBusy
  | some ip =>
    apply Run.Spec.bind
    refine (onFs_idup kernel ip).mono ?_ fun _ => id
    rintro _ middle ⟨rfl, dup⟩
    apply child_bind middle pid sleep_ne_iputBusy
    intro np found
    refine ⟨_, rfl, ?_⟩
    rw [← dup]
    exact books_setProc middle found fun np => { np with cwd := some _ }

theorem keeps_updateInode
    (sb : Superblock)
    (ip : Slot)
    (change : Dinode → Dinode) :
    Fs.Keeps (updateInode sb ip change) :=
  Fs.Keeps.inode_bind_setDin ip change (Fs.keeps_iupdate sb ip)

/-- An operation posts what it says, and stops with the panic of `iput` only if
it is an `iput` of the last reference to a locked inode. -/
theorem effect_posts
    (sb : Superblock)
    (operation : Op β) :
    Run.Spec (effect sb operation) kernel
      (fun result final => operation.Posts kernel.fs.proc kernel.books final.books result)
      fun reason => reason = Fs.iputBusy → operation.Busy kernel.books := by
  -- all operations but `iput` and `panic` stop for other reasons
  have plain : ∀ {γ : Type} {run : KernelM γ} {post : γ → Kernel → Prop}
      {busy : Prop}, Run.Spec run kernel post (fun reason => reason ≠ Fs.iputBusy) →
      Run.Spec run kernel post fun reason => reason = Fs.iputBusy → busy :=
    fun spec => spec.mono (fun _ _ => id) fun _ other same => absurd same other
  cases operation with
  | beginTrans => exact plain (onFs_beginTrans kernel)
  | commitTrans => exact rfl
  | igetRoot => exact plain (onFs_iget kernel ROOTINO)
  | idupCwd =>
    apply plain
    apply myproc_bind kernel sleep_ne_iputBusy
    intro proc running
    cases cwd : proc.cwd with
    | none => exact sleep_ne_iputBusy
    | some ip =>
      refine (onFs_idup kernel ip).mono ?_ fun _ => id
      rintro _ final ⟨rfl, dup⟩
      exact ⟨(cwd_of_running kernel running).trans cwd, dup⟩
  | ilock ip => exact plain (onFs_ilock kernel ip)
  | iunlock ip => exact plain (onFs_iunlock kernel ip)
  | iputBegin ip => exact onFs_iputBegin kernel ip
  | iputFree ip => exact plain (onFs_iputFree kernel sb ip)
  | stat ip => exact rfl
  | dirlookup dp name => exact plain (onFs_dirlookup kernel sb dp name)
  | dirlinkWrite dp name ip => exact plain (dirlinkWrite_books kernel sb dp name ip)
  | isdirempty dp => exact plain (onFs_keeps kernel (Fs.keeps_isdirempty sb dp))
  | clearEntry dp off => exact plain (onFs_keeps kernel (Fs.keeps_clearEntry sb dp off))
  | ialloc type => exact plain (ialloc_gets kernel sb type)
  | setNew ip major minor => exact plain (onFs_keeps kernel (keeps_updateInode sb ip _))
  | incNlink ip => exact plain (onFs_keeps kernel (keeps_updateInode sb ip _))
  | decNlink ip => exact plain (onFs_keeps kernel (keeps_updateInode sb ip _))
  | readi ip off n => exact plain (onFs_keeps kernel (Fs.keeps_readi sb ip off n))
  | filealloc => exact plain (filealloc_posts kernel)
  | fdalloc f => exact plain (fdalloc_posts kernel f)
  | filedup f => exact plain ((filedup_posts kernel f).mono (fun _ _ => And.left) fun _ => id)
  | fdFile fd =>
    apply plain
    apply myproc_bind kernel sleep_ne_iputBusy
    intro proc running
    exact ⟨(ofile_of_running kernel running fd).symm, rfl⟩
  | fdTake fd =>
    apply plain
    apply myproc_bind kernel sleep_ne_iputBusy
    intro proc running
    exact ⟨(ofile_of_running kernel running fd).symm, rfl⟩
  | fdClear fd =>
    apply plain
    apply myproc_bind kernel sleep_ne_iputBusy
    intro proc running
    exact books_setFd kernel running fd none
  | file f => exact ⟨rfl, rfl, rfl⟩
  | fileInit f ip readable writable => exact books_setFile kernel f _
  | pipeInit rf wf => exact plain (pipeInit_posts kernel rf wf)
  | pipeclose p writable => exact rfl
  | fileDrop f => exact plain (fileDrop_posts kernel f)
  | fileReadi f n => exact plain (fileReadi_books kernel sb f n)
  | fileWritei f src => exact plain (fileWritei_books kernel sb f src)
  | fileAdvance f n => exact books_advance kernel f _
  | cwd =>
    apply plain
    apply myproc_bind kernel sleep_ne_iputBusy
    intro proc running
    exact ⟨(cwd_of_running kernel running).symm, rfl⟩
  | setCwd ip =>
    apply plain
    apply myproc_bind kernel sleep_ne_iputBusy
    intro proc running
    exact books_setProc kernel running fun proc => { proc with cwd := some ip }
  | allocproc child => exact plain (allocproc_posts kernel child)
  | forkAbort child => exact rfl
  | forkFile child fd => exact plain (forkFile_posts kernel child fd)
  | forkCwd child => exact plain (forkCwd_posts kernel child)
  | forkEnd child =>
    apply plain
    apply child_bind kernel child sleep_ne_iputBusy
    intro np found
    exact books_setProc kernel found fun np => { np with embryo := false }
  | gone => exact rfl
  | panic text => exact fun same => Stop.panic.inj same

end Kernel

end Xv6
