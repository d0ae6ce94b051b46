import Xv6.Fs.Allocator
import Xv6.Sys.Balance

/-!
# Runs of the kernel

Processes make calls, and their operations interleave in any way.  From a
booted kernel on, the accounts hold in every state that is reached.
-/

namespace Xv6

open Function
open Cells
open Interleaving
open Shares

namespace Kernel

/-- Whether a process can run. -/
def runs (kernel : Kernel) (pid : Pid) : Bool :=
  match kernel.procs pid with
  | some proc => !proc.embryo
  | none => false

/-- Processes that can run make calls, whatever their arguments. -/
def behaviour (sb : Superblock) : Behaviour Op Stop Kernel where
  starts kernel pid program :=
    kernel.runs pid = true ∧ ∃ call : SysCall, program = call.program pid
  exec pid operation := exec sb pid operation
  admits kernel pid _ := kernel.runs pid = true

/-- The kernel when `userinit` has made the first process: only the current
directory of that process is in use.  The disk is arbitrary. -/
structure Booted (kernel : Kernel) (root : Slot) : Prop where
  /-- There is one process. -/
  procs : kernel.procs = update (fun _ => none) initproc
    (some { cwd := some root, ofile := fun _ => none, embryo := false })
  /-- Its current directory has one reference, and nothing else has any. -/
  ref : ∀ ip, (kernel.fs.icache ip).ref = if ip = root then 1 else 0
  /-- It is the root directory. -/
  inum : (kernel.fs.icache root).inum = ROOTINO
  /-- No inode is locked. -/
  busy : ∀ ip, (kernel.fs.icache ip).busy = none
  /-- No file is open. -/
  files : ∀ f, (kernel.ftable f).ref = 0 ∧ (kernel.ftable f).type = .none
  /-- There are no pipes. -/
  pipes : kernel.pipes = fun _ => PipeEnds.unmade
  /-- None has been made. -/
  npipes : kernel.npipes = 0
  /-- No transaction is open. -/
  owner : kernel.fs.owner = none

/-- A kernel in which no process is in a call. -/
def atRest (kernel : Kernel) : System Op Kernel where
  state := kernel
  running := fun _ => none

/-- The kernel that boots from a disk. -/
def boot (disk : Disk) : Kernel where
  fs :=
    { disk := disk
      icache := update (fun _ => Inode.unused) 0
        { Inode.unused with inum := ROOTINO, ref := 1 }
      proc := initproc
      owner := none
      logged := ∅
      rogue := false }
  ftable := fun _ => File.unused
  procs := update (fun _ => none) initproc
    (some { cwd := some 0, ofile := fun _ => none, embryo := false })
  pipes := fun _ => PipeEnds.unmade
  npipes := 0
  born := fun _ => 0
  made := fun _ _ => 0

/-- A disk of zeros. -/
def blank : Disk := fun _ => Cell.zero

theorem booted_boot (disk : Disk) : (boot disk).Booted 0 where
  procs := rfl
  ref ip := by
    by_cases root : ip = 0
    · simp [boot, root]
    · simp [boot, root, Inode.unused]
  inum := by simp [boot]
  busy ip := by
    by_cases root : ip = 0
    · simp [boot, root, Inode.unused]
    · simp [boot, root, Inode.unused]
  files _ := ⟨rfl, rfl⟩
  pipes := rfl
  npipes := rfl
  owner := rfl

/-! ## Executing calls -/

/-- Processes make calls one after the other; `fuel` bounds the number of
operations of each. -/
def callAll (sb : Superblock) (fuel : Nat) :
    List (Pid × SysCall) → Kernel → Option Kernel
  | [], kernel => some kernel
  | (pid, call) :: rest, kernel =>
    if kernel.runs pid then
      match (call.program pid).execute (exec sb pid) (fun kernel => kernel.runs pid)
          fuel kernel with
      | some final => callAll sb fuel rest final
      | none => none
    else none

/-- A process performs the first operations of a call. -/
def callPart (sb : Superblock) (pid : Pid) (call : SysCall) (count : Nat)
    (kernel : Kernel) : Option Kernel :=
  if kernel.runs pid then
    match (call.program pid).advance (exec sb pid) (fun kernel => kernel.runs pid) count kernel with
    | some (_, final) => some final
    | none => none
  else none

variable {sb : Superblock} {kernel : Kernel} {system : System Op Kernel} {views : Pid → View}

theorem reachable_callAll
    (reached : Reachable (behaviour sb) initial kernel.atRest)
    (called : callAll sb fuel calls kernel = some final) :
    Reachable (behaviour sb) initial final.atRest := by
  induction calls generalizing kernel with
  | nil =>
    obtain rfl := Option.some.inj called
    exact reached
  | cons head rest ih =>
    obtain ⟨pid, call⟩ := head
    unfold callAll at called
    split at called
    · rename_i ready
      split at called
      · rename_i middle executed
        refine ih ?_ called
        exact reached.executes (fun _ _ => id) fuel rfl ⟨ready, call, rfl⟩ executed
      · cases called
    · cases called

theorem reachable_callPart
    (reached : Reachable (behaviour sb) initial kernel.atRest)
    (called : callPart sb pid call count kernel = some final) :
    ∃ running, Reachable (behaviour sb) initial ⟨final, running⟩ := by
  unfold callPart at called
  split at called
  · rename_i ready
    split at called
    · rename_i program last advanced
      obtain rfl := Option.some.inj called
      exact ⟨_, reached.begins (fun _ _ => id) count rfl ⟨ready, call, rfl⟩ advanced⟩
    · cases called
  · cases called

/-- Whole calls and the beginning of a last one are a run. -/
theorem exists_reachable
    (sb : Superblock)
    (fuel : Nat)
    (calls : List (Pid × SysCall))
    (pid : Pid)
    (call : SysCall)
    (count : Nat)
    (kernel : Kernel)
    (test : Kernel → Bool)
    (passed : ((callAll sb fuel calls kernel).bind (callPart sb pid call count)).any test = true) :
    ∃ system : System Op Kernel, Reachable (behaviour sb) kernel.atRest system ∧
      test system.state = true := by
  cases called : callAll sb fuel calls kernel with
  | none =>
    rw [called] at passed
    cases passed
  | some middle =>
    cases part : callPart sb pid call count middle with
    | none =>
      rw [called, Option.bind_some, part] at passed
      cases passed
    | some final =>
      rw [called, Option.bind_some, part] at passed
      obtain ⟨running, reached⟩ :=
        reachable_callPart (reachable_callAll .initial called) part
      exact ⟨⟨final, running⟩, reached, passed⟩

theorem running_of_runs (runs : kernel.runs pid = true) :
    kernel.books.Running pid := by
  unfold Kernel.runs at runs
  split at runs
  · rename_i proc found
    exact ⟨proc, found, by simpa using runs⟩
  · cases runs

/-! ## The accounts of a booted kernel -/

variable {kernel : Kernel} {root : Slot}

theorem Booted.cwd
    (booted : kernel.Booted root)
    (pid : Pid) :
    kernel.books.cwd pid = if pid = initproc then some root else none := by
  have procs : kernel.books.proc = _ := booted.procs
  rw [Books.cwd, procs, update_apply]
  split <;> rfl

theorem Booted.ofile
    (booted : kernel.Booted root)
    (pid : Pid)
    (fd : Fd) :
    kernel.books.ofile pid fd = none := by
  have procs : kernel.books.proc = _ := booted.procs
  rw [Books.ofile, procs, update_apply]
  split <;> rfl

theorem Booted.accounts (booted : kernel.Booted root) :
    Accounts kernel.books fun _ => View.idle where
  inodes := by
    refine ⟨?_, ?_, ?_, fun _ _ => Nat.le_refl _⟩
    · intro ip other used usedOther _
      have here : ∀ slot, 0 < kernel.books.ref slot → slot = root := by
        intro slot positive
        by_contra different
        have zero : kernel.books.ref slot = 0 := by
          rw [show kernel.books.ref slot = _ from booted.ref slot, if_neg different]
        omega
      rw [here ip used, here other usedOther]
    · -- nothing is counted but the directory of the first process
      have nothing : Balanced (0 : Slot → Nat) (0 : InodeHolder → Slot → Nat) :=
        Balanced.zero
      refine nothing.exchangeOne (.cwd initproc) ?_ ?_
      · intro holder different
        cases holder with
        | file f =>
          change single (File.inode _) = _
          have type : (kernel.books.file f).type = .none := (booted.files f).2
          rw [File.inode, if_neg (by rw [type]; decide), single_none]
          rfl
        | cwd pid =>
          have notInit : pid ≠ initproc := fun same => different (by rw [same])
          change single (kernel.books.cwd pid) = _
          rw [booted.cwd, if_neg notInit, single_none]
          rfl
        | call pid => rfl
      · intro ip
        have share : kernel.books.inodeShare (fun _ => View.idle) (.cwd initproc) =
            single (some root) := by
          change single (kernel.books.cwd initproc) = _
          rw [booted.cwd, if_pos rfl]
        rw [share, show kernel.books.ref ip = _ from booted.ref ip]
        simp only [single, Option.some.injEq, Pi.zero_apply]
        by_cases here : ip = root
        · simp [here]
        · have different : ¬root = ip := fun same => here same.symm
          simp [here, different]
    · intro pid ip
      rw [show kernel.books.busy ip = none from booted.busy ip]
      rfl
  files := by
    refine ⟨?_, ?_, ?_, fun _ => Descriptors.idle _ _⟩
    · have ref : kernel.books.fileRef = 0 := funext fun f => (booted.files f).1
      have shares : kernel.books.fileShare (fun _ => View.idle) = 0 := by
        funext holder
        cases holder with
        | slot pid fd =>
          change single (kernel.books.heldFile _ pid fd) = 0
          rw [Books.heldFile, booted.ofile, ite_self, single_none]
        | call pid => rfl
      rw [ref, shares]
      exact Balanced.zero
    · exact fun f _ => (booted.files f).2
    · intro pid f fresh
      cases fresh
  pipes := by
    have pipes : kernel.books.pipes = fun _ => PipeEnds.unmade := booted.pipes
    refine ⟨?_, fun p _ => by rw [pipes], ?_⟩
    · have counts : kernel.books.endCount = 0 := by
        funext pipeEnd
        rw [Books.endCount, pipes]
        obtain ⟨p, _ | _⟩ := pipeEnd <;> rfl
      have shares : kernel.books.endShare (fun _ => View.idle) = 0 := by
        funext holder
        cases holder with
        | file f =>
          change single (File.pipeOf _) = 0
          have type : (kernel.books.file f).type = .none := (booted.files f).2
          rw [File.pipeOf, if_neg (by rw [type]; decide), single_none]
        | call pid => exact single_none
      rw [counts, shares]
      exact Balanced.zero
    · intro p made
      rw [show kernel.books.npipes = 0 from booted.npipes] at made
      exact absurd made (Nat.not_lt_zero p)
  procs :=
    { resting := fun _ _ => rfl
      child := fun _ _ makes => by cases makes
      parent := fun _ _ _ _ makes => by cases makes }

/-! ## Whole runs -/

/-- The accounts are an invariant of the calls. -/
theorem kept (sb : Superblock) :
    Kept (behaviour sb) discipline View.idle View.Settled
      fun kernel views => Accounts kernel.books views where
  starts := by
    rintro kernel pid program ⟨_, call, rfl⟩
    exact call.follows pid
  operates := by
    intro β kernel final views pid operation result accounts required runs performed
    have posted := (effect_posts
      { kernel with fs := { kernel.fs with proc := pid } } sb operation).of_ok performed
    exact accounts.post (running_of_runs runs) required posted
  finishes := fun accounts settled => accounts.settle settled

theorem Booted.holds (booted : kernel.Booted root) :
    Holds discipline View.idle View.Settled
      (fun kernel views => Accounts kernel.books views) kernel.atRest
      fun _ => View.idle where
  invariant := booted.accounts
  resting := fun _ _ => rfl
  follows := fun _ _ running => by cases running

/-- What the accounts say in every state that is reached. -/
theorem Booted.tracked
    (booted : kernel.Booted root)
    (tracked : Tracks (behaviour sb) discipline View.idle kernel.atRest system views) :
    Holds discipline View.idle View.Settled
      (fun kernel views => Accounts kernel.books views) system views :=
  tracked.holds (kept sb) booted.holds

/-- A process that is in no call, or in one that has returned, holds nothing. -/
theorem settled_of_returned
    (holds : Holds discipline View.idle View.Settled
      (fun kernel views => Accounts kernel.books views) system views)
    {pid : Pid}
    (returned : system.running pid = none ∨ system.running pid = some (.pure ())) :
    (views pid).Settled := by
  rcases returned with resting | ended
  · rw [holds.resting pid resting]
    exact Call.settled_idle none none none ∅
  · exact holds.follows pid _ ended

/-- The panic of `iput` is not reached. -/
theorem not_faults_iputBusy
    (holds : Holds discipline View.idle View.Settled
      (fun kernel views => Accounts kernel.books views) system views) :
    ¬Faults (behaviour sb) system Fs.iputBusy := by
  rintro ⟨active, runs, faulted⟩
  rename_i pid β operation next
  have required := (holds.follows pid _ active).1
  have busy := (effect_posts { system.state with fs := { system.state.fs with proc := pid } } sb
    operation).of_error faulted rfl
  cases operation with
  | iputBegin ip =>
    have free := holds.invariant.inodes.not_busy
      holds.invariant.files.exists_file_of_pinnedIp required.1 busy.1
    have locked : (system.state.books.busy ip).isSome = true := busy.2
    rw [free] at locked
    cases locked
  | panic text => exact required busy
  | _ => exact busy

/-- In every state that calls reach, the next operation of a process finds what it
relies on.  So `filedup`, `fileclose`, `ilock` and `iunlock` do not panic, and no two
processes use the contents of one inode at the same time. -/
theorem operations_find
    (sb : Superblock)
    (booted : kernel.Booted root)
    {system : System Op Kernel} {pid : Pid} {β : Type} {operation : Op β}
    {next : β → Program Op Unit}
    (reached : Reachable (behaviour sb) kernel.atRest system)
    (active : system.running pid = some (.call operation next)) :
    operation.Finds pid system.state.books := by
  obtain ⟨views, tracked⟩ : ∃ views, Tracks (behaviour sb) discipline View.idle kernel.atRest
    system views := reached.tracks
  have holds := booted.tracked tracked
  exact holds.invariant.finds (holds.follows pid _ active).1

theorem operations_find_chdir :
    ∃ system next, Reachable (behaviour Mkfs.sb) (boot blank).atRest system ∧
      system.running 1 = some (.call (.ilock 0) next) ∧ (Op.ilock 0).Finds 1 system.state.books := by
  have started := (Reachable.initial : Reachable (behaviour Mkfs.sb) (boot blank).atRest _).step
    (.start (show (boot blank).atRest.running 1 = none from rfl) ⟨rfl, .chdir [97], rfl⟩)
  have reached := started.step (.operate (update_self 1 _ _) rfl rfl)
  exact ⟨_, _, reached, rfl, operations_find Mkfs.sb (booted_boot _) reached rfl⟩

end Kernel
end Xv6
