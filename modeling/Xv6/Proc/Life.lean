import Mathlib.Data.Fintype.Basic
import Xv6.Params
import Xv6.Proc.Sleep

/-!
# The life of a process

fork, exit, wait and kill of proc.c on the process table, together with the
scheduler and with sleeps and wakeups of other code.  What happens under one
hold of `ptable.lock` is one step, and what fork and exit do outside of it is
split further.  The table has any number of slots, and any number of processes
may be running.
-/

namespace Xv6
namespace Proc
namespace Life

open Function (update update_of_ne update_self)

/-- What processes sleep on. -/
inductive Chan (n : Nat) where
  | proc (p : Fin n)
  | other (chan : Nat)
  deriving DecidableEq

/-- The fields of struct proc that matter here. -/
structure Entry (n : Nat) where
  state : ProcState
  pid : Nat
  parent : Option (Fin n)
  killed : Bool
  chan : Option (Chan n)
  ofile : Fin NOFILE → Bool
  cwd : Bool

/-- Where a process is in its code. -/
inductive Phase (n : Nat) where
  | body
  | forking (np : Fin n)
  | adopted (np : Fin n)
  /-- In fork, after the files have been copied. -/
  | copied (np : Fin n)
  /-- In exit: the descriptors below a number are closed, and above NOFILE the
  current directory has been put too. -/
  | exiting (fd : Nat)
  | waiting
  deriving DecidableEq

/-- The process table, and where the processes are. -/
structure Table (n : Nat) where
  procs : Fin n → Entry n
  phase : Fin n → Phase n
  nextpid : Nat
  exits : Fin n → Nat
  reaps : Fin n → Nat

variable {n : Nat}

namespace Entry

/-- SLEEPING, RUNNABLE or RUNNING. -/
def live (entry : Entry n) : Prop :=
  entry.state = .sleeping ∨ entry.state = .runnable ∨ entry.state = .running

/-- No open files and no current directory. -/
def bare (entry : Entry n) : Prop :=
  (∀ fd, entry.ofile fd = false) ∧ entry.cwd = false

/-- wakeup1 on one entry. -/
def wakeup1 (chan : Chan n) (entry : Entry n) : Entry n :=
  if entry.state = .sleeping ∧ entry.chan = some chan then
    { entry with state := .runnable }
  else entry

/-- kill on the entry it has found. -/
def kill (entry : Entry n) : Entry n :=
  { entry with
    killed := true
    state := if entry.state = .sleeping then .runnable else entry.state }

/-- exit on an entry of the table: children are passed on to init. -/
def passOn (initproc p : Fin n) (entry : Entry n) : Entry n :=
  if entry.parent = some p then { entry with parent := some initproc }
  else entry

/-- What wait makes of a zombie. -/
def reaped (entry : Entry n) : Entry n :=
  { entry with state := .unused, pid := 0, parent := none, killed := false }

end Entry

namespace Table

/-- An entry changes. -/
def assign (s : Table n) (p : Fin n) (entry : Entry n) : Table n :=
  { s with procs := update s.procs p entry }

/-- A process moves on. -/
def goto (s : Table n) (p : Fin n) (phase : Phase n) : Table n :=
  { s with phase := update s.phase p phase }

/-- wakeup1. -/
def wakeup1 (s : Table n) (chan : Chan n) : Table n :=
  { s with procs := fun q => (s.procs q).wakeup1 chan }

/-- The first slot that allocproc finds. -/
def firstUnused (s : Table n) : Option (Fin n) :=
  (List.finRange n).find? fun p => (s.procs p).state = .unused

/-- allocproc under the lock, for a slot it has found. -/
def allocproc (s : Table n) (np : Fin n) : Table n :=
  { s.assign np { s.procs np with state := .embryo, pid := s.nextpid } with
    nextpid := s.nextpid + 1 }

/-- The slot that kill finds. -/
def withPid (s : Table n) (pid : Nat) : Option (Fin n) :=
  (List.finRange n).find? fun p => (s.procs p).pid = pid

/-- exit passes the children of a process to init. -/
def abandon (s : Table n) (initproc p : Fin n) : Table n :=
  { s with procs := fun q => (s.procs q).passOn initproc p }

/-- A child of a process is a zombie. -/
def hasZombie (s : Table n) (p : Fin n) : Prop :=
  ∃ q, (s.procs q).parent = some p ∧ (s.procs q).state = .zombie

instance (s : Table n) (p : Fin n) : Decidable (s.hasZombie p) :=
  inferInstanceAs (Decidable (∃ _, _))

/-- exit wakes the parent that might be in wait. -/
def wakeParent (s : Table n) (p : Fin n) : Table n :=
  match (s.procs p).parent with
  | some parent => s.wakeup1 (.proc parent)
  | none => s

/-- exit wakes init if one of the children it passes on is a zombie. -/
def wakeInit (s : Table n) (initproc p : Fin n) : Table n :=
  if s.hasZombie p then s.wakeup1 (.proc initproc) else s

/-- The part of exit under ptable.lock. -/
def exit (s : Table n) (initproc p : Fin n) : Table n :=
  let woken := ((s.wakeParent p).wakeInit initproc p).abandon initproc p
  { woken.assign p { woken.procs p with state := .zombie } with
    exits := update s.exits p (s.exits p + 1) }

/-- What a pass of wait over the table comes to. -/
inductive Verdict (n : Nat) where
  | reaped (child : Fin n) (pid : Nat)
  | failed
  | sleeps
  deriving DecidableEq

/-- A pass of wait over the table. -/
def wait (s : Table n) (p : Fin n) : Verdict n :=
  match (List.finRange n).find? fun q =>
      (s.procs q).parent = some p ∧ (s.procs q).state = .zombie with
  | some child => .reaped child (s.procs child).pid
  | none =>
    if (∀ q, (s.procs q).parent ≠ some p) ∨ (s.procs p).killed = true then
      .failed
    else .sleeps

/-- The table after a pass of wait. -/
def waited (s : Table n) (p : Fin n) : Table n :=
  match s.wait p with
  | .reaped child _ =>
    { (s.assign child (s.procs child).reaped).goto p .body with
      reaps := update s.reaps child (s.reaps child + 1) }
  | .failed => s.goto p .body
  | .sleeps =>
    s.assign p { s.procs p with state := .sleeping, chan := some (.proc p) }

end Table

/-! ## Steps -/

/-- One step, of a running process or of a scheduler. -/
inductive Step (initproc : Fin n) : Table n → Table n → Prop where
  /-- A scheduler runs a process; one that slept clears its channel. -/
  | schedule {s : Table n} (p : Fin n)
      (ready : (s.procs p).state = .runnable) :
      Step initproc s (s.assign p { s.procs p with state := .running, chan := none })
  | yield {s : Table n} (p : Fin n)
      (running : (s.procs p).state = .running) :
      Step initproc s (s.assign p { s.procs p with state := .runnable })
  | sleep {s : Table n} (p : Fin n) (chan : Nat)
      (running : (s.procs p).state = .running)
      (elsewhere : s.phase p ≠ .waiting) :
      Step initproc s (s.assign p { s.procs p with state := .sleeping, chan := some (.other chan) })
  | wakeup {s : Table n} (chan : Chan n) : Step initproc s (s.wakeup1 chan)
  | kill {s : Table n} (pid : Nat) (p : Fin n)
      (found : s.withPid pid = some p) :
      Step initproc s (s.assign p (s.procs p).kill)
  | files {s : Table n} (p : Fin n) (ofile : Fin NOFILE → Bool)
      (running : (s.procs p).state = .running)
      (place : s.phase p = .body) :
      Step initproc s (s.assign p { s.procs p with ofile })
  | fork {s : Table n} (p np : Fin n)
      (running : (s.procs p).state = .running)
      (place : s.phase p = .body)
      (found : s.firstUnused = some np) :
      Step initproc s ((s.allocproc np).goto p (.forking np))
  /-- fork or allocproc gives the slot back: no stack or no page table. -/
  | forkFails {s : Table n} (p np : Fin n)
      (running : (s.procs p).state = .running)
      (place : s.phase p = .forking np) :
      Step initproc s ((s.assign np { s.procs np with state := .unused }).goto p .body)
  | forkAdopts {s : Table n} (p np : Fin n)
      (running : (s.procs p).state = .running)
      (place : s.phase p = .forking np) :
      Step initproc s ((s.assign np { s.procs np with parent := some p }).goto p (.adopted np))
  /-- fork copies the descriptors and the current directory. -/
  | forkCopies {s : Table n} (p np : Fin n)
      (running : (s.procs p).state = .running)
      (place : s.phase p = .adopted np) :
      Step initproc s ((s.assign np { s.procs np with
            ofile := (s.procs p).ofile, cwd := (s.procs p).cwd }).goto p
          (.copied np))
  | forkEnds {s : Table n} (p np : Fin n)
      (running : (s.procs p).state = .running)
      (place : s.phase p = .copied np) :
      Step initproc s (((s.assign np { s.procs np with state := .runnable }).goto np
          .body).goto p .body)
  /-- exit is called, by a process that is not init. -/
  | exit {s : Table n} (p : Fin n)
      (running : (s.procs p).state = .running)
      (place : s.phase p = .body)
      (other : p ≠ initproc) :
      Step initproc s (s.goto p (.exiting 0))
  | exitCloses {s : Table n} (p : Fin n) (fd : Fin NOFILE)
      (running : (s.procs p).state = .running)
      (place : s.phase p = .exiting fd) :
      Step initproc s ((s.assign p { s.procs p with
            ofile := update (s.procs p).ofile fd false }).goto p
          (.exiting (fd + 1)))
  | exitPuts {s : Table n} (p : Fin n)
      (running : (s.procs p).state = .running)
      (place : s.phase p = .exiting NOFILE) :
      Step initproc s ((s.assign p { s.procs p with cwd := false }).goto p (.exiting (NOFILE + 1)))
  | exitEnds {s : Table n} (p : Fin n)
      (running : (s.procs p).state = .running)
      (place : s.phase p = .exiting (NOFILE + 1)) :
      Step initproc s (s.exit initproc p)
  | wait {s : Table n} (p : Fin n)
      (running : (s.procs p).state = .running)
      (place : s.phase p = .body) :
      Step initproc s (s.goto p .waiting)
  | waits {s : Table n} (p : Fin n)
      (running : (s.procs p).state = .running)
      (place : s.phase p = .waiting) :
      Step initproc s (s.waited p)

/-- The table after userinit: init is ready to run, all other slots are
unused. -/
def userinit (initproc : Fin n) : Table n where
  procs p :=
    { state := if p = initproc then .runnable else .unused
      pid := if p = initproc then 1 else 0
      parent := none
      killed := false
      chan := none
      ofile := fun _ => false
      cwd := p = initproc }
  phase _ := .body
  nextpid := 2
  exits _ := 0
  reaps _ := 0

/-- The tables that runs reach. -/
inductive Reachable : Fin n → Table n → Prop where
  | userinit (initproc : Fin n) : Reachable initproc (userinit initproc)
  | step {initproc : Fin n} {s t : Table n} (reached : Reachable initproc s)
      (step : Step initproc s t) : Reachable initproc t

/-! ## The invariant -/

/-- A process is making another one of a slot. -/
def Phase.builds (np : Fin n) (phase : Phase n) : Prop :=
  phase = .forking np ∨ phase = .adopted np ∨ phase = .copied np

/-- What is true of every reachable table. -/
structure Sound (initproc : Fin n) (s : Table n) : Prop where
  /-- Processes have a live parent. -/
  parent : ∀ p, p ≠ initproc → (s.procs p).live ∨ (s.procs p).state = .zombie →
    ∃ q, (s.procs p).parent = some q ∧ (s.procs q).live
  init : (s.procs initproc).live
  /-- init has no parent. -/
  orphan : (s.procs initproc).parent = none
  /-- Nobody is its own parent. -/
  selfless : ∀ p, (s.procs p).parent ≠ some p
  /-- Nobody sleeps in wait with a zombie to reap. -/
  attended : ∀ p, (s.procs p).state = .sleeping → s.phase p = .waiting →
    (s.procs p).chan = some (.proc p) ∧ ¬s.hasZombie p
  /-- Zombies have closed everything. -/
  zombie : ∀ p, (s.procs p).state = .zombie → (s.procs p).bare
  /-- Unused slots are clean. -/
  unused : ∀ p, (s.procs p).state = .unused → (s.procs p).parent = none ∧ (s.procs p).bare
  /-- A slot that is being made into a process is nobody's child at first. -/
  forking : ∀ p np, s.phase p = .forking np → (s.procs np).parent = none ∧ (s.procs np).bare
  /-- Then it is its maker's child. -/
  adopted : ∀ p np, s.phase p = .adopted np ∨ s.phase p = .copied np → (s.procs np).parent = some p
  /-- It is an embryo, and its maker lives. -/
  embryo : ∀ p np, (s.phase p).builds np → (s.procs p).live ∧ (s.procs np).state = .embryo
  /-- It has one maker. -/
  single : ∀ p q np, (s.phase p).builds np → (s.phase q).builds np → p = q
  /-- exit has closed what it has passed. -/
  exiting : ∀ p fd, s.phase p = .exiting fd → (s.procs p).live →
    p ≠ initproc ∧ (∀ file : Fin NOFILE, file < fd → (s.procs p).ofile file = false) ∧
    (NOFILE < fd → (s.procs p).cwd = false)
  /-- Every exit but that of a zombie has been answered by one wait. -/
  counted : ∀ p, s.exits p = s.reaps p + if (s.procs p).state = .zombie then 1 else 0

variable {entry : Entry n}

theorem Entry.live_of_running (running : entry.state = .running) :
    entry.live :=
  Or.inr (Or.inr running)

theorem Entry.not_live_of_zombie (zombie : entry.state = .zombie) :
    ¬entry.live := by
  simp [Entry.live, zombie]

theorem Entry.not_live_of_embryo (embryo : entry.state = .embryo) :
    ¬entry.live := by
  simp [Entry.live, embryo]

theorem Entry.not_live_of_unused (unused : entry.state = .unused) :
    ¬entry.live := by
  simp [Entry.live, unused]

theorem Sound.userinit (initproc : Fin n) :
    Sound initproc (userinit initproc) where
  parent p other alive := by
    simp [Life.userinit, Entry.live, other] at alive
  init := by simp [Life.userinit, Entry.live]
  orphan := rfl
  selfless p := by simp [Life.userinit]
  attended p sleeping := by
    by_cases same : p = initproc <;> simp [Life.userinit, same] at sleeping
  zombie p zombie := by
    by_cases same : p = initproc <;> simp [Life.userinit, same] at zombie
  unused p unused := by
    by_cases same : p = initproc
    · simp [Life.userinit, same] at unused
    · simp [Life.userinit, Entry.bare, same]
  forking p np place := by cases place
  adopted p np place := by
    obtain place | place := place <;> cases place
  embryo p np place := by
    obtain place | place | place := place <;> cases place
  single p q np place := by
    obtain place | place | place := place <;> cases place
  exiting p fd place := by cases place
  counted p := by
    by_cases same : p = initproc <;> simp [Life.userinit, same]

attribute [local simp] Table.assign Table.goto Phase.builds

section Steps

variable {initproc p np : Fin n} {s t : Table n} {entry : Entry n}

/-- A step that leaves alone who is whose child, and that neither begins nor
ends a life. -/
theorem Sound.steady
    (sound : Sound initproc s)
    (parent : ∀ q, (t.procs q).parent = (s.procs q).parent)
    (state : ∀ q, (t.procs q).state = (s.procs q).state ∨ (s.procs q).live ∧ (t.procs q).live)
    (files : ∀ q, (s.procs q).live ∨ (t.procs q).ofile = (s.procs q).ofile ∧
        (t.procs q).cwd = (s.procs q).cwd)
    (phase : ∀ q, t.phase q = s.phase q ∨ ∀ np, ¬(t.phase q).builds np)
    (attended : ∀ q, (t.procs q).state = .sleeping → t.phase q = .waiting →
      (t.procs q).chan = some (.proc q) ∧ ¬s.hasZombie q)
    (exiting : ∀ q fd, t.phase q = .exiting fd → (t.procs q).live → q ≠ initproc ∧
      (∀ file : Fin NOFILE, file < fd → (t.procs q).ofile file = false) ∧
      (NOFILE < fd → (t.procs q).cwd = false))
    (exits : t.exits = s.exits)
    (reaps : t.reaps = s.reaps) :
    Sound initproc t := by
  have live : ∀ q, (t.procs q).live ↔ (s.procs q).live := by
    intro q
    obtain same | ⟨before, after⟩ := state q
    · simp [Entry.live, same]
    · simp [before, after]
  have unlike : ∀ q other, other = ProcState.zombie ∨ other = .unused ∨
      other = .embryo → ((t.procs q).state = other ↔ (s.procs q).state = other) := by
    intro q other kind
    obtain same | ⟨before, after⟩ := state q
    · rw [same]
    · unfold Entry.live at before after
      obtain rfl | rfl | rfl := kind <;>
        constructor <;> intro equal <;> simp [equal] at before after
  have zombie := fun q => unlike q .zombie (by simp)
  have bare : ∀ q, ¬(s.procs q).live → (s.procs q).bare → (t.procs q).bare := by
    intro q dead before
    obtain ⟨ofile, cwd⟩ := (files q).resolve_left dead
    unfold Entry.bare
    rw [ofile, cwd]
    exact before
  have builds : ∀ q np, (t.phase q).builds np → t.phase q = s.phase q :=
    fun q np place => (phase q).resolve_right fun never => never np place
  refine ⟨?_, ?_, ?_, ?_, ?_, ?_, ?_, ?_, ?_, ?_, ?_, exiting, ?_⟩
  · intro q other alive
    rw [live, zombie] at alive
    obtain ⟨holder, child, lives⟩ := sound.parent q other alive
    exact ⟨holder, by rw [parent, child], (live holder).mpr lives⟩
  · exact (live initproc).mpr sound.init
  · rw [parent, sound.orphan]
  · intro q
    rw [parent]
    exact sound.selfless q
  · intro q sleeping place
    obtain ⟨chan, none⟩ := attended q sleeping place
    refine ⟨chan, fun ⟨child, mine, dead⟩ => none ⟨child, ?_, ?_⟩⟩
    · rw [← parent, mine]
    · exact (zombie child).mp dead
  · intro q dead
    have before := (zombie q).mp dead
    exact bare q (Entry.not_live_of_zombie before) (sound.zombie q before)
  · intro q clean
    have before := (unlike q .unused (by simp)).mp clean
    obtain ⟨orphan, empty⟩ := sound.unused q before
    exact ⟨by rw [parent, orphan], bare q (Entry.not_live_of_unused before) empty⟩
  · intro q np place
    have same := builds q np (Or.inl place)
    rw [same] at place
    obtain ⟨orphan, empty⟩ := sound.forking q np place
    refine ⟨by rw [parent, orphan], bare np ?_ empty⟩
    exact Entry.not_live_of_embryo (sound.embryo q np (Or.inl place)).2
  · intro q np place
    have same := builds q np (Or.inr place)
    rw [same] at place
    rw [parent, sound.adopted q np place]
  · intro q np place
    have same := builds q np place
    rw [same] at place
    obtain ⟨lives, embryo⟩ := sound.embryo q np place
    exact ⟨(live q).mpr lives, (unlike np .embryo (by simp)).mpr embryo⟩
  · intro q other np first second
    rw [builds q np first] at first
    rw [builds other np second] at second
    exact sound.single q other np first second
  · intro q
    rw [exits, reaps, sound.counted q]
    simp only [zombie q]

/-- A step of fork on the slot it makes a process of. -/
theorem Sound.nurse
    (sound : Sound initproc s)
    (procs : t.procs = update s.procs np entry)
    (here : t.phase p = phase)
    (phases : ∀ q, q ≠ p → t.phase q = s.phase q ∨ q = np ∧ t.phase q = .body)
    (exits : t.exits = s.exits)
    (reaps : t.reaps = s.reaps)
    (lives : (s.procs p).live)
    (before : (s.procs np).state = .unused ∨ (s.procs np).state = .embryo)
    (dead : entry.state ≠ .zombie)
    (selfless : entry.parent ≠ some np)
    (born : entry.live → entry.parent = some p ∧ t.phase np = .body)
    (clean : entry.state = .unused → entry.parent = none ∧ entry.bare)
    (free : ∀ q, q ≠ p → ¬(s.phase q).builds np)
    (builds : ∀ slot, phase.builds slot → slot = np ∧ entry.state = .embryo)
    (forking : phase = .forking np → entry.parent = none ∧ entry.bare)
    (adopted : phase = .adopted np ∨ phase = .copied np → entry.parent = some p)
    (plain : phase ≠ .waiting ∧ ∀ fd, phase ≠ .exiting fd) :
    Sound initproc t := by
  have others : ∀ q, q ≠ np → t.procs q = s.procs q := by
    intro q different
    rw [procs, update_of_ne different]
  obtain rfl : t.procs np = entry := by rw [procs, update_self]
  subst here
  have unborn : ¬(s.procs np).live ∧ (s.procs np).state ≠ .zombie := by
    obtain state | state := before <;> simp [Entry.live, state]
  have keeps : ∀ q, (s.procs q).live → t.procs q = s.procs q := by
    intro q alive
    exact others q fun same => unborn.1 (same ▸ alive)
  have busy : ∀ q, q ≠ p → t.phase q ≠ .body → t.phase q = s.phase q :=
    fun q different busy =>
      (phases q different).resolve_right fun idle => busy idle.2
  have slots : ∀ q slot, q ≠ p → (t.phase q).builds slot →
      t.phase q = s.phase q ∧ t.procs slot = s.procs slot := by
    intro q slot different place
    have same := busy q different (by
      intro body
      simp [body] at place)
    refine ⟨same, others slot ?_⟩
    rintro rfl
    exact free q different (same ▸ place)
  refine ⟨?_, ?_, ?_, ?_, ?_, ?_, ?_, ?_, ?_, ?_, ?_, ?_, ?_⟩
  · intro q other alive
    by_cases same : q = np
    · subst same
      exact ⟨p, (born (alive.resolve_right dead)).1, by rwa [keeps p lives]⟩
    · rw [others q same] at alive ⊢
      obtain ⟨holder, child, holderLives⟩ := sound.parent q other alive
      exact ⟨holder, child, by rwa [keeps holder holderLives]⟩
  · rw [keeps initproc sound.init]
    exact sound.init
  · rw [keeps initproc sound.init]
    exact sound.orphan
  · intro q
    by_cases same : q = np
    · subst same
      exact selfless
    · rw [others q same]
      exact sound.selfless q
  · intro q sleeping place
    have different : q ≠ p := by
      rintro rfl
      exact plain.1 place
    have older : q ≠ np := by
      rintro rfl
      rw [(born (Or.inl sleeping)).2] at place
      cases place
    rw [busy q different (by simp [place])] at place
    rw [others q older] at sleeping ⊢
    obtain ⟨chan, none⟩ := sound.attended q sleeping place
    refine ⟨chan, fun ⟨child, mine, gone⟩ => none ⟨child, ?_⟩⟩
    rw [← others child (by rintro rfl; exact dead gone)]
    exact ⟨mine, gone⟩
  · intro q gone
    have older : q ≠ np := by
      rintro rfl
      exact dead gone
    rw [others q older] at gone ⊢
    exact sound.zombie q gone
  · intro q unused
    by_cases same : q = np
    · subst same
      exact clean unused
    · rw [others q same] at unused ⊢
      exact sound.unused q unused
  · intro q slot place
    by_cases same : q = p
    · subst same
      obtain ⟨rfl, _⟩ := builds slot (Or.inl place)
      exact forking place
    · obtain ⟨was, entry⟩ := slots q slot same (Or.inl place)
      rw [entry]
      exact sound.forking q slot (was ▸ place)
  · intro q slot place
    by_cases same : q = p
    · subst same
      obtain ⟨rfl, _⟩ := builds slot (Or.inr place)
      exact adopted place
    · obtain ⟨was, entry⟩ := slots q slot same (Or.inr place)
      rw [entry]
      exact sound.adopted q slot (was ▸ place)
  · intro q slot place
    by_cases same : q = p
    · subst same
      obtain ⟨rfl, embryo⟩ := builds slot place
      exact ⟨by rwa [keeps q lives], embryo⟩
    · obtain ⟨was, entry⟩ := slots q slot same place
      obtain ⟨alive, embryo⟩ := sound.embryo q slot (was ▸ place)
      exact ⟨by rwa [keeps q alive], by rwa [entry]⟩
  · intro q other slot first second
    by_cases one : q = p <;> by_cases two : other = p
    · rw [one, two]
    · subst one
      obtain ⟨rfl, _⟩ := builds slot first
      have was := (slots other slot two second).1
      exact absurd (was ▸ second) (free other two)
    · subst two
      obtain ⟨rfl, _⟩ := builds slot second
      have was := (slots q slot one first).1
      exact absurd (was ▸ first) (free q one)
    · have was := (slots q slot one first).1
      have also := (slots other slot two second).1
      exact sound.single q other slot (was ▸ first) (also ▸ second)
  · intro q fd place alive
    have different : q ≠ p := by
      rintro rfl
      exact plain.2 fd place
    have older : q ≠ np := by
      rintro rfl
      rw [(born alive).2] at place
      cases place
    rw [busy q different (by simp [place])] at place
    rw [others q older] at alive ⊢
    exact sound.exiting q fd place alive
  · intro q
    rw [exits, reaps, sound.counted q]
    by_cases same : q = np
    · subst same
      rw [if_neg unborn.2, if_neg dead]
    · rw [others q same]

/-- A slot that allocproc finds is unused. -/
theorem unused_of_firstUnused (found : s.firstUnused = some np) :
    (s.procs np).state = .unused := by
  simpa using List.find?_some found

section

variable (sound : Sound initproc s)

include sound

theorem Sound.fork
    (running : (s.procs p).state = .running)
    (found : s.firstUnused = some np) :
    Sound initproc ((s.allocproc np).goto p (.forking np)) := by
  have unused := unused_of_firstUnused found
  obtain ⟨orphan, bare⟩ := sound.unused np unused
  refine sound.nurse rfl (update_self _ _ _)
    (fun q different => .inl (update_of_ne different _ _)) rfl rfl (Entry.live_of_running running)
    (.inl unused) nofun ?_ ?_ nofun ?_ ?_ (fun _ => ⟨orphan, bare⟩) ?_ ⟨nofun, nofun⟩
  · simp [orphan]
  · simp [Entry.live]
  · intro q _ place
    have embryo := (sound.embryo q np place).2
    rw [unused] at embryo
    cases embryo
  · simp [eq_comm]
  · simp

/-- The slots other processes are making are not the one a process makes. -/
theorem Sound.others_build
    (place : (s.phase p).builds np)
    (q : Fin n)
    (different : q ≠ p) :
    ¬(s.phase q).builds np :=
  fun other => different (sound.single q p np other place)

theorem Sound.forkFails
    (running : (s.procs p).state = .running)
    (place : s.phase p = .forking np) :
    Sound initproc ((s.assign np { s.procs np with state := .unused }).goto p .body) := by
  obtain ⟨orphan, bare⟩ := sound.forking p np place
  refine sound.nurse rfl (update_self _ _ _)
    (fun q different => .inl (update_of_ne different _ _)) rfl rfl (Entry.live_of_running running)
    (.inr (sound.embryo p np (.inl place)).2) nofun ?_ ?_ (fun _ => ⟨orphan, bare⟩)
    (sound.others_build (.inl place)) ?_ nofun ?_ ⟨nofun, nofun⟩
  · simp [orphan]
  · simp [Entry.live]
  · simp
  · simp

theorem Sound.forkAdopts
    (running : (s.procs p).state = .running)
    (place : s.phase p = .forking np) :
    Sound initproc ((s.assign np { s.procs np with parent := some p }).goto p (.adopted np)) := by
  have embryo := (sound.embryo p np (Or.inl place)).2
  have different : p ≠ np := by
    rintro rfl
    rw [running] at embryo
    cases embryo
  refine sound.nurse rfl (update_self _ _ _)
    (fun q different => .inl (update_of_ne different _ _)) rfl rfl (Entry.live_of_running running)
    (.inr embryo) ?_ ?_ ?_ ?_ (sound.others_build (.inl place)) ?_ nofun (fun _ => rfl)
    ⟨nofun, nofun⟩
  · simp [embryo]
  · simp [different]
  · simp [Entry.live, embryo]
  · simp [embryo]
  · simp [embryo, eq_comm]

theorem Sound.forkCopies
    (running : (s.procs p).state = .running)
    (place : s.phase p = .adopted np) :
    Sound initproc ((s.assign np { s.procs np with
          ofile := (s.procs p).ofile, cwd := (s.procs p).cwd }).goto p
        (.copied np)) := by
  have embryo := (sound.embryo p np (Or.inr (Or.inl place))).2
  have child := sound.adopted p np (Or.inl place)
  refine sound.nurse rfl (update_self _ _ _)
    (fun q different => .inl (update_of_ne different _ _)) rfl rfl (Entry.live_of_running running)
    (.inr embryo) ?_ (sound.selfless np) ?_ ?_ (sound.others_build (.inr (.inl place))) ?_ nofun
    (fun _ => child) ⟨nofun, nofun⟩
  · simp [embryo]
  · simp [Entry.live, embryo]
  · simp [embryo]
  · simp [embryo, eq_comm]

/-- fork makes the new process runnable. -/
theorem Sound.forkEnds
    (running : (s.procs p).state = .running)
    (place : s.phase p = .copied np) :
    Sound initproc (((s.assign np { s.procs np with state := .runnable }).goto np
        .body).goto p .body) := by
  have embryo := (sound.embryo p np (Or.inr (Or.inr place))).2
  have child := sound.adopted p np (Or.inr place)
  have different : np ≠ p := by
    rintro rfl
    rw [running] at embryo
    cases embryo
  refine sound.nurse rfl (update_self _ _ _) ?_ rfl rfl (Entry.live_of_running running)
    (.inr embryo) nofun (sound.selfless np) (fun _ => ⟨child, ?_⟩) nofun
    (sound.others_build (.inr (.inr place))) ?_ nofun ?_ ⟨nofun, nofun⟩
  · intro q other
    by_cases same : q = np
    · simp [same, different]
    · simp [other, same]
  · exact (update_of_ne different _ _).trans (update_self _ _ _)
  · simp
  · simp

end

/-! ## wait -/

/-- A verdict of wait, and why. -/
theorem wait_spec
    (s : Table n)
    (p : Fin n) :
    match s.wait p with
    | .reaped child pid => (s.procs child).parent = some p ∧
        (s.procs child).state = .zombie ∧ pid = (s.procs child).pid
    | .failed => (∀ q, (s.procs q).parent ≠ some p) ∨ (s.procs p).killed = true
    | .sleeps => ¬s.hasZombie p := by
  unfold Table.wait
  cases found : (List.finRange n).find? fun q =>
      (s.procs q).parent = some p ∧ (s.procs q).state = .zombie with
  | some child =>
    have zombie := List.find?_some found
    simp only [decide_eq_true_eq] at zombie
    exact ⟨zombie.1, zombie.2, rfl⟩
  | none =>
    by_cases reason : (∀ q, (s.procs q).parent ≠ some p) ∨ (s.procs p).killed = true
    · simp only [if_pos reason]
      exact reason
    · simp only [if_neg reason]
      rintro ⟨q, mine, dead⟩
      have missed := List.find?_eq_none.mp found q (List.mem_finRange q)
      simp [mine, dead] at missed

/-- wait reaps a zombie. -/
theorem Sound.reap
    (sound : Sound initproc s)
    (dead : (s.procs child).state = .zombie) :
    Sound initproc
      { (s.assign child (s.procs child).reaped).goto p .body with
        reaps := update s.reaps child (s.reaps child + 1) } := by
  have others : ∀ q, q ≠ child →
      update s.procs child (s.procs child).reaped q = s.procs q :=
    fun q different => update_of_ne different _ _
  have keeps : ∀ q, (s.procs q).live →
      update s.procs child (s.procs child).reaped q = s.procs q := by
    intro q alive
    exact others q fun same => Entry.not_live_of_zombie dead (same ▸ alive)
  have phases : ∀ q, update s.phase p .body q ≠ .body →
      update s.phase p .body q = s.phase q := by
    intro q busy
    by_cases same : q = p
    · simp [same] at busy
    · exact update_of_ne same _ _
  have embryos : ∀ q slot, (update s.phase p .body q).builds slot → (s.phase q).builds slot ∧
        update s.procs child (s.procs child).reaped slot =
          s.procs slot := by
    intro q slot builds
    have same := phases q (by
      intro body
      simp [body] at builds)
    rw [same] at builds
    refine ⟨builds, others slot ?_⟩
    rintro rfl
    rw [(sound.embryo q slot builds).2] at dead
    cases dead
  refine ⟨?_, ?_, ?_, ?_, ?_, ?_, ?_, ?_, ?_, ?_, ?_, ?_, ?_⟩ <;>
    simp only [Table.goto, Table.assign, Table.hasZombie]
  · intro q other alive
    by_cases same : q = child
    · simp [same, Entry.reaped, Entry.live] at alive
    · rw [others q same] at alive ⊢
      obtain ⟨holder, mine, lives⟩ := sound.parent q other alive
      exact ⟨holder, mine, by rwa [keeps holder lives]⟩
  · rw [keeps initproc sound.init]
    exact sound.init
  · rw [keeps initproc sound.init]
    exact sound.orphan
  · intro q
    by_cases same : q = child
    · simp [same, Entry.reaped]
    · rw [others q same]
      exact sound.selfless q
  · intro q sleeping waiting
    have same := phases q (by simp [waiting])
    rw [same] at waiting
    by_cases reaped : q = child
    · simp [reaped, Entry.reaped] at sleeping
    · rw [others q reaped] at sleeping ⊢
      obtain ⟨chan, none⟩ := sound.attended q sleeping waiting
      refine ⟨chan, fun ⟨slot, mine, gone⟩ => ?_⟩
      by_cases buried : slot = child
      · simp [buried, Entry.reaped] at gone
      · rw [others slot buried] at mine gone
        exact none ⟨slot, mine, gone⟩
  · intro q gone
    by_cases same : q = child
    · simp [same, Entry.reaped] at gone
    · rw [others q same] at gone ⊢
      exact sound.zombie q gone
  · intro q clean
    by_cases same : q = child
    · subst same
      rw [update_self]
      exact ⟨rfl, sound.zombie q dead⟩
    · rw [others q same] at clean ⊢
      exact sound.unused q clean
  · intro q slot forking
    obtain ⟨_, entry⟩ := embryos q slot (Or.inl forking)
    rw [entry]
    exact sound.forking q slot (phases q (by simp [forking]) ▸ forking)
  · intro q slot adopted
    obtain ⟨_, entry⟩ := embryos q slot (Or.inr adopted)
    have same := phases q (by
      intro body
      simp [body] at adopted)
    rw [entry]
    exact sound.adopted q slot (same ▸ adopted)
  · intro q slot builds
    obtain ⟨before, entry⟩ := embryos q slot builds
    obtain ⟨alive, embryo⟩ := sound.embryo q slot before
    exact ⟨by rwa [keeps q alive], by rwa [entry]⟩
  · intro q other slot first second
    exact sound.single q other slot (embryos q slot first).1 (embryos other slot second).1
  · intro q fd exiting alive
    have same := phases q (by simp [exiting])
    rw [same] at exiting
    by_cases reaped : q = child
    · simp [reaped, Entry.reaped, Entry.live] at alive
    · rw [others q reaped] at alive ⊢
      exact sound.exiting q fd exiting alive
  · intro q
    have before := sound.counted q
    by_cases same : q = child
    · subst same
      rw [if_pos dead] at before
      simp [Entry.reaped, before]
    · simpa [same] using before

/-! ## Wakeups and exit -/

/-- A wakeup only makes sleepers runnable. -/
theorem Entry.wakeup1_spec
    (entry : Entry n)
    (chan : Chan n) :
    (entry.wakeup1 chan).parent = entry.parent ∧ ((entry.wakeup1 chan).state = entry.state ∨
        entry.live ∧ (entry.wakeup1 chan).live) ∧
      (entry.wakeup1 chan).ofile = entry.ofile ∧ (entry.wakeup1 chan).cwd = entry.cwd ∧
      ((entry.wakeup1 chan).state = .sleeping → entry.state = .sleeping ∧
        (entry.wakeup1 chan).chan = entry.chan ∧
        entry.chan ≠ some chan) := by
  unfold Entry.wakeup1
  split
  · rename_i woken
    simp [Entry.live, woken.1]
  · rename_i unwoken
    exact ⟨rfl, Or.inl rfl, rfl, rfl, fun sleeping =>
      ⟨sleeping, rfl, fun on => unwoken ⟨sleeping, on⟩⟩⟩

theorem Sound.wakeup1
    (sound : Sound initproc s)
    (chan : Chan n) :
    Sound initproc (s.wakeup1 chan) := by
  have spec := fun q => (s.procs q).wakeup1_spec chan
  refine sound.steady (fun q => (spec q).1) (fun q => (spec q).2.1)
    (fun q => Or.inr ⟨(spec q).2.2.1, (spec q).2.2.2.1⟩) (fun _ => Or.inl rfl)
    ?_ ?_ rfl rfl
  · intro q sleeping waiting
    obtain ⟨before, same, _⟩ := (spec q).2.2.2.2 sleeping
    obtain ⟨on, none⟩ := sound.attended q before waiting
    exact ⟨same.trans on, none⟩
  intro q fd exiting alive
  have before : (s.procs q).live := by
    obtain same | ⟨before, _⟩ := (spec q).2.1
    · change ((s.procs q).wakeup1 chan).live at alive
      unfold Entry.live at alive ⊢
      rwa [same] at alive
    · exact before
  obtain ⟨other, closed, put⟩ := sound.exiting q fd exiting before
  refine ⟨other, ?_, ?_⟩
  · intro file below
    exact (congrFun (spec q).2.2.1 file).trans (closed file below)
  · intro above
    exact (spec q).2.2.2.1.trans (put above)

/-- After a wakeup on a slot, its process does not sleep in wait. -/
theorem Sound.not_waiting_of_wakeup1
    (sound : Sound initproc s)
    (q : Fin n)
    (waiting : s.phase q = .waiting) :
    ((s.wakeup1 (.proc q)).procs q).state ≠ .sleeping := by
  intro sleeping
  obtain ⟨before, _, different⟩ :=
    ((s.procs q).wakeup1_spec (.proc q)).2.2.2.2 sleeping
  exact different (sound.attended q before waiting).1

/-- Passing children on only concerns their parent. -/
theorem Entry.passOn_spec
    (entry : Entry n)
    (initproc p : Fin n) :
    (entry.passOn initproc p).state = entry.state ∧ (entry.passOn initproc p).chan = entry.chan ∧
      (entry.passOn initproc p).ofile = entry.ofile ∧ (entry.passOn initproc p).cwd = entry.cwd ∧
      (entry.passOn initproc p).parent =
        if entry.parent = some p then some initproc else entry.parent := by
  unfold Entry.passOn
  split <;> simp

/-- The last part of exit, once everybody concerned has been woken. -/
theorem Sound.bury
    (sound : Sound initproc s)
    (running : (s.procs p).state = .running)
    (place : s.phase p = .exiting (NOFILE + 1))
    (parent : ∀ q, (s.procs p).parent = some q → s.phase q = .waiting →
      (s.procs q).state ≠ .sleeping)
    (heir : s.hasZombie p → s.phase initproc = .waiting → (s.procs initproc).state ≠ .sleeping)
    (procs : ∀ q, t.procs q = if q = p then { (s.procs p).passOn initproc p with state := .zombie }
      else (s.procs q).passOn initproc p)
    (phase : t.phase = s.phase)
    (exits : t.exits = update s.exits p (s.exits p + 1))
    (reaps : t.reaps = s.reaps) :
    Sound initproc t := by
  have lives := Entry.live_of_running running
  obtain ⟨other, closed, put⟩ := sound.exiting p _ place lives
  have spec := fun q => (s.procs q).passOn_spec initproc p
  have self : (t.procs p).state = .zombie := by simp [procs]
  have state : ∀ q, q ≠ p → (t.procs q).state = (s.procs q).state := by
    intro q different
    rw [procs, if_neg different]
    exact (spec q).1
  have live : ∀ q, (t.procs q).live ↔ (s.procs q).live ∧ q ≠ p := by
    intro q
    by_cases same : q = p
    · simp [same, Entry.live, self]
    · simp [same, Entry.live, state q same]
  have files : ∀ q, (t.procs q).chan = (s.procs q).chan ∧ (t.procs q).ofile = (s.procs q).ofile ∧
      (t.procs q).cwd = (s.procs q).cwd ∧
      (t.procs q).parent = if (s.procs q).parent = some p then some initproc
        else (s.procs q).parent := by
    intro q
    rw [procs]
    split
    · rename_i same
      subst same
      exact (spec q).2
    · exact (spec q).2
  have bare : ∀ q, (s.procs q).bare → (t.procs q).bare := by
    intro q before
    unfold Entry.bare
    rw [(files q).2.1, (files q).2.2.1]
    exact before
  have embryos : ∀ q slot, (t.phase q).builds slot →
      (s.phase q).builds slot ∧ slot ≠ p ∧ q ≠ p := by
    intro q slot builds
    rw [phase] at builds
    refine ⟨builds, ?_, ?_⟩
    · rintro rfl
      exact Entry.not_live_of_embryo (sound.embryo q slot builds).2 lives
    · rintro rfl
      simp [place] at builds
  refine ⟨?_, ?_, ?_, ?_, ?_, ?_, ?_, ?_, ?_, ?_, ?_, ?_, ?_⟩
  · intro q notInit alive
    have before : (s.procs q).live ∨ (s.procs q).state = .zombie := by
      by_cases same : q = p
      · exact Or.inl (same ▸ lives)
      · rwa [live, state q same, and_iff_left same] at alive
    obtain ⟨holder, child, holderLives⟩ := sound.parent q notInit before
    rw [(files q).2.2.2]
    split
    · exact ⟨initproc, rfl, (live initproc).mpr ⟨sound.init, Ne.symm other⟩⟩
    · rename_i notMine
      refine ⟨holder, child, (live holder).mpr ⟨holderLives, ?_⟩⟩
      rintro rfl
      exact notMine child
  · exact (live initproc).mpr ⟨sound.init, Ne.symm other⟩
  · rw [(files initproc).2.2.2, sound.orphan]
    simp
  · intro q
    rw [(files q).2.2.2]
    split
    · rename_i mine
      intro same
      simp only [Option.some.injEq] at same
      rw [← same, sound.orphan] at mine
      cases mine
    · exact sound.selfless q
  · intro q sleeping waiting
    have different : q ≠ p := by
      rintro rfl
      rw [self] at sleeping
      cases sleeping
    rw [phase] at waiting
    rw [state q different] at sleeping
    obtain ⟨chan, none⟩ := sound.attended q sleeping waiting
    refine ⟨(files q).1.trans chan, fun ⟨child, mine, gone⟩ => ?_⟩
    rw [(files child).2.2.2] at mine
    by_cases dying : child = p
    · -- the new zombie itself: its parent has been woken
      subst dying
      rw [if_neg (sound.selfless child)] at mine
      exact parent q mine waiting sleeping
    rw [state child dying] at gone
    by_cases abandoned : (s.procs child).parent = some p
    · -- a zombie that is passed on: init has been woken
      rw [if_pos abandoned] at mine
      obtain rfl : initproc = q := by simpa using mine
      exact heir ⟨child, abandoned, gone⟩ waiting sleeping
    · rw [if_neg abandoned] at mine
      exact none ⟨child, mine, gone⟩
  · intro q gone
    by_cases same : q = p
    · subst same
      exact bare q ⟨fun fd => closed fd (by omega), put (by omega)⟩
    · rw [state q same] at gone
      exact bare q (sound.zombie q gone)
  · intro q clean
    have different : q ≠ p := by
      rintro rfl
      rw [self] at clean
      cases clean
    rw [state q different] at clean
    obtain ⟨none, empty⟩ := sound.unused q clean
    refine ⟨?_, bare q empty⟩
    rw [(files q).2.2.2, none]
    simp
  · intro q slot forking
    rw [phase] at forking
    obtain ⟨none, empty⟩ := sound.forking q slot forking
    refine ⟨?_, bare slot empty⟩
    rw [(files slot).2.2.2, none]
    simp
  · intro q slot adopted
    obtain ⟨_, _, maker⟩ := embryos q slot (Or.inr adopted)
    rw [phase] at adopted
    rw [(files slot).2.2.2, sound.adopted q slot adopted]
    simp [maker]
  · intro q slot builds
    obtain ⟨before, different, maker⟩ := embryos q slot builds
    obtain ⟨alive, embryo⟩ := sound.embryo q slot before
    exact ⟨(live q).mpr ⟨alive, maker⟩, (state slot different).trans embryo⟩
  · intro q second slot one two
    exact sound.single q second slot (embryos q slot one).1 (embryos second slot two).1
  · intro q fd exiting alive
    rw [phase] at exiting
    obtain ⟨notInit, shut, done⟩ :=
      sound.exiting q fd exiting ((live q).mp alive).1
    rw [(files q).2.1, (files q).2.2.1]
    exact ⟨notInit, shut, done⟩
  · intro q
    have before := sound.counted q
    rw [exits, reaps]
    by_cases same : q = p
    · subst same
      simp only [running, reduceCtorEq, if_false] at before
      simp [self, before]
    · rw [update_of_ne same, state q same]
      exact before

variable {entry : Entry n}

theorem Entry.wakeup1_of_awake
    (awake : entry.state ≠ .sleeping)
    (chan : Chan n) :
    entry.wakeup1 chan = entry := by
  simp [Entry.wakeup1, awake]

/-- exit has woken its parent. -/
theorem Sound.wakeParent
    (sound : Sound initproc s)
    (awake : (s.procs p).state ≠ .sleeping) :
    Sound initproc (s.wakeParent p) ∧ (s.wakeParent p).phase = s.phase ∧
      (s.wakeParent p).exits = s.exits ∧ (s.wakeParent p).procs p = s.procs p ∧
      ∀ q, (s.procs p).parent = some q → s.phase q = .waiting →
        ((s.wakeParent p).procs q).state ≠ .sleeping := by
  unfold Table.wakeParent
  cases parent : (s.procs p).parent with
  | none => exact ⟨sound, rfl, rfl, rfl, fun q child => by cases child⟩
  | some holder =>
    refine ⟨sound.wakeup1 _, rfl, rfl, Entry.wakeup1_of_awake awake _, ?_⟩
    intro q child waiting
    obtain rfl : holder = q := by simpa using child
    exact sound.not_waiting_of_wakeup1 holder waiting

/-- exit has woken init, if a zombie is passed on to it. -/
theorem Sound.wakeInit
    (sound : Sound initproc s)
    (awake : (s.procs p).state ≠ .sleeping) :
    Sound initproc (s.wakeInit initproc p) ∧ (s.wakeInit initproc p).phase = s.phase ∧
      (s.wakeInit initproc p).exits = s.exits ∧ (s.wakeInit initproc p).procs p = s.procs p ∧
      (∀ q, (s.procs q).state ≠ .sleeping → ((s.wakeInit initproc p).procs q).state ≠ .sleeping) ∧
      ((s.wakeInit initproc p).hasZombie p → s.phase initproc = .waiting →
        ((s.wakeInit initproc p).procs initproc).state ≠ .sleeping) := by
  unfold Table.wakeInit
  split
  · refine ⟨sound.wakeup1 _, rfl, rfl, Entry.wakeup1_of_awake awake _, ?_, ?_⟩
    · intro q up
      change ((s.procs q).wakeup1 _).state ≠ .sleeping
      rwa [Entry.wakeup1_of_awake up]
    · exact fun _ waiting => sound.not_waiting_of_wakeup1 initproc waiting
  · rename_i none
    exact ⟨sound, rfl, rfl, rfl, fun _ up => up, fun some => absurd some none⟩

theorem Sound.exit
    (sound : Sound initproc s)
    (running : (s.procs p).state = .running)
    (place : s.phase p = .exiting (NOFILE + 1)) :
    Sound initproc (s.exit initproc p) := by
  obtain ⟨first, phases, exits, entry, parent⟩ :=
    sound.wakeParent (p := p) (by simp [running])
  obtain ⟨second, morePhases, moreExits, sameEntry, up, heir⟩ :=
    first.wakeInit (p := p) (by simp [entry, running])
  refine second.bury (p := p) ?_ ?_ ?_ ?_ ?_ rfl ?_ rfl
  · rw [sameEntry, entry, running]
  · rw [morePhases, phases, place]
  · intro q child waiting
    rw [sameEntry, entry] at child
    rw [morePhases, phases] at waiting
    exact up q (parent q child waiting)
  · intro zombie waiting
    rw [morePhases] at waiting
    exact heir zombie waiting
  · intro q
    by_cases same : q = p
    · subst same
      simp [Table.exit, Table.abandon]
    · simp [Table.exit, Table.abandon, same]
  · rw [moreExits, exits]
    rfl

/-! ## Other steps -/

/-- A process changes its own entry or its place, and neither makes a process
nor exits. -/
theorem Sound.steady_at
    (sound : Sound initproc s)
    (parent : entry.parent = (s.procs p).parent)
    (state : entry.state = (s.procs p).state ∨ (s.procs p).live ∧ entry.live)
    (files : (s.procs p).live ∨ entry.ofile = (s.procs p).ofile ∧ entry.cwd = (s.procs p).cwd)
    (moves : phase = s.phase p ∨ ∀ np, ¬phase.builds np)
    (attended : entry.state = .sleeping → phase = .waiting →
      entry.chan = some (.proc p) ∧ ¬s.hasZombie p)
    (exiting : ∀ fd, phase = .exiting fd → entry.live → p ≠ initproc ∧
      (∀ file : Fin NOFILE, file < fd → entry.ofile file = false) ∧
      (NOFILE < fd → entry.cwd = false)) :
    Sound initproc ((s.assign p entry).goto p phase) := by
  refine sound.steady ?_ ?_ ?_ ?_ ?_ ?_ rfl rfl <;> intro q <;> by_cases same : q = p
  · subst same
    simpa using parent
  · simp [same]
  · subst same
    simpa using state
  · simp [same]
  · subst same
    simpa using files
  · simp [same]
  · subst same
    simpa using moves
  · simp [same]
  · subst same
    simpa using attended
  · simpa [same] using sound.attended q
  · subst same
    simpa using exiting
  · simpa [same] using sound.exiting q

theorem goto_self
    (s : Table n)
    (p : Fin n)
    (entry : Entry n) :
    (s.assign p entry).goto p (s.phase p) = s.assign p entry := by
  simp

theorem assign_self
    (s : Table n)
    (p : Fin n)
    (phase : Phase n) :
    (s.assign p (s.procs p)).goto p phase = s.goto p phase := by
  simp

variable (sound : Sound initproc s)

include sound

/-- A live process changes its state without exiting. -/
theorem Sound.restate
    (parent : entry.parent = (s.procs p).parent)
    (state : entry.state = (s.procs p).state ∨ (s.procs p).live ∧ entry.live)
    (files : entry.ofile = (s.procs p).ofile ∧ entry.cwd = (s.procs p).cwd)
    (attended : entry.state = .sleeping → s.phase p = .waiting →
      entry.chan = some (.proc p) ∧ ¬s.hasZombie p) :
    Sound initproc (s.assign p entry) := by
  rw [← goto_self]
  refine sound.steady_at parent state (Or.inr files) (Or.inl rfl) attended ?_
  intro fd place alive
  have before : (s.procs p).live := by
    obtain same | ⟨before, _⟩ := state
    · unfold Entry.live at alive ⊢
      rwa [same] at alive
    · exact before
  rw [files.1, files.2]
  exact sound.exiting p fd place before

/-- A running process moves on. -/
theorem Sound.move
    (running : (s.procs p).state = .running)
    (plain : ∀ np, ¬phase.builds np)
    (exiting : ∀ fd, phase = .exiting fd → p ≠ initproc ∧ fd = 0) :
    Sound initproc (s.goto p phase) := by
  rw [← assign_self]
  refine sound.steady_at rfl (Or.inl rfl) (Or.inr ⟨rfl, rfl⟩) (Or.inr plain) ?_ ?_
  · simp [running]
  · intro fd place _
    obtain ⟨other, rfl⟩ := exiting fd place
    exact ⟨other, by simp, by simp⟩

theorem Sound.waits (running : (s.procs p).state = .running) :
    Sound initproc (s.waited p) := by
  have spec := wait_spec s p
  unfold Table.waited
  cases verdict : s.wait p with
  | reaped child pid =>
    rw [verdict] at spec
    exact sound.reap spec.2.1
  | failed => exact sound.move running (by simp) (by simp)
  | sleeps =>
    rw [verdict] at spec
    refine sound.restate rfl ?_ ⟨rfl, rfl⟩ fun _ _ => ⟨rfl, spec⟩
    exact Or.inr ⟨Entry.live_of_running running, Or.inl rfl⟩

/-- Every step keeps the invariant. -/
theorem Sound.step (step : Step initproc s t) :
    Sound initproc t := by
  cases step with
  | schedule p ready =>
    refine sound.restate rfl (Or.inr ⟨?_, ?_⟩) ⟨rfl, rfl⟩ (by simp)
    · exact Or.inr (Or.inl ready)
    · exact Entry.live_of_running rfl
  | yield p running =>
    refine sound.restate rfl (Or.inr ⟨?_, ?_⟩) ⟨rfl, rfl⟩ (by simp)
    · exact Entry.live_of_running running
    · exact Or.inr (Or.inl rfl)
  | sleep p chan running elsewhere =>
    refine sound.restate rfl (Or.inr ⟨?_, Or.inl rfl⟩) ⟨rfl, rfl⟩ ?_
    · exact Entry.live_of_running running
    · exact fun _ waiting => absurd waiting elsewhere
  | wakeup chan => exact sound.wakeup1 chan
  | kill pid p found =>
    refine sound.restate rfl ?_ ⟨rfl, rfl⟩ ?_
    · by_cases sleeping : (s.procs p).state = .sleeping <;> simp [Entry.kill, Entry.live, sleeping]
    · by_cases sleeping : (s.procs p).state = .sleeping <;> simp [Entry.kill, sleeping]
  | files p ofile running place =>
    rw [← goto_self]
    refine sound.steady_at rfl (Or.inl rfl)
      (Or.inl (Entry.live_of_running running)) (Or.inl rfl) ?_ ?_
    · simp [running]
    · simp [place]
  | fork p np running place found => exact sound.fork running found
  | forkFails p np running place => exact sound.forkFails running place
  | forkAdopts p np running place => exact sound.forkAdopts running place
  | forkCopies p np running place => exact sound.forkCopies running place
  | forkEnds p np running place => exact sound.forkEnds running place
  | exit p running place other =>
    exact sound.move running (by simp) (by simpa using other)
  | exitCloses p fd running place =>
    have lives := Entry.live_of_running running
    obtain ⟨other, closed, _⟩ := sound.exiting p fd place lives
    refine sound.steady_at rfl (Or.inl rfl) (Or.inl lives)
      (Or.inr (by simp)) (by simp) ?_
    intro next moved _
    obtain rfl : fd.val + 1 = next := by simpa using moved
    refine ⟨other, ?_, fun above => absurd above (by omega)⟩
    intro file below
    by_cases same : file = fd
    · simp [same]
    · have smaller : file.val ≠ fd.val := fun equal => same (Fin.ext equal)
      simpa [same] using closed file (by omega)
  | exitPuts p running place =>
    have lives := Entry.live_of_running running
    obtain ⟨other, closed, _⟩ := sound.exiting p NOFILE place lives
    refine sound.steady_at rfl (Or.inl rfl) (Or.inl lives)
      (Or.inr (by simp)) (by simp) ?_
    intro next _ _
    exact ⟨other, fun file _ => closed file file.isLt, fun _ => rfl⟩
  | exitEnds p running place => exact sound.exit running place
  | wait p running place =>
    exact sound.move running (by simp) (by simp)
  | waits p running place => exact sound.waits running

end Steps

theorem Sound.reachable {s : Table n}
    (reached : Reachable initproc s) :
    Sound initproc s := by
  induction reached with
  | userinit => exact Sound.userinit _
  | step _ step ih => exact ih.step step

/-- The life cycle of processes.  Every process but init has a live parent,
nobody sleeps in wait while it has a zombie child, and a slot exits at most
once more than it is reaped.  A pass of wait that reaps a child returns the pid
of a zombie whose parent is the caller, and leaves its slot clean; a pass that
fails has found no children or the caller killed. -/
theorem life_cycle {initproc : Fin n}
    {s : Table n}
    (reached : Reachable initproc s) :
    (∀ p, p ≠ initproc → (s.procs p).live ∨ (s.procs p).state = .zombie →
      ∃ q, (s.procs p).parent = some q ∧ (s.procs q).live) ∧
    (∀ p, (s.procs p).state = .sleeping → s.phase p = .waiting → ¬s.hasZombie p) ∧ (∀ p, s.exits p =
      s.reaps p + if (s.procs p).state = .zombie then 1 else 0) ∧
    ∀ p, s.phase p = .waiting → match s.wait p with
      | .reaped child pid =>
        (s.procs child).parent = some p ∧
        (s.procs child).state = .zombie ∧ pid = (s.procs child).pid ∧
        ((s.waited p).procs child).state = .unused ∧ ((s.waited p).procs child).pid = 0 ∧
        ((s.waited p).procs child).parent = none ∧ ((s.waited p).procs child).killed = false ∧
        ((s.waited p).procs child).bare
      | .failed => (∀ q, (s.procs q).parent ≠ some p) ∨ (s.procs p).killed = true
      | .sleeps => True := by
  have sound := Sound.reachable reached
  refine ⟨sound.parent, fun p sleeping place =>
    (sound.attended p sleeping place).2, sound.counted, ?_⟩
  intro p _
  have spec := wait_spec s p
  cases verdict : s.wait p with
  | reaped child pid =>
    rw [verdict] at spec
    obtain ⟨mine, gone, same⟩ := spec
    have entry : (s.waited p).procs child = (s.procs child).reaped := by
      simp [Table.waited, verdict]
    refine ⟨mine, gone, same, ?_⟩
    rw [entry]
    exact ⟨rfl, rfl, rfl, rfl, sound.zombie child gone⟩
  | failed =>
    rw [verdict] at spec
    exact spec
  | sleeps => trivial

/-- init has forked a child. -/
theorem forked_reachable :
    ∃ s : Table 2, Reachable 0 s ∧ (s.procs 1).state = .runnable ∧ (s.procs 1).pid = 2 := by
  have scheduled := (Reachable.userinit (0 : Fin 2)).step (.schedule 0 rfl)
  have forking := scheduled.step (.fork 0 1 rfl rfl rfl)
  have copied := (forking.step (.forkAdopts 0 1 rfl rfl)).step (.forkCopies 0 1 rfl rfl)
  exact ⟨_, copied.step (.forkEnds 0 1 rfl rfl), rfl, rfl⟩

theorem life_cycle_forked :
    ∃ s : Table 2, (s.procs 1).state = .runnable ∧
      ∃ q, (s.procs 1).parent = some q ∧ (s.procs q).live := by
  obtain ⟨s, reached, runnable, _⟩ := forked_reachable
  exact ⟨s, runnable, (life_cycle reached).1 1 (by decide) (Or.inl (Or.inr (Or.inl runnable)))⟩

end Life
end Proc
end Xv6
