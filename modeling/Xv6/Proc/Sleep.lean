import Mathlib.Logic.Relation
import Mathlib.Tactic.Common

/-!
# sleep and wakeup

sleep, wakeup, kill, yield and the scheduler of proc.c, with every acquire and
release of a spinlock as a step of its own.  Processes run on any number of
CPUs; swtch hands `ptable.lock` over between a process and the scheduler of its
CPU.

The conditions that processes wait for are counted: every change of a condition
starts a new version of it.  A process that calls sleep remembers the version it
found false, and a wakeup announces the version that its caller has made.  The
code reads none of these numbers.
-/

namespace Xv6
namespace Proc

open Function (update update_apply update_of_ne update_self)

/-- enum procstate. -/
inductive ProcState where
  | unused
  | embryo
  | sleeping
  | runnable
  | running
  | zombie
  deriving DecidableEq

namespace Sleep

/-- A channel. -/
abbrev Chan := Nat

/-- A spinlock. -/
inductive LockId where
  | ptable
  | other (lk : Nat)
  deriving DecidableEq

/-- Who can hold a spinlock. -/
inductive Agent where
  | proc (p : Nat)
  | cpu (c : Nat)
  deriving DecidableEq

/-- The fields of struct proc that sleep and wakeup use. -/
structure Entry where
  state : ProcState
  chan : Option Chan
  killed : Bool
  deriving DecidableEq

/-- A place in the code where a timer interrupt can hit a process, as far as
the process holds no spinlock. -/
inductive Point where
  /-- The kernel code that calls the functions below. -/
  | body
  | relock (lk : Nat)
  | wakeup (chan : Chan)
  | kill (pid : Nat)
  deriving DecidableEq

/-- Where a process is in its code. -/
inductive Control where
  | at (point : Point)
  | enter (chan : Chan) (lk version : Nat)
  | drop (chan : Chan) (lk version : Nat)
  /-- In sleep, before the assignments to proc->chan and proc->state. -/
  | mark (chan : Chan) (lk : LockId) (version : Nat)
  | asleep (chan : Chan) (lk : LockId) (version : Nat)
  | tidy (lk : LockId)
  | leave (lk : Nat)
  | woke (lk : LockId)
  | scan (chan : Chan)
  | killScan (pid : Nat)
  | yield (resume : Point)
  | yieldMark (resume : Point)
  /-- In yield or before forkret, switched out. -/
  | away (resume : Point)
  /-- Before the release(&ptable.lock) at the end of wakeup, kill, yield or
  forkret. -/
  | unlock (resume : Point)
  deriving DecidableEq

/-- What a CPU's scheduler is doing. -/
inductive Cpu where
  | idle
  | scanning
  | running (p : Nat)
  deriving DecidableEq

/-- The machine. -/
structure State where
  locks : LockId → Option Agent
  procs : Nat → Entry
  control : Nat → Control
  cpus : Nat → Cpu
  /-- The version of the condition that a lock protects and a channel stands
  for. -/
  version : LockId → Chan → Nat
  /-- The condition a process has found false, and its version. -/
  seen : Nat → Option (LockId × Chan × Nat)
  /-- The last version of a condition that a process has made. -/
  changed : Nat → LockId → Chan → Nat
  /-- The last version of a condition that a wakeup was called for. -/
  announced : LockId → Chan → Nat

/-! ## Instructions -/

/-- The lock that the next instruction acquires, and where it leads. -/
def Control.acquires : Control → Option (LockId × Control)
  | .enter chan lk version => some (.ptable, .drop chan lk version)
  | .at (.relock lk) => some (.other lk, .woke (.other lk))
  | .at (.wakeup chan) => some (.ptable, .scan chan)
  | .at (.kill pid) => some (.ptable, .killScan pid)
  | .yield resume => some (.ptable, .yieldMark resume)
  | _ => none

/-- The lock that the next instruction releases, and where it leads. -/
def Control.releases : Control → Option (LockId × Control)
  | .drop chan lk version => some (.other lk, .mark chan (.other lk) version)
  | .leave lk => some (.ptable, .at (.relock lk))
  | .unlock resume => some (.ptable, .at resume)
  | _ => none

/-- Where a process goes on that the scheduler switches to. -/
def Control.resumes : Control → Option Control
  | .asleep _ lk _ => some (.tidy lk)
  | .away resume => some (.unlock resume)
  | _ => none

/-- The first instruction of sleep(chan, lk). -/
def sleepEntry (chan : Chan) (version : Nat) : LockId → Control
  | .ptable => .mark chan .ptable version
  | .other lk => .enter chan lk version

/-- What follows proc->chan = 0 in sleep. -/
def tidied : LockId → Control
  | .ptable => .woke .ptable
  | .other lk => .leave lk

/-- wakeup1 on one entry of the table. -/
def Entry.wakeup1 (entry : Entry) (chan : Chan) : Entry :=
  if entry.state = .sleeping ∧ entry.chan = some chan then
    { entry with state := .runnable }
  else entry

/-- kill on the entry it has found. -/
def Entry.kill (entry : Entry) : Entry :=
  { entry with
    killed := true
    state := if entry.state = .sleeping then .runnable else entry.state }

namespace State

/-- A process moves on. -/
def goto (s : State) (p : Nat) (control : Control) : State :=
  { s with control := update s.control p control }

/-- A lock changes hands. -/
def hand (s : State) (lock : LockId) (holder : Option Agent) : State :=
  { s with locks := update s.locks lock holder }

/-- An entry of the table changes. -/
def assign (s : State) (p : Nat) (entry : Entry) : State :=
  { s with procs := update s.procs p entry }

/-- A CPU moves on. -/
def schedule (s : State) (c : Nat) (cpu : Cpu) : State :=
  { s with cpus := update s.cpus c cpu }

/-- What a process has found lapses. -/
def forget (s : State) (p : Nat) : State :=
  { s with seen := update s.seen p none }

/-- What a process has found about conditions of a lock lapses with the
lock. -/
def lapse (s : State) (p : Nat) (lock : LockId) : State :=
  if (s.seen p).any (·.1 = lock) then s.forget p else s

/-- wakeup1 called by a process. -/
def wakeup1 (s : State) (p : Nat) (chan : Chan) : State :=
  { s with
    procs := fun q => (s.procs q).wakeup1 chan
    announced := fun lock on =>
      if on = chan then max (s.announced lock on) (s.changed p lock on)
      else s.announced lock on }

/-- A process changes a condition: its own finding lapses. -/
def change (s : State) (p : Nat) (lock : LockId) (chan : Chan) : State :=
  { s.forget p with
    version := update s.version lock (update (s.version lock) chan (s.version lock chan + 1))
    changed := update s.changed p (update (s.changed p) lock
        (update (s.changed p lock) chan (s.version lock chan + 1))) }

/-- sched: the CPU of a process continues with its scheduler, which then holds
ptable.lock. -/
def sched (s : State) (p c : Nat) : State :=
  ((s.lapse p .ptable).hand .ptable (some (.cpu c))).schedule c .scanning

end State

/-! ## Steps -/

/-- One step of a process or a CPU.  A process in its body may do anything
that locks and sleep allow: sched panics in a process that holds another lock,
and acquire in one that holds the lock already. -/
inductive Step : State → State → Prop where
  | lock {s : State} (p : Nat) (lock : LockId)
      (place : s.control p = .at .body)
      (free : s.locks lock = none) :
      Step s (s.hand lock (some (.proc p)))
  | unlock {s : State} (p : Nat) (lock : LockId)
      (place : s.control p = .at .body)
      (held : s.locks lock = some (.proc p)) :
      Step s ((s.lapse p lock).hand lock none)
  /-- A condition is found false, with its lock held. -/
  | test {s : State} (p : Nat) (lock : LockId) (chan : Chan)
      (place : s.control p = .at .body)
      (held : s.locks lock = some (.proc p)) :
      Step s
        { s with
          seen := update s.seen p (some (lock, chan, s.version lock chan)) }
  /-- A condition is changed, with its lock held. -/
  | change {s : State} (p : Nat) (lock : LockId) (chan : Chan)
      (place : s.control p = .at .body)
      (held : s.locks lock = some (.proc p)) :
      Step s (s.change p lock chan)
  /-- sleep(chan, lock) is called after the condition was found false. -/
  | sleep {s : State} (p : Nat) (lock : LockId) (chan : Chan) (version : Nat)
      (place : s.control p = .at .body)
      (found : s.seen p = some (lock, chan, version)) :
      Step s ((s.forget p).goto p (sleepEntry chan version lock))
  | wakeup {s : State} (p : Nat) (chan : Chan)
      (place : s.control p = .at .body) :
      Step s (s.goto p (.at (.wakeup chan)))
  /-- wakeup1(chan) is called with ptable.lock held, as exit does. -/
  | wakeup1 {s : State} (p : Nat) (chan : Chan)
      (place : s.control p = .at .body)
      (held : s.locks .ptable = some (.proc p)) :
      Step s (s.wakeup1 p chan)
  | kill {s : State} (p pid : Nat)
      (place : s.control p = .at .body) :
      Step s (s.goto p (.at (.kill pid)))
  /-- yield is called, or the timer interrupts a process without a lock. -/
  | yield {s : State} (p : Nat) (point : Point)
      (place : s.control p = .at point)
      (unlocked : ∀ lock, s.locks lock ≠ some (.proc p)) :
      Step s (s.goto p (.yield point))
  | acquire {s : State} (p : Nat) (lock : LockId) (control : Control)
      (instruction : (s.control p).acquires = some (lock, control))
      (free : s.locks lock = none) :
      Step s ((s.hand lock (some (.proc p))).goto p control)
  | release {s : State} (p : Nat) (lock : LockId) (control : Control)
      (instruction : (s.control p).releases = some (lock, control)) :
      Step s (((s.lapse p lock).hand lock none).goto p control)
  /-- sleep sets proc->chan and proc->state and calls sched. -/
  | mark {s : State} (p c : Nat) (chan : Chan) (lock : LockId) (version : Nat)
      (place : s.control p = .mark chan lock version)
      (alone : ∀ lock, lock ≠ .ptable → s.locks lock ≠ some (.proc p))
      (on : s.cpus c = .running p) :
      Step s (((s.assign p { s.procs p with chan := some chan, state := .sleeping }).sched p
            c).goto p (.asleep chan lock version))
  | tidy {s : State} (p : Nat) (lock : LockId)
      (place : s.control p = .tidy lock) :
      Step s ((s.assign p { s.procs p with chan := none }).goto p (tidied lock))
  | woke {s : State} (p : Nat) (lock : LockId)
      (place : s.control p = .woke lock) :
      Step s (s.goto p (.at .body))
  | scan {s : State} (p : Nat) (chan : Chan)
      (place : s.control p = .scan chan) :
      Step s ((s.wakeup1 p chan).goto p (.unlock .body))
  | killFound {s : State} (p pid : Nat)
      (place : s.control p = .killScan pid) :
      Step s ((s.assign pid (s.procs pid).kill).goto p (.unlock .body))
  | killMissed {s : State} (p pid : Nat)
      (place : s.control p = .killScan pid) :
      Step s (s.goto p (.unlock .body))
  | yieldMark {s : State} (p c : Nat) (resume : Point)
      (place : s.control p = .yieldMark resume)
      (alone : ∀ lock, lock ≠ .ptable → s.locks lock ≠ some (.proc p))
      (on : s.cpus c = .running p) :
      Step s (((s.assign p { s.procs p with state := .runnable }).sched p c).goto p (.away resume))
  | cpuAcquire {s : State} (c : Nat)
      (place : s.cpus c = .idle)
      (free : s.locks .ptable = none) :
      Step s ((s.hand .ptable (some (.cpu c))).schedule c .scanning)
  | switch {s : State} (c p : Nat) (control : Control)
      (place : s.cpus c = .scanning)
      (ready : (s.procs p).state = .runnable)
      (instruction : (s.control p).resumes = some control) :
      Step s ((((s.assign p { s.procs p with state := .running }).hand .ptable
          (some (.proc p))).schedule c (.running p)).goto p control)
  | cpuRelease {s : State} (c : Nat)
      (place : s.cpus c = .scanning) :
      Step s ((s.hand .ptable none).schedule c .idle)

/-- The machine before any process has run: some slots hold processes that
forkret will release into their bodies. -/
def start (used : Nat → Bool) : State where
  locks _ := none
  procs p :=
    { state := if used p then .runnable else .unused
      chan := none
      killed := false }
  control _ := .away .body
  cpus _ := .idle
  version _ _ := 0
  seen _ := none
  changed _ _ _ := 0
  announced _ _ := 0

/-- The states that runs reach. -/
inductive Reachable : (Nat → Bool) → State → Prop where
  | start (used : Nat → Bool) : Reachable used (start used)
  | step {used : Nat → Bool} {s t : State} (reached : Reachable used s)
      (step : Step s t) : Reachable used t

/-! ## The invariant -/

/-- The locks that a process holds at a place of its code. -/
def Control.holds : Control → List LockId
  | .at _ => []
  | .enter _ lk _ => [.other lk]
  | .drop _ lk _ => [.other lk, .ptable]
  | .mark _ _ _ => [.ptable]
  | .asleep _ _ _ => []
  | .tidy _ => [.ptable]
  | .leave _ => [.ptable]
  | .woke lock => [lock]
  | .scan _ => [.ptable]
  | .killScan _ => [.ptable]
  | .yield _ => []
  | .yieldMark _ => [.ptable]
  | .away _ => []
  | .unlock _ => [.ptable]

/-- What is true of a process. -/
structure Own (s : State) (p : Nat) : Prop where
  /-- It holds the locks of its place. -/
  held : ∀ lock ∈ (s.control p).holds, s.locks lock = some (.proc p)
  /-- What it has found false is still so, and the lock is still held. -/
  found : ∀ lock chan version, s.seen p = some (lock, chan, version) →
    s.locks lock = some (.proc p) ∧ s.version lock chan = version
  /-- On the way into sleep, what it has found false is still so. -/
  entered : ∀ chan lk version,
    s.control p = .enter chan lk version ∨ s.control p = .drop chan lk version →
    s.version (.other lk) chan = version
  /-- About to sleep, it has missed no wakeup. -/
  marked : ∀ chan lock version, s.control p = .mark chan lock version →
    s.announced lock chan ≤ version
  /-- Asleep, it has missed no wakeup. -/
  asleep : (s.procs p).state = .sleeping → ∃ chan lock version,
    s.control p = .asleep chan lock version ∧ (s.procs p).chan = some chan ∧
      s.announced lock chan ≤ version

/-- What is true of every reachable state. -/
structure Safe (s : State) : Prop where
  /-- The processes. -/
  own : ∀ p, Own s p
  /-- A scheduler in its loop holds ptable.lock. -/
  scanning : ∀ c, s.cpus c = .scanning → s.locks .ptable = some (.cpu c)
  /-- Versions are made one after the other. -/
  made : ∀ p lock chan, s.changed p lock chan ≤ s.version lock chan
  /-- Only versions that have been made are announced. -/
  past : ∀ lock chan, s.announced lock chan ≤ s.version lock chan

attribute [local simp] State.goto State.hand State.assign State.schedule State.sched

section Frame

variable {s t : State} {p q : Nat}

/-- A process that a step of somebody else does not touch. -/
theorem Own.frame
    (own : Own s q)
    (control : t.control q = s.control q)
    (seen : t.seen q = s.seen q)
    (entry : (t.procs q).state = .sleeping →
      (s.procs q).state = .sleeping ∧ (t.procs q).chan = (s.procs q).chan)
    (locks : ∀ lock, s.locks lock = some (.proc q) → t.locks lock = some (.proc q) ∧
        ∀ chan, t.version lock chan = s.version lock chan)
    (announced : ∀ chan lock version, s.control q = .mark chan lock version ∨
        (t.procs q).state = .sleeping ∧ (t.procs q).chan = some chan →
      t.announced lock chan = s.announced lock chan) :
    Own t q where
  held lock member := (locks lock (own.held lock (control ▸ member))).1
  found lock chan version finding := by
    obtain ⟨held, same⟩ := own.found lock chan version (seen ▸ finding)
    exact ⟨(locks lock held).1, by rw [(locks lock held).2, same]⟩
  entered chan lk version place := by
    rw [control] at place
    have held : s.locks (.other lk) = some (.proc q) := by
      apply own.held
      obtain place | place := place <;> simp [place, Control.holds]
    rw [(locks _ held).2]
    exact own.entered chan lk version place
  marked chan lock version place := by
    rw [control] at place
    rw [announced chan lock version (Or.inl place)]
    exact own.marked chan lock version place
  asleep sleeping := by
    obtain ⟨before, sameChan⟩ := entry sleeping
    obtain ⟨chan, lock, version, place, on, fresh⟩ := own.asleep before
    refine ⟨chan, lock, version, control ▸ place, sameChan ▸ on, ?_⟩
    rw [announced chan lock version (Or.inr ⟨sleeping, sameChan ▸ on⟩)]
    exact fresh

/-- A process is awake unless it is switched out in sleep. -/
theorem Own.awake
    (own : Own s p)
    (place : ∀ chan lock version, s.control p ≠ .asleep chan lock version) :
    (s.procs p).state ≠ .sleeping := by
  intro sleeping
  obtain ⟨chan, lock, version, asleep, _⟩ := own.asleep sleeping
  exact place chan lock version asleep

variable {lock : LockId} {control : Control} {chan : Chan} {c : Nat}

/-- A lock has one holder. -/
theorem Own.holder_eq
    (own : Own s q)
    (member : lock ∈ (s.control q).holds)
    (held : s.locks lock = some (.proc p)) :
    q = p := by
  have same := (own.held lock member).symm.trans held
  simpa using same

/-- Another process keeps its locks when a lock goes over that it does not
hold. -/
theorem locks_hand
    (holder : Option Agent)
    (free : s.locks lock ≠ some (.proc q))
    (held : s.locks other = some (.proc q)) :
    (s.hand lock holder).locks other = some (.proc q) := by
  have different : other ≠ lock := fun same => free (same ▸ held)
  simpa [different] using held

/-- A step of one process that concerns no condition. -/
theorem Safe.of_step
    (safe : Safe s)
    (own : Own t p)
    (others : ∀ q, q ≠ p → t.control q = s.control q ∧ t.seen q = s.seen q ∧ t.procs q = s.procs q)
    (locks : ∀ q, q ≠ p → ∀ lock, s.locks lock = some (.proc q) → t.locks lock = some (.proc q))
    (scanning : ∀ c, t.cpus c = .scanning → t.locks .ptable = some (.cpu c))
    (conditions : t.version = s.version ∧ t.changed = s.changed ∧ t.announced = s.announced) :
    Safe t where
  own q := by
    by_cases same : q = p
    · exact same ▸ own
    · obtain ⟨control, seen, entry⟩ := others q same
      refine (safe.own q).frame control seen ?_ ?_ ?_
      · rw [entry]
        exact fun sleeping => ⟨sleeping, rfl⟩
      · exact fun lock held => ⟨locks q same lock held, fun chan => by rw [conditions.1]⟩
      · exact fun chan lock _ _ => by rw [conditions.2.2]
  scanning := scanning
  made q lock chan := by
    rw [conditions.2.1, conditions.1]
    exact safe.made q lock chan
  past lock chan := by
    rw [conditions.2.2, conditions.1]
    exact safe.past lock chan

/-- A process that moves on in its code. -/
theorem Own.goto
    (own : Own s p)
    (held : ∀ lock ∈ control.holds, s.locks lock = some (.proc p))
    (entered : ∀ chan lk version,
      control = .enter chan lk version ∨ control = .drop chan lk version →
      s.version (.other lk) chan = version)
    (marked : ∀ chan lock version, control = .mark chan lock version →
      s.announced lock chan ≤ version)
    (awake : (s.procs p).state ≠ .sleeping) :
    Own (s.goto p control) p where
  held := by simpa using held
  found := own.found
  entered := by simpa using entered
  marked := by simpa using marked
  asleep sleeping := absurd sleeping awake

theorem Safe.goto
    (safe : Safe s)
    (own : Own (s.goto p control) p) :
    Safe (s.goto p control) :=
  safe.of_step own (fun _ different => by simp [different]) (fun _ _ _ held => held) safe.scanning
    ⟨rfl, rfl, rfl⟩

/-- A process moves on to a place that needs nothing new. -/
theorem Safe.goto_plain
    (safe : Safe s)
    (place : s.control p = .at point)
    (plain : control.holds = []) :
    Safe (s.goto p control) := by
  refine safe.goto ((safe.own p).goto ?_ ?_ ?_ ?_)
  · simp [plain]
  · rintro chan lk version (rfl | rfl) <;> simp [Control.holds] at plain
  · rintro chan lock version rfl
    simp [Control.holds] at plain
  · exact (safe.own p).awake (by simp [place])

/-! ## Findings -/

theorem seen_lapse_of_ne (different : q ≠ p) :
    (s.lapse p lock).seen q = s.seen q := by
  unfold State.lapse State.forget
  split
  · exact update_of_ne different _ _
  · rfl

theorem seen_lapse_self (finding : (s.lapse p lock).seen p = some (other, chan, version)) :
    s.seen p = some (other, chan, version) ∧ other ≠ lock := by
  unfold State.lapse State.forget at finding
  split at finding
  · simp at finding
  · rename_i kept
    rw [finding] at kept
    exact ⟨finding, by simpa using kept⟩

@[simp] theorem lapse_parts (lock : LockId) :
    (s.lapse p lock).control = s.control ∧ (s.lapse p lock).locks = s.locks ∧
      (s.lapse p lock).procs = s.procs ∧ (s.lapse p lock).cpus = s.cpus ∧
      (s.lapse p lock).version = s.version ∧ (s.lapse p lock).changed = s.changed ∧
      (s.lapse p lock).announced = s.announced := by
  unfold State.lapse
  split <;> simp [State.forget]

/-! ## Locks -/

/-- A free lock is acquired. -/
theorem Safe.hand
    (safe : Safe s)
    (free : s.locks lock = none)
    (holder : Agent) :
    Safe (s.hand lock (some holder)) where
  own q := by
    refine (safe.own q).frame rfl rfl (fun sleeping => ⟨sleeping, rfl⟩) ?_
      fun _ _ _ _ => rfl
    exact fun other held => ⟨locks_hand _ (by simp [free]) held, fun _ => rfl⟩
  scanning c place := by
    have held := safe.scanning c place
    have different : LockId.ptable ≠ lock := by
      rintro rfl
      rw [free] at held
      cases held
    simpa [different] using held
  made := safe.made
  past := safe.past

/-- The next place of a process that acquires a lock. -/
theorem Control.acquires_spec {place control : Control}
    (instruction : place.acquires = some (lock, control)) :
    (∀ other ∈ control.holds, other = lock ∨ other ∈ place.holds) ∧ (∀ chan lk version,
        control = .enter chan lk version ∨ control = .drop chan lk version →
        place = .enter chan lk version) ∧
      (∀ chan other version, control ≠ .mark chan other version) ∧
      ∀ chan other version, place ≠ .asleep chan other version := by
  unfold Control.acquires at instruction
  split at instruction <;> simp only [Option.some.injEq, Prod.mk.injEq,
    reduceCtorEq] at instruction <;> obtain ⟨rfl, rfl⟩ := instruction <;>
    simp [Control.holds]

/-- The next place of a process that releases a lock. -/
theorem Control.releases_spec {place control : Control}
    (instruction : place.releases = some (lock, control)) :
    lock ∈ place.holds ∧ (∀ other ∈ control.holds, other ≠ lock ∧ other ∈ place.holds) ∧
      (∀ chan lk version, control ≠ .enter chan lk version ∧ control ≠ .drop chan lk version) ∧
      (∀ chan other version, control = .mark chan other version →
        ∃ lk, other = .other lk ∧ place = .drop chan lk version) ∧
      ∀ chan other version, place ≠ .asleep chan other version := by
  unfold Control.releases at instruction
  split at instruction <;> simp only [Option.some.injEq, Prod.mk.injEq,
    reduceCtorEq] at instruction <;> obtain ⟨rfl, rfl⟩ := instruction <;>
    simp [Control.holds]

section

variable (safe : Safe s)

include safe

theorem Safe.acquire
    (instruction : (s.control p).acquires = some (lock, control))
    (free : s.locks lock = none) :
    Safe ((s.hand lock (some (.proc p))).goto p control) := by
  obtain ⟨holds, enters, unmarked, awake⟩ := Control.acquires_spec instruction
  have handed := safe.hand free (.proc p)
  refine handed.goto ((handed.own p).goto ?_ ?_ ?_ ?_)
  · intro other member
    obtain rfl | before := holds other member
    · simp
    · exact locks_hand _ (by simp [free]) ((safe.own p).held other before)
  · intro chan lk version place
    exact (safe.own p).entered chan lk version (Or.inl (enters chan lk version place))
  · exact fun chan other version place =>
      absurd place (unmarked chan other version)
  · exact (safe.own p).awake awake

/-- A lock is released by its holder, who moves on. -/
theorem Safe.release_of_held
    (control : Control)
    (held : s.locks lock = some (.proc p))
    (holds : ∀ other ∈ control.holds, other ≠ lock ∧ s.locks other = some (.proc p))
    (entered : ∀ chan lk version,
      control ≠ .enter chan lk version ∧ control ≠ .drop chan lk version)
    (marked : ∀ chan other version, control = .mark chan other version →
      s.announced other chan ≤ version)
    (awake : (s.procs p).state ≠ .sleeping) :
    Safe (((s.lapse p lock).hand lock none).goto p control) := by
  have own : Own (((s.lapse p lock).hand lock none).goto p control) p := {
    held := by
      intro other member
      simp only [State.goto, update_self] at member
      obtain ⟨different, before⟩ := holds other member
      simpa [different] using before
    found := by
      intro other chan version finding
      obtain ⟨before, different⟩ := seen_lapse_self finding
      simpa [different] using (safe.own p).found other chan version before
    entered := by
      intro chan lk version place
      simp only [State.goto, update_self] at place
      obtain place | place := place
      · exact absurd place (entered chan lk version).1
      · exact absurd place (entered chan lk version).2
    marked := by simpa using marked
    asleep := by
      intro sleeping
      simp only [State.goto, State.hand, lapse_parts] at sleeping
      exact absurd sleeping awake }
  refine safe.of_step own ?_ ?_ ?_ (by simp)
  · intro q different
    simp [different, seen_lapse_of_ne]
  · intro q different other before
    have unheld : (s.lapse p lock).locks lock ≠ some (.proc q) := by
      simp [held, Ne.symm different]
    exact locks_hand _ unheld (by simpa using before)
  · intro c place
    simp only [State.goto, State.hand, lapse_parts] at place
    have before := safe.scanning c place
    have different : LockId.ptable ≠ lock := by
      rintro rfl
      rw [held] at before
      cases before
    simpa [different] using before

theorem Safe.release (instruction : (s.control p).releases = some (lock, control)) :
    Safe (((s.lapse p lock).hand lock none).goto p control) := by
  obtain ⟨member, holds, entered, marks, awake⟩ :=
    Control.releases_spec instruction
  refine safe.release_of_held _ ((safe.own p).held lock member) ?_ entered ?_
    ((safe.own p).awake awake)
  · intro other inside
    obtain ⟨different, before⟩ := holds other inside
    exact ⟨different, (safe.own p).held other before⟩
  · intro chan other version place
    obtain ⟨lk, rfl, drop⟩ := marks chan other version place
    rw [← (safe.own p).entered chan lk version (Or.inr drop)]
    exact safe.past _ _

theorem Safe.unlock
    (place : s.control p = .at .body)
    (held : s.locks lock = some (.proc p)) :
    Safe ((s.lapse p lock).hand lock none) := by
  have released := safe.release_of_held (.at .body) held
    (by simp [Control.holds]) (by simp) (by simp)
    ((safe.own p).awake (by simp [place]))
  have same : ((s.lapse p lock).hand lock none).goto p (.at .body) =
      (s.lapse p lock).hand lock none := by
    simp [← place]
  rwa [same] at released

/-! ## The scheduler -/

/-- A process that holds ptable.lock switches to the scheduler of its CPU. -/
theorem Safe.sched
    (held : s.locks .ptable = some (.proc p))
    (plain : control.holds = [])
    (asleep : entry.state = .sleeping → ∃ chan lock version,
      control = .asleep chan lock version ∧ entry.chan = some chan ∧
        s.announced lock chan ≤ version) :
    Safe (((s.assign p entry).sched p c).goto p control) := by
  have own : Own (((s.assign p entry).sched p c).goto p control) p := {
    held := by simp [plain]
    found := by
      intro other chan version finding
      obtain ⟨before, different⟩ := seen_lapse_self (s := s.assign p entry) finding
      simpa [different] using (safe.own p).found other chan version before
    entered := by
      intro chan lk version place
      simp only [State.goto, update_self] at place
      obtain rfl | rfl := place <;> simp [Control.holds] at plain
    marked := by
      intro chan other version place
      simp only [State.goto, update_self] at place
      subst place
      simp [Control.holds] at plain
    asleep := by
      simpa using asleep }
  refine safe.of_step own ?_ ?_ ?_ (by simp)
  · intro q different
    simp [different, seen_lapse_of_ne]
  · intro q different other before
    have unheld : s.locks .ptable ≠ some (.proc q) := by
      simp [held, Ne.symm different]
    simpa using locks_hand (some (.cpu c)) unheld before
  · intro other place
    by_cases same : other = c
    · simp [same]
    · simp only [State.goto, State.sched, State.schedule, State.hand,
        State.assign, lapse_parts, update_of_ne same] at place
      have before := safe.scanning other place
      rw [held] at before
      cases before

/-- The scheduler of a CPU switches to a process. -/
theorem Safe.switch
    (place : s.cpus c = .scanning)
    (instruction : (s.control p).resumes = some control) :
    Safe ((((s.assign p { s.procs p with state := .running }).hand .ptable
      (some (.proc p))).schedule c (.running p)).goto p control) := by
  have scheduler := safe.scanning c place
  have plain : control.holds = [.ptable] ∧ (∀ chan lk version,
        control ≠ .enter chan lk version ∧ control ≠ .drop chan lk version) ∧
      ∀ chan lock version, control ≠ .mark chan lock version := by
    unfold Control.resumes at instruction
    split at instruction <;> simp only [Option.some.injEq, reduceCtorEq]
      at instruction <;> subst instruction <;> simp [Control.holds]
  obtain ⟨holds, entered, marked⟩ := plain
  have own : Own ((((s.assign p { s.procs p with state := .running }).hand
      .ptable (some (.proc p))).schedule c (.running p)).goto p control) p := {
    held := by
      simp [holds]
    found := by
      intro lock chan version finding
      obtain ⟨before, same⟩ := (safe.own p).found lock chan version finding
      exact ⟨locks_hand _ (s := s) (by simp [scheduler]) before, same⟩
    entered := by
      intro chan lk version place
      simp only [State.goto, update_self] at place
      exact absurd place (not_or.mpr (entered chan lk version))
    marked := by
      intro chan lock version place
      simp only [State.goto, update_self] at place
      exact absurd place (marked chan lock version)
    asleep := by
      simp }
  refine safe.of_step own ?_ ?_ ?_ ⟨rfl, rfl, rfl⟩
  · intro q different
    simp [different]
  · intro q _ lock before
    exact locks_hand _ (s := s) (by simp [scheduler]) before
  intro other scanning
  by_cases same : other = c
  · simp [same] at scanning
  · simp only [State.goto, State.schedule, State.hand, State.assign, update_of_ne same] at scanning
    have twice := (safe.scanning other scanning).symm.trans scheduler
    simp only [Option.some.injEq, Agent.cpu.injEq] at twice
    exact absurd twice same

/-- The scheduler of a CPU takes or gives back ptable.lock. -/
theorem Safe.schedule
    (unheld : ∀ q, s.locks .ptable ≠ some (.proc q))
    (others : ∀ other, other ≠ c → s.cpus other ≠ .scanning)
    (own : cpu = .scanning → holder = some (.cpu c)) :
    Safe ((s.hand .ptable holder).schedule c cpu) where
  own q := by
    refine (safe.own q).frame rfl rfl (fun sleeping => ⟨sleeping, rfl⟩) ?_
      fun _ _ _ _ => rfl
    exact fun lock held => ⟨locks_hand _ (s := s) (unheld q) held, fun _ => rfl⟩
  scanning other place := by
    by_cases same : other = c
    · subst same
      simp only [State.schedule, update_self] at place
      simp [own place]
    · simp only [State.schedule, State.hand, update_of_ne same]
        at place
      exact absurd place (others other same)
  made := safe.made
  past := safe.past

/-! ## Conditions -/

/-- A process finds a condition false. -/
theorem Safe.test (held : s.locks lock = some (.proc p)) :
    Safe { s with
      seen := update s.seen p (some (lock, chan, s.version lock chan)) } := by
  refine safe.of_step (p := p) { safe.own p with found := ?_ } (fun q different => by simp [different])
    (fun _ _ _ held => held) safe.scanning ⟨rfl, rfl, rfl⟩
  intro other on version finding
  simp only [update_self, Option.some.injEq, Prod.mk.injEq] at finding
  obtain ⟨rfl, rfl, rfl⟩ := finding
  exact ⟨held, rfl⟩

end

/-- What a process has found lapses. -/
theorem Safe.forget (safe : Safe s) :
    Safe (s.forget p) := by
  refine safe.of_step (p := p) { safe.own p with found := ?_ }
    (fun q different => by simp [State.forget, different]) (fun _ _ _ held => held) safe.scanning
    ⟨rfl, rfl, rfl⟩
  simp [State.forget]

theorem version_change
    (lock other : LockId)
    (chan on : Chan) :
    (s.change p lock chan).version other on =
      if other = lock ∧ on = chan then s.version lock chan + 1
      else s.version other on := by
  unfold State.change
  by_cases sameLock : other = lock
  · subst sameLock
    by_cases sameChan : on = chan <;> simp [sameChan]
  · simp [sameLock]

theorem changed_change
    (q : Nat)
    (lock other : LockId)
    (chan on : Chan) :
    (s.change p lock chan).changed q other on =
      if q = p ∧ other = lock ∧ on = chan then s.version lock chan + 1
      else s.changed q other on := by
  unfold State.change State.forget
  by_cases same : q = p
  · subst same
    by_cases sameLock : other = lock
    · subst sameLock
      by_cases sameChan : on = chan <;> simp [sameChan]
    · simp [sameLock]
  · simp [same]

/-- A process changes a condition whose lock it holds. -/
theorem Safe.change
    (safe : Safe s)
    (place : s.control p = .at .body)
    (held : s.locks lock = some (.proc p)) :
    Safe (s.change p lock chan) where
  own q := by
    by_cases same : q = p
    · subst same
      have awake := (safe.own q).awake (by simp [place])
      refine ⟨?_, ?_, ?_, ?_, fun sleeping => absurd sleeping awake⟩ <;>
        simp [State.change, State.forget, place, Control.holds]
    · refine (safe.own q).frame rfl (update_of_ne same _ _)
        (fun sleeping => ⟨sleeping, rfl⟩) ?_ fun _ _ _ _ => rfl
      intro other before
      have different : other ≠ lock := by
        rintro rfl
        rw [held] at before
        simp [Ne.symm same] at before
      exact ⟨before, fun on => by simp [version_change, different]⟩
  scanning := safe.scanning
  made q other on := by
    have before := safe.made q other on
    rw [version_change, changed_change]
    split_ifs with first second second
    · omega
    · exact absurd first.2 second
    · obtain ⟨rfl, rfl⟩ := second
      omega
    · exact before
  past other on := by
    have before := safe.past other on
    rw [version_change]
    change s.announced other on ≤ _
    split_ifs with changed
    · obtain ⟨rfl, rfl⟩ := changed
      omega
    · exact before

/-- sleep is called with the lock held and the condition found false. -/
theorem Safe.sleep
    (safe : Safe s)
    (place : s.control p = .at .body)
    (found : s.seen p = some (lock, chan, version)) :
    Safe ((s.forget p).goto p (sleepEntry chan version lock)) := by
  obtain ⟨held, current⟩ := (safe.own p).found lock chan version found
  have awake := (safe.own p).awake (by simp [place])
  refine safe.forget.goto ((safe.forget.own p).goto ?_ ?_ ?_ awake)
  · cases lock <;> simpa [sleepEntry, Control.holds, State.forget] using held
  · intro on lk number entry
    cases lock with
    | ptable => simp [sleepEntry] at entry
    | other n =>
      simp only [sleepEntry, Control.enter.injEq, reduceCtorEq, or_false]
        at entry
      obtain ⟨rfl, rfl, rfl⟩ := entry
      exact current
  · intro on other number entry
    cases lock with
    | ptable =>
      simp only [sleepEntry, Control.mark.injEq] at entry
      obtain ⟨rfl, rfl, rfl⟩ := entry
      rw [← current]
      exact safe.past _ _
    | other n => simp [sleepEntry] at entry

/-! ## Wakeups -/

/-- An entry that sleeps after wakeup1 has slept before, on another
channel. -/
theorem Entry.sleeping_of_wakeup1 {entry : Entry}
    (sleeping : (entry.wakeup1 chan).state = .sleeping) :
    entry.state = .sleeping ∧ (entry.wakeup1 chan).chan = entry.chan ∧ entry.chan ≠ some chan := by
  unfold Entry.wakeup1 at sleeping ⊢
  split at sleeping
  · cases sleeping
  · rename_i unwoken
    rw [if_neg unwoken]
    exact ⟨sleeping, rfl, fun on => unwoken ⟨sleeping, on⟩⟩

/-- wakeup1, called with ptable.lock held. -/
theorem Safe.wakeup1
    (safe : Safe s)
    (chan : Chan)
    (held : s.locks .ptable = some (.proc p))
    (unmarked : ∀ chan lock version, s.control p ≠ .mark chan lock version) :
    Safe (s.wakeup1 p chan) where
  own q := by
    refine (safe.own q).frame rfl rfl ?_ (fun _ held => ⟨held, fun _ => rfl⟩) ?_
    · intro sleeping
      obtain ⟨before, same, _⟩ := Entry.sleeping_of_wakeup1 sleeping
      exact ⟨before, same⟩
    intro on lock version reason
    have different : on ≠ chan := by
      obtain marking | ⟨sleeping, waits⟩ := reason
      · -- a process about to sleep holds ptable.lock itself
        have same : q = p :=
          (safe.own q).holder_eq (by simp [marking, Control.holds]) held
        exact absurd (same ▸ marking) (unmarked on lock version)
      · obtain ⟨_, same, other⟩ := Entry.sleeping_of_wakeup1 sleeping
        have before : (s.procs q).chan = some on := same.symm.trans waits
        rintro rfl
        exact other before
    simp [State.wakeup1, different]
  scanning := safe.scanning
  made := safe.made
  past lock on := by
    have announced := safe.past lock on
    have changed := safe.made p lock on
    change (if on = chan then max (s.announced lock on) (s.changed p lock on)
      else s.announced lock on) ≤ s.version lock on
    split_ifs <;> omega

/-- kill on the process it has found. -/
theorem Safe.kill
    (safe : Safe s)
    (pid : Nat) :
    Safe (s.assign pid (s.procs pid).kill) where
  own q := by
    refine (safe.own q).frame rfl rfl ?_ (fun _ held => ⟨held, fun _ => rfl⟩)
      fun _ _ _ _ => rfl
    intro sleeping
    by_cases same : q = pid
    · subst same
      simp only [State.assign, update_self, Entry.kill] at sleeping
      split_ifs at sleeping with before
      exact absurd sleeping before
    · simpa [same] using sleeping
  scanning := safe.scanning
  made := safe.made
  past := safe.past

/-- A process moves on to a place where it only needs ptable.lock, which it
holds. -/
theorem Safe.goto_locked
    (safe : Safe s)
    (held : s.locks .ptable = some (.proc p))
    (awake : (s.procs p).state ≠ .sleeping)
    (plain : control.holds = [.ptable])
    (unmarked : ∀ chan lock version, control ≠ .mark chan lock version) :
    Safe (s.goto p control) := by
  refine safe.goto ((safe.own p).goto ?_ ?_ ?_ awake)
  · simpa [plain] using held
  · rintro chan lk version (rfl | rfl) <;> simp [Control.holds] at plain
  · exact fun chan lock version place =>
      absurd place (unmarked chan lock version)

/-- sleep clears proc->chan. -/
theorem Safe.tidy
    (safe : Safe s)
    (place : s.control p = .tidy lock) :
    Safe ((s.assign p { s.procs p with chan := none }).goto p (tidied lock)) := by
  have held := (safe.own p).held .ptable (by simp [place, Control.holds])
  have awake := (safe.own p).awake (by simp [place])
  have assigned : Safe (s.assign p { s.procs p with chan := none }) := by
    refine safe.of_step (p := p) ?_ (fun q different => by simp [different])
      (fun _ _ _ held => held) safe.scanning ⟨rfl, rfl, rfl⟩
    refine (safe.own p).frame rfl rfl ?_ (fun _ held => ⟨held, fun _ => rfl⟩) fun _ _ _ _ => rfl
    intro sleeping
    simp only [State.assign, update_self] at sleeping
    exact absurd sleeping awake
  refine assigned.goto_locked held ?_ ?_ ?_
  · simpa using awake
  · cases lock <;> rfl
  · cases lock <;> simp [tidied]

end Frame

/-! ## Runs -/

theorem Safe.start (used : Nat → Bool) :
    Safe (start used) where
  own p := by
    refine ⟨?_, ?_, ?_, ?_, ?_⟩ <;> simp only [Sleep.start, Control.holds]
    · simp
    · simp
    · simp
    · simp
    · cases used p <;> simp
  scanning c place := by cases place
  made _ _ _ := Nat.le_refl _
  past _ _ := Nat.le_refl _

variable {s t : State}

/-- Every step keeps the invariant. -/
theorem Safe.step
    (safe : Safe s)
    (step : Step s t) :
    Safe t := by
  cases step with
  | lock p lock place free => exact safe.hand free (.proc p)
  | unlock p lock place held => exact safe.unlock place held
  | test p lock chan place held => exact safe.test held
  | change p lock chan place held => exact safe.change place held
  | sleep p lock chan version place found => exact safe.sleep place found
  | wakeup p chan place => exact safe.goto_plain place rfl
  | wakeup1 p chan place held => exact safe.wakeup1 chan held (by simp [place])
  | kill p pid place => exact safe.goto_plain place rfl
  | yield p point place unlocked => exact safe.goto_plain place rfl
  | acquire p lock control instruction free =>
    exact safe.acquire instruction free
  | release p lock control instruction => exact safe.release instruction
  | mark p c chan lock version place alone on =>
    have held := (safe.own p).held .ptable (by simp [place, Control.holds])
    exact safe.sched held rfl fun _ => ⟨chan, lock, version, rfl, rfl,
      (safe.own p).marked chan lock version place⟩
  | tidy p lock place => exact safe.tidy place
  | woke p lock place =>
    refine safe.goto ((safe.own p).goto ?_ ?_ ?_ ?_)
    · simp [Control.holds]
    · simp
    · simp
    · exact (safe.own p).awake (by simp [place])
  | scan p chan place =>
    have held := (safe.own p).held .ptable (by simp [place, Control.holds])
    have woken := safe.wakeup1 chan held (by simp [place])
    refine woken.goto_locked held ?_ rfl (by simp)
    exact (woken.own p).awake (by simp [State.wakeup1, place])
  | killFound p pid place =>
    have held := (safe.own p).held .ptable (by simp [place, Control.holds])
    have killed := safe.kill pid
    refine killed.goto_locked held ?_ rfl (by simp)
    exact (killed.own p).awake (by simp [place])
  | killMissed p pid place =>
    have held := (safe.own p).held .ptable (by simp [place, Control.holds])
    exact safe.goto_locked held ((safe.own p).awake (by simp [place])) rfl (by simp)
  | yieldMark p c resume place alone on =>
    have held := (safe.own p).held .ptable (by simp [place, Control.holds])
    exact safe.sched held rfl fun sleeping => by cases sleeping
  | cpuAcquire c place free =>
    refine safe.schedule (by simp [free]) ?_ fun _ => rfl
    intro other _ scanning
    have held := safe.scanning other scanning
    rw [free] at held
    cases held
  | switch c p control place ready instruction =>
    exact safe.switch place instruction
  | cpuRelease c place =>
    have held := safe.scanning c place
    refine safe.schedule (by simp [held]) ?_ fun scanning => by cases scanning
    intro other different scanning
    have twice := (safe.scanning other scanning).symm.trans held
    simp only [Option.some.injEq, Agent.cpu.injEq] at twice
    exact different twice

theorem Safe.reachable (reached : Reachable used s) :
    Safe s := by
  induction reached with
  | start => exact Safe.start _
  | step _ step ih => exact ih.step step

theorem Reachable.runs
    (reached : Reachable used s)
    (runs : Relation.ReflTransGen Step s t) :
    Reachable used t := by
  induction runs with
  | refl => exact reached
  | tail _ step ih => exact ih.step step

theorem announced_le_wakeup1
    (s : State)
    (p : Nat)
    (chan on : Chan)
    (lock : LockId) :
    s.announced lock on ≤ (s.wakeup1 p chan).announced lock on := by
  change s.announced lock on ≤ if on = chan then max (s.announced lock on) (s.changed p lock on)
    else s.announced lock on
  split_ifs <;> omega

/-- What has been announced stays so. -/
theorem announced_le_of_runs
    (runs : Relation.ReflTransGen Step s t)
    (lock : LockId)
    (chan : Chan) :
    s.announced lock chan ≤ t.announced lock chan := by
  induction runs with
  | refl => exact Nat.le_refl _
  | tail _ step ih =>
    refine Nat.le_trans ih ?_
    cases step with
    | wakeup1 p on => exact announced_le_wakeup1 _ p on chan lock
    | scan p on => exact announced_le_wakeup1 _ p on chan lock
    | unlock => simp
    | release => simp
    | mark =>
      simp
    | yieldMark =>
      simp
    | _ => exact Nat.le_refl _

/-- A process wakes the sleepers of a channel: inside wakeup, or by calling
wakeup1 with ptable.lock held as exit does. -/
inductive Wakes (q : Nat) (chan : Chan) (s : State) : State → Prop where
  | wakeup (place : s.control q = .scan chan) :
      Wakes q chan s ((s.wakeup1 q chan).goto q (.unlock .body))
  | wakeup1 (place : s.control q = .at .body)
      (held : s.locks .ptable = some (.proc q)) :
      Wakes q chan s (s.wakeup1 q chan)

/-- No wakeup is lost.  Once a process has changed a condition and has woken
the sleepers of its channel, no process sleeps on the channel because it found
the condition false in an earlier version, whatever happens next; every
process that sleeps does so because of such a finding; and sleep returns with
its lock held. -/
theorem sleep_misses_no_wakeup {used : Nat → Bool}
    {s : State}
    (reached : Reachable used s) :
    (∀ q chan t later, Wakes q chan s t → Relation.ReflTransGen Step t later →
      ∀ p lock version, (later.procs p).state = .sleeping →
        later.control p = .asleep chan lock version → s.changed q lock chan ≤ version) ∧
      (∀ p, (s.procs p).state = .sleeping → ∃ chan lock version,
        s.control p = .asleep chan lock version ∧ (s.procs p).chan = some chan) ∧
      ∀ p lock, s.control p = .woke lock → s.locks lock = some (.proc p) := by
  refine ⟨?_, ?_, ?_⟩
  · intro q chan t later wakes runs p lock version sleeping place
    have step : Step s t := by
      cases wakes with
      | wakeup place => exact .scan q chan place
      | wakeup1 place held => exact .wakeup1 q chan place held
    have announced : s.changed q lock chan ≤ t.announced lock chan := by
      cases wakes <;>
        · simp only [State.wakeup1, State.goto, if_true]
          exact Nat.le_max_right _ _
    have safe := Safe.reachable ((reached.step step).runs runs)
    obtain ⟨on, other, number, same, _, fresh⟩ := (safe.own p).asleep sleeping
    rw [place, Control.asleep.injEq] at same
    obtain ⟨rfl, rfl, rfl⟩ := same
    exact Nat.le_trans announced (Nat.le_trans (announced_le_of_runs runs lock chan) fresh)
  · intro p sleeping
    obtain ⟨chan, lock, version, place, on, _⟩ :=
      ((Safe.reachable reached).own p).asleep sleeping
    exact ⟨chan, lock, version, place, on⟩
  · intro p lock place
    exact ((Safe.reachable reached).own p).held lock (by simp [place, Control.holds])

/-- A process has gone to sleep on channel 7 under a lock, another one has
changed the condition and is in wakeup. -/
theorem waking_reachable :
    ∃ s, Reachable (fun p => p < 2) s ∧ (s.procs 0).state = .sleeping ∧
      s.control 0 = .asleep 7 (.other 0) 0 ∧ s.control 1 = .scan 7 ∧
      s.changed 1 (.other 0) 7 = 1 := by
  have scheduled := (Reachable.start fun p => p < 2).step (.cpuAcquire 0 rfl rfl)
  have running := (scheduled.step (.switch 0 0 _ rfl rfl rfl)).step (.release 0 .ptable _ rfl)
  have locked := running.step (.lock 0 (.other 0) rfl rfl)
  have found := locked.step (.test 0 (.other 0) 7 rfl rfl)
  have sleeping := found.step (.sleep 0 (.other 0) 7 0 rfl rfl)
  have dropped := (sleeping.step (.acquire 0 .ptable _ rfl rfl)).step (.release 0 (.other 0) _ rfl)
  have asleep := dropped.step (.mark 0 0 7 (.other 0) 0 rfl ?alone rfl)
  have other := (asleep.step (.switch 0 1 _ rfl rfl rfl)).step (.release 1 .ptable _ rfl)
  have changing := (other.step (.lock 1 (.other 0) rfl rfl)).step (.change 1 (.other 0) 7 rfl rfl)
  have calling := (changing.step (.unlock 1 (.other 0) rfl rfl)).step (.wakeup 1 7 rfl)
  have waking := calling.step (.acquire 1 .ptable _ rfl rfl)
  · exact ⟨_, waking, rfl, rfl, rfl, rfl⟩
  case alone =>
    rintro (_ | lk) different
    · exact absurd rfl different
    · by_cases first : lk = 0 <;> simp [State.forget, start, first]

theorem sleep_misses_no_wakeup_waking :
    ∃ s : State, (s.procs 0).state = .sleeping ∧
      s.control 0 = .asleep 7 (.other 0) 0 ∧ s.changed 1 (.other 0) 7 = 1 ∧
      ∀ later, Relation.ReflTransGen Step ((s.wakeup1 1 7).goto 1 (.unlock .body)) later →
        ∀ p lock version, (later.procs p).state = .sleeping →
          later.control p = .asleep 7 lock version →
          s.changed 1 lock 7 ≤ version := by
  obtain ⟨s, reached, sleeping, asleep, place, changed⟩ := waking_reachable
  exact ⟨s, sleeping, asleep, changed, fun later =>
    (sleep_misses_no_wakeup reached).1 1 7 _ later (.wakeup place)⟩

/-! ## Processes on CPUs -/

/-- The running processes are those that CPUs run, each on one CPU. -/
structure Placed (s : State) : Prop where
  /-- A CPU runs a running process, and no other CPU runs it. -/
  runs : ∀ c p, s.cpus c = .running p →
    (s.procs p).state = .running ∧ ∀ d, s.cpus d = .running p → d = c
  /-- A running process is on a CPU. -/
  onCpu : ∀ p, (s.procs p).state = .running → ∃ c, s.cpus c = .running p

section

variable (placed : Placed s)

include placed

/-- No process gets or leaves a CPU. -/
theorem Placed.stay
    (cpus : ∀ c p, t.cpus c = .running p ↔ s.cpus c = .running p)
    (states : ∀ p, (t.procs p).state = .running ↔ (s.procs p).state = .running) :
    Placed t := by
  constructor
  · simpa only [cpus, states] using placed.runs
  · simpa only [cpus, states] using placed.onCpu

/-- A process gets or leaves a CPU that runs no other one. -/
theorem Placed.move
    (cpu : Cpu)
    (entry : Entry)
    (mine : ∀ q, s.cpus c = .running q → q = p)
    (alone : ∀ d, s.cpus d = .running p → d = c)
    (now : ∀ q, cpu = .running q ↔ q = p ∧ entry.state = .running)
    (cpus : ∀ d, t.cpus d = if d = c then cpu else s.cpus d)
    (procs : ∀ q, t.procs q = if q = p then entry else s.procs q) :
    Placed t := by
  obtain ⟨runs, onCpu⟩ := placed
  constructor
  · grind
  · intro q running
    by_cases same : q = p
    · exact ⟨c, by grind⟩
    · grind

/-- sched takes a process off its CPU. -/
theorem Placed.sched {control : Control}
    (on : s.cpus c = .running p)
    (stopped : entry.state ≠ .running) :
    Placed (((s.assign p entry).sched p c).goto p control) :=
  placed.move .scanning entry (by simp [on, eq_comm]) (placed.runs c p on).2 (by simp [stopped])
    (by simp [update_apply]) (by simp [update_apply])

/-- Every step keeps the processes on their CPUs. -/
theorem Placed.step
    (step : Step s t) :
    Placed t := by
  cases step with
  | mark p c chan lock version place alone on => exact placed.sched on (by simp)
  | yieldMark p c resume place alone on => exact placed.sched on (by simp)
  | switch c p control place ready instruction =>
    refine placed.move (.running p) _ (by simp [place]) (fun d on => ?_) (by simp [eq_comm])
      (update_apply _ _ _) (update_apply _ _ _)
    have running := (placed.runs d p on).1
    rw [ready] at running
    cases running
  | cpuAcquire c place | cpuRelease c place =>
    refine placed.stay (fun d p => ?_) fun _ => .rfl
    by_cases same : d = c <;> simp [same, place]
  | wakeup1 p chan | scan p chan =>
    refine placed.stay (fun _ _ => .rfl) fun q => ?_
    simp only [State.wakeup1, State.goto, Entry.wakeup1]
    split <;> simp_all
  | killFound p pid =>
    refine placed.stay (fun _ _ => .rfl) fun q => ?_
    by_cases same : q = pid
    · simp only [same, State.goto, State.assign, update_self, Entry.kill]
      split <;> simp_all
    · simp [same]
  | tidy p lock =>
    refine placed.stay (fun _ _ => .rfl) fun q => ?_
    by_cases same : q = p <;> simp [same]
  | release | unlock => exact placed.stay (by simp) (by simp)
  | _ => exact placed.stay (fun _ _ => .rfl) fun _ => .rfl

end

/-- In every state that is reached, the processes that are RUNNING are those that
the CPUs run, and no process runs on two CPUs. -/
theorem running_on_one_cpu {used : Nat → Bool} {s : State}
    (reached : Reachable used s) :
    Placed s := by
  induction reached with
  | start =>
    refine ⟨fun _ _ on => (by cases on), fun p running => ?_⟩
    simp only [start] at running
    split at running <;> cases running
  | step _ step ih => exact ih.step step

theorem running_on_one_cpu_waking :
    ∃ s : State, Placed s ∧ (s.procs 0).state = .sleeping := by
  obtain ⟨s, reached, sleeping, _⟩ := waking_reachable
  exact ⟨s, running_on_one_cpu reached, sleeping⟩

end Sleep
end Proc
end Xv6
