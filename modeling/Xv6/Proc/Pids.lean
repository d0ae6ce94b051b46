import Xv6.Proc.Life
import Xv6.Proc.Memory

/-!
# Process ids

The process table of proc.c as far as pids and the killed flags are concerned,
with `nextpid` and the pids as the 32-bit ints they are.  A step is what
happens under one hold of `ptable.lock`, or what a fork does with the slot that
allocproc has given it.  The table has any number of slots, and any number of
processes may be running.
-/

namespace Xv6
namespace Proc
namespace Pids

open Function
open Life (Chan)
open Memory (NPROC)

/-- The fields of struct proc that matter here. -/
structure Slot (n : Nat) where
  state : ProcState
  pid : Int32
  parent : Option (Fin n)
  killed : Bool
  chan : Option (Chan n)
  deriving DecidableEq

/-- The process table. -/
structure Table (n : Nat) where
  procs : Fin n → Slot n
  /-- The slot that a process in fork has from allocproc. -/
  np : Fin n → Option (Fin n)
  nextpid : Int32

variable {n : Nat}

namespace Slot

/-- wakeup1 on one slot. -/
def wakeup1 (chan : Chan n) (slot : Slot n) : Slot n :=
  if slot.state = .sleeping ∧ slot.chan = some chan then
    { slot with state := .runnable }
  else slot

/-- kill on the slot it has found. -/
def kill (slot : Slot n) : Slot n :=
  { slot with
    killed := true
    state := if slot.state = .sleeping then .runnable else slot.state }

/-- exit on a slot of the table: children are passed on to init. -/
def passOn (initproc p : Fin n) (slot : Slot n) : Slot n :=
  if slot.parent = some p then { slot with parent := some initproc } else slot

/-- What wait makes of a zombie. -/
def reaped (slot : Slot n) : Slot n :=
  { slot with state := .unused, pid := 0, parent := none, killed := false }

end Slot

namespace Table

/-- A slot changes. -/
def assign (s : Table n) (p : Fin n) (slot : Slot n) : Table n :=
  { s with procs := update s.procs p slot }

/-- A fork begins or ends. -/
def forks (s : Table n) (p : Fin n) (np : Option (Fin n)) : Table n :=
  { s with np := update s.np p np }

/-- wakeup1. -/
def wakeup1 (s : Table n) (chan : Chan n) : Table n :=
  { s with procs := fun q => (s.procs q).wakeup1 chan }

/-- The slot that allocproc finds. -/
def firstUnused (s : Table n) : Option (Fin n) :=
  (List.finRange n).find? fun p => (s.procs p).state = .unused

/-- allocproc under the lock, for a slot it has found. -/
def allocproc (s : Table n) (np : Fin n) : Table n :=
  { s.assign np { s.procs np with state := .embryo, pid := s.nextpid } with
    nextpid := s.nextpid + 1 }

/-- The slot that kill finds. -/
def withPid (s : Table n) (pid : Int32) : Option (Fin n) :=
  (List.finRange n).find? fun p => (s.procs p).pid = pid

/-- kill: what it returns, and the table after it. -/
def kill (s : Table n) (pid : Int32) : Int32 × Table n :=
  match s.withPid pid with
  | some p => (0, s.assign p (s.procs p).kill)
  | none => (-1, s)

/-- exit wakes the parent that might be in wait. -/
def wakeParent (s : Table n) (p : Fin n) : Table n :=
  match (s.procs p).parent with
  | some parent => s.wakeup1 (.proc parent)
  | none => s

/-- exit wakes init if one of the children it passes on is a zombie. -/
def wakeInit (s : Table n) (initproc p : Fin n) : Table n :=
  if ∃ q, (s.procs q).parent = some p ∧ (s.procs q).state = .zombie then
    s.wakeup1 (.proc initproc)
  else s

/-- exit passes the children of a process to init. -/
def abandon (s : Table n) (initproc p : Fin n) : Table n :=
  { s with procs := fun q => (s.procs q).passOn initproc p }

/-- The part of exit under ptable.lock. -/
def exit (s : Table n) (initproc p : Fin n) : Table n :=
  let woken := ((s.wakeParent p).wakeInit initproc p).abandon initproc p
  woken.assign p { woken.procs p with state := .zombie }

/-- A pass of wait over the table: it reaps a zombie, or returns -1, or
sleeps. -/
def wait (s : Table n) (p : Fin n) : Table n :=
  match (List.finRange n).find? fun q =>
      (s.procs q).parent = some p ∧ (s.procs q).state = .zombie with
  | some child => s.assign child (s.procs child).reaped
  | none =>
    if (∀ q, (s.procs q).parent ≠ some p) ∨ (s.procs p).killed = true then s
    else
      s.assign p { s.procs p with state := .sleeping, chan := some (.proc p) }

/-- A process runs and is not in the middle of fork. -/
def Free (s : Table n) (p : Fin n) : Prop :=
  (s.procs p).state = .running ∧ s.np p = none

instance (s : Table n) (p : Fin n) : Decidable (s.Free p) :=
  inferInstanceAs (Decidable (_ ∧ _))

end Table

/-! ## Steps -/

/-- What can happen next. -/
inductive Event (n : Nat) where
  | schedule (p : Fin n)
  | yield (p : Fin n)
  | sleep (p : Fin n) (chan : Nat)
  | wakeup (chan : Chan n)
  | kill (p : Fin n) (pid : Int32)
  /-- A process faults in user space, and trap marks it. -/
  | fault (p : Fin n)
  /-- A process calls fork, which calls allocproc. -/
  | fork (p : Fin n)
  /-- fork or allocproc gives the slot back: no stack or no page table. -/
  | forkFails (p : Fin n)
  | forkEnds (p : Fin n)
  | exit (p : Fin n)
  | wait (p : Fin n)
  deriving DecidableEq

/-- The table after an event, if it can happen. -/
def next (initproc : Fin n) (s : Table n) : Event n → Option (Table n)
  | .schedule p =>
    if (s.procs p).state = .runnable then
      some (s.assign p { s.procs p with state := .running, chan := none })
    else none
  | .yield p =>
    if (s.procs p).state = .running then
      some (s.assign p { s.procs p with state := .runnable })
    else none
  | .sleep p chan =>
    if s.Free p then
      some (s.assign p { s.procs p with state := .sleeping, chan := some (.other chan) })
    else none
  | .wakeup chan => some (s.wakeup1 chan)
  | .kill p pid => if s.Free p then some (s.kill pid).2 else none
  | .fault p =>
    if s.Free p then some (s.assign p { s.procs p with killed := true })
    else none
  | .fork p =>
    if s.Free p then
      match s.firstUnused with
      | some np => some ((s.allocproc np).forks p (some np))
      | none => some s
    else none
  | .forkFails p =>
    match s.np p with
    | some np =>
      if (s.procs p).state = .running then
        some ((s.assign np { s.procs np with state := .unused }).forks p none)
      else none
    | none => none
  | .forkEnds p =>
    match s.np p with
    | some np =>
      if (s.procs p).state = .running then
        some ((s.assign np { s.procs np with parent := some p, state := .runnable }).forks p none)
      else none
    | none => none
  | .exit p =>
    -- exit panics in init
    if s.Free p ∧ p ≠ initproc then some (s.exit initproc p) else none
  | .wait p => if s.Free p then some (s.wait p) else none

/-- The table after userinit: init has the pid 1 and is ready to run, all
other slots have never been used. -/
def userinit (initproc : Fin n) : Table n where
  procs p :=
    { state := if p = initproc then .runnable else .unused
      pid := if p = initproc then 1 else 0
      parent := none
      killed := false
      chan := none }
  np _ := none
  nextpid := 2

/-- The tables that runs reach in which every event is admitted. -/
inductive Reachable (admits : Table n → Event n → Prop) (initproc : Fin n) :
    Table n → Prop where
  | userinit : Reachable admits initproc (userinit initproc)
  | step {s t : Table n} (reached : Reachable admits initproc s)
      (event : Event n) (admitted : admits s event)
      (happens : next initproc s event = some t) :
      Reachable admits initproc t

namespace Reachable

/-- What holds initially and is kept by every event that is admitted holds of
every table reached. -/
theorem invariant {admits : Table n → Event n → Prop} {initproc : Fin n} {s : Table n}
    (P : Table n → Prop)
    (initial : P (Pids.userinit initproc))
    (kept : ∀ s event t, P s → admits s event → next initproc s event = some t → P t)
    (reached : Reachable admits initproc s) :
    P s := by
  induction reached with
  | userinit => exact initial
  | step _ event admitted happens ih =>
    exact kept _ event _ ih admitted happens

end Reachable

/-! ## What an event can do to a slot -/

/-- SLEEPING, RUNNABLE, RUNNING or ZOMBIE. -/
def Started (state : ProcState) : Prop :=
  state ≠ .unused ∧ state ≠ .embryo

/-- A slot keeps its pid and its flag, and at most moves between the states of
a process that has started. -/
structure Slot.Moves (slot after : Slot n) : Prop where
  /-- The pid is kept. -/
  pid : after.pid = slot.pid
  /-- The flag is kept. -/
  killed : after.killed = slot.killed
  /-- The state is kept, or the process has started before. -/
  state : after.state = slot.state ∨ Started slot.state ∧ Started after.state

/-- What an event comes to. -/
inductive Effect (s t : Table n) : Event n → Prop where
  | moves {event : Event n}
      (procs : ∀ q, (s.procs q).Moves (t.procs q))
      (np : t.np = s.np)
      (nextpid : t.nextpid = s.nextpid) :
      Effect s t event
  | marked {p : Fin n} {pid : Int32} (target : Fin n)
      (found : s.withPid pid = some target)
      (table : t = s.assign target (s.procs target).kill) :
      Effect s t (.kill p pid)
  | faulted {p : Fin n}
      (running : (s.procs p).state = .running)
      (table : t = s.assign p { s.procs p with killed := true }) :
      Effect s t (.fault p)
  | allocated {p : Fin n} (np : Fin n)
      (free : s.Free p)
      (found : s.firstUnused = some np)
      (table : t = (s.allocproc np).forks p (some np)) :
      Effect s t (.fork p)
  | abandoned {p : Fin n} (np : Fin n)
      (making : s.np p = some np)
      (table : t = (s.assign np { s.procs np with state := .unused }).forks p none) :
      Effect s t (.forkFails p)
  | started {p : Fin n} (np : Fin n)
      (making : s.np p = some np)
      (table : t = (s.assign np { s.procs np with parent := some p, state := .runnable }).forks p
          none) :
      Effect s t (.forkEnds p)
  | reaped {p : Fin n} (child : Fin n)
      (zombie : (s.procs child).state = .zombie)
      (table : t = s.assign child (s.procs child).reaped) :
      Effect s t (.wait p)

namespace Slot
namespace Moves

theorem refl (slot : Slot n) : slot.Moves slot := ⟨rfl, rfl, .inl rfl⟩

theorem trans {first second third : Slot n}
    (earlier : first.Moves second)
    (later : second.Moves third) :
    first.Moves third := by
  refine ⟨later.pid.trans earlier.pid, later.killed.trans earlier.killed, ?_⟩
  rcases earlier.state with same | ⟨started, startedToo⟩
  · rcases later.state with sameToo | ⟨started, startedToo⟩
    · exact .inl (sameToo.trans same)
    · exact .inr ⟨same ▸ started, startedToo⟩
  · rcases later.state with sameToo | ⟨_, startedLater⟩
    · exact .inr ⟨started, sameToo.symm ▸ startedToo⟩
    · exact .inr ⟨started, startedLater⟩

/-- A slot that moves is used after it if and only if it was before. -/
theorem unused_iff {slot after : Slot n}
    (moves : slot.Moves after) :
    after.state = .unused ↔ slot.state = .unused := by
  rcases moves.state with same | ⟨started, startedToo⟩
  · rw [same]
  · exact iff_of_false startedToo.1 started.1

/-- A slot that moves is an embryo after it if it was before. -/
theorem embryo {slot after : Slot n}
    (moves : slot.Moves after)
    (embryo : slot.state = .embryo) :
    after.state = .embryo := by
  rcases moves.state with same | ⟨started, _⟩
  · rw [same, embryo]
  · exact absurd embryo started.2

end Moves

theorem wakeup1_moves
    (slot : Slot n)
    (chan : Chan n) :
    slot.Moves (slot.wakeup1 chan) := by
  unfold wakeup1
  split
  case isTrue asleep =>
    exact ⟨rfl, rfl, .inr ⟨by simp [Started, asleep.1], by simp [Started]⟩⟩
  case isFalse => exact .refl slot

theorem passOn_moves
    (slot : Slot n)
    (initproc p : Fin n) :
    slot.Moves (slot.passOn initproc p) := by
  unfold passOn
  split
  · exact ⟨rfl, rfl, .inl rfl⟩
  · exact .refl slot

end Slot

namespace Table

@[simp] theorem wakeParent_np (s : Table n) (p : Fin n) :
    (s.wakeParent p).np = s.np := by
  unfold wakeParent
  split <;> rfl

@[simp] theorem wakeInit_np (s : Table n) (initproc p : Fin n) :
    (s.wakeInit initproc p).np = s.np := by
  unfold wakeInit
  split <;> rfl

@[simp] theorem wakeParent_nextpid (s : Table n) (p : Fin n) :
    (s.wakeParent p).nextpid = s.nextpid := by
  unfold wakeParent
  split <;> rfl

@[simp] theorem wakeInit_nextpid (s : Table n) (initproc p : Fin n) :
    (s.wakeInit initproc p).nextpid = s.nextpid := by
  unfold wakeInit
  split <;> rfl

/-- The parts of exit that go over the whole table. -/
theorem abandon_moves
    (s : Table n)
    (initproc p q : Fin n) :
    (s.procs q).Moves ((((s.wakeParent p).wakeInit initproc p).abandon initproc p).procs q) := by
  have parent : (s.procs q).Moves ((s.wakeParent p).procs q) := by
    unfold wakeParent
    split
    · exact Slot.wakeup1_moves _ _
    · exact .refl _
  have init :
      ((s.wakeParent p).procs q).Moves (((s.wakeParent p).wakeInit initproc p).procs q) := by
    unfold wakeInit
    split
    · exact Slot.wakeup1_moves _ _
    · exact .refl _
  exact (parent.trans init).trans (Slot.passOn_moves _ _ _)

end Table

variable {s : Table n} {p : Fin n} {event : Event n}

/-- A process that was running or ready stays started. -/
theorem Effect.of_running
    (before : (s.procs p).state = .running ∨ (s.procs p).state = .runnable)
    (after : Started slot.state)
    (pid : slot.pid = (s.procs p).pid)
    (killed : slot.killed = (s.procs p).killed) :
    Effect s (s.assign p slot) event := by
  refine .moves (fun q => ?_) rfl rfl
  by_cases same : q = p
  · subst same
    simp only [Table.assign, update_self]
    refine ⟨pid, killed, .inr ⟨?_, after⟩⟩
    rcases before with state | state <;> simp [Started, state]
  · simp only [Table.assign, update_of_ne same]
    exact .refl _

/-- The part of exit under the lock only moves slots. -/
theorem Effect.of_exit
    (initproc : Fin n)
    (running : (s.procs p).state = .running) :
    Effect s (s.exit initproc p) event := by
  refine .moves (fun q => ?_) ?_ ?_
  · have others := s.abandon_moves initproc p q
    by_cases same : q = p
    · subst same
      simp only [Table.exit, Table.assign, update_self]
      exact ⟨others.pid, others.killed, .inr ⟨by simp [Started, running], by simp [Started]⟩⟩
    · simp only [Table.exit, Table.assign, update_of_ne same]
      exact others
  · simp only [Table.exit, Table.assign, Table.abandon, Table.wakeInit_np, Table.wakeParent_np]
  · simp only [Table.exit, Table.assign, Table.abandon, Table.wakeInit_nextpid,
      Table.wakeParent_nextpid]

/-- What each event comes to. -/
theorem next_effect {initproc : Fin n}
    (happens : next initproc s event = some t) :
    Effect s t event := by
  cases event with
  | schedule p =>
    simp only [next, Option.ite_none_right_eq_some, Option.some.injEq] at happens
    obtain ⟨ready, rfl⟩ := happens
    exact .of_running (.inr ready) (by simp [Started]) rfl rfl
  | yield p =>
    simp only [next, Option.ite_none_right_eq_some, Option.some.injEq] at happens
    obtain ⟨running, rfl⟩ := happens
    exact .of_running (.inl running) (by simp [Started]) rfl rfl
  | sleep p chan =>
    simp only [next, Option.ite_none_right_eq_some, Option.some.injEq] at happens
    obtain ⟨free, rfl⟩ := happens
    exact .of_running (.inl free.1) (by simp [Started]) rfl rfl
  | wakeup chan =>
    obtain rfl := Option.some.inj happens
    exact .moves (fun _ => Slot.wakeup1_moves _ _) rfl rfl
  | kill p pid =>
    simp only [next, Option.ite_none_right_eq_some, Option.some.injEq] at happens
    obtain ⟨_, rfl⟩ := happens
    unfold Table.kill
    cases found : s.withPid pid with
    | some target => exact .marked target found rfl
    | none => exact .moves (fun _ => .refl _) rfl rfl
  | fault p =>
    simp only [next, Option.ite_none_right_eq_some, Option.some.injEq] at happens
    obtain ⟨free, rfl⟩ := happens
    exact .faulted free.1 rfl
  | fork p =>
    simp only [next, Option.ite_none_right_eq_some] at happens
    obtain ⟨free, happens⟩ := happens
    cases found : s.firstUnused with
    | some np =>
      rw [found] at happens
      exact .allocated np free found (Option.some.inj happens).symm
    | none =>
      rw [found] at happens
      obtain rfl := Option.some.inj happens
      exact .moves (fun _ => .refl _) rfl rfl
  | forkFails p =>
    cases making : s.np p with
    | some np =>
      simp only [next, making, Option.ite_none_right_eq_some, Option.some.injEq] at happens
      exact .abandoned np making happens.2.symm
    | none => simp [next, making] at happens
  | forkEnds p =>
    cases making : s.np p with
    | some np =>
      simp only [next, making, Option.ite_none_right_eq_some, Option.some.injEq] at happens
      exact .started np making happens.2.symm
    | none => simp [next, making] at happens
  | exit p =>
    simp only [next, Option.ite_none_right_eq_some, Option.some.injEq] at happens
    obtain ⟨⟨free, _⟩, rfl⟩ := happens
    exact .of_exit initproc free.1
  | wait p =>
    simp only [next, Option.ite_none_right_eq_some, Option.some.injEq] at happens
    obtain ⟨free, rfl⟩ := happens
    unfold Table.wait
    split
    case h_1 child found =>
      have zombie := List.find?_some found
      simp only [decide_eq_true_eq] at zombie
      exact .reaped child zombie.2 rfl
    case h_2 =>
      split
      · exact .moves (fun _ => .refl _) rfl rfl
      · exact .of_running (.inl free.1) (by simp [Started]) rfl rfl

/-! ## What is always true -/

/-- What is true of every reachable table. -/
structure Sound (s : Table n) : Prop where
  /-- What fork has from allocproc is an embryo. -/
  embryo : ∀ p np, s.np p = some np → (s.procs np).state = .embryo
  /-- No two forks have the same slot. -/
  alone : ∀ p q np, s.np p = some np → s.np q = some np → p = q

/-- The slot that allocproc finds is unused. -/
theorem Table.unused_of_firstUnused {np : Fin n}
    (found : s.firstUnused = some np) :
    (s.procs np).state = .unused := by
  simpa using List.find?_some found

/-- The slot that kill finds has the pid. -/
theorem Table.pid_of_withPid (found : s.withPid pid = some p) :
    (s.procs p).pid = pid := by
  simpa using List.find?_some found

namespace Sound

variable {s : Table n}

/-- A change of one slot that keeps an embryo an embryo. -/
theorem assign
    (sound : Sound s)
    (p : Fin n)
    (slot : Slot n)
    (embryo : (s.procs p).state = .embryo → slot.state = .embryo) :
    Sound (s.assign p slot) := by
  refine ⟨fun maker np making => ?_, sound.alone⟩
  by_cases same : np = p
  · subst same
    simpa only [Table.assign, update_self] using embryo (sound.embryo maker np making)
  · simpa only [Table.assign, update_of_ne same] using sound.embryo maker np making

/-- A fork that ends leaves the slots of the other forks alone. -/
theorem forkDone
    (sound : Sound s)
    (making : s.np p = some np)
    (slot : Slot n) :
    Sound ((s.assign np slot).forks p none) := by
  have others : ∀ maker, maker ≠ p → ((s.assign np slot).forks p none).np maker = s.np maker := by
    intro maker different
    simp only [Table.forks, Table.assign, update_of_ne different]
  have self : ((s.assign np slot).forks p none).np p = none := by
    simp only [Table.forks, update_self]
  refine ⟨fun maker other makingOther => ?_, fun maker another other makingOther makingToo => ?_⟩
  · by_cases same : maker = p
    · rw [same, self] at makingOther
      nomatch makingOther
    · rw [others maker same] at makingOther
      have different : other ≠ np := by
        rintro rfl
        exact same (sound.alone maker p other makingOther making)
      simpa only [Table.forks, Table.assign, update_of_ne different]
        using sound.embryo maker other makingOther
  · by_cases same : maker = p
    · rw [same, self] at makingOther
      nomatch makingOther
    · by_cases sameToo : another = p
      · rw [sameToo, self] at makingToo
        nomatch makingToo
      · rw [others maker same] at makingOther
        rw [others another sameToo] at makingToo
        exact sound.alone maker another other makingOther makingToo

/-- allocproc gives a fork a slot that no other fork has. -/
theorem allocproc {p np : Fin n}
    (sound : Sound s)
    (found : s.firstUnused = some np) :
    Sound ((s.allocproc np).forks p (some np)) := by
  have unused := Table.unused_of_firstUnused found
  have fresh : ∀ maker, s.np maker ≠ some np := by
    intro maker making
    have embryo := sound.embryo maker np making
    rw [unused] at embryo
    nomatch embryo
  have others : ∀ maker, maker ≠ p →
      ((s.allocproc np).forks p (some np)).np maker = s.np maker := by
    intro maker different
    simp only [Table.forks, Table.allocproc, Table.assign, update_of_ne different]
  have self : ((s.allocproc np).forks p (some np)).np p = some np := by
    simp only [Table.forks, update_self]
  refine ⟨fun maker other making => ?_, fun maker another other making makingToo => ?_⟩
  · by_cases same : other = np
    · subst same
      simp only [Table.forks, Table.allocproc, Table.assign, update_self]
    · have different : maker ≠ p := by
        rintro rfl
        exact same (Option.some.inj (self.symm.trans making)).symm
      rw [others maker different] at making
      simpa only [Table.forks, Table.allocproc, Table.assign,
        update_of_ne same] using sound.embryo maker other making
  · by_cases same : maker = p
    · subst same
      obtain rfl := Option.some.inj (self.symm.trans making)
      by_contra different
      rw [others another (Ne.symm different)] at makingToo
      exact fresh another makingToo
    · rw [others maker same] at making
      by_cases sameToo : another = p
      · subst sameToo
        obtain rfl := Option.some.inj (self.symm.trans makingToo)
        exact absurd making (fresh maker)
      · rw [others another sameToo] at makingToo
        exact sound.alone maker another other making makingToo

/-- Every event keeps the table sound. -/
theorem effect {s t : Table n}
    (sound : Sound s)
    (effect : Effect s t event) :
    Sound t := by
  cases effect with
  | moves procs np _ =>
    exact ⟨fun p q making => (procs q).embryo (sound.embryo p q (np ▸ making)),
      fun p q r making makingToo =>
        sound.alone p q r (np ▸ making) (np ▸ makingToo)⟩
  | marked target _ table =>
    subst table
    exact sound.assign target _ fun embryo => by
      simp only [Slot.kill, embryo, reduceCtorEq, if_false]
  | faulted running table =>
    subst table
    exact sound.assign _ _ fun embryo => embryo
  | allocated np _ found table =>
    subst table
    exact sound.allocproc found
  | abandoned np making table =>
    subst table
    exact sound.forkDone making _
  | started np making table =>
    subst table
    exact sound.forkDone making _
  | reaped child zombie table =>
    subst table
    exact sound.assign child _ fun embryo => by
      rw [zombie] at embryo
      nomatch embryo

end Sound

/-- Every event is admitted. -/
def Any (_ : Table n) (_ : Event n) : Prop := True

/-- init runs, and has done nothing yet. -/
def initRuns : Table NPROC :=
  (userinit 0).assign 0
    { (userinit (0 : Fin NPROC)).procs 0 with state := .running, chan := none }

theorem initRuns_reachable
    (admits : Table NPROC → Event NPROC → Prop)
    (schedules : ∀ s p, admits s (.schedule p)) :
    Reachable admits 0 initRuns :=
  .step .userinit (.schedule 0) (schedules _ 0) rfl

/-! ## Uniqueness -/

/-- The pids of all processes are different and positive. -/
structure Unique (s : Table n) : Prop where
  /-- No two processes have the same pid. -/
  distinct : ∀ p q, (s.procs p).state ≠ .unused →
    (s.procs q).state ≠ .unused → (s.procs p).pid = (s.procs q).pid → p = q
  /-- Pids are positive. -/
  positive : ∀ p, (s.procs p).state ≠ .unused → 0 < (s.procs p).pid

/-- allocproc does not give a slot a pid once nextpid has overflowed. -/
def Counts (s : Table n) : Event n → Prop
  | .fork _ => ∀ np, s.firstUnused = some np → 0 < s.nextpid
  | _ => True

/-- The pids of the processes are positive, different, and below the number
whose low 32 bits nextpid is. -/
structure Numbered (s : Table n) (bound : Nat) : Prop where
  /-- nextpid. -/
  nextpid : s.nextpid = Int32.ofNat bound
  /-- nextpid has overflowed at most just now. -/
  bounded : bound ≤ 2 ^ 31
  /-- Pids are positive and have been given out. -/
  range : ∀ p, (s.procs p).state ≠ .unused →
    0 < (s.procs p).pid.toInt ∧ (s.procs p).pid.toInt < bound
  /-- Pids are different. -/
  distinct : ∀ p q, (s.procs p).state ≠ .unused →
    (s.procs q).state ≠ .unused → (s.procs p).pid = (s.procs q).pid → p = q

namespace Numbered

variable {s : Table n} {bound : Nat}

theorem unique (numbered : Numbered s bound) :
    Unique s :=
  ⟨numbered.distinct, fun p used =>
    Int32.lt_iff_toInt_lt.mpr (numbered.range p used).1⟩

/-- Processes keep their pids, and none is added. -/
theorem kept {s t : Table n}
    (numbered : Numbered s bound)
    (nextpid : t.nextpid = s.nextpid)
    (used : ∀ q, (t.procs q).state ≠ .unused → (s.procs q).state ≠ .unused ∧
      (t.procs q).pid = (s.procs q).pid) :
    Numbered t bound := by
  refine ⟨nextpid.trans numbered.nextpid, numbered.bounded, ?_, ?_⟩
  · intro p usedAfter
    obtain ⟨usedBefore, pid⟩ := used p usedAfter
    rw [pid]
    exact numbered.range p usedBefore
  · intro p q usedAfter usedToo same
    obtain ⟨usedBefore, pid⟩ := used p usedAfter
    obtain ⟨usedBeforeToo, pidToo⟩ := used q usedToo
    exact numbered.distinct p q usedBefore usedBeforeToo (pid.symm.trans (same.trans pidToo))

section

variable (numbered : Numbered s bound)

include numbered

/-- One slot is assigned with the pid it had, or becomes unused. -/
theorem assign
    (p : Fin n)
    (slot : Slot n)
    (used : slot.state ≠ .unused → (s.procs p).state ≠ .unused ∧ slot.pid = (s.procs p).pid) :
    Numbered (s.assign p slot) bound := by
  refine numbered.kept rfl fun q => ?_
  by_cases same : q = p
  · subst same
    simpa only [Table.assign, update_self] using used
  · simp only [Table.assign, update_of_ne same]
    exact fun used => ⟨used, trivial⟩

/-- A fork begins or ends. -/
theorem forks
    (p : Fin n)
    (np : Option (Fin n)) :
    Numbered (s.forks p np) bound :=
  ⟨numbered.nextpid, numbered.bounded, numbered.range, numbered.distinct⟩

/-- The number nextpid stands for is in range as long as nextpid is
positive. -/
theorem lt_of_positive (positive : 0 < s.nextpid) :
    bound < 2 ^ 31 := by
  refine lt_of_le_of_ne numbered.bounded fun overflow => ?_
  rw [numbered.nextpid, overflow] at positive
  exact absurd positive (by decide)

/-- allocproc gives out the next number. -/
theorem allocproc {np : Fin n}
    (positive : 0 < s.nextpid) :
    Numbered (s.allocproc np) (bound + 1) := by
  have small := numbered.lt_of_positive positive
  have value : s.nextpid.toInt = bound := by
    rw [numbered.nextpid, Int32.toInt_ofNat_of_lt small]
  have new : ((s.allocproc np).procs np).pid = s.nextpid := by
    simp only [Table.allocproc, Table.assign, update_self]
  have others : ∀ q, q ≠ np → (s.allocproc np).procs q = s.procs q := by
    intro q different
    simp only [Table.allocproc, Table.assign, update_of_ne different]
  have older : ∀ q, q ≠ np → ((s.allocproc np).procs q).state ≠ .unused →
      ((s.allocproc np).procs q).pid ≠ s.nextpid := by
    intro q different used same
    rw [others q different] at used same
    have range := (numbered.range q used).2
    rw [same, value] at range
    exact absurd range (lt_irrefl _)
  refine ⟨?_, small, fun q used => ?_, fun p q used usedToo same => ?_⟩
  · rw [Int32.ofNat_add, ← numbered.nextpid]
    rfl
  · by_cases same : q = np
    · subst same
      rw [new, value]
      have above := Int32.lt_iff_toInt_lt.mp positive
      rw [value] at above
      exact ⟨above, by omega⟩
    · rw [others q same] at used ⊢
      have range := numbered.range q used
      exact ⟨range.1, by omega⟩
  · by_cases first : p = np
    · by_cases second : q = np
      · rw [first, second]
      · rw [first, new] at same
        exact absurd same.symm (older q second usedToo)
    · by_cases second : q = np
      · rw [second, new] at same
        exact absurd same (older p first used)
      · rw [others p first] at used same
        rw [others q second] at usedToo same
        exact numbered.distinct p q used usedToo same

end

/-- Every event keeps the pids numbered as long as nextpid has not
overflowed. -/
theorem effect {s t : Table n}
    (numbered : Numbered s bound)
    (sound : Sound s)
    (counts : Counts s event)
    (effect : Effect s t event) :
    ∃ bound, Numbered t bound := by
  cases effect with
  | moves procs _ nextpid =>
    exact ⟨bound, numbered.kept nextpid fun q used =>
      ⟨fun unused => used ((procs q).unused_iff.mpr unused), (procs q).pid⟩⟩
  | marked target _ table =>
    subst table
    refine ⟨bound, numbered.assign target _ fun used => ⟨?_, rfl⟩⟩
    intro unused
    simp only [Slot.kill, unused, reduceCtorEq, if_false, ne_eq, not_true_eq_false] at used
  | faulted _ table =>
    subst table
    exact ⟨bound, numbered.assign _ _ fun used => ⟨used, rfl⟩⟩
  | allocated np _ found table =>
    subst table
    exact ⟨bound + 1, (numbered.allocproc (counts np found)).forks _ _⟩
  | abandoned np _ table =>
    subst table
    exact ⟨bound, (numbered.assign np _ fun used => absurd rfl used).forks _ _⟩
  | started np making table =>
    subst table
    refine ⟨bound, .forks (numbered.assign np _ ?_) _ _⟩
    have embryo := sound.embryo _ np making
    exact fun _ => ⟨by rw [embryo]; nofun, rfl⟩
  | reaped child _ table =>
    subst table
    exact ⟨bound, numbered.assign child _ fun used => absurd rfl used⟩

end Numbered

/-- init has the pid 1. -/
theorem userinit_numbered (initproc : Fin n) :
    Numbered (userinit initproc) 2 := by
  have init : ∀ p, ((userinit initproc).procs p).state ≠ .unused → p = initproc := by
    intro p used
    by_contra other
    exact used (if_neg other)
  refine ⟨rfl, by decide, fun p used => ?_, fun p q used usedToo _ => ?_⟩
  · rw [init p used]
    simp only [userinit, if_true]
    decide
  · rw [init p used, init q usedToo]

/-- init runs, outside of fork, and the slot after it is unused. -/
structure Idle (s : Table (n + 2)) (count : Nat) : Prop where
  reached : Reachable Any 0 s
  free : s.Free 0
  /-- init has the pid 1. -/
  init : (s.procs 0).pid = 1
  /-- The next slot is unused. -/
  unused : (s.procs 1).state = .unused
  /-- How often allocproc has been called. -/
  nextpid : s.nextpid = Int32.ofNat count

namespace Idle

variable {s : Table (n + 2)} {count : Nat}

theorem firstUnused (idle : Idle s count) :
    s.firstUnused = some 1 := by
  have running : (s.procs 0).state ≠ .unused := by
    rw [idle.free.1]
    nofun
  have second : (s.procs (Fin.succ 0)).state = .unused := idle.unused
  simp only [Table.firstUnused, List.finRange_succ, List.find?_cons, running,
    decide_false, List.map_cons, second, decide_true]
  rfl

/-- fork has a slot, with the pid nextpid. -/
theorem fork (idle : Idle s count) :
    Reachable Any 0 ((s.allocproc 1).forks 0 (some 1)) := by
  refine .step idle.reached (.fork 0) trivial ?_
  simp only [next, if_pos idle.free, idle.firstUnused]

/-- A fork that fails still advances nextpid. -/
theorem forkFails (idle : Idle s count) :
    ∃ t : Table (n + 2), Idle t (count + 1) := by
  have different : (0 : Fin (n + 2)) ≠ 1 := by simp
  have running := idle.free.1
  refine ⟨(((s.allocproc 1).forks 0 (some 1)).assign 1
      { ((s.allocproc 1).forks 0 (some 1)).procs 1 with
        state := .unused }).forks 0 none,
    .step idle.fork (.forkFails 0) trivial ?_, ⟨?_, ?_⟩, ?_, ?_, ?_⟩
  · simp only [next, Table.forks, Table.allocproc, Table.assign,
      update_self, update_of_ne different, running, if_true]
  all_goals
    simp only [Table.forks, Table.allocproc, Table.assign,
      update_self, update_of_ne different, running,
      idle.init, idle.nextpid]
  rw [Int32.ofNat_add]
  rfl

/-- Forks can fail any number of times. -/
theorem exists_idle (count : Nat) :
    ∃ s : Table (n + 2), Idle s (2 + count) := by
  induction count with
  | zero =>
    refine ⟨_, .step .userinit (.schedule 0) trivial rfl, ⟨?_, rfl⟩, ?_, ?_, rfl⟩
    all_goals simp [userinit, Table.assign]
  | succ count ih =>
    obtain ⟨s, idle⟩ := ih
    exact idle.forkFails

end Idle

end Pids
end Proc
end Xv6
