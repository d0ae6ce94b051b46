import Xv6.Proc.Pids

/-!
# kill

Which slot kill finds depends on the pids and flags that unused slots still
hold: a slot that has never been used or has been reaped has the pid 0, and one
that a failed fork has given back has the pid of that fork.  kill is exact
unless it finds such a slot, and a flag that it leaves there is taken over by
the next process in the slot.
-/

namespace Xv6
namespace Proc
namespace Pids

open Function
open Memory (NPROC)

variable {n : Nat}

/-- A slot holds the process of a pid. -/
def Table.Named (s : Table n) (pid : Int32) (p : Fin n) : Prop :=
  (s.procs p).state ≠ .unused ∧ (s.procs p).pid = pid

/-- kill does not find an unused slot. -/
def Table.Reaches (s : Table n) (pid : Int32) : Prop :=
  ∀ p, s.withPid pid = some p → (s.procs p).state ≠ .unused

/-- kill returns 0 if and only if there is a process of the pid, and marks one
such process and nothing else. -/
structure KillExact (s : Table n) (pid : Int32) : Prop where
  /-- What kill returns. -/
  returns : (s.kill pid).1 = 0 ↔ ∃ p, s.Named pid p
  /-- Whom kill marks. -/
  marks : (s.kill pid).1 = 0 → ∃ p, s.Named pid p ∧ ((s.kill pid).2.procs p).killed = true ∧
    ∀ q, q ≠ p → (s.kill pid).2.procs q = s.procs q
  /-- Otherwise kill returns -1 and does nothing. -/
  fails : (s.kill pid).1 ≠ 0 → s.kill pid = (-1, s)

/-- No kill marks an unused slot, and no fork gives a marked slot back. -/
def Spares (s : Table n) : Event n → Prop
  | .kill _ pid => s.Reaches pid
  | .forkFails p => ∀ np, s.np p = some np → (s.procs np).killed = false
  | _ => True

/-- No unused slot is marked as killed. -/
def Clean (s : Table n) : Prop :=
  ∀ q, (s.procs q).state = .unused → (s.procs q).killed = false

namespace Table

variable {s : Table n} {pid : Int32}

theorem kill_of_found (found : s.withPid pid = some p) :
    s.kill pid = (0, s.assign p (s.procs p).kill) := by
  simp only [kill, found]

theorem kill_of_none (missing : s.withPid pid = none) :
    s.kill pid = (-1, s) := by
  simp only [kill, missing]

/-- Where kill finds nothing there is no process of the pid. -/
theorem not_named_of_none
    (missing : s.withPid pid = none)
    (p : Fin n) :
    ¬s.Named pid p := by
  rintro ⟨_, named⟩
  have other := List.find?_eq_none.mp missing p (List.mem_finRange p)
  exact other (decide_eq_true named)

/-- kill is exact where it does not find an unused slot. -/
theorem Reaches.killExact (reaches : s.Reaches pid) :
    KillExact s pid := by
  cases found : s.withPid pid with
  | some p =>
    have named : s.Named pid p := ⟨reaches p found, pid_of_withPid found⟩
    refine ⟨?_, fun _ => ⟨p, named, ?_, fun q different => ?_⟩, ?_⟩
    · rw [kill_of_found found]
      exact iff_of_true rfl ⟨p, named⟩
    · rw [kill_of_found found]
      simp only [assign, update_self, Slot.kill]
    · rw [kill_of_found found]
      simp only [assign, update_of_ne different]
    · intro fails
      rw [kill_of_found found] at fails
      exact absurd rfl fails
  | none =>
    have returned : (s.kill pid).1 ≠ 0 := by
      rw [kill_of_none found]
      exact of_decide_eq_true rfl
    refine ⟨iff_of_false returned ?_, fun zero => absurd zero returned, fun _ => kill_of_none found⟩
    rintro ⟨p, named⟩
    exact not_named_of_none found p named

/-- Where no unused slot is marked, kill is exact only where it does not find
an unused slot. -/
theorem reaches_of_killExact
    (clean : Clean s)
    (exact : KillExact s pid) :
    s.Reaches pid := by
  intro p found unused
  have returned : (s.kill pid).1 = 0 := by rw [kill_of_found found]
  obtain ⟨target, named, _, others⟩ := exact.marks returned
  have different : p ≠ target := by
    rintro rfl
    exact named.1 unused
  have same := others p different
  rw [kill_of_found found] at same
  simp only [assign, update_self] at same
  have marked : (s.procs p).killed = true := by
    rw [← same]
    rfl
  rw [clean p unused] at marked
  cases marked

end Table

/-- A change of one slot keeps the others clean. -/
theorem Clean.assign
    (clean : Clean s)
    (p : Fin n)
    (slot : Slot n)
    (cleanSlot : slot.state = .unused → slot.killed = false) :
    Clean (s.assign p slot) := by
  intro q
  by_cases same : q = p
  · subst same
    simpa only [Table.assign, update_self] using cleanSlot
  · simpa only [Table.assign, update_of_ne same] using clean q

/-- Unused slots stay clean as long as none is marked. -/
theorem Clean.effect {event : Event n}
    (clean : Clean s)
    (spares : Spares s event)
    (effect : Effect s t event) :
    Clean t := by
  cases effect with
  | moves procs _ _ =>
    intro q unused
    rw [(procs q).killed]
    exact clean q ((procs q).unused_iff.mp unused)
  | marked target found table =>
    subst table
    refine clean.assign target _ fun unused => ?_
    have used := spares target found
    simp only [Slot.kill] at unused
    split at unused
    · cases unused
    · exact absurd unused used
  | faulted running table =>
    subst table
    refine clean.assign _ _ fun unused => ?_
    rw [running] at unused
    cases unused
  | allocated np _ _ table =>
    subst table
    exact clean.assign np _ fun used => by cases used
  | abandoned np making table =>
    subst table
    exact clean.assign np _ fun _ => spares np making
  | started np _ table =>
    subst table
    exact clean.assign np _ fun used => by cases used
  | reaped child _ table =>
    subst table
    exact clean.assign child _ fun _ => rfl

/-- A slot that becomes marked by an assignment is the one assigned. -/
theorem Table.marked_of_assign {s : Table n} {slot : Slot n}
    (before : (s.procs q).killed = false)
    (after : ((s.assign p slot).procs q).killed = true) :
    q = p ∧ slot.killed = true := by
  by_cases same : q = p
  · subst same
    simp only [assign, update_self] at after
    exact ⟨rfl, after⟩
  · simp only [assign, update_of_ne same, before] at after
    cases after

/-- A process becomes marked by a kill of its pid or by its own fault only. -/
theorem Effect.killed_by {s t : Table n} {q : Fin n}
    (effect : Effect s t event)
    (before : (s.procs q).killed = false)
    (after : (t.procs q).killed = true) :
    (∃ p, event = .kill p (s.procs q).pid) ∨ event = .fault q := by
  cases effect with
  | moves procs _ _ =>
    rw [(procs q).killed, before] at after
    cases after
  | marked target found table =>
    subst table
    obtain ⟨rfl, _⟩ := Table.marked_of_assign before after
    rw [Table.pid_of_withPid found]
    exact .inl ⟨_, rfl⟩
  | faulted _ table =>
    subst table
    obtain ⟨rfl, _⟩ := Table.marked_of_assign before after
    exact .inr rfl
  | allocated np _ _ table | abandoned np _ table | started np _ table =>
    -- the slot is assigned with the flag it had
    subst table
    obtain ⟨rfl, marked⟩ := Table.marked_of_assign before after
    rw [before] at marked
    cases marked
  | reaped child _ table =>
    subst table
    obtain ⟨rfl, marked⟩ := Table.marked_of_assign before after
    cases marked

/-- In a run in which no kill marks an unused slot and no failed fork gives a
marked slot back, kill of a pid is exact if and only if it does not find an
unused slot, every process starts without being marked, and becomes marked by
a kill of its pid or by its own fault only. -/
theorem kill_reaches_the_named_process
    (initproc : Fin n)
    (s : Table n)
    (reached : Reachable Spares initproc s) :
    (∀ pid, KillExact s pid ↔ s.Reaches pid) ∧
      (∀ p np t, next initproc s (.fork p) = some t → t.np p = some np →
        (t.procs np).killed = false) ∧
      ∀ event t q, next initproc s event = some t →
        (s.procs q).killed = false → (t.procs q).killed = true →
        (∃ p, event = .kill p (s.procs q).pid) ∨ event = .fault q := by
  have clean : Clean s := by
    refine reached.invariant Clean (fun _ _ => rfl) ?_
    intro before event after clean spares happens
    exact clean.effect spares (next_effect happens)
  refine ⟨fun pid => ⟨Table.reaches_of_killExact clean, Table.Reaches.killExact⟩,
    fun p np t happens making => ?_, fun event t q happens => (next_effect happens).killed_by⟩
  have free : s.Free p := by
    by_contra busy
    simp only [next, if_neg busy, reduceCtorEq] at happens
  cases next_effect happens with
  | moves _ kept _ =>
    rw [kept, free.2] at making
    cases making
  | allocated found _ first table =>
    subst table
    simp only [Table.forks, Table.allocproc, Table.assign, update_self, Option.some.injEq] at making
    subst making
    simp only [Table.forks, Table.allocproc, Table.assign, update_self]
    exact clean found (Table.unused_of_firstUnused first)

/-- The condition on the runs can be met, and kill then reaches init. -/
theorem kill_reaches_the_named_process_init :
    Reachable Spares (0 : Fin NPROC) initRuns ∧ initRuns.Reaches 1 ∧ KillExact initRuns 1 := by
  have reached : Reachable Spares (0 : Fin NPROC) initRuns :=
    initRuns_reachable Spares fun _ _ => trivial
  have reaches : initRuns.Reaches 1 := by
    intro p found
    obtain rfl : 0 = p := Option.some.inj (Eq.trans (by rfl) found)
    exact nofun
  exact ⟨reached, reaches, ((kill_reaches_the_named_process 0 initRuns reached).1 1).mpr reaches⟩

/-- kill(0) returns 0 although no process has the pid 0, and the next process
that fork creates is marked as killed from the start. -/
theorem kill_marks_an_unused_slot :
    Reachable Any (0 : Fin NPROC) initRuns ∧ (initRuns.kill 0).1 = 0 ∧ (¬∃ p, initRuns.Named 0 p) ∧
      ∃ t u, next 0 initRuns (.kill 0 0) = some t ∧ next 0 t (.fork 0) = some u ∧
        u.np 0 = some 1 ∧ (u.procs 1).pid = 2 ∧ (u.procs 1).killed = true := by
  refine ⟨initRuns_reachable Any fun _ _ => trivial, rfl, ?_, _, _, rfl, rfl, rfl, rfl, rfl⟩
  rintro ⟨p, used, pid⟩
  by_cases init : p = 0
  · subst init
    nomatch pid
  · simp only [initRuns, Table.assign, update_of_ne init, userinit, if_neg init] at used
    exact used rfl

end Pids
end Proc
end Xv6
