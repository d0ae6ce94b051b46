import Xv6.Pipe.Stream

/-!
# Sleepers on a pipe

When `p->lock` is free, a process should sleep on a channel of a pipe only as
long as it has to wait: a reader while the pipe is empty and may be written, a
writer while it is full and may be read.  One exit of pipewrite breaks this:
the early return of a writer that was killed, or whose readers are gone, wakes
nobody, although the writer may have filled the pipe on the way to it.
-/

namespace Xv6
namespace Pipe

open Monitor

/-- Why a process may sleep on a channel of a pipe. -/
def Waits (p : Pipe) : Chan → Prop
  | .nread => p.empty = true ∧ p.writeopen = true
  | .nwrite => p.full = true ∧ p.readopen = true

/-- Every process that sleeps on a channel has to. -/
def Attended (state : State Stream Chan Call) : Prop :=
  ∀ thread on resume, state.activity thread = .asleep on resume → state.shared.pipe.Waits on

/-- The bytes that can be stored before the pipe is full. -/
def room (p : Pipe) : Nat := PIPESIZE - (p.nwrite - p.nread).toNat

/-- A section of pipewrite ends early: it has more bytes than there is room
for, and the process was killed or the read end is closed. -/
def EndsEarly (state : State Stream Chan Call) (thread : Nat) : Call → Prop
  | .write _ left => state.shared.pipe.room < left.length ∧
      (state.shared.pipe.readopen = false ∨ state.killed thread = true)
  | .read _ => False
  | .close _ => False

/-- No reader sleeps while a section of pipewrite that ends early finds room in
the pipe. -/
def Heard (state : State Stream Chan Call) (thread : Nat) (request : Call) :
    Prop :=
  EndsEarly state thread request → 0 < state.shared.pipe.room →
    ∀ other resume, state.activity other ≠ .asleep .nread resume

/-- Sections on a page that has not been freed, each of them heard. -/
def LiveHeard (state : State Stream Chan Call) (thread : Nat) (request : Call) :
    Prop :=
  Live state thread request ∧ Heard state thread request

/-- Nothing is stored in a full pipe. -/
theorem fill_full
    (full : p.full = true)
    (request : List UInt8) :
    fill request p = (p, [], request) := by
  cases request with
  | nil => rfl
  | cons byte rest => simp [fill, full]

namespace Carries

variable {p : Pipe} {stored delivered : List UInt8}

theorem room_eq (carries : Carries p stored delivered) :
    p.room = delivered.length + PIPESIZE - stored.length := by
  have := carries.le
  have := carries.fits
  rw [room, carries.toNat_sub]
  omega

/-- The store loop fills the room it finds if the request does not fit. -/
theorem fill_left
    (carries : Carries p stored delivered)
    (request : List UInt8) :
    ((fill request p).2.2 ≠ [] ↔ p.room < request.length) ∧ ((fill request p).2.2 ≠ [] →
        (fill request p).2.1.length = p.room) := by
  obtain ⟨after, split, ended, _⟩ := fill_spec carries request
  have length := congrArg List.length split
  rw [List.length_append] at length
  have bounded := after.fits
  rw [List.length_append] at bounded
  have space := carries.room_eq
  have filled : (fill request p).2.2 ≠ [] → (fill request p).2.1.length = p.room := by
    intro unfinished
    have full := after.full_iff.mp (ended unfinished)
    rw [List.length_append] at full
    omega
  refine ⟨⟨?_, ?_⟩, filled⟩
  · intro unfinished
    have := filled unfinished
    have := List.length_pos_iff.mpr unfinished
    omega
  · intro larger finished
    rw [finished, List.length_nil] at length
    omega

end Carries

section Steps

variable {state : State Stream Chan Call} {thread : Nat} {request : Call}

/-- A section that falls asleep has to. -/
theorem waits_of_sleep
    (carries : Carries state.shared.pipe state.shared.stored state.shared.delivered)
    (exit : (next state thread request).exit = .sleep on resume) :
    (next state thread request).pipe.Waits on := by
  cases request with
  | write n left =>
    obtain ⟨pipe, _, _, ⟨_, _, left⟩ | ⟨_, _, _, left⟩ | ⟨unfinished, readopen, _, _, asleep⟩⟩ :=
      pipewrite_eq n left (state.killed thread) state.shared.pipe
    · simp [next, Call.critical, left] at exit
    · simp [next, Call.critical, left] at exit
    · simp only [next, Call.critical, asleep, Exit.sleep.injEq] at exit
      obtain ⟨rfl, _⟩ := exit
      simp only [next, Call.critical, pipe]
      exact ⟨(fill_spec carries _).2.2.1 unfinished, readopen⟩
  | read n =>
    obtain ⟨_, ⟨none, writeopen, pipe, _, _, ⟨left, _⟩ | asleep⟩ | ⟨_, _, _, _, left⟩⟩ :=
      piperead_eq n (state.killed thread) state.shared.pipe
    · simp [next, Call.critical, left] at exit
    · simp only [next, Call.critical, asleep, Exit.sleep.injEq] at exit
      obtain ⟨rfl, _⟩ := exit
      simp only [next, Call.critical, pipe]
      exact ⟨none, writeopen⟩
    · simp [next, Call.critical, left] at exit
  | close writable =>
    cases writable <;> simp [next, Call.critical, pipeclose] at exit

/-- A section that does not end early with bytes stored wakes the sleepers it
concerns. -/
theorem waits_of_unwoken
    (carries : Carries state.shared.pipe state.shared.stored state.shared.delivered)
    (before : state.shared.pipe.Waits on)
    (unwoken : on ∉ (next state thread request).wakes)
    (heard : on = .nread → EndsEarly state thread request → state.shared.pipe.room = 0) :
    (next state thread request).pipe.Waits on := by
  cases request with
  | write n left =>
    obtain ⟨pipe, _, _, cases⟩ :=
      pipewrite_eq n left (state.killed thread) state.shared.pipe
    obtain ⟨_, _, _, readopen, _⟩ := fill_spec carries left
    simp only [next, Call.critical] at unwoken ⊢
    rw [pipe]
    cases on with
    | nwrite =>
      rw [fill_full before.1]
      exact before
    | nread =>
      obtain ⟨_, wakes, _⟩ | ⟨unfinished, reason, _⟩ | ⟨_, _, _, wakes, _⟩ := cases
      · simp [wakes] at unwoken
      · have larger := (carries.fill_left left).1.mp unfinished
        rw [readopen] at reason
        have none := heard rfl ⟨larger, reason⟩
        have same := carries.empty_iff.mp before.1
        rw [carries.room_eq] at none
        unfold PIPESIZE at none
        omega
      · simp [wakes] at unwoken
  | read n =>
    obtain ⟨_, ⟨_, _, pipe, _⟩ | ⟨reason, _, _, wakes, _⟩⟩ :=
      piperead_eq n (state.killed thread) state.shared.pipe
    · simp only [next, Call.critical, pipe]
      exact before
    · simp only [next, Call.critical, wakes] at unwoken
      cases on with
      | nwrite => simp at unwoken
      | nread =>
        have empty := before.1
        have writeopen := before.2
        simp [empty, writeopen] at reason
  | close writable =>
    cases writable <;> cases on <;>
      simp only [next, Call.critical, pipeclose, Bool.false_eq_true, if_false,
        if_true, List.mem_singleton, not_true_eq_false, reduceCtorEq,
        not_false_eq_true] at unwoken ⊢
    · exact before
    · exact before

/-- A section that ends early with bytes stored strands the readers that
sleep. -/
theorem not_attended_of_endsEarly
    (carries : Carries state.shared.pipe state.shared.stored state.shared.delivered)
    (active : state.activity thread = .ready request)
    (early : EndsEarly state thread request)
    (space : 0 < state.shared.pipe.room)
    (asleep : state.activity other = .asleep .nread resume) :
    ¬Attended (state.enter behaviour thread request) := by
  cases request with
  | read n => exact early.elim
  | close writable => exact early.elim
  | write n left =>
    obtain ⟨larger, reason⟩ := early
    have unfinished := (carries.fill_left left).1.mpr larger
    have filled := (carries.fill_left left).2 unfinished
    obtain ⟨after, _, _, readopen, _⟩ := fill_spec carries left
    obtain ⟨pipe, _, _, ⟨finished, _⟩ | ⟨_, _, wakes, _⟩ | ⟨_, stillOpen, alive, _⟩⟩ :=
      pipewrite_eq n left (state.killed thread) state.shared.pipe
    · exact absurd finished unfinished
    · intro attended
      have different : other ≠ thread := by
        intro same
        rw [same, active] at asleep
        cases asleep
      have still : (state.enter behaviour thread (.write n left)).activity
          other = .asleep .nread resume := by
        simp [State.enter, different, State.outcome, behaviour,
          Call.critical, wakes, asleep, Activity.wake]
      have empty := (attended other .nread resume still).1
      change (pipewrite n left (state.killed thread) state.shared.pipe).pipe.empty = true at empty
      rw [pipe, after.empty_iff, List.length_append] at empty
      have := carries.le
      omega
    · rw [readopen] at stillOpen
      simp [stillOpen, alive] at reason

end Steps

/-- Runs in which every section is heard keep every sleeper attended, and of
the sections that may come next exactly the heard ones do. -/
theorem attended_iff_heard {data : Fin PIPESIZE → UInt8}
    {state : State Stream Chan Call}
    (reached : Reachable behaviour LiveHeard (opened data) state) :
    Attended state ∧ ∀ thread request, state.activity thread = .ready request →
        Live state thread request → (Attended (state.enter behaviour thread request) ↔
          Heard state thread request) := by
  have attended : ∀ {state}, Reachable behaviour LiveHeard (opened data) state →
      Attended state := by
    intro state reached thread on resume asleep
    refine reached.asleep (fun on _ stream => stream.pipe.Waits on) ?_ ?_ ?_ asleep
    · intro thread on resume asleep
      cases asleep
    · intro state thread request on resume reached _ _ exit
      exact waits_of_sleep (Carries.reachable reached) exit
    · intro state thread request other on resume reached _ admitted asleep unwoken before
      refine waits_of_unwoken (Carries.reachable reached) before unwoken ?_
      intro reading early
      by_contra some
      subst reading
      exact admitted.2 early (Nat.pos_of_ne_zero some) other resume asleep
  refine ⟨attended reached, fun thread request active live => ⟨?_, ?_⟩⟩
  · intro after early space other resume asleep
    exact not_attended_of_endsEarly (Carries.reachable reached) active early space asleep after
  · intro heard
    exact attended (reached.step (.enter thread request active ⟨live, heard⟩))

/-- A reader sleeps on a new pipe. -/
def waiting : State Stream Chan Call :=
  ((opened fun _ => 0).become 1 (.ready (.read 1))).enter behaviour 1 (.read 1)

theorem waiting_reachable
    (admitted : admits ((opened fun _ => 0).become 1 (.ready (.read 1))) 1 (.read 1)) :
    Reachable behaviour admits (opened fun _ => 0) waiting :=
  .step (.step .initial (.start 1 (Call.read 1) rfl trivial)) (.enter 1 (Call.read 1) rfl admitted)

theorem attended_iff_heard_waiting :
    waiting.activity 1 = .asleep .nread (.read 1) ∧ Attended waiting :=
  ⟨rfl, (attended_iff_heard (waiting_reachable ⟨rfl, False.elim⟩)).1⟩

/-- While the reader sleeps, a process calls pipewrite with more bytes than
the pipe can hold, and is killed before it has the lock. -/
def filling : State Stream Chan Call :=
  (waiting.become 0 (.ready (.write 513 (List.replicate 513 0)))).kill 0

/-- The killed writer fills the pipe and returns, and the reader sleeps on. -/
theorem killed_writer_strands_reader :
    Reachable behaviour Live (opened fun _ => 0)
        (filling.enter behaviour 0 (.write 513 (List.replicate 513 0))) ∧
      ¬Attended (filling.enter behaviour 0 (.write 513 (List.replicate 513 0))) := by
  have reached : Reachable behaviour Live (opened fun _ => 0) filling :=
    ((waiting_reachable rfl).step (.start 0 (Call.write 513 (List.replicate 513 0)) rfl
        List.length_replicate)).step (.kill 0)
  have active : filling.activity 0 = .ready (.write 513 (List.replicate 513 0)) := rfl
  refine ⟨reached.step (.enter 0 _ active rfl), ?_⟩
  have asleep : filling.activity 1 = .asleep .nread (.read 1) := rfl
  refine not_attended_of_endsEarly (Carries.reachable reached) active ⟨?_, Or.inr rfl⟩ ?_ asleep
  · rw [List.length_replicate]
    decide
  · decide

end Pipe
end Xv6
