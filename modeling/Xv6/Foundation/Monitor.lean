import Mathlib.Logic.Function.Basic

/-!
# Monitors

Threads share a state under one lock.  A thread that holds the lock runs a
critical section to its end, where it leaves its call or falls asleep on a
channel; both release the lock.  A section may wake the sleepers of some
channels.  A sleeper can also be made ready for no reason of the state: a kill
or a wakeup meant for somebody else.  A thread that is ready enters the lock
again with the call it still has to finish.
-/

namespace Monitor

variable {σ chan call ρ : Type}

/-- How a critical section ends. -/
inductive Exit (chan call ρ : Type) where
  | leave (result : ρ)
  /-- The thread sleeps on a channel, and goes on with a call when woken. -/
  | sleep (on : chan) (resume : call)
  deriving DecidableEq

/-- What a critical section does. -/
structure Outcome (σ chan call ρ : Type) where
  shared : σ
  wakes : List chan
  exit : Exit chan call ρ

/-- What a thread is doing. -/
inductive Activity (chan call : Type) where
  | idle
  | ready (resume : call)
  | asleep (on : chan) (resume : call)
  deriving DecidableEq

/-- What a thread does after a section of its own. -/
def Exit.activity : Exit chan call ρ → Activity chan call
  | .leave _ => .idle
  | .sleep on resume => .asleep on resume

/-- A thread when the sleepers of some channels are woken. -/
def Activity.wake [DecidableEq chan] (wakes : List chan) :
    Activity chan call → Activity chan call
  | .asleep on resume => if on ∈ wakes then .ready resume else .asleep on resume
  | other => other

/-- A thread that no longer sleeps. -/
def Activity.rouse : Activity chan call → Activity chan call
  | .asleep _ resume => .ready resume
  | other => other

theorem Activity.asleep_of_wake [DecidableEq chan] {wakes : List chan}
    {activity : Activity chan call} {resume : call}
    (asleep : activity.wake wakes = .asleep on resume) :
    activity = .asleep on resume ∧ on ∉ wakes := by
  cases activity with
  | idle => cases asleep
  | ready resume => cases asleep
  | asleep channel waiting =>
    by_cases woken : channel ∈ wakes
    · simp [Activity.wake, woken] at asleep
    · simp only [Activity.wake, woken, if_false, Activity.asleep.injEq]
        at asleep
      obtain ⟨rfl, rfl⟩ := asleep
      exact ⟨rfl, woken⟩

theorem Activity.rouse_ne_asleep
    (activity : Activity chan call)
    (on : chan)
    (resume : call) :
    activity.rouse ≠ .asleep on resume := by
  cases activity <;> simp [Activity.rouse]

/-- The shared state with the threads around it. -/
structure State (σ chan call : Type) where
  shared : σ
  activity : Nat → Activity chan call
  killed : Nat → Bool

/-- The critical sections of a monitor. -/
structure Behaviour (σ chan call ρ : Type) where
  /-- The section of a thread, with its killed flag. -/
  critical : Nat → call → Bool → σ → Outcome σ chan call ρ
  starts : σ → Nat → call → Prop

/-- The outcome of a thread's next section. -/
def State.outcome
    (behaviour : Behaviour σ chan call ρ)
    (state : State σ chan call)
    (thread : Nat)
    (request : call) : Outcome σ chan call ρ :=
  behaviour.critical thread request (state.killed thread) state.shared

/-- The state after a thread's section. -/
def State.enter [DecidableEq chan]
    (behaviour : Behaviour σ chan call ρ)
    (state : State σ chan call)
    (thread : Nat)
    (request : call) : State σ chan call where
  shared := (state.outcome behaviour thread request).shared
  activity := Function.update (fun other =>
      (state.activity other).wake (state.outcome behaviour thread request).wakes)
    thread (state.outcome behaviour thread request).exit.activity
  killed := state.killed

/-- The state with the activity of one thread replaced. -/
def State.become
    (state : State σ chan call)
    (thread : Nat)
    (activity : Activity chan call) : State σ chan call :=
  { state with activity := Function.update state.activity thread activity }

/-- A kill: the flag is set, and a sleeper is made ready. -/
def State.kill (state : State σ chan call) (thread : Nat) : State σ chan call :=
  { state.become thread (state.activity thread).rouse with
    killed := Function.update state.killed thread true }

/-- One step: of the threads' sections only the admitted ones take place. -/
inductive Step [DecidableEq chan]
    (behaviour : Behaviour σ chan call ρ)
    (admits : State σ chan call → Nat → call → Prop) :
    State σ chan call → State σ chan call → Prop where
  | start {state : State σ chan call} (thread : Nat) (request : call)
      (idle : state.activity thread = .idle)
      (allowed : behaviour.starts state.shared thread request) :
      Step behaviour admits state (state.become thread (.ready request))
  | enter {state : State σ chan call} (thread : Nat) (request : call)
      (active : state.activity thread = .ready request)
      (admitted : admits state thread request) :
      Step behaviour admits state (state.enter behaviour thread request)
  | kill {state : State σ chan call} (thread : Nat) :
      Step behaviour admits state (state.kill thread)
  /-- A sleeper is woken by somebody outside the monitor. -/
  | stir {state : State σ chan call} (thread : Nat) :
      Step behaviour admits state (state.become thread (state.activity thread).rouse)

/-- The states that runs reach. -/
inductive Reachable [DecidableEq chan]
    (behaviour : Behaviour σ chan call ρ)
    (admits : State σ chan call → Nat → call → Prop)
    (initial : State σ chan call) : State σ chan call → Prop where
  | initial : Reachable behaviour admits initial initial
  | step {state final : State σ chan call}
      (reached : Reachable behaviour admits initial state)
      (step : Step behaviour admits state final) :
      Reachable behaviour admits initial final

variable [DecidableEq chan] {behaviour : Behaviour σ chan call ρ}
  {admits : State σ chan call → Nat → call → Prop}
  {initial state : State σ chan call}

/-- A property of the shared state that every admitted section keeps holds in
every reachable state. -/
theorem Reachable.shared
    (property : σ → Prop)
    (holds : property initial.shared)
    (kept : ∀ state thread request, Reachable behaviour admits initial state →
      state.activity thread = .ready request → admits state thread request → property state.shared →
      property (state.outcome behaviour thread request).shared)
    (reached : Reachable behaviour admits initial state) :
    property state.shared := by
  induction reached with
  | initial => exact holds
  | step reached step ih =>
    cases step with
    | start => exact ih
    | enter thread request active admitted =>
      exact kept _ _ _ reached active admitted ih
    | kill => exact ih
    | stir => exact ih

/-- Threads that are asleep after a step were asleep before it and have not
been woken, or have just fallen asleep. -/
theorem Step.asleep {final : State σ chan call}
    (step : Step behaviour admits state final)
    {on : chan}
    (asleep : final.activity thread = .asleep on resume) :
    (state.activity thread = .asleep on resume ∧ final.shared = state.shared) ∨ ∃ other request,
        state.activity other = .ready request ∧ admits state other request ∧
        final.shared = (state.outcome behaviour other request).shared ∧ ((thread = other ∧
            (state.outcome behaviour other request).exit = .sleep on resume) ∨
          (state.activity thread = .asleep on resume ∧
            on ∉ (state.outcome behaviour other request).wakes)) := by
  cases step with
  | start other request idle allowed =>
    left
    by_cases same : thread = other
    · simp [State.become, same] at asleep
    · simpa [State.become, same] using asleep
  | enter other request active admitted =>
    right
    refine ⟨other, request, active, admitted, rfl, ?_⟩
    by_cases same : thread = other
    · left
      refine ⟨same, ?_⟩
      simp only [State.enter, same, Function.update_self] at asleep
      cases exit : (state.outcome behaviour other request).exit with
      | leave result =>
        rw [exit] at asleep
        cases asleep
      | sleep channel waiting =>
        rw [exit] at asleep
        cases asleep
        rfl
    · right
      simp only [State.enter, Function.update_of_ne same] at asleep
      exact Activity.asleep_of_wake asleep
  | kill other =>
    left
    by_cases same : thread = other
    · simp only [State.kill, State.become, same, Function.update_self]
        at asleep
      exact absurd asleep (Activity.rouse_ne_asleep _ _ _)
    · simpa [State.kill, State.become, same] using asleep
  | stir other =>
    left
    by_cases same : thread = other
    · simp only [State.become, same, Function.update_self] at asleep
      exact absurd asleep (Activity.rouse_ne_asleep _ _ _)
    · simpa [State.become, same] using asleep

/-- No lost wakeup: what a sleeper waits for holds as long as it sleeps, if it
holds when a section falls asleep, and if no section ends it without waking
the sleepers concerned. -/
theorem Reachable.asleep
    (waits : chan → call → σ → Prop)
    (awake : ∀ thread on resume, initial.activity thread ≠ .asleep on resume)
    (falls : ∀ state thread request on resume, Reachable behaviour admits initial state →
      state.activity thread = .ready request → admits state thread request →
      (state.outcome behaviour thread request).exit = .sleep on resume →
      waits on resume (state.outcome behaviour thread request).shared)
    (kept : ∀ state thread request other on resume, Reachable behaviour admits initial state →
      state.activity thread = .ready request → admits state thread request →
      state.activity other = .asleep on resume →
      on ∉ (state.outcome behaviour thread request).wakes → waits on resume state.shared →
      waits on resume (state.outcome behaviour thread request).shared)
    (reached : Reachable behaviour admits initial state)
    (asleep : state.activity thread = .asleep on resume) :
    waits on resume state.shared := by
  induction reached generalizing thread on resume with
  | initial => exact absurd asleep (awake thread on resume)
  | step reached step ih =>
    obtain ⟨before, same⟩ | ⟨other, request, active, admitted, shared, cases⟩ :=
      step.asleep asleep
    · rw [same]
      exact ih before
    · rw [shared]
      obtain ⟨_, exit⟩ | ⟨before, unwoken⟩ := cases
      · exact falls _ other request on resume reached active admitted exit
      · exact kept _ other request thread on resume reached active admitted
          before unwoken (ih before)

end Monitor
