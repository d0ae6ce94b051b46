import Xv6.Foundation.Faulting

/-!
# Interleaved programs

Threads run programs, which are trees of atomic operations on a shared state.
A discipline gives every thread a local view: what an operation requires of
the view, and how its result changes the view.  A program that follows the
discipline from the idle view to a settled one can be interleaved with any
others, and an invariant over the shared state and all views only has to be
kept by the single operations.
-/

namespace Interleaving

open Function
open Faulting

/-- A program over a family of operations. -/
inductive Program (op : Type → Type) (α : Type) : Type 1 where
  | pure (value : α)
  /-- An operation, and how to go on with its result. -/
  | call {β : Type} (operation : op β) (next : β → Program op α)

namespace Program

variable {op : Type → Type} {α β : Type}

/-- One program after the other. -/
def bind : Program op α → (α → Program op β) → Program op β
  | .pure value, next => next value
  | .call operation rest, next => .call operation fun result =>
    (rest result).bind next

instance : Monad (Program op) where
  pure := Program.pure
  bind := Program.bind

/-- The program that consists of one operation. -/
def perform (operation : op α) : Program op α := .call operation .pure

end Program

/-! ## Disciplines -/

/-- What operations require of a thread's view, and what they make of it. -/
structure Discipline (op : Type → Type) (view : Type) where
  /-- The views in which an operation may be performed. -/
  requires : {β : Type} → op β → view → Prop
  /-- The view after an operation with a result. -/
  after : {β : Type} → op β → view → β → view

namespace Program

variable {op : Type → Type} {view α β : Type}

/-- The program follows the discipline from a view, and ends with a value and
a view that satisfy the postcondition. -/
def Follows (discipline : Discipline op view) :
    Program op α → view → (α → view → Prop) → Prop
  | .pure value, own, post => post value own
  | .call operation next, own, post =>
    discipline.requires operation own ∧ ∀ result, (next result).Follows discipline
        (discipline.after operation own result) post

variable {discipline : Discipline op view}

variable {own : view}

theorem Follows.mono {program : Program op α} {post weaker : α → view → Prop}
    (follows : program.Follows discipline own post)
    (implies : ∀ value own, post value own → weaker value own) :
    program.Follows discipline own weaker := by
  induction program generalizing own with
  | pure value => exact implies value own follows
  | call operation next ih =>
    exact ⟨follows.1, fun result =>
      ih result (follows.2 result)⟩

/-- The sequencing rule. -/
theorem Follows.bind {next : α → Program op β} {post : β → view → Prop}
    (follows : program.Follows discipline own
      fun value own => (next value).Follows discipline own post) :
    (program >>= next).Follows discipline own post := by
  induction program generalizing own with
  | pure value => exact follows
  | call operation rest ih =>
    exact ⟨follows.1, fun result =>
      ih result (follows.2 result)⟩

/-- An operation at the head of a program. -/
theorem Follows.perform_bind {next : α → Program op β} {post : β → view → Prop}
    (required : discipline.requires operation own)
    (follows : ∀ result, (next result).Follows discipline
      (discipline.after operation own result) post) :
    (perform operation >>= next).Follows discipline own post :=
  ⟨required, follows⟩

theorem Follows.perform {post : α → view → Prop}
    (required : discipline.requires operation own)
    (holds : ∀ result, post result (discipline.after operation own result)) :
    (perform operation).Follows discipline own post :=
  ⟨required, holds⟩

end Program

/-! ## Systems -/

/-- The shared state and the programs that are running. -/
structure System (op : Type → Type) (σ : Type) where
  state : σ
  running : Nat → Option (Program op Unit)

/-- How threads behave: which programs a thread may start in a state, what an
operation of a thread does, and which operations take place at all. -/
structure Behaviour (op : Type → Type) (ε σ : Type) where
  starts : σ → Nat → Program op Unit → Prop
  /-- The effect of an operation of a thread. -/
  exec : {β : Type} → Nat → op β → Run ε σ β
  /-- The operations of a thread that take place in a state. -/
  admits : {β : Type} → σ → Nat → op β → Prop

variable {op : Type → Type} {ε σ view : Type}

/-- One step of one thread. -/
inductive Step (behaviour : Behaviour op ε σ) :
    System op σ → System op σ → Prop where
  | start {system : System op σ} {thread : Nat} {program : Program op Unit}
      (idle : system.running thread = none)
      (allowed : behaviour.starts system.state thread program) :
      Step behaviour system
        { system with
          running := update system.running thread (some program) }
  /-- A thread performs the next operation of its program. -/
  | operate {system : System op σ} {thread : Nat} {β : Type}
      {operation : op β} {next : β → Program op Unit} {result : β} {final : σ}
      (active : system.running thread = some (.call operation next))
      (admitted : behaviour.admits system.state thread operation)
      (performed : behaviour.exec thread operation system.state = .ok (result, final)) :
      Step behaviour system
        { state := final
          running := update system.running thread (some (next result)) }
  /-- A thread leaves a program that has ended. -/
  | finish {system : System op σ} {thread : Nat}
      (ended : system.running thread = some (.pure ())) :
      Step behaviour system
        { system with
          running := update system.running thread none }

/-- The systems that runs reach. -/
inductive Reachable (behaviour : Behaviour op ε σ) (initial : System op σ) :
    System op σ → Prop where
  | initial : Reachable behaviour initial initial
  | step {system final : System op σ}
      (reached : Reachable behaviour initial system)
      (step : Step behaviour system final) :
      Reachable behaviour initial final

/-- The next operation of a thread takes place and stops with a fault. -/
inductive Faults (behaviour : Behaviour op ε σ) (system : System op σ)
    (reason : ε) : Prop where
  | intro {thread : Nat} {β : Type} {operation : op β}
      {next : β → Program op Unit}
      (active : system.running thread = some (.call operation next))
      (admitted : behaviour.admits system.state thread operation)
      (faulted : behaviour.exec thread operation system.state = .error reason)

/-! ## Executing programs -/

/-- Perform all operations of a program without a break. -/
def Program.run (exec : {β : Type} → op β → Run ε σ β) :
    Program op α → Run ε σ α
  | .pure value => Pure.pure value
  | .call operation next => exec operation >>= fun result =>
    (next result).run exec

/-- A program that goes on with another one. -/
theorem Program.run_bind_of_ok {exec : {β : Type} → op β → Run ε σ β}
    {next : α → Program op β} {value : α}
    (ran : program.run exec state = .ok (value, middle)) :
    (program >>= next).run exec state = (next value).run exec middle := by
  induction program generalizing state with
  | pure result =>
    obtain ⟨rfl, rfl⟩ := Prod.mk.inj (Except.ok.inj ran)
    rfl
  | call operation rest ih =>
    obtain ⟨result, between, performed, later⟩ := Run.bind_eq_ok_iff.mp ran
    change (exec operation >>= fun result =>
      ((rest result).bind next).run exec) state = _
    rw [Run.bind_of_ok performed]
    exact ih result later

/-- A program that starts with an operation. -/
theorem Program.run_perform_bind {exec : {β : Type} → op β → Run ε σ β}
    {next : α → Program op β} {value : α}
    (performed : exec operation state = .ok (value, middle)) :
    (Program.perform operation >>= next).run exec state = (next value).run exec middle :=
  Run.bind_of_ok performed

/-- Perform operations of a program as long as the thread may perform them. -/
def Program.advance (exec : {β : Type} → op β → Run ε σ β) (ready : σ → Bool) :
    (count : Nat) → Program op α → σ → Option (Program op α × σ)
  | 0, program, state => some (program, state)
  | _ + 1, .pure _, _ => none
  | count + 1, .call operation next, state =>
    if ready state then
      match exec operation state with
      | .ok (result, final) => (next result).advance exec ready count final
      | .error _ => none
    else none

/-- Perform all operations of a program; `fuel` bounds their number. -/
def Program.execute (exec : {β : Type} → op β → Run ε σ β) (ready : σ → Bool) :
    (fuel : Nat) → Program op Unit → σ → Option σ
  | _, .pure _, state => some state
  | 0, .call _ _, _ => none
  | fuel + 1, .call operation next, state =>
    if ready state then
      match exec operation state with
      | .ok (result, final) => (next result).execute exec ready fuel final
      | .error _ => none
    else none

theorem Program.advance_of_execute {exec : {β : Type} → op β → Run ε σ β}
    {fuel : Nat} {program : Program op Unit}
    (executed : program.execute exec ready fuel state = some final) :
    ∃ count, program.advance exec ready count state = some (.pure (), final) := by
  induction fuel generalizing program state with
  | zero =>
    cases program with
    | pure value =>
      obtain rfl := Option.some.inj executed
      exact ⟨0, rfl⟩
    | call operation next => cases executed
  | succ fuel ih =>
    cases program with
    | pure value =>
      obtain rfl := Option.some.inj executed
      exact ⟨0, rfl⟩
    | call operation next =>
      unfold Program.execute at executed
      split at executed
      · rename_i isReady
        split at executed
        · rename_i result middle performed
          obtain ⟨count, advanced⟩ := ih executed
          refine ⟨count + 1, ?_⟩
          rw [Program.advance, if_pos isReady, performed]
          exact advanced
        · cases executed
      · cases executed

section Advance

variable {behaviour : Behaviour op ε σ} {initial : System op σ} {thread : Nat}
  {ready : σ → Bool}

/-- Performing operations is a run. -/
theorem Reachable.advance
    (admitted : ∀ {β : Type} state (operation : op β), ready state = true →
      behaviour.admits state thread operation)
    (count : Nat)
    {program rest : Program op Unit} {state final : σ}
    (reached : Reachable behaviour initial ⟨state, update running thread (some program)⟩)
    (advanced : program.advance (behaviour.exec thread) ready count state = some (rest, final)) :
    Reachable behaviour initial ⟨final, update running thread (some rest)⟩ := by
  induction count generalizing program state with
  | zero =>
    obtain ⟨rfl, rfl⟩ := Prod.mk.inj (Option.some.inj advanced)
    exact reached
  | succ count ih =>
    cases program with
    | pure value => cases advanced
    | call operation next =>
      unfold Program.advance at advanced
      split at advanced
      · rename_i isReady
        split at advanced
        · rename_i result middle performed
          have step := reached.step (.operate (update_self thread _ _)
            (admitted state operation isReady) performed)
          rw [update_idem] at step
          exact ih step advanced
        · cases advanced
      · cases advanced

/-- A thread begins a program. -/
theorem Reachable.begins
    (admitted : ∀ {β : Type} state (operation : op β), ready state = true →
      behaviour.admits state thread operation)
    (count : Nat)
    {program rest : Program op Unit} {running : Nat → Option (Program op Unit)}
    (reached : Reachable behaviour initial ⟨state, running⟩)
    (idle : running thread = none)
    (allowed : behaviour.starts state thread program)
    (advanced : program.advance (behaviour.exec thread) ready count state = some (rest, final)) :
    Reachable behaviour initial ⟨final, update running thread (some rest)⟩ :=
  (reached.step (.start idle allowed)).advance admitted count advanced

/-- A thread runs a program from its beginning to its end. -/
theorem Reachable.executes
    (admitted : ∀ {β : Type} state (operation : op β), ready state = true →
      behaviour.admits state thread operation)
    (fuel : Nat)
    {state final : σ} {running : Nat → Option (Program op Unit)}
    (reached : Reachable behaviour initial ⟨state, running⟩)
    (idle : running thread = none)
    (allowed : behaviour.starts state thread program)
    (executed : program.execute (behaviour.exec thread) ready fuel state = some final) :
    Reachable behaviour initial ⟨final, running⟩ := by
  obtain ⟨count, advanced⟩ := Program.advance_of_execute executed
  have ended := (reached.begins admitted count idle allowed advanced).step
    (.finish (update_self thread _ _))
  have same : update running thread none = running := by
    rw [← idle]
    exact update_eq_self thread running
  rw [update_idem, same] at ended
  exact ended

end Advance

/-! ## Runs with views -/

/-- The systems that runs reach, with the views that the discipline gives to the
threads.  A view is idle before a program starts and again when it is left. -/
inductive Tracks (behaviour : Behaviour op ε σ) (discipline : Discipline op view)
    (idle : view) (initial : System op σ) :
    System op σ → (Nat → view) → Prop where
  | initial : Tracks behaviour discipline idle initial initial fun _ => idle
  | start {system : System op σ} {views : Nat → view} {thread : Nat}
      {program : Program op Unit}
      (tracked : Tracks behaviour discipline idle initial system views)
      (free : system.running thread = none)
      (allowed : behaviour.starts system.state thread program) :
      Tracks behaviour discipline idle initial
        { system with
          running := update system.running thread (some program) }
        views
  /-- A thread performs the next operation of its program. -/
  | operate {system : System op σ} {views : Nat → view} {thread : Nat} {β : Type}
      {operation : op β} {next : β → Program op Unit} {result : β} {final : σ}
      (tracked : Tracks behaviour discipline idle initial system views)
      (active : system.running thread = some (.call operation next))
      (admitted : behaviour.admits system.state thread operation)
      (performed : behaviour.exec thread operation system.state = .ok (result, final)) :
      Tracks behaviour discipline idle initial
        { state := final
          running := update system.running thread (some (next result)) }
        (update views thread (discipline.after operation (views thread) result))
  /-- A thread leaves a program that has ended. -/
  | finish {system : System op σ} {views : Nat → view} {thread : Nat}
      (tracked : Tracks behaviour discipline idle initial system views)
      (ended : system.running thread = some (.pure ())) :
      Tracks behaviour discipline idle initial
        { system with
          running := update system.running thread none }
        (update views thread idle)

variable {behaviour : Behaviour op ε σ} {discipline : Discipline op view}
  {idle : view}

/-- Every run can be given views. -/
theorem Reachable.tracks {initial system : System op σ}
    (reached : Reachable behaviour initial system) :
    ∃ views, Tracks behaviour discipline idle initial system views := by
  induction reached with
  | initial => exact ⟨_, .initial⟩
  | step _ step ih =>
    obtain ⟨views, tracked⟩ := ih
    cases step with
    | start free allowed => exact ⟨_, .start tracked free allowed⟩
    | operate active admitted performed =>
      exact ⟨_, .operate tracked active admitted performed⟩
    | finish ended => exact ⟨_, .finish tracked ended⟩

/-! ## Invariants -/

/-- An invariant over the shared state and all views that single operations
keep.  `settled` says which views a program may end with. -/
structure Kept (behaviour : Behaviour op ε σ) (discipline : Discipline op view)
    (idle : view) (settled : view → Prop)
    (invariant : σ → (Nat → view) → Prop) : Prop where
  /-- Programs that start follow the discipline. -/
  starts : ∀ {state thread program}, behaviour.starts state thread program →
    program.Follows discipline idle fun _ own => settled own
  /-- An operation within the discipline keeps the invariant. -/
  operates : ∀ {β : Type} {state final : σ} {views : Nat → view}
    {thread : Nat} {operation : op β} {result : β}, invariant state views →
    discipline.requires operation (views thread) → behaviour.admits state thread operation →
    behaviour.exec thread operation state = .ok (result, final) →
    invariant final (update views thread (discipline.after operation (views thread) result))
  /-- Leaving a program keeps the invariant. -/
  finishes : ∀ {state : σ} {views : Nat → view} {thread : Nat},
    invariant state views → settled (views thread) → invariant state (update views thread idle)

/-- What a system with an invariant is like: the views satisfy it, and every
program follows the discipline from its thread's view. -/
structure Holds (discipline : Discipline op view) (idle : view)
    (settled : view → Prop) (invariant : σ → (Nat → view) → Prop)
    (system : System op σ) (views : Nat → view) : Prop where
  invariant : invariant system.state views
  /-- Threads without a program are idle. -/
  resting : ∀ thread, system.running thread = none → views thread = idle
  /-- Programs follow the discipline. -/
  follows : ∀ thread program, system.running thread = some program →
    program.Follows discipline (views thread) fun _ own => settled own

variable {settled : view → Prop} {invariant : σ → (Nat → view) → Prop}

/-- An invariant that single operations keep holds all along a run. -/
theorem Tracks.holds
    (kept : Kept behaviour discipline idle settled invariant)
    {initial system : System op σ}
    (start : Holds discipline idle settled invariant initial fun _ => idle)
    (tracked : Tracks behaviour discipline idle initial system views) :
    Holds discipline idle settled invariant system views := by
  induction tracked with
  | initial => exact start
  | @start system views thread program _ free allowed holds =>
    refine ⟨holds.invariant, ?_, ?_⟩
    · intro other none
      by_cases same : other = thread
      · subst same
        simp at none
      · exact holds.resting other (by simpa [same] using none)
    · intro other running some
      by_cases same : other = thread
      · subst same
        obtain rfl : program = running := by simpa using some
        rw [holds.resting other free]
        exact kept.starts allowed
      · exact holds.follows other running (by simpa [same] using some)
  | @operate system views thread _ operation next result _ _ active admitted
      performed holds =>
      obtain ⟨required, continues⟩ := holds.follows thread _ active
      refine ⟨kept.operates holds.invariant required admitted performed, ?_, ?_⟩
      · intro other none
        by_cases same : other = thread
        · subst same
          simp at none
        · rw [update_of_ne same]
          exact holds.resting other (by simpa [same] using none)
      · intro other running some
        by_cases same : other = thread
        · subst same
          obtain rfl : next result = running := by simpa using some
          rw [update_self]
          exact continues result
        · rw [update_of_ne same]
          exact holds.follows other running (by simpa [same] using some)
  | @finish system views thread _ ended holds =>
    refine ⟨kept.finishes holds.invariant (holds.follows thread _ ended), ?_, ?_⟩
    · intro other none
      by_cases same : other = thread
      · rw [same, update_self]
      · rw [update_of_ne same]
        exact holds.resting other (by simpa [same] using none)
    · intro other running some
      by_cases same : other = thread
      · subst same
        simp at some
      · rw [update_of_ne same]
        exact holds.follows other running (by simpa [same] using some)

end Interleaving
