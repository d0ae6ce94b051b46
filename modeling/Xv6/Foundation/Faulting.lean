import Mathlib.Logic.Function.Basic

/-!
# Stateful computations that can fault

A computation reads and changes a state and either returns a value or stops
with a fault.  `Spec` is the total-correctness judgement of such a computation
from one start state: what holds of the value and the state if it returns, and
what holds of the fault if it stops.
-/

namespace Faulting

/-- A computation over states of type `σ` that returns an `α` or stops with a
fault of type `ε`. -/
def Run (ε σ α : Type) := σ → Except ε (α × σ)

namespace Run

variable {ε σ α β : Type}

instance : Monad (Run ε σ) where
  pure value := fun state => .ok (value, state)
  bind first next := fun state =>
    match first state with
    | .ok (value, state) => next value state
    | .error reason => .error reason

/-- Stop with a fault. -/
def fault (reason : ε) : Run ε σ α := fun _ => .error reason

/-- The current state. -/
def get : Run ε σ σ := fun state => .ok (state, state)

/-- Change the state. -/
def modify (change : σ → σ) : Run ε σ Unit := fun state => .ok ((), change state)

/-- Read a part of the state. -/
def gets (part : σ → α) : Run ε σ α := fun state => .ok (part state, state)

@[simp] theorem pure_apply (value : α) (state : σ) :
    (pure value : Run ε σ α) state = .ok (value, state) := rfl

@[simp] theorem fault_apply (reason : ε) (state : σ) :
    (fault reason : Run ε σ α) state = .error reason := rfl

@[simp] theorem get_apply (state : σ) :
    (get : Run ε σ σ) state = .ok (state, state) := rfl

@[simp] theorem modify_apply (change : σ → σ) (state : σ) :
    (modify change : Run ε σ Unit) state = .ok ((), change state) := rfl

@[simp] theorem gets_apply (part : σ → α) (state : σ) :
    (gets part : Run ε σ α) state = .ok (part state, state) := rfl

theorem bind_apply (first : Run ε σ α) (next : α → Run ε σ β) (state : σ) :
    (first >>= next) state = match first state with
      | .ok (value, state) => next value state
      | .error reason => .error reason := rfl

theorem bind_of_ok {next : α → Run ε σ β} {value : α}
    (returned : first state = .ok (value, middle)) :
    (first >>= next) state = next value middle := by
  rw [bind_apply, returned]

/-- Two sequences that do the same from one state. -/
theorem bind_congr {next continued : α → Run ε σ β}
    (same : first state = other state)
    (rest : ∀ value middle, other state = .ok (value, middle) →
      next value middle = continued value middle) :
    (first >>= next) state = (other >>= continued) state := by
  rw [bind_apply, bind_apply, same]
  cases returned : other state with
  | error reason => rfl
  | ok pair => exact rest pair.1 pair.2 returned

theorem bind_of_error {next : α → Run ε σ β} {reason : ε}
    (faulted : first state = .error reason) :
    (first >>= next) state = .error reason := by
  rw [bind_apply, faulted]

/-- A sequence that returned went through a middle state. -/
theorem bind_eq_ok_iff {next : α → Run ε σ β} {result : β} :
    (first >>= next) state = .ok (result, final) ↔
      ∃ value middle, first state = .ok (value, middle) ∧
        next value middle = .ok (result, final) := by
  rw [bind_apply]
  cases returned : first state with
  | error reason => simp
  | ok pair =>
    obtain ⟨value, middle⟩ := pair
    constructor
    · intro continued
      exact ⟨value, middle, rfl, continued⟩
    · rintro ⟨_, _, equal, continued⟩
      obtain ⟨rfl, rfl⟩ := Prod.mk.inj (Except.ok.inj equal)
      exact continued

/-- What a computation does from one state. -/
def Spec (run : Run ε σ α) (state : σ) (post : α → σ → Prop)
    (fault : ε → Prop) : Prop :=
  match run state with
  | .ok (value, final) => post value final
  | .error reason => fault reason

theorem Spec.of_ok {state final : σ} {post : α → σ → Prop} {fault : ε → Prop}
    (spec : Spec run state post fault)
    (returned : run state = .ok (value, final)) :
    post value final := by
  simpa [Spec, returned] using spec

theorem Spec.of_error {state : σ} {post : α → σ → Prop} {fault : ε → Prop}
    (spec : Spec run state post fault)
    (faulted : run state = .error reason) :
    fault reason := by
  simpa [Spec, faulted] using spec

theorem Spec.mono {state : σ} {post weaker : α → σ → Prop} {fault weakerFault : ε → Prop}
    (spec : Spec run state post fault)
    (postImplies : ∀ value final, post value final → weaker value final)
    (faultImplies : ∀ reason, fault reason → weakerFault reason) :
    Spec run state weaker weakerFault := by
  unfold Spec at spec ⊢
  split
  · rename_i returned
    rw [returned] at spec
    exact postImplies _ _ spec
  · rename_i faulted
    rw [faulted] at spec
    exact faultImplies _ spec

/-- Two specifications of the same computation hold together. -/
theorem Spec.and {state : σ} {post other : α → σ → Prop} {fault otherFault : ε → Prop}
    (first : Spec run state post fault)
    (second : Spec run state other otherFault) :
    Spec run state (fun value final => post value final ∧ other value final)
      (fun reason => fault reason ∧ otherFault reason) := by
  unfold Spec at first second ⊢
  split
  · rename_i returned
    rw [returned] at first second
    exact ⟨first, second⟩
  · rename_i faulted
    rw [faulted] at first second
    exact ⟨first, second⟩

theorem Spec.trivial
    (run : Run ε σ α)
    (state : σ) :
    Spec run state (fun _ _ => True) (fun _ => True) := by
  unfold Spec
  split <;> exact True.intro

/-- The sequencing rule. -/
theorem Spec.bind {next : α → Run ε σ β} {state : σ} {post : β → σ → Prop} {fault : ε → Prop}
    (spec : Spec first state (fun value middle => Spec (next value) middle post fault) fault) :
    Spec (first >>= next) state post fault := by
  cases returned : first state with
  | error reason =>
    have faulted := spec.of_error returned
    simpa [Spec, bind_of_error returned] using faulted
  | ok pair =>
    obtain ⟨value, middle⟩ := pair
    have continued := spec.of_ok returned
    simpa [Spec, bind_of_ok returned] using continued

theorem Spec.pure {state : σ} {post : α → σ → Prop} {fault : ε → Prop}
    (holds : post value state) :
    Spec (Pure.pure value) state post fault :=
  holds

theorem Spec.fault {state : σ} {post : α → σ → Prop} {fault : ε → Prop}
    (holds : fault reason) :
    Spec (Run.fault reason) state post fault :=
  holds

/-- A computation whose outcome is known. -/
theorem Spec.returns {state final : σ} {post : α → σ → Prop} {fault : ε → Prop}
    (returned : run state = .ok (value, final))
    (holds : post value final) :
    Spec run state post fault := by
  unfold Spec
  rw [returned]
  exact holds

/-- The sequencing rule when the outcome of the first part is known. -/
theorem Spec.bind_ok {next : α → Run ε σ β} {value : α} {post : β → σ → Prop} {fault : ε → Prop}
    (returned : first state = .ok (value, middle))
    (spec : Spec (next value) middle post fault) :
    Spec (first >>= next) state post fault :=
  Spec.bind (Spec.returns returned spec)

/-- A computation that cannot fault returns. -/
theorem Spec.exists_ok {state : σ} {post : α → σ → Prop} {fault : ε → Prop}
    (spec : Spec run state post fault)
    (never : ∀ reason, ¬fault reason) :
    ∃ value final, run state = .ok (value, final) ∧ post value final := by
  cases returned : run state with
  | error reason => exact absurd (spec.of_error returned) (never reason)
  | ok pair => exact ⟨pair.1, pair.2, rfl, spec.of_ok returned⟩

/-- Reading the state hands it to what follows. -/
theorem Spec.get_bind {state : σ} {post : β → σ → Prop} {fault : ε → Prop}
    (spec : Spec (next state) state post fault) :
    Spec (Run.get >>= next) state post fault :=
  spec

theorem Spec.gets_bind {next : α → Run ε σ β} {post : β → σ → Prop} {fault : ε → Prop}
    (spec : Spec (next (part state)) state post fault) :
    Spec (Run.gets part >>= next) state post fault :=
  spec

theorem Spec.modify_bind {next : Unit → Run ε σ β} {post : β → σ → Prop} {fault : ε → Prop}
    (spec : Spec (next ()) (change state) post fault) :
    Spec (Run.modify change >>= next) state post fault :=
  spec

/-! ## A part of the state -/

variable {τ : Type}

/-- A computation on the first part of a state. -/
def onFirst (run : Run ε σ α) : Run ε (σ × τ) α := fun state =>
  match run state.1 with
  | .ok (value, final) => .ok (value, final, state.2)
  | .error reason => .error reason

theorem onFirst_eq_ok {run : Run ε σ α} {state final : σ × τ}
    (returned : onFirst run state = .ok (value, final)) :
    run state.1 = .ok (value, final.1) ∧ final.2 = state.2 := by
  unfold onFirst at returned
  split at returned
  · rename_i equal
    obtain ⟨rfl, rfl⟩ := Prod.mk.inj (Except.ok.inj returned)
    exact ⟨equal, rfl⟩
  · exact nomatch returned

theorem Spec.onFirst {state : σ} {post : α → σ → Prop} {fault : ε → Prop}
    (spec : Spec run state post fault)
    (rest : τ) :
    Spec (Run.onFirst run) (state, rest)
      (fun value final => ∃ next, final = (next, rest) ∧ post value next) fault := by
  unfold Spec at spec ⊢
  unfold Run.onFirst
  cases returned : run state with
  | error reason => simpa [returned] using spec
  | ok pair => simpa [returned] using spec

/-- A computation whose effect on the first part of the state is that of another
one. -/
def Over (run : Run ε (σ × τ) α) (base : Run ε σ α) : Prop :=
  ∀ state, (run state).map (fun pair => (pair.1, pair.2.1)) = base state.1

theorem Over.exists_ok {base : Run ε σ α} {state : σ × τ} {final : σ}
    (agrees : Over run base)
    (returned : base state.1 = .ok (value, final)) :
    ∃ rest, run state = .ok (value, final, rest) := by
  have same := (agrees state).trans returned
  cases outcome : run state with
  | error reason =>
    rw [outcome] at same
    exact nomatch same
  | ok pair =>
    rw [outcome] at same
    obtain ⟨rfl, rfl⟩ := Prod.mk.inj (Except.ok.inj same)
    exact ⟨pair.2.2, rfl⟩

theorem Over.of_ok {base : Run ε σ α} {state final : σ × τ}
    (agrees : Over run base)
    (returned : run state = .ok (value, final)) :
    base state.1 = .ok (value, final.1) := by
  rw [← agrees state, returned]
  rfl

theorem Over.pure (value : α) : Over (Pure.pure value : Run ε (σ × τ) α) (Pure.pure value) :=
  fun _ => rfl

theorem Over.fault (reason : ε) : Over (fault reason : Run ε (σ × τ) α) (fault reason) :=
  fun _ => rfl

theorem Over.onFirst (run : Run ε σ α) : Over (Run.onFirst run : Run ε (σ × τ) α) run := by
  intro state
  unfold Run.onFirst
  cases run state.1 <;> rfl

theorem Over.bind {base : Run ε σ α} {next : α → Run ε (σ × τ) β}
    (first : Over run base)
    (rest : ∀ value, Over (next value) (later value)) :
    Over (run >>= next) (base >>= later) := by
  intro state
  rw [bind_apply, bind_apply, ← first state]
  cases run state with
  | error reason => rfl
  | ok pair => exact rest pair.1 pair.2

/-- A change of the second part alone. -/
theorem Over.modify_bind {next : Unit → Run ε (σ × τ) β}
    (kept : ∀ state, (change state).1 = state.1)
    (rest : Over (next ()) later) :
    Over (Run.modify change >>= next) later := by
  intro state
  rw [← kept state]
  exact rest (change state)

end Run
end Faulting
