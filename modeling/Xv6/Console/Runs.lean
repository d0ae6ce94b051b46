import Xv6.Console.Discipline

/-!
# Runs of the console

The invariant of every interleaving of interrupts and reads, and what follows
for the bytes that reads deliver.
-/

namespace Xv6
namespace Console

open Monitor

/-- A section of `consoleread`. -/
theorem consoleread_spec
    (refines : Refines input terminal taken)
    (valid : Valid target n copied)
    (killed : Bool) :
    Refines (consoleread target n copied killed input).input terminal
      (taken ++ (consoleread target n copied killed input).taken) ∧
    Ended terminal (taken ++ (consoleread target n copied killed input).taken) target killed
      copied (consoleread target n copied killed input) := by
  unfold consoleread
  by_cases none : n ≤ 0
  · rw [if_pos none]
    obtain rfl := valid.sized none
    have size : target = n := by simpa using valid.size
    refine ⟨by simpa using refines, .inr ⟨?_, rfl, List.not_mem_nil, List.not_mem_nil, .inl ?_, ?_⟩⟩
    · simp [size]
    · simp only [List.length_nil]
      omega
    · have never : ¬(target - n = 0 ∧ 0 < target) := by omega
      exact (if_neg never).symm
  · rw [if_neg none]
    refine readLoop_spec refines target killed n.toNat copied ?_ valid.plain valid.noEof
    rw [Int.toNat_of_nonneg (by omega)]
    exact valid.size

/-! ## The invariant -/

/-- The call that a thread is in. -/
def pending : Activity Unit Call → Option Call
  | .idle => none
  | .ready resume => some resume
  | .asleep _ resume => some resume

@[simp] theorem pending_wake (wakes : List Unit) (activity : Activity Unit Call) :
    pending (activity.wake wakes) = pending activity := by
  cases activity with
  | idle => rfl
  | ready resume => rfl
  | asleep on resume =>
    unfold Activity.wake
    dsimp only
    split <;> rfl

@[simp] theorem pending_rouse (activity : Activity Unit Call) :
    pending activity.rouse = pending activity := by
  cases activity <;> rfl

/-- What the read that a thread is in has copied so far. -/
def Call.copied : Option Call → List UInt8
  | some (.read _ _ copied) => copied
  | _ => []

/-- The bytes that one reader has taken. -/
def State.bytesOf (state : State) (thread : Nat) : List UInt8 :=
  ((state.taken.filter (·.1 = thread)).map Prod.snd).filter (· ≠ ctrlD)

/-- What holds in every state of a run. -/
structure Inv (state : Monitor.State State Unit Call) : Prop where
  /-- The buffer carries the terminal's characters. -/
  refines : Refines state.shared.input state.shared.terminal state.shared.chars
  /-- Reads are where their arguments put them. -/
  calls : ∀ thread target n copied,
    pending (state.activity thread) = some (.read target n copied) → Valid target n copied
  /-- The bytes a reader has taken are those its reads have returned, and those
  the read it is in has copied. -/
  accounts : ∀ thread, state.killed thread = false → state.shared.bytesOf thread =
      state.shared.returned thread ++ Call.copied (pending (state.activity thread))
  /-- Every control-D was taken by a read that returned no bytes. -/
  eofs : state.shared.empties = state.shared.chars.count ctrlD

/-- The threads go on, and the console stays as it is. -/
theorem Inv.of_activity
    (inv : Inv state)
    (shared : final.shared = state.shared)
    (killed : ∀ thread, final.killed thread = false → state.killed thread = false)
    (activity : ∀ thread, pending (final.activity thread) = pending (state.activity thread) ∨
      (Call.copied (pending (state.activity thread)) = [] ∧
        ∃ request, pending (final.activity thread) = some request ∧
          behaviour.starts state.shared thread request)) :
    Inv final where
  refines := by
    rw [shared]
    exact inv.refines
  calls := by
    intro thread target n copied held
    rcases activity thread with same | ⟨_, request, started, allowed⟩
    · exact inv.calls thread target n copied (same.symm.trans held)
    · obtain rfl := Option.some.inj (started.symm.trans held)
      obtain ⟨rfl, rfl⟩ := allowed
      exact ⟨by simp, List.not_mem_nil, List.not_mem_nil, fun _ => rfl⟩
  accounts := by
    intro thread alive
    rw [shared, inv.accounts thread (killed thread alive)]
    rcases activity thread with same | ⟨none, request, started, allowed⟩
    · rw [same]
    · rw [none, started]
      cases request with
      | intr chars => rfl
      | read target n copied =>
        obtain ⟨_, rfl⟩ := allowed
        rfl
  eofs := by
    rw [shared]
    exact inv.eofs

theorem bytesOf_append_self
    (state : State)
    (thread : Nat)
    (new : List UInt8) :
    ({ state with taken := state.taken ++ new.map (fun c => (thread, c)) } : State).bytesOf
        thread = state.bytesOf thread ++ new.filter (· ≠ ctrlD) := by
  have mine : (new.map (fun c => (thread, c))).filter (fun pair => pair.1 = thread) =
      new.map (fun c => (thread, c)) := by
    rw [List.filter_eq_self]
    intro pair member
    obtain ⟨c, _, rfl⟩ := List.mem_map.mp member
    exact decide_eq_true rfl
  simp only [State.bytesOf, List.filter_append, List.map_append, mine, List.map_map]
  congr 2
  exact List.map_id _

theorem bytesOf_append_other
    (state : State)
    (apart : other ≠ thread)
    (new : List UInt8) :
    ({ state with taken := state.taken ++ new.map (fun c => (thread, c)) } : State).bytesOf
        other = state.bytesOf other := by
  have none : (new.map (fun c => (thread, c))).filter (fun pair => pair.1 = other) = [] := by
    rw [List.filter_eq_nil_iff]
    intro pair member
    obtain ⟨c, _, rfl⟩ := List.mem_map.mp member
    simpa using apart.symm
  simp only [State.bytesOf, List.filter_append, none, List.append_nil]

variable {state : Monitor.State State Unit Call}

/-- A section of `consoleintr`. -/
theorem Inv.intr
    (inv : Inv state)
    (active : state.activity thread = .ready (.intr chars)) :
    Inv (state.enter behaviour thread (.intr chars)) := by
  have activity : ∀ other,
      Call.copied (pending ((state.enter behaviour thread (.intr chars)).activity other)) =
        Call.copied (pending (state.activity other)) ∧
      ∀ target n copied, pending ((state.enter behaviour thread (.intr chars)).activity other) =
            some (.read target n copied) →
          pending (state.activity other) = some (.read target n copied) := by
    intro other
    by_cases same : other = thread
    · subst same
      have finished : (state.enter behaviour other (.intr chars)).activity other = .idle := by
        simp only [State.enter, Function.update_self]
        rfl
      rw [finished, active]
      exact ⟨rfl, fun _ _ _ held => by cases held⟩
    · have kept : pending ((state.enter behaviour thread (.intr chars)).activity other) =
          pending (state.activity other) := by
        simp only [State.enter, Function.update_of_ne same, pending_wake]
      rw [kept]
      exact ⟨rfl, fun _ _ _ => id⟩
  refine ⟨?_, ?_, ?_, inv.eofs⟩
  · have after := inv.refines.consoleintr chars
    have length : state.shared.chars.length = state.shared.taken.length := List.length_map _
    rw [length] at after
    exact after
  · exact fun other target n copied held =>
      inv.calls other target n copied ((activity other).2 target n copied held)
  · intro other alive
    rw [(activity other).1]
    exact inv.accounts other alive

/-- A section of `consoleread`. -/
theorem Inv.read
    (inv : Inv state)
    (active : state.activity thread = .ready (.read target n copied)) :
    Inv (state.enter behaviour thread (.read target n copied)) := by
  have valid : Valid target n copied := by
    refine inv.calls thread target n copied ?_
    rw [active]
    rfl
  have spec := consoleread_spec inv.refines valid (state.killed thread)
  have accounts := inv.accounts
  have mine := inv.accounts thread
  rw [active] at mine
  generalize readingEq : consoleread target n copied (state.killed thread) state.shared.input =
    reading at spec
  have shared : (state.enter behaviour thread (.read target n copied)).shared =
      state.shared.finish thread target reading := by
    rw [← readingEq]
    rfl
  have exit : (state.enter behaviour thread (.read target n copied)).activity thread =
      reading.exit.activity := by
    simp only [State.enter, Function.update_self]
    rw [← readingEq]
    rfl
  have others : ∀ other, other ≠ thread →
      pending ((state.enter behaviour thread (.read target n copied)).activity other) =
        pending (state.activity other) := by
    intro other apart
    simp only [State.enter, Function.update_of_ne apart, pending_wake]
  have chars : (state.shared.finish thread target reading).chars =
      state.shared.chars ++ reading.taken := by
    unfold State.finish State.chars
    cases reading.exit <;> simp [Function.comp_def]
  have terminal : (state.shared.finish thread target reading).terminal =
      state.shared.terminal := by
    unfold State.finish
    cases reading.exit <;> rfl
  have input : (state.shared.finish thread target reading).input = reading.input := by
    unfold State.finish
    cases reading.exit <;> rfl
  have taken : ∀ other, (state.shared.finish thread target reading).bytesOf other =
      ({ state.shared with
        taken := state.shared.taken ++ reading.taken.map (fun c => (thread, c)) } :
          State).bytesOf other := by
    intro other
    unfold State.finish
    cases reading.exit <;> rfl
  obtain ⟨refines, ended⟩ := spec
  unfold Ended at ended
  refine ⟨?_, ?_, ?_, ?_⟩
  · rw [shared, chars, terminal, input]
    exact refines
  · intro other size left sofar held
    by_cases same : other = thread
    · subst same
      rw [exit] at held
      cases ending : reading.exit with
      | leave result =>
        rw [ending] at held
        cases held
      | sleep on resume =>
        rw [ending] at held
        simp only [ending] at ended
        obtain ⟨_, m, _, rfl, resumed⟩ := ended
        obtain ⟨rfl, rfl, rfl⟩ := Call.read.inj (Option.some.inj held)
        exact resumed
    · exact inv.calls other size left sofar ((others other same).symm.trans held)
  · intro other alive
    rw [shared, taken]
    by_cases same : other = thread
    · subst same
      rw [bytesOf_append_self, mine alive, exit]
      cases ending : reading.exit with
      | leave result =>
        simp only [ending] at ended
        rcases ended with ⟨_, dead, _⟩ | complete
        · exact absurd (dead.symm.trans alive) (by decide)
        · have positive : result.value ≠ -1 := by
            rw [complete.value]
            omega
          simp only [State.finish, ending, Function.update_self, if_neg positive, complete.bytes]
          simp [Exit.activity, pending, Call.copied]
      | sleep on resume =>
        simp only [ending] at ended
        obtain ⟨none, m, _, rfl, _⟩ := ended
        simp only [State.finish, ending, filter_eq_self_of_not_mem none]
        simp [Exit.activity, pending, Call.copied]
    · rw [bytesOf_append_other _ same, accounts other alive, others other same]
      unfold State.finish
      cases reading.exit with
      | leave result => simp only [Function.update_of_ne same]
      | sleep on resume => rfl
  · rw [shared, chars, List.count_append, ← inv.eofs]
    unfold State.finish
    cases ending : reading.exit with
    | leave result =>
      simp only [ending] at ended
      rcases ended with ⟨failed, _, none⟩ | complete
      · have never : ¬(result.value = 0 ∧ 0 < target) := by omega
        dsimp only
        rw [List.count_eq_zero_of_not_mem none, if_neg never]
      · rw [complete.eof]
    | sleep on resume =>
      simp only [ending] at ended
      rw [List.count_eq_zero_of_not_mem ended.1]
      rfl

theorem inv_boot (buf : Fin INPUT_BUF → UInt8) : Inv (boot buf) where
  refines := ⟨rfl, rfl, rfl, List.prefix_refl _, Ring.holds_nil buf, List.not_mem_nil⟩
  calls := nofun
  accounts := fun _ _ => rfl
  eofs := rfl

theorem Reaches.inv (reached : Reaches buf state) :
    Inv state := by
  induction reached with
  | initial => exact inv_boot buf
  | step _ step ih =>
    cases step with
    | start thread request idle allowed =>
      refine ih.of_activity rfl (fun _ => id) (fun other => ?_)
      by_cases same : other = thread
      · subst same
        right
        rw [idle]
        refine ⟨rfl, request, ?_, allowed⟩
        simp [State.become, pending]
      · left
        simp [State.become, Function.update_of_ne same]
    | enter thread request active _ =>
      cases request with
      | intr chars => exact ih.intr active
      | read target n copied => exact ih.read active
    | kill thread =>
      refine ih.of_activity rfl (fun other alive => ?_) (fun other => .inl ?_)
      · by_cases same : other = thread
        · subst same
          simp [State.kill] at alive
        · simpa [State.kill, Function.update_of_ne same] using alive
      · by_cases same : other = thread
        · subst same
          simp [State.kill, State.become]
        · simp [State.kill, State.become, Function.update_of_ne same]
    | stir thread =>
      refine ih.of_activity rfl (fun _ => id) (fun other => .inl ?_)
      by_cases same : other = thread
      · subst same
        simp [State.become]
      · simp [State.become, Function.update_of_ne same]

/-- A reader has asked for four bytes, `a` and control-D are typed, and the reader is
ready to go on. -/
def sample : Monitor.State State Unit Call :=
  ((((boot fun _ => 0).become 1 (.ready (.read 4 4 []))).enter behaviour 1
    (.read 4 4 [])).become 0 (.ready (.intr [97, 4]))).enter behaviour 0 (.intr [97, 4])

theorem sample_reaches : Reaches (fun _ => 0) sample := by
  have asked : Reaches (fun _ => 0) ((boot fun _ => 0).become 1 (.ready (.read 4 4 []))) :=
    .step .initial (.start 1 (Call.read 4 4 []) rfl ⟨rfl, rfl⟩)
  have sleeping := asked.step (.enter 1 (Call.read 4 4 []) rfl True.intro)
  have typing := sleeping.step (.start 0 (Call.intr [97, 4]) rfl True.intro)
  exact typing.step (.enter 0 (Call.intr [97, 4]) rfl True.intro)

end Console
end Xv6
