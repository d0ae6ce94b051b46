import Xv6.Sh.Processes

/-!
# Forks, waits and exits of a command tree

The steps of a run that change who is whose child, and the result for whole
runs: the descriptors at every `exec`, the ends of every pipe, and the children
that are waited for.
-/

namespace Xv6
namespace Sh

open Function

variable {s : State} {proc : Proc} {pid : Nat}

/-! ## Forks -/

theorem fork_cases (held : (s.fork pid proc background child parent).procs other = some found) :
    (other = s.nextpid ∧
      found = { proc with code := child, parent := some pid, background := background }) ∨
    (other ≠ s.nextpid ∧ other = pid ∧ found = { proc with code := parent }) ∨
      (other ≠ s.nextpid ∧ other ≠ pid ∧ s.procs other = some found) := by
  dsimp only [State.fork] at held
  by_cases new : other = s.nextpid
  · subst new
    rw [update_self] at held
    exact .inl ⟨rfl, (Option.some.inj held).symm⟩
  · rw [update_of_ne new] at held
    by_cases same : other = pid
    · subst same
      rw [update_self] at held
      exact .inr (.inl ⟨new, rfl, (Option.some.inj held).symm⟩)
    · rw [update_of_ne same] at held
      exact .inr (.inr ⟨new, same, held⟩)

theorem child_fork_iff
    (running : s.procs pid = some proc)
    (unused : s.procs s.nextpid = none) :
    (s.fork pid proc background child parent).Child other kid shown ↔
      s.Child other kid shown ∨ (other = pid ∧ kid = s.nextpid ∧ shown = background) := by
  have apart : pid ≠ s.nextpid := by
    intro same
    rw [← same, running] at unused
    exact nomatch unused
  constructor
  · rintro ⟨found, held, own, flag⟩
    rcases fork_cases held with ⟨rfl, rfl⟩ | ⟨_, rfl, rfl⟩ | ⟨_, _, held⟩
    · exact .inr ⟨(Option.some.inj own).symm, rfl, flag.symm⟩
    · exact .inl ⟨proc, running, own, flag⟩
    · exact .inl ⟨found, held, own, flag⟩
  rintro (⟨found, held, own, flag⟩ | ⟨rfl, rfl, rfl⟩)
  · have old : kid ≠ s.nextpid := by
      intro same
      rw [same, unused] at held
      exact nomatch held
    by_cases same : kid = pid
    · subst same
      obtain rfl := Option.some.inj (running.symm.trans held)
      exact ⟨{ proc with code := parent },
        (update_of_ne apart _ _).trans (update_self _ _ _), own, flag⟩
    · exact ⟨found, (update_of_ne old _ _).trans ((update_of_ne same _ _).trans held), own, flag⟩
  · exact ⟨_, update_self _ _ _, rfl, rfl⟩

/-- A fork of the shell or of a program. -/
theorem Inv.forked
    (inv : Inv tree s)
    (running : s.procs pid = some proc)
    (fitsChild : Fits tree s.made s.pipes { proc with code := child })
    (fitsParent : Fits tree s.made s.pipes { proc with code := parent })
    (visits : ∀ node, child.visits node ∨ parent.visits node → proc.code.visits node)
    (apart : ∀ node, ¬(child.visits node ∧ parent.visits node))
    (need : child.Ready → child.need = 0)
    (awaits : parent.Ready → proc.code.Ready ∧ proc.code ≠ .exit ∧
      if background then parent.need = proc.code.need ∧ parent = .exit
      else parent.need = proc.code.need + 1) :
    Inv tree (s.fork pid proc background child parent) := by
  have unused : s.procs s.nextpid = none := by
    cases held : s.procs s.nextpid with
    | none => rfl
    | some other => exact absurd (inv.pids _ _ held).1 (lt_irrefl _)
  have childless : ∀ kid shown, ¬s.Child s.nextpid kid shown := by
    rintro kid shown ⟨other, held, own, _⟩
    exact absurd ((inv.pids _ _ held).2 _ own) (lt_irrefl _)
  have pidBelow := (inv.pids _ _ running).1
  refine ⟨?_, inv.once, inv.below, ?_, ?_, ?_, ?_⟩
  · intro other found held
    rcases fork_cases held with ⟨_, rfl⟩ | ⟨_, _, rfl⟩ | ⟨_, _, held⟩
    · exact fitsChild.of_parent _ _
    · exact fitsParent
    · exact inv.fits _ _ held
  · intro first second one two different heldFirst heldSecond node visited
    rcases fork_cases heldFirst with ⟨rfl, rfl⟩ | ⟨_, rfl, rfl⟩ | ⟨_, away, oldFirst⟩
    · rcases fork_cases heldSecond with ⟨rfl, rfl⟩ | ⟨_, rfl, rfl⟩ | ⟨_, away, oldSecond⟩
      · exact different rfl
      · exact apart node visited
      · exact inv.apart _ _ _ _ away.symm running oldSecond node
          ⟨visits node (.inl visited.1), visited.2⟩
    · rcases fork_cases heldSecond with ⟨rfl, rfl⟩ | ⟨_, rfl, rfl⟩ | ⟨_, away, oldSecond⟩
      · exact apart node visited.symm
      · exact different rfl
      · exact inv.apart _ _ _ _ away.symm running oldSecond node
          ⟨visits node (.inr visited.1), visited.2⟩
    · rcases fork_cases heldSecond with ⟨rfl, rfl⟩ | ⟨_, rfl, rfl⟩ | ⟨_, _, oldSecond⟩
      · exact inv.apart _ _ _ _ away oldFirst running node ⟨visited.1, visits node (.inl visited.2)⟩
      · exact inv.apart _ _ _ _ away oldFirst running node ⟨visited.1, visits node (.inr visited.2)⟩
      · exact inv.apart _ _ _ _ different oldFirst oldSecond node visited
  · intro other found held node visited
    rcases fork_cases held with ⟨rfl, rfl⟩ | ⟨_, rfl, rfl⟩ | ⟨_, _, held⟩
    · exact inv.unmade _ _ running node (visits node (.inl visited))
    · exact inv.unmade _ _ running node (visits node (.inr visited))
    · exact inv.unmade _ _ held node visited
  · intro other found held
    change other < s.nextpid + 1 ∧ ∀ parent, found.parent = some parent → parent < s.nextpid + 1
    rcases fork_cases held with ⟨rfl, rfl⟩ | ⟨_, rfl, rfl⟩ | ⟨_, _, held⟩
    · refine ⟨Nat.lt_succ_self _, fun parent own => ?_⟩
      obtain rfl := Option.some.inj own
      exact pidBelow.trans (Nat.lt_succ_self _)
    · obtain ⟨below, parents⟩ := inv.pids _ _ running
      exact ⟨below.trans (Nat.lt_succ_self _),
        fun parent own => (parents parent own).trans (Nat.lt_succ_self _)⟩
    · obtain ⟨below, parents⟩ := inv.pids _ _ held
      exact ⟨below.trans (Nat.lt_succ_self _),
        fun parent own => (parents parent own).trans (Nat.lt_succ_self _)⟩
  intro other found held ready
  have children : ∀ kid shown, (s.fork pid proc background child parent).Child other kid shown ↔
        s.Child other kid shown ∨ (other = pid ∧ kid = s.nextpid ∧ shown = background) :=
    fun kid shown => child_fork_iff running unused
  rcases fork_cases held with ⟨rfl, rfl⟩ | ⟨new, rfl, rfl⟩ | ⟨_, away, held⟩
  · -- the child has no children of its own yet
    have none : ∀ kid shown,
        ¬(s.fork pid proc background child parent).Child s.nextpid kid shown := by
      intro kid shown held
      rcases (children kid shown).mp held with old | ⟨same, _⟩
      · exact childless kid shown old
      · exact absurd same pidBelow.ne'
    refine ⟨⟨∅, fun kid => ?_, ?_⟩, fun _ kid => none kid true⟩
    · exact ⟨fun member => absurd member (Finset.notMem_empty kid),
        fun held => absurd held (none kid false)⟩
    · exact (need ready).symm
  · obtain ⟨readyBefore, running, counted⟩ := awaits ready
    obtain ⟨⟨kids, exactly, card⟩, foreground⟩ := inv.kids _ _ ‹_› readyBefore
    cases background with
    | false =>
      have fresh : s.nextpid ∉ kids := by
        intro member
        obtain ⟨other, held, _⟩ := (exactly _).mp member
        rw [unused] at held
        exact nomatch held
      refine ⟨⟨insert s.nextpid kids, fun kid => ?_, ?_⟩, fun _ kid held => ?_⟩
      · rw [Finset.mem_insert, children, exactly]
        constructor
        · rintro (rfl | old)
          · exact .inr ⟨rfl, rfl, rfl⟩
          · exact .inl old
        · rintro (old | ⟨_, rfl, _⟩)
          · exact .inr old
          · exact .inl rfl
      · rw [Finset.card_insert_of_notMem fresh, card]
        exact counted.symm
      · rcases (children kid true).mp held with old | ⟨_, _, flag⟩
        · exact foreground running kid old
        · exact nomatch flag
    | true =>
      refine ⟨⟨kids, fun kid => ?_, ?_⟩, fun exits => absurd counted.2 exits⟩
      · rw [children, exactly]
        constructor
        · exact .inl
        · rintro (old | ⟨_, _, flag⟩)
          · exact old
          · exact nomatch flag
      · rw [card]
        exact counted.1.symm
  · refine (inv.kids _ _ held ready).congr (fun kid shown => ?_) rfl id
    rw [children]
    constructor
    · rintro (old | ⟨same, _⟩)
      · exact old
      · exact absurd same away
    · exact .inl

theorem Inv.fork
    (inv : Inv tree s)
    (running : s.procs pid = some proc)
    (code : proc.code = .fork background failed child parent) :
    Inv tree (s.fork pid proc background child parent) := by
  have fits := inv.fits _ _ running
  have good := fits.good
  have readyFork := inv.ready running (by rw [code]; exact nofun) (by rw [code]; exact nofun)
  have unsettled : proc.code.settled = false := by rw [code]; rfl
  have before := readyFork
  rw [code] at good before
  obtain ⟨apart, need, waits, readyChild, readyParent⟩ := before
  have here : proc.place = proc.site := Code.place_of_unsettled unsettled
  refine inv.forked running (fits.proceed inv.once here good.1 readyChild)
    (fits.proceed inv.once here good.2 readyParent) ?_ apart (fun _ => need) (fun _ => ⟨readyFork, Code.ne_exit_of_unsettled unsettled, ?_⟩)
  · rw [code]
    exact fun _ => id
  · rw [code]
    cases background with
    | true => exact ⟨rfl, waits⟩
    | false => exact (Nat.sub_add_cancel waits).symm

/-! ## Waits -/

theorem reap_cases (held : (s.reap pid proc child next).procs other = some found) :
    (other = pid ∧ found = { proc with code := next }) ∨
      (other ≠ pid ∧ other ≠ child ∧ s.procs other = some found) := by
  dsimp only [State.reap] at held
  by_cases same : other = pid
  · subst same
    rw [update_self] at held
    exact .inl ⟨rfl, (Option.some.inj held).symm⟩
  · rw [update_of_ne same] at held
    by_cases gone : other = child
    · subst gone
      rw [update_self] at held
      exact nomatch held
    · rw [update_of_ne gone] at held
      exact .inr ⟨same, gone, held⟩

theorem child_reap_iff
    (running : s.procs pid = some proc)
    (apart : child ≠ pid) :
    (s.reap pid proc child next).Child other kid shown ↔ kid ≠ child ∧ s.Child other kid shown := by
  constructor
  · rintro ⟨found, held, own, flag⟩
    rcases reap_cases held with ⟨rfl, rfl⟩ | ⟨_, gone, held⟩
    · exact ⟨apart.symm, proc, running, own, flag⟩
    · exact ⟨gone, found, held, own, flag⟩
  · rintro ⟨gone, found, held, own, flag⟩
    by_cases same : kid = pid
    · subst same
      obtain rfl := Option.some.inj (running.symm.trans held)
      exact ⟨_, update_self _ _ _, own, flag⟩
    · exact ⟨found, (update_of_ne same _ _).trans ((update_of_ne gone _ _).trans held), own, flag⟩

section

variable (inv : Inv tree s) (running : s.procs pid = some proc)

include inv running

/-- A process reaps a child. -/
theorem Inv.reaped
    (exited : s.procs child = some dead)
    (zombie : dead.code = .zombie)
    (own : dead.parent = some pid)
    (alive : proc.code ≠ .zombie)
    (fits : Fits tree s.made s.pipes { proc with code := next })
    (visits : ∀ node, next.visits node → proc.code.visits node)
    (awaits : next.Ready → proc.code.Ready ∧ proc.code ≠ .exit ∧ proc.code.need = next.need + 1) :
    Inv tree (s.reap pid proc child next) := by
  have apart : child ≠ pid := by
    rintro rfl
    obtain rfl := Option.some.inj (running.symm.trans exited)
    exact alive zombie
  refine ⟨?_, inv.once, inv.below, ?_, ?_, ?_, ?_⟩
  · intro other found held
    rcases reap_cases held with ⟨_, rfl⟩ | ⟨_, _, held⟩
    · exact fits
    · exact inv.fits _ _ held
  · intro first second one two different heldFirst heldSecond node visited
    rcases reap_cases heldFirst with ⟨rfl, rfl⟩ | ⟨_, _, oldFirst⟩
    · rcases reap_cases heldSecond with ⟨rfl, rfl⟩ | ⟨_, _, oldSecond⟩
      · exact different rfl
      · exact inv.apart _ _ _ _ different running oldSecond node ⟨visits node visited.1, visited.2⟩
    · rcases reap_cases heldSecond with ⟨rfl, rfl⟩ | ⟨_, _, oldSecond⟩
      · exact inv.apart _ _ _ _ different oldFirst running node ⟨visited.1, visits node visited.2⟩
      · exact inv.apart _ _ _ _ different oldFirst oldSecond node visited
  · intro other found held node visited
    rcases reap_cases held with ⟨rfl, rfl⟩ | ⟨_, _, held⟩
    · exact inv.unmade _ _ running node (visits node visited)
    · exact inv.unmade _ _ held node visited
  · intro other found held
    rcases reap_cases held with ⟨rfl, rfl⟩ | ⟨_, _, held⟩
    · exact inv.pids other proc running
    · exact inv.pids _ _ held
  intro other found held ready
  have children : ∀ kid shown, (s.reap pid proc child next).Child other kid shown ↔
      kid ≠ child ∧ s.Child other kid shown :=
    fun kid shown => child_reap_iff running apart
  rcases reap_cases held with ⟨rfl, rfl⟩ | ⟨away, _, held⟩
  · obtain ⟨readyBefore, waiting, counted⟩ := awaits ready
    obtain ⟨⟨kids, exactly, card⟩, foreground⟩ := inv.kids _ _ running readyBefore
    -- the child that was reaped is one of those to wait for
    have member : child ∈ kids := by
      rw [exactly]
      cases flag : dead.background with
      | false => exact ⟨dead, exited, own, flag⟩
      | true => exact absurd ⟨dead, exited, own, flag⟩ (foreground waiting child)
    refine ⟨⟨kids.erase child, fun kid => ?_, ?_⟩, fun _ kid held => ?_⟩
    · rw [Finset.mem_erase, children, exactly]
    · rw [Finset.card_erase_of_mem member, card, counted]
      rfl
    · exact foreground waiting kid ((children kid true).mp held).2
  · refine (inv.kids _ _ held ready).congr (fun kid shown => ?_) rfl id
    rw [children]
    constructor
    · exact And.right
    · rintro ⟨found, holds, parent, flag⟩
      refine ⟨?_, found, holds, parent, flag⟩
      rintro rfl
      obtain rfl := Option.some.inj (exited.symm.trans holds)
      exact away (Option.some.inj (parent.symm.trans own))

theorem Inv.wait
    (code : proc.code = .wait next)
    (exited : s.procs child = some dead)
    (zombie : dead.code = .zombie)
    (own : dead.parent = some pid) :
    Inv tree (s.reap pid proc child next) := by
  have fits := inv.fits _ _ running
  have good := fits.good
  have ready := inv.ready running (by rw [code]; exact nofun) (by rw [code]; exact nofun)
  have readyNext : next.Ready := by rwa [code] at ready
  rw [code] at good
  have here : proc.place = proc.site := by rw [Proc.place, code]; rfl
  refine inv.reaped running exited zombie own (by rw [code]; exact nofun)
    (fits.proceed inv.once here good.2 readyNext) ?_ ?_
  · rw [code]
    exact fun _ => id
  · rw [code]
    exact fun _ => ⟨readyNext, nofun, rfl⟩

/-- A process of the shell that waits has a child to wait for. -/
theorem Inv.exists_child (code : proc.code = .wait next) :
    ∃ child, s.Child pid child false := by
  have ready := inv.ready running (by rw [code]; exact nofun) (by rw [code]; exact nofun)
  obtain ⟨⟨kids, exactly, card⟩, _⟩ := inv.kids _ _ running ready
  have some : 0 < kids.card := by
    rw [card, code]
    exact Nat.succ_pos _
  obtain ⟨child, member⟩ := Finset.card_pos.mp some
  exact ⟨child, (exactly child).mp member⟩

end

/-! ## Programs and exits -/

/-- A process that runs a program holds the ends of pipes it may hold. -/
theorem Fits.program
    (fits : Fits tree made pipes proc)
    (settled : proc.code.settled = true)
    (here : proc.place = proc.site) :
    PipeEnds made proc.site proc.table := by
  intro node k fd pipe
  obtain ⟨write, read⟩ := fits.confined node k fd pipe
  rw [here, settled] at write read
  exact ⟨fun held => (write held).resolve_right (fun own => nomatch own.2),
    fun held => (read held).resolve_right (fun own => nomatch own.2)⟩

section

variable (inv : Inv tree s) (running : s.procs pid = some proc)

include inv running

theorem Inv.exec (code : proc.code = .exec argv failed) :
    Inv tree (s.setProc pid { proc with code := .program }) := by
  have fits := inv.fits _ _ running
  refine inv.update_same running le_rfl ?_ (fun _ visited => visited.elim) rfl rfl
    (fun ready => ready.elim)
  refine .of_pipeEnds True.intro ?_ fits.files (.inl rfl)
  exact fits.program (by rw [code]; rfl) (by rw [Proc.place, code]; rfl)

theorem Inv.execFailed (code : proc.code = .exec argv failed) :
    Inv tree (s.setProc pid { proc with code := failed }) := by
  have fits := inv.fits _ _ running
  have good := fits.good
  have ready := inv.ready running (by rw [code]; exact nofun) (by rw [code]; exact nofun)
  have here : proc.place = proc.site := by rw [Proc.place, code]; rfl
  have readyBefore := ready
  rw [code] at good ready
  obtain rfl : failed = .exit := ready
  refine inv.update_same running le_rfl (fits.proceed inv.once here good.2 True.intro)
    (fun _ visited => visited.elim) rfl rfl (fun _ => ⟨readyBefore, ?_, fun _ => rfl⟩)
  rw [code]
  rfl

theorem Inv.act
    (code : proc.code = .program)
    (more : s.pipes ≤ pipes)
    (files : ∀ fd file, table fd = some file →
      (∃ old, proc.table old = some file) ∨ (∃ name mode, file = .named name mode) ∨
        ∃ pipe, s.pipes ≤ pipe ∧ pipe < pipes ∧ (file = .readEnd pipe ∨ file = .writeEnd pipe)) :
    Inv tree (State.setProc { s with pipes := pipes } pid { proc with table := table }) := by
  have fits := inv.fits _ _ running
  have here : proc.place = proc.site := by rw [Proc.place, code]; rfl
  have ends := fits.program (by rw [code]; rfl) here
  refine inv.update_same running more ?_ (fun _ => id) rfl rfl (fun ready => ⟨ready, rfl, id⟩)
  refine .of_pipeEnds (by rw [code]; exact True.intro) ?_ ?_ (.inl code)
  · change PipeEnds s.made proc.place table
    rw [here]
    intro node k fd pipe
    have made := inv.below node k pipe
    refine ⟨fun held => ?_, fun held => ?_⟩
    · rcases files fd _ held with ⟨old, held⟩ | ⟨_, _, equal⟩ | ⟨j, new, _, equal | equal⟩
      · exact (ends node k old pipe).1 held
      · exact nomatch equal
      · exact nomatch equal
      · obtain rfl := File.writeEnd.inj equal
        exact absurd made (Nat.not_lt.mpr new)
    · rcases files fd _ held with ⟨old, held⟩ | ⟨_, _, equal⟩ | ⟨j, new, _, equal | equal⟩
      · exact (ends node k old pipe).2 held
      · exact nomatch equal
      · obtain rfl := File.readEnd.inj equal
        exact absurd made (Nat.not_lt.mpr new)
      · exact nomatch equal
  · rintro fd k (held | held)
    · rcases files fd _ held with ⟨old, held⟩ | ⟨_, _, equal⟩ | ⟨j, _, below, equal | equal⟩
      · exact (fits.files old k (.inl held)).trans_le more
      · exact nomatch equal
      · exact nomatch equal
      · obtain rfl := File.writeEnd.inj equal
        exact below
    · rcases files fd _ held with ⟨old, held⟩ | ⟨_, _, equal⟩ | ⟨j, _, below, equal | equal⟩
      · exact (fits.files old k (.inr held)).trans_le more
      · exact nomatch equal
      · obtain rfl := File.readEnd.inj equal
        exact below
      · exact nomatch equal

end

theorem orphan_cases (pid : Nat) (proc : Proc) :
    (proc.parent = some pid ∧ orphan pid proc = { proc with parent := none }) ∨
      (proc.parent ≠ some pid ∧ orphan pid proc = proc) := by
  unfold orphan
  by_cases own : proc.parent = some pid
  · exact .inl ⟨own, if_pos own⟩
  · exact .inr ⟨own, if_neg own⟩

@[simp] theorem orphan_code (pid : Nat) (proc : Proc) : (orphan pid proc).code = proc.code := by
  rcases orphan_cases pid proc with ⟨_, equal⟩ | ⟨_, equal⟩ <;> rw [equal]

theorem orphan_background (pid : Nat) (proc : Proc) :
    (orphan pid proc).background = proc.background := by
  rcases orphan_cases pid proc with ⟨_, equal⟩ | ⟨_, equal⟩ <;> rw [equal]

theorem orphan_parent_iff (apart : other ≠ pid) :
    (orphan pid proc).parent = some other ↔ proc.parent = some other := by
  rcases orphan_cases pid proc with ⟨own, equal⟩ | ⟨_, equal⟩
  · rw [equal, own]
    constructor
    · exact nofun
    · intro same
      exact absurd (Option.some.inj same).symm apart
  · rw [equal]

theorem Fits.orphan (fits : Fits tree made pipes proc) :
    Fits tree made pipes (orphan pid proc) := by
  rcases orphan_cases pid proc with ⟨_, equal⟩ | ⟨_, equal⟩
  · rw [equal]
    exact fits.of_parent none proc.background
  · rw [equal]
    exact fits

theorem exit_cases (held : (s.exit pid proc).procs other = some found) :
    (other = pid ∧ found = { orphan pid proc with table := fun _ => none, code := .zombie }) ∨
    (other ≠ pid ∧ ∃ old, s.procs other = some old ∧ found = orphan pid old) := by
  dsimp only [State.exit] at held
  by_cases same : other = pid
  · subst same
    rw [update_self] at held
    exact .inl ⟨rfl, (Option.some.inj held).symm⟩
  · rw [update_of_ne same] at held
    obtain ⟨old, before, equal⟩ := Option.map_eq_some_iff.mp held
    exact .inr ⟨same, old, before, equal.symm⟩

theorem child_exit_iff
    (running : s.procs pid = some proc)
    (apart : other ≠ pid) :
    (s.exit pid proc).Child other kid shown ↔ s.Child other kid shown := by
  constructor
  · rintro ⟨found, held, own, flag⟩
    rcases exit_cases held with ⟨rfl, rfl⟩ | ⟨_, old, before, rfl⟩
    · exact ⟨proc, running, (orphan_parent_iff apart).mp own,
        (orphan_background _ _).symm.trans flag⟩
    · exact ⟨old, before, (orphan_parent_iff apart).mp own, (orphan_background _ _).symm.trans flag⟩
  rintro ⟨found, held, own, flag⟩
  by_cases same : kid = pid
  · subst same
    obtain rfl := Option.some.inj (running.symm.trans held)
    refine ⟨{ orphan kid proc with table := fun _ => none, code := .zombie }, ?_,
      (orphan_parent_iff apart).mpr own, (orphan_background _ _).trans flag⟩
    dsimp only [State.exit]
    rw [update_self]
  · refine ⟨orphan pid found, ?_, (orphan_parent_iff apart).mpr own,
      (orphan_background _ _).trans flag⟩
    dsimp only [State.exit]
    rw [update_of_ne same, held]
    rfl

/-- A process exits. -/
theorem Inv.exit
    (inv : Inv tree s)
    (running : s.procs pid = some proc) :
    Inv tree (s.exit pid proc) := by
  refine ⟨?_, inv.once, inv.below, ?_, ?_, ?_, ?_⟩
  · intro other found held
    rcases exit_cases held with ⟨_, rfl⟩ | ⟨_, old, before, rfl⟩
    · exact ⟨fun _ => rfl, fun _ _ _ _ => ⟨nofun, nofun⟩, fun _ _ held => held.elim nofun nofun,
        .inr (.inl rfl)⟩
    · exact (inv.fits _ _ before).orphan
  · intro first second one two different heldFirst heldSecond node visited
    rcases exit_cases heldFirst with ⟨rfl, rfl⟩ | ⟨_, oldOne, beforeOne, rfl⟩
    · exact visited.1
    · rcases exit_cases heldSecond with ⟨rfl, rfl⟩ | ⟨_, oldTwo, beforeTwo, rfl⟩
      · exact visited.2
      · rw [orphan_code, orphan_code] at visited
        exact inv.apart _ _ _ _ different beforeOne beforeTwo node visited
  · intro other found held node visited
    rcases exit_cases held with ⟨rfl, rfl⟩ | ⟨_, old, before, rfl⟩
    · exact visited.elim
    · rw [orphan_code] at visited
      exact inv.unmade _ _ before node visited
  · intro other found held
    have parents : ∀ old : Proc, (∀ parent, old.parent = some parent → parent < s.nextpid) →
        ∀ parent, (orphan pid old).parent = some parent → parent < s.nextpid := by
      intro old below parent own
      rcases orphan_cases pid old with ⟨_, equal⟩ | ⟨_, equal⟩
      · rw [equal] at own
        exact nomatch own
      · rw [equal] at own
        exact below parent own
    rcases exit_cases held with ⟨rfl, rfl⟩ | ⟨_, old, before, rfl⟩
    · obtain ⟨below, known⟩ := inv.pids _ _ running
      exact ⟨below, parents proc known⟩
    · obtain ⟨below, known⟩ := inv.pids _ _ before
      exact ⟨below, parents old known⟩
  · intro other found held ready
    rcases exit_cases held with ⟨_, rfl⟩ | ⟨apart, old, before, rfl⟩
    · exact ready.elim
    · rw [orphan_code] at ready ⊢
      exact (inv.kids _ _ before ready).congr (fun _ _ => child_exit_iff running apart) rfl id

theorem Fits.still
    (fits : Fits tree made pipes proc)
    (code : proc.code = .program) :
    Fits tree made pipes { proc with code := .program } := by
  rw [← code]
  exact fits

/-! ## Whole runs -/

theorem Inv.step
    (inv : Inv tree s)
    (low : tree.Low)
    (step : Step s t) :
    Inv tree t := by
  cases step with
  | call running code => exact inv.call low running code
  | close running code => exact inv.close running code
  | dup running code isOpen found => exact inv.dup running code isOpen found
  | openFile running code found => exact inv.openFile running code found
  | pipe running code first second => exact inv.pipe running code first second
  | fork running code => exact inv.fork running code
  | wait running code exited zombie own => exact inv.wait running code exited zombie own
  | childless running code none =>
    obtain ⟨child, other, held, own, _⟩ := inv.exists_child running code
    exact absurd own (none child other held)
  | exec running code => exact inv.exec running code
  | execFailed running code => exact inv.execFailed running code
  | exit running _ => exact inv.exit running
  | act running code more files => exact inv.act running code more files
  | actFork running code =>
    have fits := (inv.fits _ _ running).still code
    refine inv.forked running fits fits ?_ ?_ (fun ready => ready.elim) (fun ready => ready.elim)
    · exact fun _ visited => (visited.elim id id : False).elim
    · exact fun _ visited => visited.1
  | actWait running code exited zombie own =>
    exact inv.reaped running exited zombie own (by rw [code]; exact nofun)
      ((inv.fits _ _ running).still code) (fun _ visited => visited.elim)
      (fun ready => ready.elim)
  | actExit running _ => exact inv.exit running

theorem start_procs (held : (start tree).procs pid = some proc) :
    pid = 0 ∧ proc = ⟨standard, .call [] tree, [], (0, 0), none, false⟩ := by
  dsimp only [start] at held
  by_cases zero : pid = 0
  · rw [if_pos zero] at held
    exact ⟨zero, (Option.some.inj held).symm⟩
  · rw [if_neg zero] at held
    exact nomatch held

theorem inv_start (tree : Cmd Text) : Inv tree (start tree) where
  fits := by
    intro pid proc held
    obtain ⟨_, rfl⟩ := start_procs held
    refine ⟨.root, nofun, ?_, .inr (.inr True.intro)⟩
    intro fd k held
    dsimp only [standard] at held
    split at held
    · rcases held with held | held <;> exact nomatch held
    · rcases held with held | held <;> exact nomatch held
  once := nofun
  below := nofun
  apart := by
    intro pid other proc second different heldFirst heldSecond
    obtain ⟨rfl, _⟩ := start_procs heldFirst
    obtain ⟨rfl, _⟩ := start_procs heldSecond
    exact absurd rfl different
  unmade := fun _ _ _ _ _ => rfl
  pids := by
    intro pid proc held
    obtain ⟨rfl, rfl⟩ := start_procs held
    exact ⟨Nat.zero_lt_one, nofun⟩
  kids := by
    intro pid proc held _
    have none : ∀ child shown, ¬(start tree).Child pid child shown := by
      rintro child shown ⟨other, held, own, _⟩
      obtain ⟨_, rfl⟩ := start_procs held
      exact nomatch own
    obtain ⟨_, rfl⟩ := start_procs held
    refine ⟨⟨∅, fun child => ?_, rfl⟩, fun _ child => none child true⟩
    exact ⟨fun member => absurd member (Finset.notMem_empty child),
      fun held => absurd held (none child false)⟩

theorem Reachable.inv
    (reached : Reachable tree s)
    (low : tree.Low) :
    Inv tree s := by
  induction reached with
  | refl => exact inv_start tree
  | tail _ step ih => exact ih.step low step

theorem Step.made_kept
    (step : Step s t)
    (inv : Inv tree s)
    (pipe : s.made node = some k) :
    t.made node = some k := by
  cases step with
  | pipe running code first second =>
    have unmade := inv.unmade _ _ running _ (by rw [code]; exact .inl rfl)
    exact (grows_update unmade).kept node k pipe
  | _ => exact pipe

/-- A tree node keeps the pipe it has made. -/
theorem made_kept
    (reached : Reachable tree s)
    (low : tree.Low)
    (runs : Relation.ReflTransGen Step s t)
    (pipe : s.made node = some k) :
    t.made node = some k := by
  induction runs with
  | refl => exact pipe
  | tail before step ih => exact step.made_kept (Reachable.inv (reached.trans before) low) ih

theorem Redirs.low (derives : Redirs ts redirs) :
    ∀ redir ∈ redirs, redir.fd < 3 := by
  induction derives with
  | nil => exact fun _ member => absurd member List.not_mem_nil
  | cons first _ ih =>
    intro redir member
    rcases List.mem_cons.mp member with rfl | member
    · cases first with
      | input => exact (by decide : 0 < 3)
      | output => exact (by decide : 1 < 3)
      | append => exact (by decide : 1 < 3)
    · exact ih redir member

theorem Args.low (args : Args ts words redirs) :
    ∀ redir ∈ redirs, redir.fd < 3 := by
  induction args with
  | nil => exact fun _ member => absurd member List.not_mem_nil
  | cons _ first _ ih =>
    intro redir member
    rcases List.mem_append.mp member with member | member
    · exact first.low redir member
    · exact ih redir member

theorem low_wrap
    (low : cmd.Low)
    (redirs : List (Redirection ω))
    (lowRedirs : ∀ redir ∈ redirs, redir.fd < 3) :
    (wrap cmd redirs).Low := by
  induction redirs generalizing cmd with
  | nil => exact low
  | cons redir redirs ih =>
    have first : (Cmd.redir cmd redir.file redir.mode redir.fd).Low :=
      ⟨lowRedirs redir List.mem_cons_self, low⟩
    exact ih first (fun other member => lowRedirs other (List.mem_cons_of_mem _ member))

theorem low_back {cmd : Cmd ω} (low : cmd.Low) (backs : Nat) : (Cmd.back^[backs] cmd).Low := by
  induction backs generalizing cmd with
  | zero => exact low
  | succ backs ih =>
    have once : (Cmd.back cmd).Low := low
    exact ih once

/-- The parser redirects the descriptors 0 and 1 only. -/
theorem Derives.low (derives : Derives category ts tree) : tree.Low := by
  induction derives with
  | line _ backs ih => exact low_back ih backs
  | list _ backs _ ihFirst ihRest => exact ⟨low_back ihFirst backs, ihRest⟩
  | single _ ih => exact ih
  | pipe _ _ ihFirst ihRest => exact ⟨ihFirst, ihRest⟩
  | block _ after ih => exact low_wrap ih _ after.low
  | simple before args _ =>
    refine low_wrap (show (Cmd.exec _).Low from True.intro) _ (fun redir member => ?_)
    rcases List.mem_append.mp member with member | member
    · exact before.low redir member
    · exact args.low redir member

end Sh
end Xv6
