import Xv6.Sh.Wiring

/-!
# The processes of a command tree

The invariant of a run of a command tree, over every interleaving of its
processes: each process runs good code, no two processes will visit the same
tree node, the ends of a pipe are held on the two sides of its node once the
node's descriptor calls have run, and a process has exactly as many foreground
children as it has `wait` calls left for them.
-/

namespace Xv6
namespace Sh

/-! ## What code can still do -/

namespace Code

/-- The tree nodes that the code still can visit. -/
def visits : Code → Site → Prop
  | .call site _, other => site <+: other
  | .close _ next, other => next.visits other
  | .dup _ next, other => next.visits other
  | .openFile _ _ _ next, other => next.visits other
  | .pipe site _ next, other => site = other ∨ next.visits other
  | .fork _ _ child parent, other => child.visits other ∨ parent.visits other
  | .wait next, other => next.visits other
  | .exec _ _, _ => False
  | .exit, _ => False
  | .program, _ => False
  | .zombie, _ => False

/-- The foreground children that the code still has to wait for, besides those
it has yet to fork. -/
def need : Code → Nat
  | .close _ next => next.need
  | .dup _ next => next.need
  | .openFile _ _ _ next => next.need
  | .pipe _ _ next => next.need
  | .fork background _ _ parent => if background then parent.need else parent.need - 1
  | .wait next => next.need + 1
  | _ => 0

/-- Code of the shell: a fork gives each side nodes of its own, the parent waits
for a child that is not in the background and exits after one that is. -/
def Ready : Code → Prop
  | .call _ _ => True
  | .close _ next => next.Ready
  | .dup _ next => next.Ready
  | .openFile _ _ _ next => next.Ready
  | .pipe site _ next => ¬next.visits site ∧ next.Ready
  | .fork background _ child parent =>
    (∀ site, ¬(child.visits site ∧ parent.visits site)) ∧ child.need = 0 ∧
      (if background then parent = .exit else 1 ≤ parent.need) ∧ child.Ready ∧ parent.Ready
  | .wait next => next.Ready
  | .exec _ failed => failed = .exit
  | .exit => True
  | .program => False
  | .zombie => False

/-- The node's calls on descriptors have run. -/
def settled : Code → Bool
  | .close _ _ => false
  | .dup _ _ => false
  | .openFile _ _ _ _ => false
  | .pipe _ _ _ => false
  | .fork _ _ _ _ => false
  | _ => true

/-- The tree node that a process belongs to: the one it is about to call
`runcmd` on, or the one whose `runcmd` it is in. -/
def place (site : Site) : Code → Site
  | .call node _ => node
  | _ => site

theorem place_of_unsettled {code : Code}
    (unsettled : code.settled = false) :
    code.place site = site := by
  cases code <;> first | rfl | exact nomatch unsettled

theorem ne_exit_of_unsettled {code : Code}
    (unsettled : code.settled = false) :
    code ≠ .exit := by
  rintro rfl
  exact nomatch unsettled

end Code

theorem not_prefix_both {site node : Site}
    (apart : branch ≠ other) :
    ¬(site ++ [branch] <+: node ∧ site ++ [other] <+: node) := by
  rintro ⟨⟨first, rfl⟩, ⟨second, equal⟩⟩
  rw [List.append_assoc, List.append_assoc] at equal
  have heads := List.append_cancel_left equal
  exact apart (List.cons.inj heads).1.symm

theorem not_append_prefix_self
    (site : Site)
    (branch : Branch) :
    ¬site ++ [branch] <+: site := by
  intro longer
  have less := longer.length_le
  rw [List.length_append, List.length_singleton] at less
  omega

theorem prefix_of_append_prefix {site node : Site}
    (longer : site ++ [branch] <+: node) :
    site <+: node :=
  (List.prefix_append _ _).trans longer

theorem runcmd_visits (visited : (runcmd site cmd).visits node) :
    site <+: node := by
  cases cmd with
  | exec argv =>
    by_cases empty : argv = [] <;> simp [runcmd, empty, Code.visits] at visited
  | redir cmd file mode fd => exact prefix_of_append_prefix visited
  | list left right =>
    rcases visited with visited | visited <;> exact prefix_of_append_prefix visited
  | pipe left right =>
    rcases visited with rfl | visited | visited | visited
    · exact List.prefix_refl _
    · exact prefix_of_append_prefix visited
    · exact prefix_of_append_prefix visited
    · exact visited.elim
  | back cmd =>
    rcases visited with visited | visited
    · exact prefix_of_append_prefix visited
    · exact visited.elim

theorem runcmd_ready (site : Site) (cmd : Cmd Text) : (runcmd site cmd).Ready := by
  cases cmd with
  | exec argv => by_cases empty : argv = [] <;> simp [runcmd, empty, Code.Ready]
  | redir cmd file mode fd => exact True.intro
  | list left right =>
    refine ⟨fun node => not_prefix_both (by decide), rfl, ?_, True.intro, True.intro⟩
    exact Nat.le_refl 1
  | pipe left right =>
    refine ⟨?_, ?_, rfl, (by decide : (1 : Nat) ≤ 2 - 1), True.intro,
      ⟨?_, rfl, (by decide : (1 : Nat) ≤ 2), True.intro, True.intro⟩⟩
    · rintro (visited | visited | visited)
      · exact not_append_prefix_self site _ visited
      · exact not_append_prefix_self site _ visited
      · exact visited
    · rintro node ⟨first, second | second⟩
      · exact not_prefix_both (by decide) ⟨first, second⟩
      · exact second
    · rintro node ⟨_, second⟩
      exact second
  | back cmd =>
    refine ⟨?_, rfl, rfl, True.intro, True.intro⟩
    rintro node ⟨_, second⟩
    exact second

theorem runcmd_need (site : Site) (cmd : Cmd Text) : (runcmd site cmd).need = 0 := by
  cases cmd with
  | exec argv => by_cases empty : argv = [] <;> simp [runcmd, empty, Code.need]
  | redir cmd file mode fd => rfl
  | list left right => rfl
  | pipe left right => rfl
  | back cmd => rfl

theorem runcmd_place (site : Site) (cmd : Cmd Text) : (runcmd site cmd).place site = site := by
  cases cmd with
  | exec argv => by_cases empty : argv = [] <;> simp [runcmd, empty, Code.place]
  | redir cmd file mode fd => rfl
  | list left right => rfl
  | pipe left right => rfl
  | back cmd => rfl

/-! ## One process -/

/-- The tree node that a process belongs to. -/
def Proc.place (proc : Proc) : Site :=
  proc.code.place proc.site

/-- What holds of every process. -/
structure Fits (tree : Cmd Text) (made : Site → Option Nat) (pipes : Nat) (proc : Proc) :
    Prop where
  good : Good tree made proc.code proc.site proc.p proc.table
  /-- It holds ends of pipes of other nodes on the right side of them only. -/
  confined : ∀ node k fd, made node = some k →
    (proc.table fd = some (.writeEnd k) → node ++ [.left] <+: proc.place ∨
      (node = proc.site ∧ proc.code.settled = false)) ∧
    (proc.table fd = some (.readEnd k) → node ++ [.right] <+: proc.place ∨
      (node = proc.site ∧ proc.code.settled = false))
  /-- It holds ends of pipes that were made. -/
  files : ∀ fd k, proc.table fd = some (.writeEnd k) ∨ proc.table fd = some (.readEnd k) → k < pipes
  /-- It runs code of the shell or a program, or has exited. -/
  ready : proc.code = .program ∨ proc.code = .zombie ∨ proc.code.Ready

/-- Pipes are made and stay the pipes of their nodes. -/
structure Grows (made later : Site → Option Nat) (pipes more : Nat) : Prop where
  /-- A node keeps its pipe. -/
  kept : ∀ node k, made node = some k → later node = some k
  /-- A pipe that a node gets is new. -/
  fresh : ∀ node k, later node = some k → made node = some k ∨ pipes ≤ k
  /-- Pipes are not forgotten. -/
  more : pipes ≤ more

theorem Grows.refl (made : Site → Option Nat) (more : pipes ≤ later) :
    Grows made made pipes later where
  kept := fun _ _ pipe => pipe
  fresh := fun _ _ pipe => .inl pipe
  more := more

theorem Fits.mono
    (fits : Fits tree made pipes proc)
    (grows : Grows made later pipes more) :
    Fits tree later more proc where
  good := fits.good.mono grows.kept
  confined := by
    intro node k fd pipe
    rcases grows.fresh node k pipe with old | new
    · exact fits.confined node k fd old
    · refine ⟨fun held => ?_, fun held => ?_⟩
      · exact absurd (fits.files fd k (.inl held)) (Nat.not_lt.mpr new)
      · exact absurd (fits.files fd k (.inr held)) (Nat.not_lt.mpr new)
  files := fun fd k held => (fits.files fd k held).trans_le grows.more
  ready := fits.ready

/-- The parent of a process does not matter to it. -/
theorem Fits.of_parent
    (fits : Fits tree made pipes proc)
    (parent : Option Nat)
    (background : Bool) :
    Fits tree made pipes { proc with parent := parent, background := background } :=
  ⟨fits.good, fits.confined, fits.files, fits.ready⟩

/-- A process of the shell that has no descriptor calls left holds what its node
is to find. -/
theorem Good.pipeEnds
    (good : Good tree made code site p table)
    (once : MadeOnce made)
    (settled : code.settled = true)
    (ready : code.Ready) :
    PipeEnds made (code.place site) table := by
  cases code with
  | call node cmd => exact Wired.pipeEnds good once
  | wait next =>
    obtain ⟨⟨_, wired⟩, _⟩ := good
    exact wired.pipeEnds once
  | exec argv failed => exact good.1.pipeEnds once
  | exit =>
    obtain ⟨_, wired⟩ := good
    exact wired.pipeEnds once
  | program => exact ready.elim
  | zombie => exact ready.elim
  | close => exact nomatch settled
  | dup => exact nomatch settled
  | openFile => exact nomatch settled
  | pipe => exact nomatch settled
  | fork => exact nomatch settled

/-- A process whose code is settled at tree nodes as they are to be found. -/
theorem Fits.of_pipeEnds
    (good : Good tree made proc.code proc.site proc.p proc.table)
    (ends : PipeEnds made proc.place proc.table)
    (files : ∀ fd k, proc.table fd = some (.writeEnd k) ∨ proc.table fd = some (.readEnd k) →
      k < pipes)
    (ready : proc.code = .program ∨ proc.code = .zombie ∨ proc.code.Ready) :
    Fits tree made pipes proc where
  good := good
  confined := fun node k fd pipe =>
    ⟨fun held => .inl ((ends node k fd pipe).1 held),
      fun held => .inl ((ends node k fd pipe).2 held)⟩
  files := files
  ready := ready

/-- A process after one of its node's calls on descriptors. -/
theorem Fits.advance
    (fits : Fits tree made pipes proc)
    (once : MadeOnce made)
    (below : ∀ node k, made node = some k → k < pipes)
    (unsettled : proc.code.settled = false)
    (good : Good tree made next proc.site p table)
    (ready : next.Ready)
    (files : ∀ fd file, table fd = some file → (∃ old, proc.table old = some file) ∨
      (∃ name mode, file = .named name mode) ∨
        ∃ k, made proc.site = some k ∧ (file = .readEnd k ∨ file = .writeEnd k)) :
    Fits tree made pipes { proc with code := next, p := p, table := table } where
  good := good
  ready := .inr (.inr ready)
  files := by
    rintro fd k (held | held)
    · rcases files fd _ held with ⟨old, held⟩ | ⟨_, _, equal⟩ | ⟨j, own, equal | equal⟩
      · exact fits.files old k (.inl held)
      · exact nomatch equal
      · exact nomatch equal
      · obtain rfl := File.writeEnd.inj equal
        exact below _ _ own
    · rcases files fd _ held with ⟨old, held⟩ | ⟨_, _, equal⟩ | ⟨j, own, equal | equal⟩
      · exact fits.files old k (.inr held)
      · exact nomatch equal
      · obtain rfl := File.readEnd.inj equal
        exact below _ _ own
      · exact nomatch equal
  confined := by
    intro node k fd pipe
    by_cases settled : next.settled = true
    · have ends := good.pipeEnds once settled ready node k fd pipe
      exact ⟨fun held => .inl (ends.1 held), fun held => .inl (ends.2 held)⟩
    -- the place of the process stays where it was, at its node
    have unsettledNext := Bool.eq_false_of_not_eq_true settled
    have place : Proc.place { proc with code := next, p := p, table := table } = proc.place :=
      (Code.place_of_unsettled unsettledNext).trans (Code.place_of_unsettled unsettled).symm
    rw [place]
    refine ⟨fun held => ?_, fun held => ?_⟩
    · rcases files fd _ held with ⟨old, held⟩ | ⟨_, _, equal⟩ | ⟨j, own, equal | equal⟩
      · exact ((fits.confined node k old pipe).1 held).imp id (And.imp_right fun _ => unsettledNext)
      · exact nomatch equal
      · exact nomatch equal
      · obtain rfl := File.writeEnd.inj equal
        exact .inr ⟨once _ _ _ pipe own, unsettledNext⟩
    · rcases files fd _ held with ⟨old, held⟩ | ⟨_, _, equal⟩ | ⟨j, own, equal | equal⟩
      · exact ((fits.confined node k old pipe).2 held).imp id (And.imp_right fun _ => unsettledNext)
      · exact nomatch equal
      · obtain rfl := File.readEnd.inj equal
        exact .inr ⟨once _ _ _ pipe own, unsettledNext⟩
      · exact nomatch equal

/-- A process that goes on with its descriptors as they are. -/
theorem Fits.proceed
    (fits : Fits tree made pipes proc)
    (once : MadeOnce made)
    (here : proc.place = proc.site)
    (good : Good tree made next proc.site proc.p proc.table)
    (ready : next.Ready) :
    Fits tree made pipes { proc with code := next } where
  good := good
  ready := .inr (.inr ready)
  files := fits.files
  confined := by
    intro node k fd pipe
    by_cases settled : next.settled = true
    · have ends := good.pipeEnds once settled ready node k fd pipe
      exact ⟨fun held => .inl (ends.1 held), fun held => .inl (ends.2 held)⟩
    · have unsettled := Bool.eq_false_of_not_eq_true settled
      have place : Proc.place { proc with code := next } = proc.place :=
        (Code.place_of_unsettled unsettled).trans here.symm
      rw [place]
      obtain ⟨write, read⟩ := fits.confined node k fd pipe
      exact ⟨fun held => (write held).imp id (And.imp_right fun _ => unsettled),
        fun held => (read held).imp id (And.imp_right fun _ => unsettled)⟩

/-! ## All processes -/

/-- A process is a child of another one, in the background or not. -/
def State.Child (s : State) (pid child : Nat) (background : Bool) : Prop :=
  ∃ proc, s.procs child = some proc ∧ proc.parent = some pid ∧ proc.background = background

/-- The children of a process of the shell: as many in the foreground as it has
to wait for, and none in the background before it exits. -/
def State.Awaits (s : State) (pid : Nat) (code : Code) : Prop :=
  (∃ kids : Finset Nat, (∀ child, child ∈ kids ↔ s.Child pid child false) ∧ kids.card = code.need) ∧
  (code ≠ .exit → ∀ child, ¬s.Child pid child true)

/-- The invariant of a run. -/
structure Inv (tree : Cmd Text) (s : State) : Prop where
  /-- Every process is in order. -/
  fits : ∀ pid proc, s.procs pid = some proc → Fits tree s.made s.pipes proc
  once : MadeOnce s.made
  /-- The pipes of nodes were made. -/
  below : ∀ node k, s.made node = some k → k < s.pipes
  /-- No node will be visited by two processes. -/
  apart : ∀ pid other proc second, pid ≠ other → s.procs pid = some proc →
    s.procs other = some second → ∀ node, ¬(proc.code.visits node ∧ second.code.visits node)
  /-- A node that will be visited has made no pipe yet. -/
  unmade : ∀ pid proc, s.procs pid = some proc → ∀ node, proc.code.visits node → s.made node = none
  /-- Identifiers are not used again. -/
  pids : ∀ pid proc, s.procs pid = some proc →
    pid < s.nextpid ∧ ∀ parent, proc.parent = some parent → parent < s.nextpid
  /-- The processes of the shell wait for their children. -/
  kids : ∀ pid proc, s.procs pid = some proc → proc.code.Ready → s.Awaits pid proc.code

/-- The state after a process has changed, and perhaps made pipes. -/
def State.update (s : State) (made : Site → Option Nat) (pipes pid : Nat) (proc : Proc) :
    State :=
  State.setProc { s with pipes := pipes, made := made } pid proc

variable {s : State} {proc changed : Proc} {pid : Nat}

theorem update_cases (held : (s.update made pipes pid proc).procs other = some found) :
    (other = pid ∧ found = proc) ∨ (other ≠ pid ∧ s.procs other = some found) := by
  by_cases same : other = pid
  · subst same
    have equal : some proc = some found := (Function.update_self other _ s.procs).symm.trans held
    exact .inl ⟨rfl, (Option.some.inj equal).symm⟩
  · have equal : s.procs other = some found :=
      (Function.update_of_ne same _ s.procs).symm.trans held
    exact .inr ⟨same, equal⟩

section

variable (running : s.procs pid = some proc) (parent : changed.parent = proc.parent)

include running parent

theorem child_update
    (background : changed.background = proc.background)
    (held : (s.update made pipes pid changed).Child other child shown) :
    s.Child other child shown := by
  obtain ⟨found, held, own, flag⟩ := held
  rcases update_cases held with ⟨rfl, rfl⟩ | ⟨_, held⟩
  · exact ⟨proc, running, parent ▸ own, background ▸ flag⟩
  · exact ⟨found, held, own, flag⟩

theorem child_of_update
    (background : changed.background = proc.background)
    (held : s.Child other child shown) :
    (s.update made pipes pid changed).Child other child shown := by
  obtain ⟨found, held, own, flag⟩ := held
  by_cases same : child = pid
  · subst same
    obtain rfl := Option.some.inj (running.symm.trans held)
    exact ⟨changed, Function.update_self _ _ _, parent.trans own, background.trans flag⟩
  · exact ⟨found, (Function.update_of_ne same _ _).trans held, own, flag⟩

theorem child_update_iff (background : changed.background = proc.background) :
    (s.update made pipes pid changed).Child other child shown ↔ s.Child other child shown :=
  ⟨child_update running parent background, child_of_update running parent background⟩

end

/-- The children that count are the same in both states. -/
theorem State.Awaits.congr {s t : State}
    (awaits : s.Awaits pid code)
    (children : ∀ child shown, t.Child pid child shown ↔ s.Child pid child shown)
    (need : next.need = code.need)
    (exits : code = .exit → next = .exit) :
    t.Awaits pid next := by
  obtain ⟨⟨kids, exactly, card⟩, none⟩ := awaits
  refine ⟨⟨kids, fun child => (exactly child).trans (children child _).symm, card.trans need.symm⟩,
    ?_⟩
  intro running child held
  exact none (mt exits running) child ((children child _).mp held)

section

variable (inv : Inv tree s)

include inv

/-- A step of one process that keeps its family. -/
theorem Inv.update
    (running : s.procs pid = some proc)
    (grows : Grows s.made made s.pipes pipes)
    (once : MadeOnce made)
    (below : ∀ node k, made node = some k → k < pipes)
    (new : ∀ node, made node ≠ none → s.made node = none →
      proc.code.visits node ∧ ¬changed.code.visits node)
    (fits : Fits tree made pipes changed)
    (visits : ∀ node, changed.code.visits node → proc.code.visits node)
    (parent : changed.parent = proc.parent)
    (background : changed.background = proc.background)
    (awaits : changed.code.Ready → proc.code.Ready ∧ changed.code.need = proc.code.need ∧
      (proc.code = .exit → changed.code = .exit)) :
    Inv tree (s.update made pipes pid changed) where
  fits := by
    intro other found held
    rcases update_cases held with ⟨rfl, rfl⟩ | ⟨_, held⟩
    · exact fits
    · exact (inv.fits other found held).mono grows
  once := once
  below := below
  apart := by
    intro first second one two apart heldFirst heldSecond node visited
    rcases update_cases heldFirst with ⟨rfl, rfl⟩ | ⟨_, oldFirst⟩
    · rcases update_cases heldSecond with ⟨rfl, rfl⟩ | ⟨_, oldSecond⟩
      · exact apart rfl
      · exact inv.apart _ _ _ _ apart running oldSecond node ⟨visits node visited.1, visited.2⟩
    · rcases update_cases heldSecond with ⟨rfl, rfl⟩ | ⟨_, oldSecond⟩
      · exact inv.apart _ _ _ _ apart oldFirst running node ⟨visited.1, visits node visited.2⟩
      · exact inv.apart _ _ _ _ apart oldFirst oldSecond node visited
  unmade := by
    intro other found held node visited
    change made node = none
    by_contra pipe
    rcases update_cases held with ⟨rfl, rfl⟩ | ⟨apart, held⟩
    · have before := inv.unmade _ _ running node (visits node visited)
      exact (new node pipe before).2 visited
    · have before := inv.unmade _ _ held node visited
      exact inv.apart _ _ _ _ apart held running node ⟨visited, (new node pipe before).1⟩
  pids := by
    intro other found held
    rcases update_cases held with ⟨rfl, rfl⟩ | ⟨_, held⟩
    · rw [parent]
      exact inv.pids _ _ running
    · exact inv.pids _ _ held
  kids := by
    intro other found held ready
    rcases update_cases held with ⟨rfl, rfl⟩ | ⟨_, held⟩
    · obtain ⟨before, need, exits⟩ := awaits ready
      exact (inv.kids _ _ running before).congr
        (fun _ _ => child_update_iff running parent background) need exits
    · exact (inv.kids _ _ held ready).congr
        (fun _ _ => child_update_iff running parent background) rfl id

/-- A step of one process that makes no pipe for a node. -/
theorem Inv.update_same
    (running : s.procs pid = some proc)
    (more : s.pipes ≤ pipes)
    (fits : Fits tree s.made pipes changed)
    (visits : ∀ node, changed.code.visits node → proc.code.visits node)
    (parent : changed.parent = proc.parent)
    (background : changed.background = proc.background)
    (awaits : changed.code.Ready → proc.code.Ready ∧ changed.code.need = proc.code.need ∧
      (proc.code = .exit → changed.code = .exit)) :
    Inv tree (s.update s.made pipes pid changed) :=
  inv.update running (Grows.refl _ more) inv.once
    (fun node k pipe => (inv.below node k pipe).trans_le more)
    (fun _ pipe none => absurd none pipe) fits visits parent background awaits

/-- The code of a process that is no program and has not exited. -/
theorem Inv.ready
    (running : s.procs pid = some proc)
    (program : proc.code ≠ .program)
    (zombie : proc.code ≠ .zombie) :
    proc.code.Ready :=
  ((inv.fits pid proc running).ready.resolve_left program).resolve_left zombie

theorem Inv.call
    (low : tree.Low)
    (running : s.procs pid = some proc)
    (code : proc.code = .call site cmd) :
    Inv tree (s.setProc pid { proc with code := runcmd site cmd, site := site }) := by
  have fits := inv.fits _ _ running
  have wired : Wired s.made tree site cmd proc.table := by
    have good := fits.good
    rwa [code] at good
  refine inv.update_same running le_rfl ?_ ?_ rfl rfl ?_
  · refine .of_pipeEnds (runcmd_good wired low proc.p) ?_ fits.files
      (.inr (.inr (runcmd_ready site cmd)))
    have ends := wired.pipeEnds inv.once
    rwa [← runcmd_place site cmd] at ends
  · intro node visited
    rw [code]
    exact runcmd_visits visited
  · intro _
    rw [code]
    exact ⟨True.intro, runcmd_need site cmd, fun exits => nomatch exits⟩

/-- A call on descriptors. -/
theorem Inv.advance
    (running : s.procs pid = some proc)
    (unsettled : proc.code.settled = false)
    (good : Good tree s.made next proc.site proc.p table)
    (ready : next.Ready)
    (readyBefore : proc.code.Ready)
    (visits : ∀ node, next.visits node → proc.code.visits node)
    (need : next.need = proc.code.need)
    (files : ∀ fd file, table fd = some file → (∃ old, proc.table old = some file) ∨
      ∃ name mode, file = .named name mode) :
    Inv tree (s.setProc pid { proc with code := next, table := table }) := by
  refine inv.update_same running le_rfl ?_ visits rfl rfl ?_
  · refine (inv.fits _ _ running).advance inv.once inv.below unsettled good ready ?_
    intro fd file held
    exact (files fd file held).imp_right .inl
  · exact fun _ => ⟨readyBefore, need,
      fun exits => absurd exits (Code.ne_exit_of_unsettled unsettled)⟩

theorem Inv.close
    (running : s.procs pid = some proc)
    (code : proc.code = .close fd next) :
    Inv tree (s.setProc pid
      { proc with code := next, table := proc.table.drop (fd.value proc.p) }) := by
  have good := (inv.fits _ _ running).good
  have ready := inv.ready running (by rw [code]; exact nofun) (by rw [code]; exact nofun)
  have unsettled : proc.code.settled = false := by rw [code]; rfl
  rw [code] at good
  refine inv.advance running unsettled good ?_ ready ?_ ?_ ?_
  · rwa [code] at ready
  · rw [code]
    exact fun _ => id
  · rw [code]
    rfl
  · exact fun other file held => .inl ⟨other, Table.eq_of_drop held⟩

theorem Inv.dup
    (running : s.procs pid = some proc)
    (code : proc.code = .dup fd next)
    (isOpen : proc.table (fd.value proc.p) = some file)
    (found : fdalloc proc.table = some new) :
    Inv tree (s.setProc pid { proc with code := next, table := proc.table.put new file }) := by
  have good := (inv.fits _ _ running).good
  have ready := inv.ready running (by rw [code]; exact nofun) (by rw [code]; exact nofun)
  have unsettled : proc.code.settled = false := by rw [code]; rfl
  rw [code] at good
  obtain ⟨other, place, held, lowest, rest⟩ := good
  obtain rfl := Option.some.inj (isOpen.symm.trans held)
  obtain rfl := Option.some.inj (found.symm.trans lowest)
  refine inv.advance running unsettled rest ?_ ready ?_ ?_ ?_
  · rwa [code] at ready
  · rw [code]
    exact fun _ => id
  · rw [code]
    rfl
  · intro place found held
    rcases Table.eq_of_put held with rfl | old
    · exact .inl ⟨_, isOpen⟩
    · exact .inl ⟨_, old⟩

theorem Inv.openFile
    (running : s.procs pid = some proc)
    (code : proc.code = .openFile file mode failed next)
    (found : fdalloc proc.table = some new) :
    Inv tree (s.setProc pid
      { proc with code := next, table := proc.table.put new (.named file mode) }) := by
  have good := (inv.fits _ _ running).good
  have ready := inv.ready running (by rw [code]; exact nofun) (by rw [code]; exact nofun)
  have unsettled : proc.code.settled = false := by rw [code]; rfl
  rw [code] at good
  obtain ⟨place, lowest, rest⟩ := good
  obtain rfl := Option.some.inj (found.symm.trans lowest)
  refine inv.advance running unsettled rest ?_ ready ?_ ?_ ?_
  · rwa [code] at ready
  · rw [code]
    exact fun _ => id
  · rw [code]
    rfl
  · intro place other held
    rcases Table.eq_of_put held with rfl | old
    · exact .inr ⟨_, _, rfl⟩
    · exact .inl ⟨_, old⟩

end

theorem grows_update (unmade : made site = none) :
    Grows made (Function.update made site (some pipes)) pipes (pipes + 1) where
  kept := by
    intro node k pipe
    have apart : node ≠ site := by
      rintro rfl
      rw [unmade] at pipe
      exact nomatch pipe
    rw [Function.update_of_ne apart]
    exact pipe
  fresh := by
    intro node k pipe
    by_cases same : node = site
    · subst same
      rw [Function.update_self] at pipe
      exact .inr (Option.some.inj pipe).le
    · rw [Function.update_of_ne same] at pipe
      exact .inl pipe
  more := Nat.le_succ _

theorem update_made_cases {made : Site → Option Nat}
    (pipe : Function.update made site (some pipes) node = some k) :
    (node = site ∧ k = pipes) ∨ made node = some k := by
  by_cases same : node = site
  · subst same
    rw [Function.update_self] at pipe
    exact .inl ⟨rfl, (Option.some.inj pipe).symm⟩
  · rw [Function.update_of_ne same] at pipe
    exact .inr pipe

theorem Inv.pipe
    (inv : Inv tree s)
    (running : s.procs pid = some proc)
    (code : proc.code = .pipe site failed next)
    (first : fdalloc proc.table = some fd0)
    (second : fdalloc (proc.table.put fd0 (.readEnd s.pipes)) = some fd1) :
    Inv tree (State.setProc
      { s with pipes := s.pipes + 1, made := Function.update s.made site (some s.pipes) } pid
      { proc with
        code := next
        p := (fd0, fd1)
        table := (proc.table.put fd0 (.readEnd s.pipes)).put fd1 (.writeEnd s.pipes) }) := by
  have fits := inv.fits _ _ running
  have good := fits.good
  have ready := inv.ready running (by rw [code]; exact nofun) (by rw [code]; exact nofun)
  have unsettled : proc.code.settled = false := by rw [code]; rfl
  have visited : proc.code.visits site := by
    rw [code]
    exact .inl rfl
  have unmade := inv.unmade _ _ running site visited
  rw [code] at good
  obtain ⟨rfl, continues⟩ := good
  obtain ⟨place0, place1, lowest0, lowest1, rest⟩ := continues unmade s.pipes
  obtain rfl := Option.some.inj (first.symm.trans lowest0)
  obtain rfl := Option.some.inj (second.symm.trans lowest1)
  have grows : Grows s.made (Function.update s.made proc.site (some s.pipes)) s.pipes
      (s.pipes + 1) := grows_update unmade
  have once : MadeOnce (Function.update s.made proc.site (some s.pipes)) := by
    intro node other k one two
    rcases update_made_cases one with ⟨rfl, rfl⟩ | one
    · rcases update_made_cases two with ⟨rfl, _⟩ | two
      · rfl
      · exact absurd (inv.below _ _ two) (lt_irrefl _)
    · rcases update_made_cases two with ⟨rfl, rfl⟩ | two
      · exact absurd (inv.below _ _ one) (lt_irrefl _)
      · exact inv.once _ _ _ one two
  have below : ∀ node k, Function.update s.made proc.site (some s.pipes) node = some k →
      k < s.pipes + 1 := by
    intro node k pipe
    rcases update_made_cases pipe with ⟨_, rfl⟩ | old
    · exact Nat.lt_succ_self _
    · exact (inv.below _ _ old).trans (Nat.lt_succ_self _)
  have readyPipe : ¬next.visits proc.site ∧ next.Ready := by rwa [code] at ready
  refine inv.update running grows once below ?_ ?_ ?_ rfl rfl ?_
  · intro node pipe before
    by_cases same : node = proc.site
    · subst same
      exact ⟨visited, readyPipe.1⟩
    · rw [Function.update_of_ne same] at pipe
      exact absurd before pipe
  · refine (fits.mono grows).advance once below unsettled rest readyPipe.2 ?_
    intro fd file held
    have own : Function.update s.made proc.site (some s.pipes) proc.site = some s.pipes :=
      Function.update_self _ _ _
    rcases Table.eq_of_put held with rfl | held
    · exact .inr (.inr ⟨_, own, .inr rfl⟩)
    · rcases Table.eq_of_put held with rfl | held
      · exact .inr (.inr ⟨_, own, .inl rfl⟩)
      · exact .inl ⟨_, held⟩
  · intro node visitedNext
    rw [code]
    exact .inr visitedNext
  · refine fun _ => ⟨ready, ?_, fun exits => absurd exits (Code.ne_exit_of_unsettled unsettled)⟩
    rw [code]
    rfl

end Sh
end Xv6
