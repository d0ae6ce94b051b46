import Xv6.Proc.Memory

/-!
# Every page has one owner

A page is free, or part of one thing: a kernel stack, an address space, a pipe.
The books count for every page the places where it is.  The count stays at most
one: every call moves pages, or loses them, but never doubles one.  So a page that
is given back is not free.
-/

namespace Xv6
namespace Memory

open Function
open Faulting
open Shares
open Vm

/-! ## Counting -/

/-- Pages that a process has. -/
def Slot.held (slot : Slot) (page : Nat) : Nat :=
  match slot.state with
  | .unused => 0
  | .embryo => single (some slot.kstack) page
  | _ => single (some slot.kstack) page + slot.pgdir.held page

/-- The page is a pipe. -/
def Ends.held (ends : Ends) : Nat :=
  if ends.readopen || ends.writeopen then 1 else 0

/-- Whether an end of a pipe is open. -/
def Ends.isOpen (ends : Ends) (writable : Bool) : Bool :=
  if writable then ends.writeopen else ends.readopen

theorem Ends.held_of_isOpen {ends : Ends} {writable : Bool}
    (isOpen : ends.isOpen writable = true) :
    ends.held = 1 := by
  unfold Ends.isOpen at isOpen
  unfold Ends.held
  cases writable
  · rw [if_neg Bool.false_ne_true] at isOpen
    rw [isOpen, Bool.true_or, if_pos rfl]
  · rw [if_pos rfl] at isOpen
    rw [isOpen, Bool.or_true, if_pos rfl]

theorem Ends.isOpen_close
    (ends : Ends)
    (closed writable : Bool) :
    (ends.close closed).isOpen writable = (!(closed == writable) && ends.isOpen writable) := by
  cases closed <;> cases writable <;> rfl

/-- Pages of the kernel's own page directory. -/
def dirHeld (dir : Option PageDir) (page : Nat) : Nat :=
  match dir with
  | none => 0
  | some dir => dir.held page

namespace Machine

/-- Pages that processes have. -/
def procHeld (m : Machine) (page : Nat) : Nat := ∑ p, (m.slot p).held page

/-- Places of a page other than the free list. -/
def held (m : Machine) (page : Nat) : Nat :=
  m.procHeld page + (m.ends page).held + dirHeld m.kpgdir page + m.cpustack.count page

theorem procHeld_setSlot
    (m : Machine)
    (p : Fin NPROC)
    (slot : Slot)
    (page : Nat) :
    (m.setSlot p slot).procHeld page + (m.slot p).held page = m.procHeld page + slot.held page := by
  have change := sum_change (fun q => (m.slot q).held page)
    (fun q => ((m.setSlot p slot).slot q).held page) p (Finset.mem_univ p)
    (fun other different => by simp only [setSlot, update_of_ne different])
  simp only [setSlot, update_self] at change
  exact change

theorem held_setSlot
    (m : Machine)
    (p : Fin NPROC)
    (slot : Slot)
    (page : Nat) :
    (m.setSlot p slot).held page + (m.slot p).held page = m.held page + slot.held page := by
  have change := m.procHeld_setSlot p slot page
  show (m.setSlot p slot).procHeld page + _ + _ + _ + _ = _
  unfold held
  show (m.setSlot p slot).procHeld page + (m.ends page).held + dirHeld m.kpgdir page +
    m.cpustack.count page + _ = _
  omega

end Machine

/-! ## The invariant -/

/-- What is true of a slot that is in use. -/
structure Slot.Sound (link : Link) (slot : Slot) : Prop where
  /-- The pages of the address space can be given back. -/
  framed : slot.state = .alive ∨ slot.state = .zombie → Framed link ⟨[], slot.pgdir, []⟩
  /-- User memory ends below the kernel. -/
  size : slot.state = .alive → slot.sz.toNat ≤ KERNBASE

/-- Open files of pipes belong to open ends, one for each. -/
structure FilesSound (file : Fin NFILE → OpenFile) (ends : Nat → Ends) : Prop where
  /-- The end of an open file is open. -/
  opens : ∀ f p writable, 0 < (file f).ref → (file f).pipe = some (p, writable) →
    (ends p).isOpen writable = true
  /-- No two open files have the same end. -/
  unique : ∀ f g part, 0 < (file f).ref → 0 < (file g).ref → (file f).pipe = some part →
    (file g).pipe = some part → f = g
  /-- A file that is not open has none. -/
  closed : ∀ f, (file f).ref = 0 → (file f).pipe = none

/-- What is true between calls. -/
structure Sound (link : Link) (m : Machine) : Prop where
  /-- Every page is in one place at most. -/
  once : ∀ page, m.free.count page + m.held page ≤ 1
  /-- The free pages can be given back. -/
  free : ∀ page ∈ m.free, Link.Frame link page
  /-- The slots are sound. -/
  slots : ∀ p, (m.slot p).Sound link
  files : FilesSound m.file m.ends

variable {link : Link} {m : Machine}

/-- A function that frees no page twice and keeps the invariant. -/
def Keeps (link : Link) (run : MachineM α) (m : Machine) (post : α → Machine → Prop) : Prop :=
  Run.Spec run m (fun result final => Sound link final ∧ post result final) (· ≠ Guarded.twice)

namespace Sound

theorem nodup (sound : Sound link m) : m.free.Nodup :=
  List.nodup_iff_count_le_one.mpr fun page =>
    (Nat.le_add_right _ _).trans (sound.once page)

theorem not_free
    (sound : Sound link m)
    (held : 0 < m.held page) :
    page ∉ m.free := by
  intro free
  have count := List.count_pos_iff.mpr free
  have bound := sound.once page
  omega

theorem slot_le_procHeld
    (m : Machine)
    (p : Fin NPROC)
    (page : Nat) :
    (m.slot p).held page ≤ m.procHeld page :=
  Finset.single_le_sum (f := fun q => (m.slot q).held page) (fun _ _ => Nat.zero_le _)
    (Finset.mem_univ p)

theorem slot_le_held
    (m : Machine)
    (p : Fin NPROC)
    (page : Nat) :
    (m.slot p).held page ≤ m.held page := by
  have part := slot_le_procHeld m p page
  unfold Machine.held
  omega

/-- The free list and one slot change, and no page is doubled. -/
theorem replace
    (sound : Sound link m)
    {free : List Nat}
    (p : Fin NPROC)
    (frames : ∀ page ∈ free, Link.Frame link page)
    (slotSound : slot.Sound link)
    (counts : ∀ page, free.count page + slot.held page ≤ m.free.count page + (m.slot p).held page) :
    Sound link ({ m with free := free }.setSlot p slot) where
  once := by
    intro page
    have change := ({ m with free := free } : Machine).held_setSlot p slot page
    have bound := sound.once page
    have less := counts page
    have part := slot_le_held m p page
    have same : ({ m with free := free } : Machine).held page = m.held page := rfl
    have old : (({ m with free := free } : Machine).slot p).held page = (m.slot p).held page := rfl
    have list : (({ m with free := free } : Machine).setSlot p slot).free.count page =
      free.count page := rfl
    omega
  free := frames
  slots := by
    intro q
    show (update m.slot p slot q).Sound link
    by_cases same : q = p
    · rw [same, update_self]
      exact slotSound
    · rw [update_of_ne same]
      exact sound.slots q
  files := sound.files

/-- Pages are lost. -/
theorem shrink
    (sound : Sound link m)
    {free : List Nat}
    (frames : ∀ page ∈ free, Link.Frame link page)
    (less : ∀ page, free.count page ≤ m.free.count page) :
    Sound link { m with free := free } where
  once page := (Nat.add_le_add_right (less page) _).trans (sound.once page)
  free := frames
  slots := sound.slots
  files := sound.files

/-- A slot changes that has the same pages. -/
theorem sameSlot
    (sound : Sound link m)
    (p : Fin NPROC)
    {slot : Slot}
    (slotSound : slot.Sound link)
    (held : slot.held = (m.slot p).held) :
    Sound link (m.setSlot p slot) :=
  sound.replace p sound.free slotSound (fun page => by rw [held])

theorem files_eq
    (sound : Sound link m)
    (files : FilesSound file m.ends) :
    Sound link { m with file := file } :=
  ⟨sound.once, sound.free, sound.slots, files⟩

end Sound

/-! ## Taking and giving pages -/

theorem onDir_spec {dir : PageDir} {run : VmM α} {fault : Stop → Prop}
    (spec : Run.Spec run ⟨m.free, dir, []⟩ post fault) :
    Run.Spec (onDir dir run) m (fun result final => ∃ vm, post result.1 vm ∧ result.2 = vm.dir ∧
        final = { m with free := vm.free })
      fault := by
  cases returned : run ⟨m.free, dir, []⟩ with
  | error reason =>
    have stopped := spec.of_error returned
    unfold Run.Spec onDir
    rw [returned]
    exact stopped
  | ok pair =>
    have holds := spec.of_ok returned
    unfold Run.Spec onDir
    rw [returned]
    exact ⟨pair.2, holds, rfl, rfl⟩

theorem kalloc_spec (m : Machine) :
    Run.Spec kalloc m (fun result final =>
        result = none ∧ m.free = [] ∧ final = m ∨
          ∃ page rest, m.free = page :: rest ∧ result = some page ∧ final = { m with free := rest })
      (fun _ => False) := by
  apply Run.Spec.bind
  refine (onDir_spec (Vm.kalloc_spec _)).mono ?_ (fun _ => id)
  rintro ⟨result, dir⟩ final ⟨vm, ⟨rfl, empty, rfl⟩ | ⟨page, rest, nonempty, rfl, rfl⟩, _, rfl⟩
  · exact .inl ⟨rfl, empty, rfl⟩
  · exact .inr ⟨page, rest, nonempty, rfl, rfl⟩

/-- A page that is not free is given back, if it lies in the memory of `kalloc`. -/
theorem kfree_spec
    (link : Link)
    (unused : page ∉ m.free) :
    Run.Spec (kfree link page) m
      (fun _ final => Link.Frame link page ∧ final = { m with free := page :: m.free })
      (fun reason => reason ≠ Guarded.twice ∧ ¬Link.Frame link page) := by
  apply Run.Spec.bind
  have spec : Run.Spec (Guarded.kfree link page) ⟨m.free, noDir, []⟩
      (fun _ final => Link.Frame link page ∧ final = ⟨page :: m.free, noDir, []⟩)
      (fun reason => reason ≠ Guarded.twice ∧ ¬Link.Frame link page) := by
    apply Run.Spec.get_bind
    rw [if_neg unused]
    unfold Vm.kfree
    split
    case isTrue outside =>
      refine ⟨by decide, fun frame => ?_⟩
      rcases outside with low | high
      · exact absurd frame.1 (Nat.not_le_of_lt low)
      · exact absurd frame.2 (Nat.not_lt_of_le high)
    case isFalse inside =>
      obtain ⟨low, high⟩ := not_or.mp inside
      exact ⟨⟨Nat.le_of_not_lt low, Nat.lt_of_not_le high⟩, rfl⟩
  refine (onDir_spec spec).mono ?_ (fun _ => id)
  rintro ⟨_, _⟩ final ⟨vm, ⟨frame, rfl⟩, _, rfl⟩
  exact ⟨frame, rfl⟩

/-! ## Open files and pipes -/

namespace FilesSound

variable {file : Fin NFILE → OpenFile} {ends : Nat → Ends}

variable (files : FilesSound file ends)

include files

/-- The count of an open file changes. -/
theorem setRef
    (f : Fin NFILE)
    (positive : 0 < ref)
    (before : (file f).pipe = none ∨ 0 < (file f).ref) :
    FilesSound (update file f { file f with ref := ref }) ends := by
  have pipe : ∀ g, (update file f { file f with ref := ref } g).pipe = (file g).pipe := by
    intro g
    by_cases same : g = f
    · rw [same, update_self]
    · rw [update_of_ne same]
  have counted : ∀ g part, 0 < (update file f { file f with ref := ref } g).ref →
      (file g).pipe = some part → 0 < (file g).ref := by
    intro g part used held
    by_cases same : g = f
    · subst same
      rcases before with none | old
      · rw [none] at held
        exact nomatch held
      · exact old
    · rw [update_of_ne same] at used
      exact used
  refine ⟨?_, ?_, ?_⟩
  · intro g p writable used held
    rw [pipe] at held
    exact files.opens g p writable (counted g _ used held) held
  · intro g h part usedG usedH heldG heldH
    rw [pipe] at heldG heldH
    exact files.unique g h part (counted g _ usedG heldG) (counted h _ usedH heldH) heldG heldH
  intro g unused
  rw [pipe]
  by_cases same : g = f
  · rw [same, update_self] at unused
    replace unused : ref = 0 := unused
    omega
  · rw [update_of_ne same] at unused
    exact files.closed g unused

/-- An open file is closed. -/
theorem erase (f : Fin NFILE) :
    FilesSound (update file f ⟨0, none⟩) ends := by
  have used : ∀ g, 0 < (update file f ⟨0, none⟩ g).ref → g ≠ f := by
    rintro g positive rfl
    rw [update_self] at positive
    exact nomatch positive
  refine ⟨?_, ?_, ?_⟩
  · intro g p writable positive held
    have different := used g positive
    rw [update_of_ne different] at positive held
    exact files.opens g p writable positive held
  · intro g h part positiveG positiveH heldG heldH
    have differentG := used g positiveG
    have differentH := used h positiveH
    rw [update_of_ne differentG] at positiveG heldG
    rw [update_of_ne differentH] at positiveH heldH
    exact files.unique g h part positiveG positiveH heldG heldH
  · intro g unused
    by_cases same : g = f
    · rw [same, update_self]
    · rw [update_of_ne same] at unused ⊢
      exact files.closed g unused

/-- After that, its end of the pipe has no open file. -/
theorem erase_unheld
    (used : 0 < (file f).ref)
    (held : (file f).pipe = some part) :
    ∀ g, (update file f ⟨0, none⟩ g).pipe ≠ some part := by
  intro g other
  by_cases same : g = f
  · rw [same, update_self] at other
    exact nomatch other
  · rw [update_of_ne same] at other
    have counted : 0 < (file g).ref := by
      by_contra zero
      rw [files.closed g (by omega)] at other
      exact nomatch other
    exact same (files.unique g f part counted used other held)

/-- Closing an end that has no open file. -/
theorem closeEnd (unheld : ∀ g, (file g).pipe ≠ some (p, writable)) :
    FilesSound file (update ends p ((ends p).close writable)) := by
  refine ⟨?_, files.unique, files.closed⟩
  intro g q other used held
  have before := files.opens g q other used held
  by_cases same : q = p
  · subst same
    rw [update_self, Ends.isOpen_close, before, Bool.and_true, Bool.not_eq_true',
      beq_eq_false_iff_ne]
    rintro rfl
    exact unheld g held
  · rw [update_of_ne same]
    exact before

/-- A page becomes a pipe. -/
theorem newPipe (unused : (ends p).held = 0) :
    FilesSound file (update ends p ⟨true, true⟩) ∧
      ∀ g writable, (file g).pipe ≠ some (p, writable) := by
  have unheld : ∀ g writable, (file g).pipe ≠ some (p, writable) := by
    intro g writable held
    have used : 0 < (file g).ref := by
      by_contra zero
      rw [files.closed g (by omega)] at held
      exact nomatch held
    have open_ := Ends.held_of_isOpen (files.opens g p writable used held)
    omega
  refine ⟨⟨?_, files.unique, files.closed⟩, unheld⟩
  intro g q writable used held
  have different : q ≠ p := by
    rintro rfl
    exact unheld g writable held
  rw [update_of_ne different]
  exact files.opens g q writable used held

/-- An open file gets an end of a pipe. -/
theorem setPipe
    (used : 0 < (file f).ref)
    (isOpen : (ends p).isOpen writable = true)
    (unheld : ∀ g, (file g).pipe ≠ some (p, writable)) :
    FilesSound (update file f { file f with pipe := some (p, writable) }) ends := by
  have counted : ∀ g, (update file f { file f with pipe := some (p, writable) } g).ref =
      (file g).ref := by
    intro g
    by_cases same : g = f
    · rw [same, update_self]
    · rw [update_of_ne same]
  have part : ∀ g one,
      (update file f { file f with pipe := some (p, writable) } g).pipe = some one →
        g = f ∧ one = (p, writable) ∨ g ≠ f ∧ (file g).pipe = some one := by
    intro g one held
    by_cases same : g = f
    · rw [same, update_self] at held
      exact .inl ⟨same, (Option.some.inj held).symm⟩
    · rw [update_of_ne same] at held
      exact .inr ⟨same, held⟩
  refine ⟨?_, ?_, ?_⟩
  · intro g q other positive held
    rw [counted] at positive
    rcases part g _ held with ⟨_, same⟩ | ⟨_, old⟩
    · obtain ⟨rfl, rfl⟩ := Prod.mk.inj same
      exact isOpen
    · exact files.opens g q other positive old
  · intro g h one positiveG positiveH heldG heldH
    rw [counted] at positiveG positiveH
    rcases part g one heldG with ⟨rfl, rfl⟩ | ⟨_, oldG⟩
    · rcases part h _ heldH with ⟨rfl, _⟩ | ⟨_, oldH⟩
      · rfl
      · exact absurd oldH (unheld h)
    · rcases part h one heldH with ⟨rfl, rfl⟩ | ⟨_, oldH⟩
      · exact absurd oldG (unheld g)
      · exact files.unique g h one positiveG positiveH oldG oldH
  · intro g unused
    rw [counted] at unused
    by_cases same : g = f
    · subst same
      omega
    · rw [update_of_ne same]
      exact files.closed g unused

end FilesSound

/-- A pipe changes together with the free list. -/
theorem Sound.replaceEnds
    (sound : Sound link m)
    {free : List Nat} {ends : Ends}
    (frames : ∀ page ∈ free, Link.Frame link page)
    (files : FilesSound m.file (update m.ends p ends))
    (counts : ∀ page, free.count page + (update m.ends p ends page).held ≤
      m.free.count page + (m.ends page).held) :
    Sound link ({ m with free := free }.setEnds p ends) where
  once := by
    intro page
    have bound := sound.once page
    have less := counts page
    show free.count page + (m.procHeld page + (update m.ends p ends page).held +
      dirHeld m.kpgdir page + m.cpustack.count page) ≤ 1
    unfold Machine.held at bound
    omega
  free := frames
  slots := sound.slots
  files := files

/-- The slots and `initproc` are the same. -/
def SameSlots (m final : Machine) : Prop :=
  final.slot = m.slot ∧ final.initproc = m.initproc

theorem filealloc_keeps (sound : Sound link m) :
    Keeps link filealloc m (fun result final => SameSlots m final ∧ final.free = m.free ∧
      ∀ f, result = some f → (m.file f).ref = 0 ∧ 0 < (final.file f).ref ∧
        (final.file f).pipe = none ∧ ∀ g, g ≠ f → final.file g = m.file g) := by
  apply Run.Spec.get_bind
  split
  case h_1 f found =>
    have unused : (m.file f).ref = 0 := by simpa using List.find?_some found
    have without := sound.files.closed f unused
    refine ⟨sound.files_eq (sound.files.setRef f Nat.one_pos (.inl without)), ⟨rfl, rfl⟩, rfl, ?_⟩
    rintro _ ⟨rfl⟩
    refine ⟨unused, ?_, ?_, fun g different => update_of_ne different _ _⟩
    · show 0 < (update m.file f _ f).ref
      rw [update_self]
      exact Nat.one_pos
    · show (update m.file f _ f).pipe = none
      rw [update_self]
      exact without
  case h_2 => exact ⟨sound, ⟨rfl, rfl⟩, rfl, nofun⟩

theorem filedup_keeps
    (sound : Sound link m)
    (f : Fin NFILE) :
    Keeps link (filedup f) m (fun _ final => ∃ file, final = { m with file := file }) := by
  apply Run.Spec.get_bind
  split
  case isTrue => exact (by decide : Stop.panic "filedup" ≠ Guarded.twice)
  case isFalse used =>
    exact ⟨sound.files_eq (sound.files.setRef f (Nat.succ_pos _) (.inr (by omega))), _, rfl⟩

/-- The end of a pipe is closed; the last one gives the page back. -/
theorem pipeclose_keeps
    (sound : Sound link m)
    {p : Nat}
    (isOpen : (m.ends p).isOpen writable = true)
    (unheld : ∀ g, (m.file g).pipe ≠ some (p, writable)) :
    Keeps link (pipeclose link p writable) m (fun _ final => SameSlots m final) := by
  have files := sound.files.closeEnd unheld
  have held := Ends.held_of_isOpen isOpen
  have others : ∀ page, page ≠ p →
      (update m.ends p ((m.ends p).close writable) page).held = (m.ends page).held :=
    fun page different => by rw [update_of_ne different]
  apply Run.Spec.modify_bind
  apply Run.Spec.get_bind
  have now : (m.setEnds p ((m.ends p).close writable)).ends p = (m.ends p).close writable :=
    update_self _ _ _
  rw [now]
  split
  case isTrue closed =>
    have unused : p ∉ m.free := sound.not_free (by unfold Machine.held; omega)
    refine (kfree_spec (m := m.setEnds p ((m.ends p).close writable)) link unused).mono ?_
      (fun _ => And.left)
    rintro _ final ⟨frame, rfl⟩
    refine ⟨sound.replaceEnds ?_ files (fun page => ?_), rfl, rfl⟩
    · intro page member
      rcases List.mem_cons.mp member with rfl | old
      · exact frame
      · exact sound.free page old
    by_cases same : page = p
    · subst same
      have zero : ((m.ends page).close writable).held = 0 := by
        rw [Ends.held, closed.1, closed.2]
        rfl
      rw [update_self, zero, held, List.count_cons_self]
      exact le_rfl
    · rw [others page same, List.count_cons_of_ne (fun equal => same equal.symm)]
      exact le_rfl
  case isFalse still =>
    refine ⟨sound.replaceEnds sound.free files (fun page => ?_), rfl, rfl⟩
    by_cases same : page = p
    · subst same
      rw [update_self, held]
      refine Nat.add_le_add_left ?_ _
      unfold Ends.held
      split <;> decide
    · rw [others page same]

theorem fileclose_keeps
    (sound : Sound link m)
    (f : Fin NFILE) :
    Keeps link (fileclose link f) m (fun _ final => SameSlots m final) := by
  apply Run.Spec.get_bind
  split
  case isTrue => exact (by decide : Stop.panic "fileclose" ≠ Guarded.twice)
  case isFalse used =>
    split
    case isTrue more =>
      exact ⟨sound.files_eq (sound.files.setRef f (by omega) (.inr (by omega))), rfl, rfl⟩
    case isFalse =>
      have erased := sound.files_eq (sound.files.erase f)
      apply Run.Spec.modify_bind
      split
      case h_1 p writable pipe =>
        exact pipeclose_keeps erased (sound.files.opens f p writable (by omega) pipe)
          (sound.files.erase_unheld (by omega) pipe)
      case h_2 => exact ⟨erased, rfl, rfl⟩

theorem Keeps.bind {next : α → MachineM β} {post : α → Machine → Prop}
    (keeps : Keeps link run m post)
    (later : ∀ result middle, Sound link middle → post result middle →
      Keeps link (next result) middle final) :
    Keeps link (run >>= next) m final := by
  apply Run.Spec.bind
  refine .mono keeps ?_ (fun _ => id)
  rintro result middle ⟨sound, holds⟩
  exact later result middle sound holds

theorem Keeps.mono {post weaker : α → Machine → Prop}
    (keeps : Keeps link run m post)
    (implies : ∀ result final, post result final → weaker result final) :
    Keeps link run m weaker :=
  Run.Spec.mono keeps (fun result final holds => ⟨holds.1, implies result final holds.2⟩)
    (fun _ => id)

theorem SameSlots.trans {middle final : Machine}
    (first : SameSlots m middle)
    (second : SameSlots middle final) :
    SameSlots m final :=
  ⟨second.1.trans first.1, second.2.trans first.2⟩

/-- Two open files are closed. -/
theorem fileclose_both_keeps
    (sound : Sound link m)
    (f g : Fin NFILE) :
    Keeps link (do fileclose link f; fileclose link g) m (fun _ final => SameSlots m final) :=
  (fileclose_keeps sound f).bind fun _ _ middleSound same =>
    (fileclose_keeps middleSound g).mono fun _ _ later => same.trans later

theorem pipealloc_keeps (sound : Sound link m) :
    Keeps link (pipealloc link) m (fun _ final => SameSlots m final) := by
  refine (filealloc_keeps sound).bind ?_
  rintro (_ | f0) m0 sound0 ⟨same0, _, first⟩
  · exact ⟨sound0, same0⟩
  refine (filealloc_keeps sound0).bind ?_
  rintro (_ | f1) m1 sound1 ⟨same1, _, second⟩
  · exact (fileclose_keeps sound1 f0).bind fun _ final finalSound same =>
      ⟨finalSound, same0.trans (same1.trans same)⟩
  obtain ⟨_, used0, without0, _⟩ := first f0 rfl
  obtain ⟨unused1, used1, without1, others⟩ := second f1 rfl
  have distinct : f0 ≠ f1 := by
    rintro rfl
    omega
  rw [← others f0 distinct] at used0 without0
  apply Run.Spec.bind
  refine (kalloc_spec m1).mono ?_ (fun _ => False.elim)
  rintro _ next (⟨rfl, _, rfl⟩ | ⟨p, rest, nonempty, rfl, rfl⟩)
  · exact (fileclose_keeps sound1 f0).bind fun _ middle middleSound same =>
      (fileclose_keeps middleSound f1).bind fun _ final finalSound later =>
        ⟨finalSound, same0.trans (same1.trans (same.trans later))⟩
  have held : (m1.ends p).held = 0 := by
    have bound := sound1.once p
    unfold Machine.held at bound
    rw [nonempty, List.count_cons_self] at bound
    omega
  obtain ⟨newFiles, unheld⟩ := sound1.files.newPipe held
  have opened : Sound link ({ m1 with free := rest }.setEnds p ⟨true, true⟩) := by
    refine sound1.replaceEnds ?_ newFiles (fun page => ?_)
    · intro page member
      exact sound1.free page (by rw [nonempty]; exact List.mem_cons_of_mem _ member)
    · rw [nonempty]
      by_cases here : page = p
      · subst here
        rw [update_self, List.count_cons_self, held]
        rfl
      · rw [update_of_ne here, List.count_cons_of_ne (fun equal => here equal.symm)]
  have isOpen : ∀ writable, (update m1.ends p ⟨true, true⟩ p).isOpen writable = true := by
    intro writable
    rw [update_self]
    cases writable <;> rfl
  have files0 := opened.files.setPipe (f := f0) used0 (isOpen false) (fun g => unheld g false)
  have files1 := files0.setPipe (f := f1)
    (by rw [update_of_ne distinct.symm]; exact used1) (isOpen true) (fun g held => by
      by_cases here : g = f0
      · rw [here, update_self] at held
        exact nomatch held
      · rw [update_of_ne here] at held
        exact unheld g true held)
  exact ⟨(opened.files_eq files1), same0.trans (same1.trans ⟨rfl, rfl⟩)⟩

/-! ## Descriptors -/

theorem Sound.setFd
    (sound : Sound link m)
    (p : Fin NPROC)
    (ofile : Fin NOFILE → Option (Fin NFILE)) :
    Sound link (m.setSlot p { m.slot p with ofile := ofile }) :=
  sound.sameSlot p ⟨(sound.slots p).framed, (sound.slots p).size⟩ rfl

/-- The states of the processes are the same. -/
def SameStates (m final : Machine) : Prop :=
  ∀ p, (final.slot p).state = (m.slot p).state

theorem SameSlots.states (same : SameSlots m final) :
    SameStates m final :=
  fun p => by rw [same.1]

theorem sameStates_setFd
    (m : Machine)
    (p : Fin NPROC)
    (ofile : Fin NOFILE → Option (Fin NFILE)) :
    SameStates m (m.setSlot p { m.slot p with ofile := ofile }) := by
  intro q
  show (update m.slot p _ q).state = _
  by_cases same : q = p
  · rw [same, update_self]
  · rw [update_of_ne same]

section

variable (sound : Sound link m)

include sound

theorem fdalloc_keeps
    (p : Fin NPROC)
    (f : Fin NFILE) :
    Keeps link (fdalloc p f) m (fun _ _ => True) := by
  apply Run.Spec.get_bind
  split
  · exact ⟨sound.setFd p _, True.intro⟩
  · exact ⟨sound, True.intro⟩

theorem pipe_keeps (p : Fin NPROC) :
    Keeps link (pipe link p) m (fun _ _ => True) := by
  refine (pipealloc_keeps sound).bind ?_
  rintro (_ | ⟨rf, wf⟩) m0 sound0 _
  · exact ⟨sound0, True.intro⟩
  refine (fdalloc_keeps sound0 p rf).bind ?_
  rintro (_ | fd0) m1 sound1 _
  · exact (fileclose_both_keeps sound1 rf wf).mono fun _ _ _ => True.intro
  refine (fdalloc_keeps sound1 p wf).bind ?_
  rintro (_ | fd1) m2 sound2 _
  · apply Run.Spec.modify_bind
    exact (fileclose_both_keeps (sound2.setFd p _) rf wf).mono fun _ _ _ => True.intro
  · exact ⟨sound2, True.intro⟩

theorem openFile_keeps (p : Fin NPROC) :
    Keeps link (openFile link p) m (fun _ _ => True) := by
  refine (filealloc_keeps sound).bind ?_
  rintro (_ | f) m0 sound0 _
  · exact ⟨sound0, True.intro⟩
  refine (fdalloc_keeps sound0 p f).bind ?_
  rintro (_ | fd) m1 sound1 _
  · exact (fileclose_keeps sound1 f).mono fun _ _ _ => True.intro
  · exact ⟨sound1, True.intro⟩

theorem dup_keeps
    (p : Fin NPROC)
    (fd : Fin NOFILE) :
    Keeps link (dup p fd) m (fun _ _ => True) := by
  apply Run.Spec.get_bind
  split
  · exact ⟨sound, True.intro⟩
  · refine (fdalloc_keeps sound p _).bind ?_
    rintro (_ | fd) m0 sound0 _
    · exact ⟨sound0, True.intro⟩
    · exact (filedup_keeps sound0 _).mono fun _ _ _ => True.intro

theorem close_keeps
    (p : Fin NPROC)
    (fd : Fin NOFILE) :
    Keeps link (close link p fd) m (fun _ _ => True) := by
  apply Run.Spec.get_bind
  split
  · exact ⟨sound, True.intro⟩
  · apply Run.Spec.modify_bind
    exact (fileclose_keeps (sound.setFd p _) _).mono fun _ _ _ => True.intro

end

/-! ## Processes -/

variable {slot : Slot} {p : Fin NPROC} {sz : UInt32} {vm : Vm}

theorem Slot.held_unused (unused : slot.state = .unused) :
    slot.held = 0 := by
  funext page
  rw [Slot.held, unused]
  rfl

theorem Slot.held_embryo
    (embryo : slot.state = .embryo)
    (page : Nat) :
    slot.held page = single (some slot.kstack) page := by
  rw [Slot.held, embryo]

theorem Slot.held_used
    (used : slot.state = .alive ∨ slot.state = .zombie)
    (page : Nat) :
    slot.held page = single (some slot.kstack) page + slot.pgdir.held page := by
  rcases used with alive | zombie
  · rw [Slot.held, alive]
  · rw [Slot.held, zombie]

theorem Slot.held_resized
    (used : slot.state = .alive ∨ slot.state = .zombie)
    (dir : PageDir)
    (sz : UInt32)
    (page : Nat) :
    Slot.held { slot with pgdir := dir, sz := sz } page =
      single (some slot.kstack) page + dir.held page :=
  @Slot.held_used { slot with pgdir := dir, sz := sz } used page

theorem allocproc_keeps (sound : Sound link m) :
    Keeps link allocproc m (fun result final =>
      ∀ p, result = some p → (m.slot p).state = .unused ∧ (final.slot p).state = .embryo ∧
        (∀ q, q ≠ p → final.slot q = m.slot q)) := by
  apply Run.Spec.get_bind
  split
  case h_1 => exact ⟨sound, nofun⟩
  case h_2 p found =>
    have unused : (m.slot p).state = .unused := by simpa using List.find?_some found
    apply Run.Spec.bind
    refine (kalloc_spec m).mono ?_ (fun _ => False.elim)
    rintro _ next (⟨rfl, _, rfl⟩ | ⟨page, rest, nonempty, rfl, rfl⟩)
    · exact ⟨sound, nofun⟩
    refine ⟨sound.replace p ?_ ⟨nofun, nofun⟩ (fun other => ?_), ?_⟩
    · intro other member
      exact sound.free other (by rw [nonempty]; exact List.mem_cons_of_mem _ member)
    · rw [Slot.held_embryo rfl, nonempty, count_cons]
      exact Nat.le_add_right _ _
    · rintro _ ⟨rfl⟩
      refine ⟨unused, ?_, fun q different => update_of_ne different _ _⟩
      show (update m.slot p _ p).state = _
      rw [update_self]

section

variable (sound : Sound link m)

include sound

/-- An address space with the free list of the machine. -/
theorem Sound.framed (used : (m.slot p).state = .alive ∨ (m.slot p).state = .zombie) :
    Framed link ⟨m.free, (m.slot p).pgdir, []⟩ := by
  have dir := (sound.slots p).framed used
  exact ⟨sound.free, dir.dir, dir.table, dir.user⟩

theorem Sound.exclusive (used : (m.slot p).state = .alive ∨ (m.slot p).state = .zombie) :
    Exclusive ⟨m.free, (m.slot p).pgdir, []⟩ := by
  intro page
  have bound := sound.once page
  have part := Sound.slot_le_held m p page
  rw [Slot.held_used used] at part
  show m.free.count page + (m.slot p).pgdir.held page ≤ 1
  omega

/-- Growing or shrinking the memory of a process. -/
theorem resize_keeps
    (alive : (m.slot p).state = .alive)
    (settles : Settles link run ⟨m.free, (m.slot p).pgdir, []⟩
      (fun result => result.toNat ≤ KERNBASE)) :
    Keeps link (do
      let (sz, dir) ← onDir (m.slot p).pgdir run
      Run.modify (·.setSlot p
        { m.slot p with pgdir := dir, sz := if sz = 0 then (m.slot p).sz else sz })) m
      (fun _ _ => True) := by
  apply Run.Spec.bind
  refine (onDir_spec settles.spec).mono ?_ (fun _ => id)
  rintro ⟨sz, dir⟩ next ⟨vm, ⟨bound, framed, keeps⟩, rfl, rfl⟩
  refine ⟨sound.replace p framed.free ⟨?_, ?_⟩ (fun page => ?_), True.intro⟩
  · exact fun _ => ⟨nofun, framed.dir, framed.table, framed.user⟩
  · intro _
    show (if sz = 0 then (m.slot p).sz else sz).toNat ≤ KERNBASE
    split
    · exact (sound.slots p).size alive
    · exact bound
  · have less : vm.free.count page + vm.dir.held page ≤
      m.free.count page + (m.slot p).pgdir.held page := keeps page
    have old := Slot.held_used (.inl alive) page
    rw [old, Slot.held_resized (.inl alive)]
    omega

theorem growproc_keeps
    (alive : (m.slot p).state = .alive)
    (n : UInt32) :
    Keeps link (growproc link p n) m (fun _ _ => True) := by
  have size := (sound.slots p).size alive
  have framed := sound.framed (.inl alive)
  have exclusive := sound.exclusive (.inl alive)
  apply Run.Spec.get_bind
  split
  · exact resize_keeps sound alive (allocuvm_settles size framed exclusive)
  · split
    · exact resize_keeps sound alive (deallocuvm_settles size _ framed exclusive)
    · exact ⟨sound, True.intro⟩

theorem dupFiles_keeps
    (p : Fin NPROC)
    (fds : List (Fin NOFILE)) :
    Keeps link (dupFiles p fds) m (fun _ final => ∃ file, final = { m with file := file }) := by
  induction fds generalizing m with
  | nil => exact ⟨sound, m.file, rfl⟩
  | cons fd rest ih =>
    apply Run.Spec.get_bind
    split
    · refine (filedup_keeps sound _).bind ?_
      rintro _ middle middleSound ⟨file, rfl⟩
      refine (ih middleSound).mono ?_
      rintro _ final ⟨file, rfl⟩
      exact ⟨file, rfl⟩
    · exact ih sound

/-- A process gives its kernel stack back. -/
theorem Sound.kstack_not_free (used : (m.slot p).state ≠ .unused) :
    (m.slot p).kstack ∉ m.free := by
  refine sound.not_free ?_
  have part := Sound.slot_le_held m p (m.slot p).kstack
  have own : 0 < single (some (m.slot p).kstack) (m.slot p).kstack := single_pos_iff.mpr rfl
  have held : single (some (m.slot p).kstack) (m.slot p).kstack ≤
      (m.slot p).held (m.slot p).kstack := by
    unfold Slot.held
    split
    · exact absurd ‹_› used
    · exact le_rfl
    · exact Nat.le_add_right _ _
  omega

/-- The free list after the kernel stack of a slot is given back. -/
theorem kfree_kstack (used : (m.slot p).state ≠ .unused) :
    Run.Spec (kfree link (m.slot p).kstack) m
      (fun _ final => (∀ page ∈ final.free, Link.Frame link page) ∧
        final = { m with free := (m.slot p).kstack :: m.free })
      (· ≠ Guarded.twice) := by
  refine (kfree_spec link (sound.kstack_not_free used)).mono ?_ (fun _ => And.left)
  rintro _ final ⟨frame, rfl⟩
  refine ⟨fun page member => ?_, rfl⟩
  rcases List.mem_cons.mp member with rfl | old
  · exact frame
  · exact sound.free page old

theorem fork_keeps (alive : (m.slot p).state = .alive) :
    Keeps link (fork link p) m (fun _ _ => True) := by
  refine (allocproc_keeps sound).bind ?_
  rintro (_ | np) m0 sound0 taken
  · exact ⟨sound0, True.intro⟩
  obtain ⟨unused, embryo, others⟩ := taken np rfl
  have parent : m0.slot p = m.slot p := others p (by rintro rfl; rw [alive] at unused; cases unused)
  apply Run.Spec.get_bind
  apply Run.Spec.bind
  refine (onDir_spec (copyuvm_built _ _ sound0.free sound0.nodup)).mono ?_ (fun _ => id)
  rintro ⟨made, dir⟩ next ⟨vm, built, rfl, rfl⟩
  have less : ∀ page, vm.free.count page ≤ m0.free.count page :=
    fun page => (Nat.le_add_right _ _).trans (built.counts page)
  have reduced := sound0.shrink built.free less
  have old := Slot.held_embryo embryo
  cases made with
  | true =>
    have framed := built.dir rfl
    have counts : ∀ page, vm.free.count page + vm.dir.held page ≤ m0.free.count page :=
      built.counts
    apply Run.Spec.bind
    refine .mono (dupFiles_keeps reduced p _) ?_ (fun _ => id)
    rintro _ _ ⟨later, file, rfl⟩
    refine ⟨(sound0.replace np built.free ⟨?_, ?_⟩ (fun page => ?_)).files_eq later.files,
      True.intro⟩
    · exact fun _ => ⟨nofun, framed.dir, framed.table, framed.user⟩
    · intro _
      show (m0.slot p).sz.toNat ≤ KERNBASE
      rw [parent]
      exact (sound.slots p).size alive
    have bound := counts page
    have new := @Slot.held_used { m0.slot np with
      state := .alive
      parent := some p
      pgdir := vm.dir
      sz := (m0.slot p).sz
      ofile := fun fd => ((m0.slot p).ofile fd).or ((m0.slot np).ofile fd) } (.inl rfl) page
    rw [new, old]
    show vm.free.count page + (single (some (m0.slot np).kstack) page + vm.dir.held page) ≤ _
    omega
  | false =>
    apply Run.Spec.bind
    refine (kfree_kstack reduced (p := np) (by rw [embryo]; decide)).mono ?_ (fun _ => id)
    rintro _ final ⟨frames, rfl⟩
    refine ⟨sound0.replace np frames ⟨nofun, nofun⟩ (fun page => ?_), True.intro⟩
    rw [Slot.held_unused rfl, old, count_cons]
    exact Nat.add_le_add_right (less page) _

end

/-! ## `exec` -/

theorem PGROUNDUP_le (below : sz.toNat ≤ KERNBASE) :
    (PGROUNDUP sz).toNat ≤ KERNBASE := by
  rcases Nat.lt_or_eq_of_le below with less | equal
  · rw [toNat_PGROUNDUP less]
    unfold pagesOf
    unfold PGSIZE KERNBASE at *
    omega
  · obtain rfl : sz = UInt32.ofNat KERNBASE := UInt32.toNat.inj equal
    decide

theorem loadSegments_settles
    (headers : List Header)
    (below : sz.toNat ≤ KERNBASE)
    (framed : Framed link vm)
    (exclusive : Exclusive vm) :
    Settles link (loadSegments link headers sz) vm
      (fun result => ∀ size, result = some size → size.toNat ≤ KERNBASE) := by
  induction headers generalizing sz vm with
  | nil =>
    refine Settles.pure ?_ framed
    rintro _ ⟨rfl⟩
    exact below
  | cons header rest ih =>
    cases header with
    | refused => exact Settles.pure nofun framed
    | skipped => exact ih below framed exclusive
    | segment stop loading =>
      refine Settles.bind exclusive (allocuvm_settles below framed exclusive) ?_
      intro size middle bound middleFramed middleExclusive
      split
      · exact Settles.pure nofun middleFramed
      cases loading with
      | unaligned =>
        exact ⟨(by decide :
          Stop.panic "loaduvm: addr must be page aligned" ≠ Guarded.twice)⟩
      | unmapped =>
        exact ⟨(by decide : Stop.panic "loaduvm: address should exist" ≠ Guarded.twice)⟩
      | short => exact Settles.pure nofun middleFramed
      | loaded => exact ih bound middleFramed middleExclusive

theorem allocStack_settles
    (below : sz.toNat ≤ KERNBASE)
    (pushes : Bool)
    (framed : Framed link vm)
    (exclusive : Exclusive vm) :
    Settles link (allocStack link sz pushes) vm
      (fun result => ∀ size, result = some size → size.toNat ≤ KERNBASE) := by
  unfold allocStack
  refine Settles.bind exclusive (allocuvm_settles (PGROUNDUP_le below) framed exclusive) ?_
  intro size middle bound middleFramed middleExclusive
  split
  · exact Settles.pure nofun middleFramed
  refine Settles.bind middleExclusive (clearpteu_settles _ middleFramed) ?_
  intro _ final _ finalFramed _
  refine Settles.pure ?_ finalFramed
  intro other same
  split at same
  · obtain rfl := Option.some.inj same
    exact bound
  · exact nomatch same

theorem loadImage_settles
    (headers : List Header)
    (pushes : Bool)
    (framed : Framed link vm)
    (exclusive : Exclusive vm) :
    Settles link (loadImage link headers pushes) vm
      (fun result => ∀ size, result = some size → size.toNat ≤ KERNBASE) := by
  refine Settles.bind exclusive
    (loadSegments_settles headers (Nat.zero_le KERNBASE) framed exclusive) ?_
  rintro (_ | size) middle bound middleFramed middleExclusive
  · exact Settles.pure nofun middleFramed
  · exact allocStack_settles (bound size rfl) pushes middleFramed middleExclusive

/-- `exec` makes an address space from free pages, or gives them back. -/
theorem buildImage_built
    (headers : List Header)
    (pushes : Bool)
    (frames : ∀ page ∈ vm.free, Link.Frame link page)
    (nodup : vm.free.Nodup) :
    Run.Spec (buildImage link headers pushes) vm
      (fun result final => Built link vm result.isSome final ∧
        ∀ size, result = some size → size.toNat ≤ KERNBASE)
      (· ≠ Guarded.twice) := by
  apply Run.Spec.bind
  refine (setupkvm_built frames).mono ?_ (fun _ => False.elim)
  rintro (_ | _) begun made
  · exact ⟨made, nofun⟩
  have exclusive : Exclusive begun := fun page =>
    (made.counts page).trans (List.nodup_iff_count_le_one.mp nodup page)
  apply Run.Spec.bind
  refine (loadImage_settles headers pushes (made.dir rfl) exclusive).spec.mono ?_ (fun _ => id)
  rintro (_ | size) image ⟨bound, framed, keeps⟩
  · apply Run.Spec.bind
    refine (freevm_built framed (exclusive.of_keeps keeps)
      (fun page => (keeps page).trans (made.counts page))).mono ?_ (fun _ => False.elim)
    exact fun _ final built => ⟨built, nofun⟩
  · exact ⟨⟨framed.free, fun _ => framed, fun page => (keeps page).trans (made.counts page)⟩, bound⟩

/-- The free list after an address space is given back. -/
theorem freevm_dir {dir : PageDir}
    (frames : ∀ page ∈ m.free, Link.Frame link page)
    (framed : Framed link ⟨[], dir, []⟩)
    (exclusive : ∀ page, m.free.count page + dir.held page ≤ 1) :
    Run.Spec (onDir dir (Guarded.freevm link)) m
      (fun _ final => ∃ free, (∀ page ∈ free, Link.Frame link page) ∧
        (∀ page, free.count page ≤ m.free.count page + dir.held page) ∧
        final = { m with free := free })
      (fun _ => False) := by
  have whole : Framed link ⟨m.free, dir, []⟩ := ⟨frames, framed.dir, framed.table, framed.user⟩
  refine (onDir_spec (freevm_released whole exclusive)).mono ?_ (fun _ => id)
  rintro ⟨_, _⟩ final ⟨vm, ⟨released, counts⟩, _, rfl⟩
  exact ⟨vm.free, released, counts, rfl⟩

variable (sound : Sound link m)

include sound

theorem exec_keeps
    (alive : (m.slot p).state = .alive)
    (headers : Option (List Header))
    (pushes : Bool) :
    Keeps link (exec link p headers pushes) m (fun _ _ => True) := by
  cases headers with
  | none => exact ⟨sound, True.intro⟩
  | some headers =>
    apply Run.Spec.bind
    refine (onDir_spec (buildImage_built headers pushes sound.free sound.nodup)).mono ?_
      (fun _ => id)
    rintro ⟨image, dir⟩ next ⟨vm, ⟨built, size⟩, rfl, rfl⟩
    have less : ∀ page, vm.free.count page ≤ m.free.count page :=
      fun page => (Nat.le_add_right _ _).trans (built.counts page)
    cases image with
    | none => exact ⟨sound.shrink built.free less, True.intro⟩
    | some sz =>
      have framed := built.dir rfl
      have counts : ∀ page, vm.free.count page + vm.dir.held page ≤ m.free.count page :=
        built.counts
      have once := sound.exclusive (.inl alive)
      apply Run.Spec.get_bind
      apply Run.Spec.modify_bind
      apply Run.Spec.bind
      refine (freevm_dir (m := ({ m with free := vm.free } : Machine).setSlot p
        { m.slot p with pgdir := vm.dir, sz := sz }) built.free
        ((sound.slots p).framed (.inl alive)) (fun page =>
          (Nat.add_le_add_right (less page) _).trans (once page))).mono ?_
        (fun _ => False.elim)
      rintro _ _ ⟨free, frames, released, rfl⟩
      refine ⟨sound.replace p frames ⟨?_, ?_⟩ (fun page => ?_), True.intro⟩
      · exact fun _ => ⟨nofun, framed.dir, framed.table, framed.user⟩
      · exact fun _ => size sz rfl
      · have bound := counts page
        have back : free.count page ≤
          vm.free.count page + (m.slot p).pgdir.held page := released page
        rw [Slot.held_used (.inl alive), Slot.held_resized (.inl alive)]
        omega

/-! ## `exit` and `wait` -/

theorem closeFiles_keeps
    (p : Fin NPROC)
    (fds : List (Fin NOFILE)) :
    Keeps link (closeFiles link p fds) m (fun _ final => SameStates m final) := by
  induction fds generalizing m with
  | nil => exact ⟨sound, fun _ => rfl⟩
  | cons fd rest ih =>
    apply Run.Spec.get_bind
    split
    · refine (fileclose_keeps sound _).bind ?_
      intro _ middle middleSound same
      apply Run.Spec.modify_bind
      refine (ih (middleSound.setFd p _)).mono ?_
      intro _ final later q
      rw [later q, sameStates_setFd middle p _ q, same.states q]
    · exact ih sound

/-- Parents do not matter to the pages. -/
theorem Sound.setParents (parent : Fin NPROC → Option (Fin NPROC)) :
    Sound link { m with slot := fun q => { m.slot q with parent := parent q } } :=
  ⟨sound.once, sound.free, fun q => ⟨(sound.slots q).framed, (sound.slots q).size⟩, sound.files⟩

theorem exit_keeps (alive : (m.slot p).state = .alive) :
    Keeps link (exit link p) m (fun _ _ => True) := by
  apply Run.Spec.get_bind
  split
  case isTrue => exact (by decide : Stop.panic "init exiting" ≠ Guarded.twice)
  case isFalse =>
    refine (closeFiles_keeps sound p _).bind ?_
    intro _ closed closedSound states
    have still : (closed.slot p).state = .alive := (states p).trans alive
    apply Run.Spec.modify_bind
    have passedOn := closedSound.setParents fun q =>
      if (closed.slot q).parent = some p then closed.initproc else (closed.slot q).parent
    refine ⟨passedOn.sameSlot p ⟨fun _ => (passedOn.slots p).framed (.inl still), nofun⟩ ?_,
      True.intro⟩
    funext page
    unfold Slot.held
    dsimp only
    rw [still]

theorem wait_keeps (p : Fin NPROC) :
    Keeps link (wait link p) m (fun _ _ => True) := by
  apply Run.Spec.get_bind
  split
  case h_1 => exact ⟨sound, True.intro⟩
  case h_2 q found =>
    have zombie : (m.slot q).state = .zombie := by
      have passed := List.find?_some found
      simp only [Bool.and_eq_true, beq_iff_eq] at passed
      exact passed.2
    apply Run.Spec.bind
    refine (kfree_kstack sound (p := q) (by rw [zombie]; decide)).mono ?_ (fun _ => id)
    rintro _ middle ⟨frames, rfl⟩
    apply Run.Spec.bind
    refine (freevm_dir frames ((sound.slots q).framed (.inr zombie)) (fun page => ?_)).mono ?_
      (fun _ => False.elim)
    · have bound := sound.once page
      have part := Sound.slot_le_held m q page
      rw [Slot.held_used (.inr zombie)] at part
      show ((m.slot q).kstack :: m.free).count page + (m.slot q).pgdir.held page ≤ 1
      rw [count_cons]
      omega
    · rintro _ _ ⟨free, frames, released, rfl⟩
      refine ⟨sound.replace q frames ⟨nofun, nofun⟩ (fun page => ?_), True.intro⟩
      have back : free.count page ≤
        ((m.slot q).kstack :: m.free).count page + (m.slot q).pgdir.held page := released page
      rw [count_cons] at back
      rw [Slot.held_unused rfl, Slot.held_used (.inr zombie)]
      show free.count page + 0 ≤ _
      omega

theorem call_keeps
    (alive : (m.slot p).state = .alive)
    (one : Call) :
    Keeps link (call link p one) m (fun _ _ => True) := by
  cases one with
  | fork => exact fork_keeps sound alive
  | exec headers pushes => exact exec_keeps sound alive headers pushes
  | sbrk n => exact growproc_keeps sound alive n
  | pipe => exact pipe_keeps sound p
  | «open» => exact openFile_keeps sound p
  | dup fd => exact dup_keeps sound p fd
  | close fd => exact close_keeps sound p fd
  | exit => exact exit_keeps sound alive
  | wait => exact wait_keeps sound p

theorem calls_keeps (sequence : List (Fin NPROC × Call)) :
    Keeps link (calls link sequence) m (fun _ _ => True) := by
  induction sequence generalizing m with
  | nil => exact ⟨sound, True.intro⟩
  | cons one rest ih =>
    apply Run.Spec.get_bind
    split
    case isTrue alive => exact (call_keeps sound alive one.2).bind fun _ _ later _ => ih later
    case isFalse => exact ih sound

end Memory
end Xv6
