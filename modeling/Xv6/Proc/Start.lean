import Xv6.Proc.Tenants

/-!
# Pages from the start of the machine

`main` puts the memory behind the kernel on the free list, in two parts, and takes
from it what the kernel and the first process need.  With it the calls of all
processes keep every page with one owner.
-/

namespace Xv6
namespace Memory

open Faulting
open Shares
open Vm

variable {link : Link} {m : Machine}

/-! ## The memory behind the kernel -/

/-- Places of a page. -/
def Machine.places (m : Machine) (page : Nat) : Nat := m.free.count page + m.held page

theorem sound_blank (link : Link) : Sound link Machine.blank where
  once page := by
    have slots : Machine.blank.procHeld page = 0 :=
      Finset.sum_eq_zero fun _ _ => rfl
    show 0 + (Machine.blank.procHeld page + 0 + 0 + 0) ≤ 1
    omega
  free := nofun
  slots _ := ⟨nofun, nofun⟩
  files := ⟨nofun, nofun, fun _ _ => rfl⟩

theorem places_blank (page : Nat) : Machine.blank.places page = 0 := by
  have slots : Machine.blank.procHeld page = 0 :=
    Finset.sum_eq_zero fun _ _ => rfl
  show 0 + (Machine.blank.procHeld page + 0 + 0 + 0) = 0
  omega

/-- Pages that are nowhere are put on the free list. -/
theorem freerange_spec
    (sound : Sound link m)
    (pages : List Nat)
    (nodup : pages.Nodup)
    (fresh : ∀ page ∈ pages, m.places page = 0) :
    Run.Spec (freerange link pages) m
      (fun _ final => Sound link final ∧ final = { m with free := pages.reverse ++ m.free })
      (fun reason => reason ≠ Guarded.twice ∧ ∃ page ∈ pages, ¬Link.Frame link page) := by
  induction pages generalizing m with
  | nil => exact ⟨sound, rfl⟩
  | cons page rest ih =>
    obtain ⟨first, later⟩ := List.nodup_cons.mp nodup
    have nowhere : m.free.count page + m.held page = 0 := fresh page List.mem_cons_self
    have unused : page ∉ m.free := by
      intro free
      have count := List.count_pos_iff.mpr free
      omega
    apply Run.Spec.bind
    refine (kfree_spec link unused).mono ?_ ?_
    · rintro _ next ⟨frame, rfl⟩
      have pushed : Sound link { m with free := page :: m.free } := by
        refine ⟨fun other => ?_, ?_, sound.slots, sound.files⟩
        · have bound := sound.once other
          show (page :: m.free).count other + m.held other ≤ 1
          by_cases same : other = page
          · subst same
            rw [List.count_cons_self]
            omega
          · rw [List.count_cons_of_ne (fun equal => same equal.symm)]
            exact bound
        · intro other member
          rcases List.mem_cons.mp member with rfl | old
          · exact frame
          · exact sound.free other old
      refine (ih pushed later ?_).mono ?_ ?_
      · intro other member
        have before : m.free.count other + m.held other = 0 :=
          fresh other (List.mem_cons_of_mem _ member)
        have different : page ≠ other := by
          rintro rfl
          exact first member
        show (page :: m.free).count other + m.held other = 0
        rw [List.count_cons_of_ne different]
        exact before
      · rintro _ final ⟨finalSound, rfl⟩
        refine ⟨finalSound, ?_⟩
        rw [List.reverse_cons, List.append_assoc]
        rfl
      · rintro reason ⟨other, bad, member, outside⟩
        exact ⟨other, bad, List.mem_cons_of_mem _ member, outside⟩
    · rintro reason ⟨other, outside⟩
      exact ⟨other, page, List.mem_cons_self, outside⟩

/-- The kernel's page directory. -/
theorem kvmalloc_spec (sound : Sound link m) :
    Run.Spec (kvmalloc link) m
      (fun _ final => Sound link final ∧ (∀ page, final.places page ≤ m.places page) ∧
        final.slot = m.slot)
      (fun reason => reason ≠ Guarded.twice ∧ m.free.length < kvmPages) := by
  apply Run.Spec.bind
  refine (onDir_spec ((@setupkvm_built link ⟨m.free, noDir, []⟩ sound.free).and
    (setupkvm_pages link _))).mono ?_ (fun _ impossible => impossible.1.elim)
  rintro ⟨made, dir⟩ next ⟨vm, ⟨built, pages⟩, rfl, rfl⟩
  cases made with
  | false =>
    rcases pages with ⟨impossible, _⟩ | ⟨_, few, _⟩
    · exact nomatch impossible
    · exact ⟨(by decide : Stop.panic "trap" ≠ Guarded.twice), few⟩
  | true =>
    have counts : ∀ page, vm.free.count page + vm.dir.held page ≤ m.free.count page :=
      built.counts
    have places : ∀ page, vm.free.count page + (m.procHeld page + (m.ends page).held +
        vm.dir.held page + m.cpustack.count page) ≤ m.places page := by
      intro page
      have bound := counts page
      unfold Machine.places Machine.held
      omega
    exact ⟨⟨fun page => (places page).trans (sound.once page), built.free, sound.slots,
      sound.files⟩, places, rfl⟩

/-- The stacks of the other processors. -/
theorem startothers_spec
    (sound : Sound link m)
    (others : Nat) :
    Run.Spec (startothers others) m
      (fun _ final => Sound link final ∧ (∀ page, final.places page ≤ m.places page) ∧
        final.slot = m.slot)
      (fun _ => False) := by
  induction others generalizing m with
  | zero => exact ⟨sound, fun _ => le_rfl, rfl⟩
  | succ others ih =>
    apply Run.Spec.bind
    refine (kalloc_spec m).mono ?_ (fun _ => id)
    rintro _ next (⟨rfl, _, rfl⟩ | ⟨page, rest, nonempty, rfl, rfl⟩)
    · exact ih sound
    apply Run.Spec.modify_bind
    have places : ∀ other, rest.count other + (m.procHeld other + (m.ends other).held +
        dirHeld m.kpgdir other + (page :: m.cpustack).count other) = m.places other := by
      intro other
      unfold Machine.places Machine.held
      rw [nonempty, count_cons, count_cons]
      omega
    have taken : Sound link { m with free := rest, cpustack := page :: m.cpustack } :=
      ⟨fun other => (places other).trans_le (sound.once other), fun other member =>
        sound.free other (by rw [nonempty]; exact List.mem_cons_of_mem _ member), sound.slots,
        sound.files⟩
    refine (ih taken).mono ?_ (fun _ => id)
    rintro _ final ⟨finalSound, less, same⟩
    exact ⟨finalSound, fun other => (less other).trans (places other).le, same⟩

/-- The address space of the first process. -/
theorem initImage_built {vm : Vm}
    (frames : ∀ page ∈ vm.free, Link.Frame link page) :
    Run.Spec (initImage link) vm (fun _ final => Built link vm true final)
      (fun reason => reason ≠ Guarded.twice ∧ vm.free.length ≤ kvmPages) := by
  apply Run.Spec.bind
  refine ((setupkvm_built frames).and (setupkvm_pages link vm)).mono ?_
    (fun _ impossible => impossible.1.elim)
  rintro (_ | _) begun ⟨made, pages⟩
  · rcases pages with ⟨impossible, _⟩ | ⟨_, few, _⟩
    · exact nomatch impossible
    · exact ⟨(by decide : Stop.panic "userinit: out of memory?" ≠ Guarded.twice), few.le⟩
  rcases pages with ⟨_, fresh, length, _⟩ | ⟨impossible, _⟩
  · rw [if_pos rfl]
    apply Run.Spec.bind
    refine (Vm.kalloc_spec begun).mono ?_ (fun _ => False.elim)
    rintro _ next (⟨rfl, empty, rfl⟩ | ⟨page, rest, nonempty, rfl, rfl⟩)
    · refine ⟨(by decide : Stop.panic "trap" ≠ Guarded.twice), ?_⟩
      rw [empty, List.length_nil, Nat.zero_add] at length
      exact length.ge
    apply Run.Spec.bind
    have framed := made.dir rfl
    obtain ⟨_, physical, _⟩ := framed.take nonempty
    have first : 0 < USERPAGES := by decide
    refine ((mappages_settles framed first rfl nonempty).and
      (mappages_user first rfl physical _)).mono ?_ ?_
    · rintro _ final ⟨⟨finalFramed, keeps, _⟩, _⟩
      exact ⟨finalFramed.free, fun _ => finalFramed,
        fun other => (keeps other).trans (made.counts other)⟩
    · rintro reason ⟨_, _, present⟩
      replace present : (begun.dir.pte 0).present = true := present
      rw [pte_of_no_table (fresh.user 0 first)] at present
      exact nomatch present
  · exact nomatch impossible

/-- The first process. -/
theorem userinit_spec
    (sound : Sound link m)
    (empty : ∀ p, (m.slot p).state = .unused) :
    Run.Spec (userinit link) m (fun _ final => Sound link final)
      (fun reason => reason ≠ Guarded.twice ∧ m.free.length ≤ kvmPages + 1) := by
  have first : ∃ p, (List.finRange NPROC).find? (fun p => (m.slot p).state == .unused) = some p := by
    refine Option.isSome_iff_exists.mp (List.find?_isSome.mpr ?_)
    exact ⟨0, List.mem_finRange _, by rw [empty]; rfl⟩
  obtain ⟨p, found⟩ := first
  apply Run.Spec.bind
  apply Run.Spec.get_bind
  rw [found]
  apply Run.Spec.bind
  refine (kalloc_spec m).mono ?_ (fun _ => False.elim)
  rintro _ next (⟨rfl, none, rfl⟩ | ⟨page, rest, nonempty, rfl, rfl⟩)
  · refine ⟨(by decide : Stop.panic "trap" ≠ Guarded.twice), ?_⟩
    rw [none]
    exact Nat.zero_le _
  have length : m.free.length = rest.length + 1 := by rw [nonempty, List.length_cons]
  have frames : ∀ other ∈ rest, Link.Frame link other := fun other member =>
    sound.free other (by rw [nonempty]; exact List.mem_cons_of_mem _ member)
  have taken : Sound link ({ m with free := rest }.setSlot p
      { m.slot p with state := .embryo, kstack := page }) := by
    refine sound.replace p frames ⟨nofun, nofun⟩ (fun other => ?_)
    rw [Slot.held_embryo rfl, nonempty, count_cons]
    exact Nat.le_add_right _ _
  apply Run.Spec.modify_bind
  apply Run.Spec.modify_bind
  generalize started : ({ m with free := rest }.setSlot p
    { m.slot p with state := .embryo, kstack := page } : Machine) = m1 at taken
  have free : m1.free = rest := by rw [← started]; rfl
  have embryo : (m1.slot p).state = .embryo := by
    rw [← started]
    show (Function.update m.slot p _ p).state = _
    rw [Function.update_self]
  have named : Sound link { m1 with initproc := some p } :=
    ⟨taken.once, taken.free, taken.slots, taken.files⟩
  apply Run.Spec.bind
  have image := @initImage_built link ⟨m1.free, noDir, []⟩ taken.free
  refine (onDir_spec (m := { m1 with initproc := some p }) image).mono ?_ ?_
  · rintro ⟨_, dir⟩ _ ⟨vm, built, rfl, rfl⟩
    have framed := built.dir rfl
    have counts : ∀ other, vm.free.count other + vm.dir.held other ≤ m1.free.count other :=
      built.counts
    refine named.replace p framed.free ⟨?_, ?_⟩ (fun other => ?_)
    · exact fun _ => ⟨nofun, framed.dir, framed.table, framed.user⟩
    · exact fun _ => (by decide : (4096 : UInt32).toNat ≤ KERNBASE)
    have bound := counts other
    have old := Slot.held_embryo embryo other
    have new := @Slot.held_used { m1.slot p with
      state := .alive, pgdir := vm.dir, sz := 4096 } (.inl rfl) other
    rw [new]
    show vm.free.count other + (single (some (m1.slot p).kstack) other + vm.dir.held other) ≤
      m1.free.count other + (m1.slot p).held other
    omega
  · rintro reason ⟨other, few⟩
    refine ⟨other, ?_⟩
    replace few : m1.free.length ≤ kvmPages := few
    rw [free] at few
    omega

/-! ## Booting -/

/-- The memory of `kinit1` has room for the kernel's page directory. -/
def Roomy (link : Link) : Prop := firstPage link + kvmPages ≤ firstPages

theorem frame_of_firstPage
    (above : firstPage link ≤ page)
    (inside : page < PHYSTOP / PGSIZE) :
    Link.Frame link page := by
  have kernel := link.ordered
  have low := link.lower
  unfold firstPage USERPAGES KERNBASE PGSIZE at above
  unfold PHYSTOP PGSIZE at inside
  unfold KERNLINK KERNBASE EXTMEM at low
  refine ⟨?_, ?_⟩
  · unfold KERNBASE PGSIZE
    omega
  · unfold PHYSTOP PGSIZE
    omega

/-- What `pagesBetween` lists. -/
structure Lists (start stop : Nat) (pages : List Nat) : Prop where
  /-- Which pages they are. -/
  mem : ∀ page, page ∈ pages ↔ start ≤ page ∧ page < stop
  nodup : pages.Nodup
  /-- How many they are. -/
  length : pages.length = stop - start

theorem lists_pagesBetween (start stop : Nat) : Lists start stop (pagesBetween start stop) where
  mem page := by
    rw [pagesBetween, List.mem_range'_1]
    omega
  nodup := by
    rw [pagesBetween]
    exact List.nodup_range'
  length := by rw [pagesBetween, List.length_range']

/-- What `main` leaves.  It only fails if the kernel is too large. -/
theorem bootFrom_spec
    (link : Link)
    (others : Nat)
    (first : Lists (firstPage link) firstPages below)
    (second : Lists firstPages (PHYSTOP / PGSIZE) above) :
    Run.Spec (bootFrom link others below above) Machine.blank (fun _ m => Sound link m)
      (fun reason => reason ≠ Guarded.twice ∧ ¬Roomy link) := by
  have inside : firstPages < PHYSTOP / PGSIZE := by decide
  apply Run.Spec.bind
  refine (freerange_spec (sound_blank link) _ first.nodup (fun page _ =>
    places_blank page)).mono ?_ ?_
  · rintro _ m0 ⟨sound0, rfl⟩
    apply Run.Spec.bind
    refine (kvmalloc_spec sound0).mono ?_ ?_
    · rintro _ m1 ⟨sound1, places1, slots1⟩
      apply Run.Spec.bind
      refine (startothers_spec sound1 others).mono ?_ (fun _ => False.elim)
      rintro _ m2 ⟨sound2, places2, slots2⟩
      have nowhere : ∀ page ∈ above, m2.places page = 0 := by
        intro page member
        have high := ((second.mem page).mp member).1
        have absent : page ∉ below := by
          intro low
          have bound := (first.mem page).mp low
          omega
        refine Nat.eq_zero_of_le_zero ((places2 page).trans ((places1 page).trans ?_))
        have count : below.reverse.count page = 0 := by
          rw [List.count_reverse]
          exact List.count_eq_zero_of_not_mem absent
        have blank := places_blank page
        show (below.reverse ++ Machine.blank.free).count page + Machine.blank.held page ≤ 0
        unfold Machine.places at blank
        rw [List.count_append, count]
        omega
      apply Run.Spec.bind
      refine (freerange_spec sound2 _ second.nodup nowhere).mono ?_ ?_
      · rintro _ m3 ⟨sound3, rfl⟩
        refine (userinit_spec sound3 (fun p => ?_)).mono (fun _ _ => id) ?_
        · show (m2.slot p).state = _
          rw [slots2, slots1]
          rfl
        · rintro reason ⟨other, few⟩
          refine ⟨other, fun _ => ?_⟩
          replace few : (above.reverse ++ m2.free).length ≤ kvmPages + 1 := few
          rw [List.length_append, List.length_reverse, second.length] at few
          have enough : kvmPages + 1 < PHYSTOP / PGSIZE - firstPages := by decide
          omega
      · rintro reason ⟨other, page, member, outside⟩
        refine ⟨other, fun roomy => outside ?_⟩
        obtain ⟨low, high⟩ := (second.mem page).mp member
        unfold Roomy at roomy
        exact frame_of_firstPage (by omega) (by omega)
    · rintro reason ⟨other, few⟩
      refine ⟨other, fun roomy => ?_⟩
      replace few : (below.reverse ++ Machine.blank.free).length < kvmPages := few
      rw [List.length_append, List.length_reverse, first.length] at few
      unfold Roomy at roomy
      omega
  · rintro reason ⟨_, page, member, outside⟩
    obtain ⟨low, high⟩ := (first.mem page).mp member
    exact absurd (frame_of_firstPage low (by omega)) outside

theorem boot_spec (link : Link) (others : Nat) :
    Run.Spec (boot link others) Machine.blank (fun _ m => Sound link m)
      (fun reason => reason ≠ Guarded.twice ∧ ¬Roomy link) :=
  bootFrom_spec link others (lists_pagesBetween _ _) (lists_pagesBetween _ _)

/-! ## Owners -/

/-- A place of a page in an address space. -/
inductive DirPart where
  | directory
  /-- The page table of an entry of the directory. -/
  | table (i : Nat)
  /-- The page of user memory at a page of the address space. -/
  | user (vpn : Nat)
  deriving DecidableEq, Repr

/-- The page at a place. -/
def DirPart.page (dir : PageDir) : DirPart → Option Nat
  | .directory => some dir.page
  | .table i => if i < NPDENTRIES then dir.tablePage i else none
  | .user vpn => if vpn < USERPAGES then dir.userPage vpn else none

/-- What a page can belong to. -/
inductive Owner where
  | stack (p : Fin NPROC)
  | proc (p : Fin NPROC) (part : DirPart)
  | pipe
  | kernel (part : DirPart)
  | processor
  deriving DecidableEq, Repr

/-- Whom a page belongs to. -/
def Owns (m : Machine) (page : Nat) : Owner → Prop
  | .stack p => (m.slot p).state ≠ .unused ∧ (m.slot p).kstack = page
  | .proc p part => ((m.slot p).state = .alive ∨ (m.slot p).state = .zombie) ∧
      part.page (m.slot p).pgdir = some page
  | .pipe => (m.ends page).readopen = true ∨ (m.ends page).writeopen = true
  | .kernel part => ∃ dir, m.kpgdir = some dir ∧ part.page dir = some page
  | .processor => page ∈ m.cpustack

section DirPart

variable {dir : PageDir} {part other : DirPart} {page : Nat}

theorem tablePage_of_page (here : (DirPart.table i).page dir = some page) :
    i ∈ Finset.range NPDENTRIES ∧ single (dir.tablePage i) page = 1 := by
  by_cases inside : i < NPDENTRIES
  · rw [DirPart.page, if_pos inside] at here
    exact ⟨Finset.mem_range.mpr inside, by rw [here, single, if_pos rfl]⟩
  · rw [DirPart.page, if_neg inside] at here
    cases here

theorem userPage_of_page (here : (DirPart.user vpn).page dir = some page) :
    vpn ∈ Finset.range USERPAGES ∧ single (dir.userPage vpn) page = 1 := by
  by_cases inside : vpn < USERPAGES
  · rw [DirPart.page, if_pos inside] at here
    exact ⟨Finset.mem_range.mpr inside, by rw [here, single, if_pos rfl]⟩
  · rw [DirPart.page, if_neg inside] at here
    cases here

theorem directory_of_page (here : DirPart.directory.page dir = some page) :
    single (some dir.page) page = 1 := by
  rw [show dir.page = page from Option.some.inj here, single, if_pos rfl]

theorem tableHeld_of_page (here : (DirPart.table i).page dir = some page) :
    1 ≤ dir.tableHeld page := by
  obtain ⟨inside, one⟩ := tablePage_of_page here
  rw [← one]
  exact Finset.single_le_sum (f := fun i => single (dir.tablePage i) page)
    (fun _ _ => Nat.zero_le _) inside

theorem userHeld_of_page (here : (DirPart.user vpn).page dir = some page) :
    1 ≤ dir.userHeld page := by
  obtain ⟨inside, one⟩ := userPage_of_page here
  rw [← one]
  exact Finset.single_le_sum (f := fun vpn => single (dir.userPage vpn) page)
    (fun _ _ => Nat.zero_le _) inside

/-- A place in an address space is one of its pages. -/
theorem held_of_page (here : part.page dir = some page) :
    1 ≤ dir.held page := by
  unfold PageDir.held
  cases part with
  | directory =>
    have one := directory_of_page here
    omega
  | table i =>
    have one := tableHeld_of_page here
    omega
  | user vpn =>
    have one := userHeld_of_page here
    omega

/-- Two places in an address space are two of its pages. -/
theorem held_of_two
    (distinct : part ≠ other)
    (here : part.page dir = some page)
    (there : other.page dir = some page) :
    2 ≤ dir.held page := by
  unfold PageDir.held
  cases part with
  | directory =>
    have one := directory_of_page here
    cases other with
    | directory => exact absurd rfl distinct
    | table j =>
      have two := tableHeld_of_page there
      omega
    | user vpn =>
      have two := userHeld_of_page there
      omega
  | table i =>
    cases other with
    | directory =>
      have one := tableHeld_of_page here
      have two := directory_of_page there
      omega
    | table j =>
      obtain ⟨inside, one⟩ := tablePage_of_page here
      obtain ⟨otherInside, two⟩ := tablePage_of_page there
      have both : single (dir.tablePage i) page + single (dir.tablePage j) page ≤
          dir.tableHeld page :=
        pair_le_sum (fun i => single (dir.tablePage i) page)
          (fun same => distinct (congrArg DirPart.table same)) inside otherInside
      omega
    | user vpn =>
      have one := tableHeld_of_page here
      have two := userHeld_of_page there
      omega
  | user vpn =>
    have one := userHeld_of_page here
    cases other with
    | directory =>
      have two := directory_of_page there
      omega
    | table j =>
      have two := tableHeld_of_page there
      omega
    | user other =>
      obtain ⟨inside, one⟩ := userPage_of_page here
      obtain ⟨otherInside, two⟩ := userPage_of_page there
      have both : single (dir.userPage vpn) page + single (dir.userPage other) page ≤
          dir.userHeld page :=
        pair_le_sum (fun vpn => single (dir.userPage vpn) page)
          (fun same => distinct (congrArg DirPart.user same)) inside otherInside
      omega

end DirPart

/-! ## Owners in the books -/

/-- The slot of an owner that is a process. -/
def Owner.slot : Owner → Option (Fin NPROC)
  | .stack p => some p
  | .proc p _ => some p
  | _ => none

theorem stack_le_held {slot : Slot}
    (used : slot.state ≠ .unused)
    (page : Nat) :
    single (some slot.kstack) page ≤ slot.held page := by
  unfold Slot.held
  split
  · exact absurd ‹_› used
  · exact le_rfl
  · exact Nat.le_add_right _ _

section Owns

variable {one other : Owner} {page : Nat} {p q : Fin NPROC}

theorem stack_of_owns (owns : Owns m page (.stack p)) :
    single (some (m.slot p).kstack) page = 1 := by
  rw [owns.2, single, if_pos rfl]

theorem dir_of_owns (owns : Owns m page (.proc p part)) :
    single (some (m.slot p).kstack) page + 1 ≤ (m.slot p).held page := by
  have one := held_of_page owns.2
  rw [Slot.held_used owns.1]
  omega

/-- A process has its own pages. -/
theorem one_le_slot
    (owns : Owns m page one)
    (slot : one.slot = some p) :
    1 ≤ (m.slot p).held page := by
  cases one with
  | stack _ =>
    obtain rfl := Option.some.inj slot
    rw [← stack_of_owns owns]
    exact stack_le_held owns.1 page
  | proc _ part =>
    obtain rfl := Option.some.inj slot
    have bound := dir_of_owns owns
    omega
  | pipe => exact nomatch slot
  | kernel _ => exact nomatch slot
  | processor => exact nomatch slot

/-- Two parts of a process are two pages. -/
theorem two_le_slot
    (distinct : one ≠ other)
    (owns : Owns m page one)
    (ownsOther : Owns m page other)
    (slot : one.slot = some p)
    (otherSlot : other.slot = some p) :
    2 ≤ (m.slot p).held page := by
  cases one with
  | stack _ =>
    obtain rfl := Option.some.inj slot
    have stack := stack_of_owns owns
    cases other with
    | stack _ =>
      obtain rfl := Option.some.inj otherSlot
      exact absurd rfl distinct
    | proc _ _ =>
      obtain rfl := Option.some.inj otherSlot
      have bound := dir_of_owns ownsOther
      omega
    | pipe => exact nomatch otherSlot
    | kernel _ => exact nomatch otherSlot
    | processor => exact nomatch otherSlot
  | proc _ part =>
    obtain rfl := Option.some.inj slot
    have bound := dir_of_owns owns
    cases other with
    | stack _ =>
      obtain rfl := Option.some.inj otherSlot
      have stack := stack_of_owns ownsOther
      omega
    | proc _ otherPart =>
      obtain rfl := Option.some.inj otherSlot
      have two := held_of_two (fun same => distinct (congrArg _ same)) owns.2 ownsOther.2
      rw [Slot.held_used owns.1]
      omega
    | pipe => exact nomatch otherSlot
    | kernel _ => exact nomatch otherSlot
    | processor => exact nomatch otherSlot
  | pipe => exact nomatch slot
  | kernel _ => exact nomatch slot
  | processor => exact nomatch slot

/-- The parts of the books. -/
inductive Column where
  | processes
  | pipes
  | kernel
  | processors

/-- Where the books have an owner. -/
def Owner.column : Owner → Column
  | .stack _ => .processes
  | .proc _ _ => .processes
  | .pipe => .pipes
  | .kernel _ => .kernel
  | .processor => .processors

/-- What a part of the books has for a page. -/
def Machine.column (m : Machine) (page : Nat) : Column → Nat
  | .processes => m.procHeld page
  | .pipes => (m.ends page).held
  | .kernel => dirHeld m.kpgdir page
  | .processors => m.cpustack.count page

theorem column_le
    (m : Machine)
    (page : Nat)
    (column : Column) :
    m.column page column ≤ m.held page := by
  unfold Machine.held
  cases column <;> dsimp only [Machine.column] <;> omega

theorem column_add_le
    (m : Machine)
    (page : Nat)
    (different : column ≠ otherColumn) :
    m.column page column + m.column page otherColumn ≤ m.held page := by
  unfold Machine.held
  cases column <;> cases otherColumn <;> first
    | exact absurd rfl different
    | (dsimp only [Machine.column]; omega)

theorem one_le_column (owns : Owns m page one) :
    1 ≤ m.column page one.column := by
  cases one with
  | stack p => exact (one_le_slot owns rfl).trans (Sound.slot_le_procHeld m p page)
  | proc p part => exact (one_le_slot owns rfl).trans (Sound.slot_le_procHeld m p page)
  | pipe =>
    refine Nat.le_of_eq (Eq.symm ?_)
    rcases owns with reads | writes
    · exact @Ends.held_of_isOpen _ false reads
    · exact @Ends.held_of_isOpen _ true writes
  | kernel part =>
    obtain ⟨dir, found, here⟩ := owns
    show 1 ≤ dirHeld m.kpgdir page
    rw [found]
    exact held_of_page here
  | processor => exact List.count_pos_iff.mpr owns

/-- Owners of one page in one part of the books. -/
theorem two_le_processes
    (distinct : one ≠ other)
    (owns : Owns m page one)
    (ownsOther : Owns m page other)
    (slot : one.slot = some p)
    (otherSlot : other.slot = some q) :
    2 ≤ m.procHeld page := by
  by_cases same : p = q
  · subst same
    exact (two_le_slot distinct owns ownsOther slot otherSlot).trans
      (Sound.slot_le_procHeld m p page)
  · have first := one_le_slot owns slot
    have second := one_le_slot ownsOther otherSlot
    have both : (m.slot p).held page + (m.slot q).held page ≤ m.procHeld page :=
      pair_le_sum (fun p => (m.slot p).held page) same (Finset.mem_univ p) (Finset.mem_univ q)
    omega

/-- A page that is in one place has one owner. -/
theorem owner_unique
    (once : m.held page ≤ 1)
    (owns : Owns m page one)
    (ownsOther : Owns m page other) :
    one = other := by
  by_contra distinct
  by_cases same : one.column = other.column
  · have two : 2 ≤ m.column page one.column := by
      cases one with
      | stack p =>
        cases other with
        | stack q => exact two_le_processes distinct owns ownsOther rfl rfl
        | proc q _ => exact two_le_processes distinct owns ownsOther rfl rfl
        | _ => exact nomatch same
      | proc p part =>
        cases other with
        | stack q => exact two_le_processes distinct owns ownsOther rfl rfl
        | proc q _ => exact two_le_processes distinct owns ownsOther rfl rfl
        | _ => exact nomatch same
      | pipe =>
        cases other with
        | pipe => exact absurd rfl distinct
        | _ => exact nomatch same
      | kernel part =>
        cases other with
        | kernel otherPart =>
          obtain ⟨dir, found, here⟩ := owns
          obtain ⟨otherDir, otherFound, there⟩ := ownsOther
          obtain rfl := Option.some.inj (found.symm.trans otherFound)
          show 2 ≤ dirHeld m.kpgdir page
          rw [found]
          exact held_of_two (fun equal => distinct (congrArg _ equal)) here there
        | _ => exact nomatch same
      | processor =>
        cases other with
        | processor => exact absurd rfl distinct
        | _ => exact nomatch same
    have bound := column_le m page one.column
    omega
  · have first := one_le_column owns
    have second := one_le_column ownsOther
    have both := column_add_le m page same
    omega

end Owns

/-- In every run of any calls of any processes, every page is on the free list or
with one owner, and no page is given back while it is free. -/
theorem pages_have_one_owner
    (link : Link)
    (others : Nat)
    (sequence : List (Fin NPROC × Call)) :
    Run.Spec (history link others sequence) Machine.blank
      (fun _ m => m.free.Nodup ∧ (∀ page ∈ m.free, ∀ owner, ¬Owns m page owner) ∧ m.cpustack.Nodup ∧
        ∀ page one other, Owns m page one → Owns m page other → one = other)
      (· ≠ Guarded.twice) := by
  apply Run.Spec.bind
  refine (boot_spec link others).mono ?_ (fun _ => And.left)
  intro _ booted sound
  refine .mono (calls_keeps sound sequence) ?_ (fun _ => id)
  rintro _ m ⟨final, _⟩
  have once : ∀ page, m.held page ≤ 1 :=
    fun page => (Nat.le_add_left _ _).trans (final.once page)
  refine ⟨final.nodup, ?_, ?_, ?_⟩
  · intro page free owner owns
    refine final.not_free ?_ free
    exact (one_le_column owns).trans (column_le m page _)
  · refine List.nodup_iff_count_le_one.mpr fun page => ?_
    exact (column_le m page .processors).trans (once page)
  · intro page one other owns ownsOther
    exact owner_unique (once page) owns ownsOther

end Memory
end Xv6
