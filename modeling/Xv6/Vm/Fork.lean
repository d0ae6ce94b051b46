import Xv6.Vm.Arguments
import Xv6.Vm.Leaks
import Xv6.Vm.Sbrk

/-!
# The address space of a child

`copyuvm` maps the pages of the child for user code to read and write, whatever the
entries of the parent are.  With the bytes of the pages, the child gets a copy of its
own.
-/

namespace Xv6
namespace Vm

open Faulting
open Function
open Shares

/-! ## Permissions -/

/-- A page directory that `copyuvm` makes of another one. -/
def Forks (link : Link) (sz : UInt32) (old child : PageDir) : Prop :=
  ∃ vm final : Vm, (∀ page ∈ vm.free, Link.Frame link page) ∧
    copyuvm link old sz vm = .ok (true, final) ∧ final.dir = child

/-- User code can do the same with the pages below a size. -/
def SameAccess (sz : UInt32) (old child : PageDir) : Prop :=
  ∀ vpn < pagesOf sz, (child.pte vpn).user = (old.pte vpn).user ∧
    (child.pte vpn).writable = (old.pte vpn).writable

/-- User code can read and write the pages below a size. -/
def AllOpen (sz : UInt32) (dir : PageDir) : Prop :=
  ∀ vpn < pagesOf sz, (dir.pte vpn).user = true ∧ (dir.pte vpn).writable = true

variable {link : Link} {sz : UInt32} {old child : PageDir}

theorem Forks.allOpen (forks : Forks link sz old child) :
    AllOpen sz child := by
  obtain ⟨vm, final, frames, copied, rfl⟩ := forks
  rcases (copyuvm_pages frames old sz).of_ok copied with ⟨impossible, _⟩ |
    ⟨origin, _, _, _, ⟨_, grown⟩ | ⟨impossible, _⟩ | ⟨impossible, _⟩⟩
  · exact nomatch impossible
  · intro vpn inside
    obtain ⟨page, entry⟩ := grown.entry vpn inside
    rw [Nat.zero_add] at entry
    rw [entry]
    exact ⟨rfl, rfl⟩
  · exact nomatch impossible
  · exact nomatch impossible

/-- A child and all its descendants have the permissions of the parent exactly when
the parent's pages are all open to user code, to read and to write. -/
theorem fork_sameAccess_iff
    (link : Link)
    (sz : UInt32)
    (old child : PageDir)
    (forks : Forks link sz old child) :
    (∀ descendant, Relation.ReflTransGen (Forks link sz) child descendant →
        SameAccess sz old descendant) ↔
      AllOpen sz old := by
  constructor
  · intro same vpn inside
    obtain ⟨user, writable⟩ := same child .refl vpn inside
    obtain ⟨userOpen, writableOpen⟩ := forks.allOpen vpn inside
    exact ⟨user.symm.trans userOpen, writable.symm.trans writableOpen⟩
  intro opened descendant chain vpn inside
  have descendantOpen : AllOpen sz descendant := by
    cases chain with
    | refl => exact forks.allOpen
    | tail _ last => exact last.allOpen
  obtain ⟨user, writable⟩ := opened vpn inside
  obtain ⟨userToo, writableToo⟩ := descendantOpen vpn inside
  exact ⟨userToo.trans user.symm, writableToo.trans writable.symm⟩

/-- With enough memory `copyuvm` makes a copy. -/
theorem copyuvm_copies {vm : Vm}
    (frames : ∀ page ∈ vm.free, Link.Frame link page)
    (below : sz.toNat ≤ KERNBASE)
    (copied : ∀ vpn < pagesOf sz, Copied old vpn)
    (memory : kvmPages + 2 * pagesOf sz < vm.free.length) :
    ∃ final, copyuvm link old sz vm = .ok (true, final) := by
  have user := pagesOf_le_userPages below
  obtain ⟨result, final, returned, outcome⟩ := (copyuvm_pages frames old sz).exists_ok
    fun _ ⟨_, _, _, offset, inside, _, bad⟩ => bad.elim (· (copied offset inside)) (by omega)
  rcases outcome with ⟨_, few, _⟩ | ⟨origin, _, length, _, outcome⟩
  · omega
  rcases outcome with ⟨rfl, _⟩ | ⟨_, ⟨offset, inside, out⟩, _⟩ | ⟨_, ⟨offset, inside, _, _, loses⟩, _⟩
  · exact ⟨final, returned⟩
  · have cost := out.memory
    have bound := needed_le origin.dir 0 offset
    omega
  · have cost := loses.memory
    have bound := needed_le origin.dir 0 offset
    omega

/-! ## The bytes of the pages -/

namespace Contents

/-- The loop of `copyuvm`, with the bytes that it moves. -/
def copyPages (link : Link) (old : PageDir) (sz : UInt32) :
    (fuel : Nat) → UInt32 → Run Stop (Vm × Memory) Bool
  | 0, _ => pure true
  | fuel + 1, i =>
    if i < sz then
      if old.hasTable (pageOf i) then
        if (old.pte (pageOf i)).present then do
          match ← Run.onFirst kalloc with
          | none =>
            Run.onFirst (freevm link)
            pure false
          | some page =>
            Run.modify fun state =>
              (state.1, update state.2 page (state.2 (old.pte (pageOf i)).page))
            if ← Run.onFirst (mappages i 4096 (UInt32.ofNat (PGSIZE * page)) ⟨true, true⟩) then
              copyPages link old sz fuel (i + 4096)
            else do
              Run.onFirst (freevm link)
              pure false
        else Run.fault (Stop.panic "copyuvm: page not present")
      else Run.fault (Stop.panic "copyuvm: pte should exist")
    else pure true

/-- Copy an address space, with the bytes of the pages. -/
def copyuvm (link : Link) (old : PageDir) (sz : UInt32) : Run Stop (Vm × Memory) Bool := do
  if ← Run.onFirst (setupkvm link) then copyPages link old sz (sz.toNat / PGSIZE + 1) 0
  else pure false

theorem copyPages_over (link : Link) (old : PageDir) (sz : UInt32) (fuel : Nat) (i : UInt32) :
    Run.Over (Contents.copyPages link old sz fuel i) (Vm.copyPages link old sz fuel i) := by
  induction fuel generalizing i with
  | zero => exact .pure true
  | succ fuel ih =>
    have failed : Run.Over (τ := Memory) (do Run.onFirst (freevm link); pure false)
        (do freevm link; pure false) :=
      .bind (.onFirst _) fun _ => .pure false
    unfold Contents.copyPages Vm.copyPages
    split
    · split
      · split
        · refine .bind (.onFirst kalloc) fun taken => ?_
          cases taken with
          | none => exact failed
          | some page =>
            refine .modify_bind (fun _ => rfl) (.bind (.onFirst _) fun mapped => ?_)
            cases mapped with
            | true => exact ih (i + 4096)
            | false => exact failed
        · exact .fault _
      · exact .fault _
    · exact .pure true

/-- The address space is the one that `copyuvm` makes. -/
theorem copyuvm_over (link : Link) (old : PageDir) (sz : UInt32) :
    Run.Over (Contents.copyuvm link old sz) (Vm.copyuvm link old sz) := by
  refine .bind (.onFirst _) fun made => ?_
  cases made with
  | true => exact copyPages_over link old sz _ 0
  | false => exact .pure false

end Contents

/-- The byte at an address of an address space. -/
def view (mem : Memory) (dir : PageDir) (va : UInt32) : UInt8 :=
  mem (dir.pte (pageOf va)).page (va.toNat % PGSIZE)

/-- Store a byte at an address of an address space. -/
def store (mem : Memory) (dir : PageDir) (va : UInt32) (byte : UInt8) : Memory :=
  update mem (dir.pte (pageOf va)).page
    (update (mem (dir.pte (pageOf va)).page) (va.toNat % PGSIZE) byte)

/-- A page of user memory that is mapped. -/
def PageDir.Maps (dir : PageDir) (vpn : Nat) : Prop :=
  vpn < USERPAGES ∧ (dir.pte vpn).present = true

/-- The directory `child` holds a copy of the user memory of `old`, in pages of its
own. -/
structure PrivateCopy (link : Link) (old : PageDir) (sz : UInt32) (mem : Memory)
    (child : PageDir) (after : Memory) : Prop where
  /-- The same bytes are seen. -/
  same : ∀ va < sz, view after child va = view mem old va
  /-- No page is mapped twice. -/
  distinct : ∀ vpn other, PageDir.Maps child vpn → PageDir.Maps child other →
    (child.pte vpn).page = (child.pte other).page → vpn = other
  /-- No page is shared. -/
  disjoint : ∀ vpn other, PageDir.Maps child vpn → PageDir.Maps old other →
    (child.pte vpn).page ≠ (old.pte other).page
  /-- The kernel's part is the one that `setupkvm` maps. -/
  kernel : ∀ vpn, USERPAGES ≤ vpn →
    child.pte vpn = if InKernel vpn then kernelPte link vpn else Pte.zero
  /-- The parent's memory is as before. -/
  unchanged : ∀ vpn, PageDir.Maps old vpn → after (old.pte vpn).page = mem (old.pte vpn).page
  /-- What the child stores later is not seen by the parent. -/
  childStores : ∀ now va byte other, PageDir.Maps child (pageOf va) →
    PageDir.Maps old (pageOf other) → view (store now child va byte) old other = view now old other
  /-- What the parent stores later is not seen by the child. -/
  parentStores : ∀ now va byte other, PageDir.Maps old (pageOf va) →
    PageDir.Maps child (pageOf other) →
      view (store now old va byte) child other = view now child other

/-- Some pages of an address space have been copied. -/
structure Filled (old : PageDir) (mem : Memory) (origin vm : Vm) (now : Memory) (count : Nat) :
    Prop where
  grown : Grown origin 0 vm count
  /-- Pages that were in use are as before. -/
  kept : ∀ page, page ∉ origin.free → now page = mem page
  copied : ∀ vpn < count, now (vm.dir.pte vpn).page = mem (old.pte vpn).page

section Contents

variable {origin vm next : Vm} {mem now : Memory} {count page : Nat} {rest : List Nat} {i : UInt32}

/-- Copying one more page. -/
theorem Filled.step
    (filled : Filled old mem origin vm now count)
    (once : ∀ page, origin.free.count page + origin.dir.held page ≤ 1)
    (inside : count < USERPAGES)
    (apart : (old.pte count).page ∉ origin.free)
    (nonempty : vm.free = page :: rest)
    (mapped : UserMapped { vm with free := rest } next count page) :
    Filled old mem origin next (update now page (now (old.pte count).page)) (count + 1) := by
  have free : page ∈ vm.free := by
    rw [nonempty]
    exact List.mem_cons_self
  refine ⟨filled.grown.step nonempty (by rwa [Nat.zero_add]), fun other used => ?_,
    fun vpn small => ?_⟩
  · have different : other ≠ page := by
      rintro rfl
      exact used (filled.grown.free.subset free)
    rw [update_of_ne different]
    exact filled.kept other used
  rcases Nat.lt_succ_iff_lt_or_eq.mp small with less | rfl
  · have different : (vm.dir.pte vpn).page ≠ page := by
      obtain ⟨target, entry⟩ := filled.grown.entry vpn less
      rw [Nat.zero_add] at entry
      rintro rfl
      have userPage : vm.dir.userPage vpn = some (vm.dir.pte vpn).page := by
        rw [PageDir.userPage, entry]
        rfl
      have held := userPage_held (less.trans inside) userPage
      have total := filled.grown.conserved (vm.dir.pte vpn).page
      have bound := once (vm.dir.pte vpn).page
      have positive := List.count_pos_iff.mpr free
      omega
    rw [mapped.pte less.ne, update_of_ne different]
    exact filled.copied vpn less
  · rw [mapped.newPte]
    show update now page _ page = _
    rw [update_self, filled.kept _ apart]

theorem copyPages_filled
    (below : sz.toNat ≤ KERNBASE)
    (once : ∀ page, origin.free.count page + origin.dir.held page ≤ 1)
    (apart : ∀ vpn, PageDir.Maps old vpn → (old.pte vpn).page ∉ origin.free)
    (fuel : Nat)
    (enough : pagesOf sz ≤ count + fuel)
    (inside : count ≤ pagesOf sz)
    (framed : Framed link vm)
    (filled : Filled old mem origin vm now count)
    (address : i.toNat = PGSIZE * count) :
    Run.Spec (Contents.copyPages link old sz fuel i) (vm, now)
      (fun result final => result = true → Filled old mem origin final.1 final.2 (pagesOf sz))
      (fun _ => True) := by
  induction fuel generalizing vm now count i with
  | zero =>
    intro _
    rwa [show pagesOf sz = count by omega]
  | succ fuel ih =>
    have more : i < sz ↔ count < pagesOf sz := lt_iff_page address
    have failed : ∀ state, Run.Spec (do Run.onFirst (freevm link); pure false) state
        (fun result final => result = true →
          Filled old mem origin final.1 final.2 (pagesOf sz)) (fun _ => True) := fun state =>
      .bind ((Run.Spec.trivial _ _).mono (fun _ _ _ => nofun) fun _ => id)
    unfold Contents.copyPages
    split
    case isFalse past =>
      intro _
      rwa [show pagesOf sz = count by have := mt more.mpr past; omega]
    case isTrue here =>
      have room := more.mp here
      have user : count < USERPAGES := room.trans_le (pagesOf_le_userPages below)
      have page : pageOf i = count := by
        rw [pageOf, address, Nat.mul_div_cancel_left _ (by decide)]
      split
      case isFalse => exact True.intro
      case isTrue =>
        split
        case isFalse => exact True.intro
        case isTrue present =>
          rw [page] at present ⊢
          apply Run.Spec.bind
          refine ((kalloc_spec vm).onFirst now).mono ?_ (fun _ => False.elim)
          rintro _ _ ⟨_, rfl, ⟨rfl, _, rfl⟩ | ⟨page, rest, nonempty, rfl, rfl⟩⟩
          · exact failed _
          obtain ⟨frame, physical, still⟩ := framed.take nonempty
          apply Run.Spec.modify_bind
          apply Run.Spec.bind
          refine ((mappages_user user address physical _).onFirst _).mono ?_ (fun _ _ => True.intro)
          rintro _ _ ⟨next, rfl, ⟨rfl, _, mapped⟩ | ⟨rfl, _⟩⟩
          · exact ih (by omega) room (mapped.framed (still _) frame)
              (filled.step once user (apart count ⟨user, present⟩) nonempty mapped)
              (toNat_next address user)
          · exact failed _

end Contents

/-- A page that is held once is mapped once. -/
theorem userPage_injective {dir : PageDir}
    (once : dir.held page ≤ 1)
    (user : vpn < USERPAGES)
    (userToo : other < USERPAGES)
    (mapped : dir.userPage vpn = some page)
    (mappedToo : dir.userPage other = some page) :
    vpn = other := by
  by_contra different
  have subset : {vpn, other} ⊆ Finset.range USERPAGES := by
    simp [Finset.insert_subset_iff, user, userToo]
  have two := Finset.sum_le_sum_of_subset subset (f := fun vpn => single (dir.userPage vpn) page)
  rw [Finset.sum_pair different, mapped, mappedToo, single, if_pos rfl] at two
  change 2 ≤ dir.userHeld page at two
  rw [PageDir.held] at once
  omega

theorem view_store_of_ne {dir other : PageDir} (byte : UInt8)
    (different : (other.pte (pageOf seen)).page ≠ (dir.pte (pageOf va)).page) :
    view (store mem dir va byte) other seen = view mem other seen := by
  rw [view, store, update_of_ne different, view]

/-- If `copyuvm` makes a copy of an address space whose pages are not free, it is a
private one. -/
theorem copyuvm_privateCopy
    (link : Link)
    (old : PageDir)
    (sz : UInt32)
    (vm final : Vm)
    (mem after : Memory)
    (below : sz.toNat < KERNBASE)
    (nodup : vm.free.Nodup)
    (frames : ∀ page ∈ vm.free, Link.Frame link page)
    (apart : ∀ vpn, PageDir.Maps old vpn → (old.pte vpn).page ∉ vm.free)
    (returned : Contents.copyuvm link old sz (vm, mem) = .ok (true, final, after)) :
    PrivateCopy link old sz mem final.dir after := by
  obtain ⟨made, ⟨origin, bytes⟩, started, copied⟩ := Run.bind_eq_ok_iff.mp returned
  obtain ⟨built, rfl⟩ : setupkvm link vm = .ok (made, origin) ∧ bytes = mem :=
    Run.onFirst_eq_ok started
  rcases (setupkvm_pages link vm).of_ok built with ⟨rfl, fresh, _, counts, framed⟩ | ⟨rfl, _⟩
  case inr => exact nomatch copied
  have once : ∀ page, origin.free.count page + origin.dir.held page ≤ 1 := fun page =>
    (counts page).le.trans (List.nodup_iff_count_le_one.mp nodup page)
  have unused : ∀ vpn, PageDir.Maps old vpn → (old.pte vpn).page ∉ origin.free :=
    fun vpn maps member => apart vpn maps (fresh.free.subset member)
  have filled := (copyPages_filled below.le once unused _ (by unfold pagesOf PGSIZE; omega)
    (Nat.zero_le _) (framed frames) ⟨.refl origin 0, fun _ _ => rfl,
      fun _ small => absurd small (Nat.not_lt_zero _)⟩ rfl).of_ok copied rfl
  have userPage : ∀ vpn, PageDir.Maps final.dir vpn →
      final.dir.userPage vpn = some (final.dir.pte vpn).page := fun vpn maps => if_pos maps.2
  have total : ∀ page, final.free.count page + final.dir.held page = vm.free.count page :=
    fun page => (filled.grown.conserved page).trans (counts page)
  have disjoint : ∀ vpn other, PageDir.Maps final.dir vpn → PageDir.Maps old other →
      (final.dir.pte vpn).page ≠ (old.pte other).page := by
    intro vpn other maps oldMaps same
    have held := userPage_held maps.1 (userPage vpn maps)
    have free : (final.dir.pte vpn).page ∈ vm.free := List.count_pos_iff.mp (by
      rw [← total]
      omega)
    rw [same] at free
    exact apart other oldMaps free
  refine ⟨fun va inside => ?_, fun vpn other maps mapsToo same => ?_, disjoint, fun vpn high => ?_,
    fun vpn maps => filled.kept _ (unused vpn maps), fun now va byte other maps oldMaps => ?_,
    fun now va byte other oldMaps maps => ?_⟩
  · refine congrFun (filled.copied (pageOf va) ?_) _
    rw [UInt32.lt_iff_toNat_lt] at inside
    unfold pageOf pagesOf PGSIZE
    omega
  · refine userPage_injective ?_ maps.1 mapsToo.1 (userPage vpn maps) ?_
    · have bound := List.nodup_iff_count_le_one.mp nodup (final.dir.pte vpn).page
      rw [← total] at bound
      omega
    · rw [userPage other mapsToo, same]
  · rcases filled.grown.pte vpn with same | ⟨_, low⟩
    · rw [same, kernelPte_of_setupkvm built]
    · have user := pagesOf_le_userPages below.le
      omega
  · exact view_store_of_ne byte (disjoint _ _ maps oldMaps).symm
  · exact view_store_of_ne byte (disjoint _ _ maps oldMaps)

namespace ForkSample

/-- Two hundred free pages. -/
def vm : Vm where
  free := List.range' 0x1000 200
  dir := ⟨0, fun _ => none⟩
  taken := []

/-- A process with one page can be copied. -/
theorem copyuvm_page :
    ∃ final, copyuvm WrapSample.link SbrkSample.vm.dir 0x1000 WrapSample.vm = .ok (true, final) := by
  refine copyuvm_copies WrapSample.frames (show (0x1000 : UInt32).toNat ≤ _ by decide)
    (fun vpn inside => ?_) (by decide)
  rw [show pagesOf 0x1000 = 1 by decide] at inside
  obtain rfl : vpn = 0 := by omega
  exact ⟨rfl, rfl⟩

/-- The descendants of a process with one page can read and write it. -/
theorem fork_sameAccess_page :
    ∃ child, Forks WrapSample.link 0x1000 SbrkSample.vm.dir child ∧
      ∀ descendant, Relation.ReflTransGen (Forks WrapSample.link 0x1000) child descendant →
        SameAccess 0x1000 SbrkSample.vm.dir descendant := by
  obtain ⟨final, copied⟩ := copyuvm_page
  have forks : Forks WrapSample.link 0x1000 SbrkSample.vm.dir final.dir :=
    ⟨WrapSample.vm, final, WrapSample.frames, copied, rfl⟩
  refine ⟨final.dir, forks, (fork_sameAccess_iff _ _ _ _ forks).mpr fun vpn inside => ?_⟩
  rw [show pagesOf 0x1000 = 1 by decide] at inside
  obtain rfl : vpn = 0 := by omega
  exact ⟨rfl, rfl⟩

/-- The child of a process with one page has a private copy of it. -/
theorem copyuvm_privateCopy_page :
    ∃ final after, Contents.copyuvm WrapSample.link SbrkSample.vm.dir 0x1000
        (WrapSample.vm, fun _ offset => UInt8.ofNat offset) = .ok (true, final, after) ∧
      PrivateCopy WrapSample.link SbrkSample.vm.dir 0x1000 (fun _ offset => UInt8.ofNat offset)
        final.dir after := by
  obtain ⟨final, copied⟩ := copyuvm_page
  obtain ⟨after, returned⟩ : ∃ after, Contents.copyuvm WrapSample.link SbrkSample.vm.dir 0x1000
      (WrapSample.vm, fun _ offset => UInt8.ofNat offset) = .ok (true, final, after) :=
    (Contents.copyuvm_over _ _ _).exists_ok copied
  refine ⟨final, after, returned, copyuvm_privateCopy _ _ _ _ _ _ _ (by decide)
    List.nodup_range' WrapSample.frames ?_ returned⟩
  rintro vpn ⟨_, present⟩ member
  rw [SbrkSample.vm_pte] at present member
  split at present
  · rw [if_pos (by assumption)] at member
    exact absurd (List.mem_range'_1.mp member).1 (by decide)
  · exact nomatch present

/-- A child can use the page below its stack, which `exec` has closed. -/
theorem fork_opens_guard :
    ∃ image space child, (execImage WrapSample.link WrapSample.running BareSample.file vm).2 =
        .ok (.built 0 image) ∧
      StackReady WrapSample.link 0 image 8192 space ∧ (space.dir.pte 0).user = false ∧
      Forks WrapSample.link 8192 space.dir child ∧ (child.pte 0).user = true := by
  have frames : ∀ page ∈ vm.free, Link.Frame WrapSample.link page := by
    intro page member
    obtain ⟨low, high⟩ := List.mem_range'_1.mp member
    unfold Link.Frame PGSIZE
    exact ⟨show 0x80110000 ≤ 0x80000000 + 4096 * page by omega,
      show 4096 * page < 0xE000000 by omega⟩
  have total : vm.free.length = 200 := List.length_range'
  obtain ⟨image, space, first, second, built, ready, closed, opened, spaceFrames, left⟩ :=
    BareSample.ready frames (by rw [total]; decide)
  have copied : ∀ vpn < pagesOf 8192, Copied space.dir vpn := by
    intro vpn inside
    have present : (space.dir.pte vpn).present = true := by
      rw [show pagesOf 8192 = 2 by decide] at inside
      obtain rfl | rfl : vpn = 0 ∨ vpn = 1 := by omega
      · rw [closed]
      · rw [opened]
    exact ⟨hasTable_of_present present, present⟩
  obtain ⟨final, returned⟩ := copyuvm_copies spaceFrames
    (show (8192 : UInt32).toNat ≤ _ by decide) copied (by
      rw [show pagesOf 8192 = 2 by decide]
      unfold kvmPages at *
      omega)
  have forks : Forks WrapSample.link 8192 space.dir final.dir :=
    ⟨space, final, spaceFrames, returned, rfl⟩
  exact ⟨image, space, final.dir, built, ready, by rw [closed], forks,
    (forks.allOpen 0 (by decide)).1⟩

end ForkSample

end Vm
end Xv6
