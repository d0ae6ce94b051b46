import Xv6.Vm.Growth

/-!
# Pages that are lost

When `setupkvm`, `copyuvm` or `allocuvm` fails because no page is free for a page
of user memory, the pages are given back.  When no page is free for a page table,
pages are lost: `setupkvm` does not give back what it has built, and the others do
not give back the page that was to be mapped.
-/

namespace Xv6
namespace Vm

open Faulting
open Shares

/-- The same pages are free. -/
def SameFree (vm final : Vm) : Prop :=
  ∀ page, page ∈ final.free ↔ page ∈ vm.free

/-- Every page that was free is free again, or holds a page table. -/
def FreeOrTable (vm final : Vm) : Prop :=
  ∀ page ∈ vm.free, page ∈ final.free ∨ ∃ i < NPDENTRIES, final.dir.tablePage i = some page

/-- Memory in which every page is in one place. -/
structure WellFormed (link : Link) (vm : Vm) : Prop where
  framed : Framed link vm
  nodup : vm.free.Nodup
  /-- Free pages are not in use. -/
  unused : ∀ page ∈ vm.free, vm.dir.held page = 0

theorem sameFree_of_counts (counts : ∀ page, final.free.count page = vm.free.count page) :
    SameFree vm final := by
  intro page
  rw [← List.count_pos_iff, ← List.count_pos_iff, counts page]

/-- The count of a free page. -/
theorem WellFormed.count_eq_one
    (wellFormed : WellFormed link vm)
    (member : page ∈ vm.free) :
    vm.free.count page = 1 :=
  List.count_eq_one_of_mem wellFormed.nodup member

/-! ## `setupkvm` -/

/-- `setupkvm` has enough pages, or none at all. -/
def KvmFits (vm : Vm) : Prop :=
  vm.free = [] ∨ kvmPages ≤ vm.free.length

/-- The first page is lost. -/
theorem not_sameFree_of_suffix
    (nodup : vm.free.Nodup)
    (nonempty : vm.free = page :: rest)
    (suffix : final.free <:+ rest) :
    ¬SameFree vm final := by
  intro same
  rw [nonempty] at nodup
  have kept := (same page).mpr (by rw [nonempty]; exact List.mem_cons_self)
  exact (List.nodup_cons.mp nodup).1 (suffix.subset kept)

theorem setupkvm_sameFree_iff (nodup : vm.free.Nodup) :
    (∀ final, setupkvm link vm = .ok (false, final) → SameFree vm final) ↔ KvmFits vm := by
  have spec := setupkvm_pages link vm
  constructor
  · intro keeps
    by_contra unfit
    obtain ⟨result, final, returned, outcome⟩ := spec.exists_ok (fun _ => id)
    rcases outcome with ⟨_, _, length, _⟩ | ⟨rfl, _, ⟨empty, _⟩ | lost⟩
    · exact unfit (.inr (by omega))
    · exact unfit (.inl empty)
    · obtain ⟨page, rest, nonempty, suffix⟩ := lost
      exact not_sameFree_of_suffix nodup nonempty suffix (keeps final returned)
  · intro fits final returned
    rcases spec.of_ok returned with ⟨impossible, _⟩ | ⟨_, few, ⟨_, rfl⟩ | lost⟩
    · exact nomatch impossible
    · exact fun _ => Iff.rfl
    · obtain ⟨page, rest, nonempty, _⟩ := lost
      rcases fits with empty | enough
      · rw [empty] at nonempty
        exact nomatch nonempty
      · omega

/-! ## `copyuvm` -/

/-- The copy of a page needs a page table when only one page is free. -/
def CopyLoses (old : PageDir) (sz : UInt32) (vm : Vm) : Prop :=
  ∃ vpn < pagesOf sz, vpn < USERPAGES ∧ (∀ before ≤ vpn, Copied old before) ∧
    vpn % NPTENTRIES = 0 ∧ vm.free.length = kvmPages + vpn + vpn / NPTENTRIES + 1

theorem Fresh.newTable_iff
    (fresh : Fresh vm origin)
    (user : vpn < USERPAGES) :
    newTable origin.dir 0 vpn = true ↔ vpn % NPTENTRIES = 0 := by
  have absent : origin.dir.hasTable vpn = false := fresh.user vpn user
  rw [newTable, Nat.zero_add, absent, Bool.not_false, Bool.true_and, Bool.or_eq_true, beq_iff_eq,
    beq_iff_eq]
  constructor
  · rintro (rfl | aligned)
    · rfl
    · exact aligned
  · exact .inr

theorem Fresh.needed_eq
    (fresh : Fresh vm origin)
    (user : count ≤ USERPAGES) :
    needed origin.dir 0 count = count + (count + (NPTENTRIES - 1)) / NPTENTRIES := by
  induction count with
  | zero => rfl
  | succ count ih =>
    rw [needed, ih (by omega)]
    have table := fresh.newTable_iff (show count < USERPAGES by omega)
    by_cases aligned : count % NPTENTRIES = 0
    · rw [if_pos (table.mpr aligned)]
      unfold NPTENTRIES at *
      omega
    · rw [if_neg (mt table.mp aligned)]
      unfold NPTENTRIES at *
      omega

theorem Fresh.losesAt_iff
    (fresh : Fresh vm origin)
    (length : origin.free.length + kvmPages = vm.free.length)
    (user : vpn < USERPAGES) :
    LosesAt origin 0 vpn ↔
      vpn % NPTENTRIES = 0 ∧ vm.free.length = kvmPages + vpn + vpn / NPTENTRIES + 1 := by
  have count := fresh.needed_eq user.le
  constructor
  · intro loses
    have aligned := (fresh.newTable_iff user).mp loses.table
    have memory := loses.memory
    refine ⟨aligned, ?_⟩
    unfold NPTENTRIES at *
    omega
  · rintro ⟨aligned, memory⟩
    refine ⟨fun before small => ?_, (fresh.newTable_iff user).mpr aligned, ?_⟩
    · rw [Nat.zero_add, pte_of_no_table (fresh.user _ (small.trans_lt user))]
      rfl
    · unfold NPTENTRIES at *
      omega

/-- What `copyuvm` takes from the free list. -/
theorem copyuvm_pages
    (frames : ∀ page ∈ vm.free, Link.Frame link page)
    (old : PageDir)
    (sz : UInt32) :
    Run.Spec (copyuvm link old sz) vm (fun result final =>
        result = false ∧ vm.free.length < kvmPages ∧ (vm.free = [] ∧ final = vm ∨
              ∃ page rest, vm.free = page :: rest ∧ final.free <:+ rest) ∨
          ∃ origin, Fresh vm origin ∧ origin.free.length + kvmPages = vm.free.length ∧
            (∀ page, origin.free.count page + origin.dir.held page = vm.free.count page) ∧
            CopyOutcome old origin (pagesOf sz) result final)
      (fun _ => ∃ origin, Fresh vm origin ∧ origin.free.length + kvmPages = vm.free.length ∧
        ∃ offset < pagesOf sz, needed origin.dir 0 offset ≤ origin.free.length ∧
          (¬Copied old offset ∨ USERPAGES ≤ offset)) := by
  apply Run.Spec.bind
  refine (setupkvm_pages link vm).mono ?_ (fun _ => False.elim)
  rintro result origin (⟨rfl, fresh, length, counts, framed⟩ | ⟨rfl, few, outcome⟩)
  · rw [if_pos rfl]
    refine (copyPages_pages ?_ fresh.first _ ?_ (Nat.zero_le _) (Nat.zero_le _)
      (Grown.refl origin 0) (framed frames) ?_ rfl).mono ?_ ?_
    · intro vpn user
      rw [pte_of_no_table (fresh.user vpn user)]
      rfl
    · unfold pagesOf PGSIZE
      omega
    · exact fun _ small => absurd small (Nat.not_lt_zero _)
    · exact fun result final outcome => .inr ⟨origin, fresh, length, counts, outcome⟩
    · exact fun reason fault => ⟨origin, fresh, length, fault⟩
  · exact .inl ⟨rfl, few, outcome⟩

/-- A page that is no longer counted is lost. -/
theorem not_sameFree_of_lost
    (nodup : vm.free.Nodup)
    (member : lost ∈ vm.free)
    (counts : final.free.count lost + single (some lost) lost = vm.free.count lost) :
    ¬SameFree vm final := by
  intro same
  have kept := List.count_pos_iff.mpr ((same lost).mpr member)
  rw [List.count_eq_one_of_mem nodup member, single, if_pos rfl] at counts
  omega

theorem copyuvm_sameFree_iff
    (frames : ∀ page ∈ vm.free, Link.Frame link page)
    (nodup : vm.free.Nodup)
    (old : PageDir)
    (sz : UInt32) :
    (∀ final, copyuvm link old sz vm = .ok (false, final) → SameFree vm final) ↔
      KvmFits vm ∧ ¬CopyLoses old sz vm := by
  have spec := copyuvm_pages frames old sz
  constructor
  · intro keeps
    have fits : KvmFits vm := by
      by_contra unfit
      obtain ⟨nonempty, few⟩ := not_or.mp unfit
      obtain ⟨result, final, returned, outcome⟩ := spec.exists_ok
        (fun _ ⟨_, _, length, _⟩ => few (by omega))
      rcases outcome with ⟨rfl, _, ⟨empty, _⟩ | lost⟩ | ⟨_, _, length, _⟩
      · exact nonempty empty
      · obtain ⟨page, rest, split, suffix⟩ := lost
        exact not_sameFree_of_suffix nodup split suffix (keeps final returned)
      · omega
    refine ⟨fits, ?_⟩
    rintro ⟨vpn, inside, user, copied, here⟩
    have memory : kvmPages < vm.free.length := by
      rw [here.2]
      exact Nat.lt_succ_of_le ((Nat.le_add_right _ _).trans (Nat.le_add_right _ _))
    obtain ⟨result, final, returned, outcome⟩ := spec.exists_ok (by
      rintro reason ⟨origin, fresh, length, offset, _, cost, bad⟩
      have loses := (fresh.losesAt_iff length user).mpr here
      have later : vpn < offset := by
        rcases bad with missing | beyond
        · by_contra before
          exact missing (copied offset (by omega))
        · exact user.trans_le beyond
      have bound := loses.lt_needed later
      omega)
    rcases outcome with ⟨_, few, _⟩ | ⟨origin, fresh, length, counts, outcome⟩
    · omega
    have loses := (fresh.losesAt_iff length user).mpr here
    rcases outcome with ⟨_, grown⟩ | ⟨_, ⟨_, _, out⟩, _⟩ | ⟨rfl, _, lost, member, gone⟩
    · have cost := grown.cost
      have bound := loses.lt_needed inside
      omega
    · exact out.not_losesAt loses
    · refine not_sameFree_of_lost nodup (fresh.free.subset member) ?_ (keeps final returned)
      rw [gone lost, counts lost]
  · rintro ⟨fits, safe⟩ final returned
    rcases spec.of_ok returned with ⟨_, few, outcome⟩ | ⟨origin, fresh, length, counts, outcome⟩
    · rcases outcome with ⟨_, rfl⟩ | ⟨page, rest, nonempty, _⟩
      · exact fun _ => Iff.rfl
      · rcases fits with empty | enough
        · rw [empty] at nonempty
          exact nomatch nonempty
        · omega
    · rcases outcome with ⟨impossible, _⟩ | ⟨_, _, back⟩ | ⟨_, ⟨vpn, inside, user, copied, loses⟩, _⟩
      · exact nomatch impossible
      · exact sameFree_of_counts (fun page => (back page).trans (counts page))
      · exact absurd ⟨vpn, inside, user, copied, (fresh.losesAt_iff length user).mp loses⟩ safe

/-! ## `allocuvm` -/

/-- A page needs a page table when only one page is free, and it is not the last
one. -/
def AllocLoses (oldsz newsz : UInt32) (vm : Vm) : Prop :=
  newsz.toNat < KERNBASE ∧ oldsz.toNat ≤ newsz.toNat ∧
    ∃ offset, pagesOf oldsz + offset + 1 < pagesOf newsz ∧ LosesAt vm (pagesOf oldsz) offset

theorem userHeld_le {vm final : Vm}
    (kept : ∀ vpn, final.dir.pte vpn = vm.dir.pte vpn ∨ (final.dir.pte vpn).present = false)
    (page : Nat) :
    final.dir.userHeld page ≤ vm.dir.userHeld page := by
  refine Finset.sum_le_sum (fun vpn _ => ?_)
  rcases kept vpn with same | cleared
  · rw [PageDir.userPage_congr same]
  · rw [PageDir.userPage, if_neg (by rw [cleared]; exact Bool.false_ne_true), single_none]
    exact Nat.zero_le _

/-- The pages that a failed `allocuvm` had taken are back, or hold page tables. -/
theorem RolledBack.freeOrTable {vm final : Vm}
    (back : RolledBack vm final) :
    FreeOrTable vm final := by
  intro page member
  have free := List.count_pos_iff.mpr member
  have total := back.conserved page
  have user := userHeld_le back.pte page
  rw [PageDir.held, PageDir.held, back.page] at total
  by_cases stays : page ∈ final.free
  · exact .inl stays
  · rw [List.count_eq_zero_of_not_mem stays] at total
    have table : final.dir.tableHeld page ≠ 0 := by omega
    obtain ⟨i, inside, held⟩ := Finset.exists_ne_zero_of_sum_ne_zero table
    exact .inr ⟨i, Finset.mem_range.mp inside, single_pos_iff.mp (Nat.pos_of_ne_zero held)⟩

/-- A page that is lost is neither free nor holds a page table. -/
theorem Loses.not_freeOrTable
    (wellFormed : WellFormed link vm)
    (loses : Loses vm final) :
    ¬FreeOrTable vm final := by
  obtain ⟨page, member, counts⟩ := loses
  intro kept
  have total := counts page
  rw [wellFormed.count_eq_one member, wellFormed.unused page member, single, if_pos rfl] at total
  rcases kept page member with free | ⟨i, inside, table⟩
  · have positive := List.count_pos_iff.mpr free
    omega
  · have positive : 0 < final.dir.tableHeld page := by
      refine Finset.sum_pos' (fun _ _ => Nat.zero_le _)
        ⟨i, Finset.mem_range.mpr inside, single_pos_iff.mpr table⟩
    rw [PageDir.held] at total
    omega

theorem allocuvm_freeOrTable_iff
    (wellFormed : WellFormed link vm)
    (oldsz newsz : UInt32) :
    (∀ final, allocuvm link oldsz newsz vm = .ok (0, final) → FreeOrTable vm final) ↔
      ¬AllocLoses oldsz newsz vm := by
  unfold allocuvm AllocLoses
  by_cases large : KERNBASE ≤ newsz.toNat
  · rw [if_pos large]
    refine iff_of_true ?_ (fun loses => absurd loses.1 (Nat.not_lt.mpr large))
    rintro final returned page member
    obtain ⟨_, rfl⟩ := Prod.mk.inj (Except.ok.inj returned)
    exact .inl member
  have below : newsz.toNat < KERNBASE := Nat.lt_of_not_le large
  rw [if_neg large]
  by_cases shrinks : newsz < oldsz
  · rw [if_pos shrinks]
    rw [UInt32.lt_iff_toNat_lt] at shrinks
    refine iff_of_true ?_ (fun loses => absurd loses.2.1 (Nat.not_le.mpr shrinks))
    intro final returned
    obtain ⟨zero, _⟩ := Prod.mk.inj (Except.ok.inj returned)
    rw [zero] at shrinks
    exact absurd shrinks (Nat.not_lt_zero _)
  rw [if_neg shrinks]
  rw [UInt32.lt_iff_toNat_lt] at shrinks
  have smaller : oldsz.toNat ≤ newsz.toNat := Nat.le_of_not_lt shrinks
  have spec := allocLoop_outcome below smaller wellFormed.framed
  constructor
  · rintro keeps ⟨_, _, offset, inside, loses⟩
    obtain ⟨result, final, returned, _, outcome⟩ := spec.exists_ok (by
      rintro reason ⟨other, _, remaps, absent⟩
      have memory := remaps.memory
      rcases Nat.lt_or_ge offset other with later | before
      · have bound := loses.lt_needed later
        omega
      · have clear := loses.absent other before
        exact absurd (clear.symm.trans remaps.present) Bool.false_ne_true)
    rcases outcome with ⟨_, grown | ⟨last, whole, other, _⟩⟩ | ⟨_, ⟨_, _, out⟩, _⟩ | ⟨rfl, _, lost⟩
    · have cost := grown.cost
      have bound := loses.lt_needed (show offset < pagesOf newsz - pagesOf oldsz by omega)
      omega
    · have bound := loses.lt_needed (show offset < last by omega)
      have memory := other.memory
      omega
    · exact out.not_losesAt loses
    · exact lost.not_freeOrTable wellFormed (keeps final returned)
  · intro safe final returned
    obtain ⟨_, outcome⟩ := spec.of_ok returned
    rcases outcome with ⟨zero, outcome⟩ | ⟨_, _, back⟩ | ⟨_, ⟨offset, inside, loses⟩, _⟩
    · have none : pagesOf newsz - pagesOf oldsz = 0 := by
        rw [← zero]
        exact Nat.zero_sub _
      rw [none] at outcome
      rcases outcome with grown | ⟨_, impossible, _⟩
      · have same := grown.free.eq_of_length grown.cost
        exact fun page member => .inl (same ▸ member)
      · exact nomatch impossible
    · exact back.freeOrTable
    · exact absurd ⟨below, smaller, offset, by omega, loses⟩ safe

namespace LeakSample

/-- One free page, and an address space without page tables. -/
def vm : Vm where
  free := [0x400]
  dir := ⟨0x500, fun _ => none⟩
  taken := []

theorem wellFormed : WellFormed WrapSample.link vm where
  framed := by
    refine ⟨?_, ⟨by decide, by decide⟩, ?_, ?_⟩
    · intro page member
      rw [List.mem_singleton.mp member]
      exact ⟨by decide, by decide⟩
    · intro i table found
      cases found
    · intro vpn _ present
      cases present
  nodup := List.nodup_singleton _
  unused := by
    intro page member
    rw [List.mem_singleton.mp member]
    exact held_empty 0x500 0x400

end LeakSample

end Vm
end Xv6
