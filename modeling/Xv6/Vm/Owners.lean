import Xv6.Foundation.Shares
import Xv6.Vm.PageTable

/-!
# The pages of an address space

A page directory holds its own page, those of its page tables, and the physical
pages of its user part.  Growing an address space moves pages from the free list
to the directory, and shrinking it moves them back; `freevm` gives all of them
back.
-/

namespace Xv6

open Shares

namespace PageDir

/-- The physical page that a virtual page is mapped to. -/
def userPage (dir : PageDir) (vpn : Nat) : Option Nat :=
  if (dir.pte vpn).present then some (dir.pte vpn).page else none

/-- How often a page is one of the page tables. -/
def tableHeld (dir : PageDir) (page : Nat) : Nat :=
  ∑ i ∈ Finset.range NPDENTRIES, single (dir.tablePage i) page

/-- How often a page is mapped in the user part. -/
def userHeld (dir : PageDir) (page : Nat) : Nat :=
  ∑ vpn ∈ Finset.range USERPAGES, single (dir.userPage vpn) page

/-- How often a directory holds a page. -/
def held (dir : PageDir) (page : Nat) : Nat :=
  single (some dir.page) page + dir.tableHeld page + dir.userHeld page

/-- The number of page tables. -/
def tables (dir : PageDir) : Nat :=
  ∑ i ∈ Finset.range NPDENTRIES, if (dir.table i).isSome then 1 else 0

theorem userPage_congr {dir other : PageDir}
    (same : other.pte vpn = dir.pte vpn) :
    other.userPage vpn = dir.userPage vpn := by
  rw [userPage, userPage, same]

theorem userHeld_congr {dir other : PageDir}
    (same : ∀ vpn, other.pte vpn = dir.pte vpn)
    (page : Nat) :
    other.userHeld page = dir.userHeld page := by
  refine Finset.sum_congr rfl (fun vpn _ => ?_)
  rw [userPage_congr (same vpn)]

end PageDir

theorem table_lt (inside : vpn < NPAGES) : vpn / NPTENTRIES < NPDENTRIES :=
  Nat.div_lt_of_lt_mul (by rwa [Nat.mul_comm])

namespace PageDir

variable {dir : PageDir} {vpn : Nat}

theorem table_addTable_of_ne
    (page : Nat)
    (other : i ≠ vpn / NPTENTRIES) :
    (dir.addTable vpn page).table i = dir.table i :=
  Function.update_of_ne other _ _

@[simp] theorem tables_setPte (entry : Pte) : (dir.setPte vpn entry).tables = dir.tables := by
  refine Finset.sum_congr rfl (fun i _ => ?_)
  have same := congrArg Option.isSome (tablePage_setPte dir vpn entry i)
  simp only [tablePage, Option.isSome_map] at same
  rw [same]

@[simp] theorem tableHeld_setPte (entry : Pte) (page : Nat) :
    (dir.setPte vpn entry).tableHeld page = dir.tableHeld page := by
  refine Finset.sum_congr rfl (fun i _ => ?_)
  rw [tablePage_setPte]

/-- A new page table is held. -/
theorem tableHeld_addTable
    (inside : vpn < NPAGES)
    (absent : dir.hasTable vpn = false)
    (new page : Nat) :
    (dir.addTable vpn new).tableHeld page = dir.tableHeld page + single (some new) page := by
  have missing : dir.table (vpn / NPTENTRIES) = none := by
    simpa [hasTable] using absent
  have change := sum_change (fun i => single (dir.tablePage i) page)
    (fun i => single ((dir.addTable vpn new).tablePage i) page)
    (vpn / NPTENTRIES) (Finset.mem_range.mpr (table_lt inside)) (fun other different => by
      simp only [tablePage, table_addTable_of_ne new different])
  have old : dir.tablePage (vpn / NPTENTRIES) = none := by rw [tablePage, missing]; rfl
  have fresh : (dir.addTable vpn new).tablePage (vpn / NPTENTRIES) = some new := by
    simp [tablePage, addTable]
  simp only [old, fresh, single_none, Pi.zero_apply, Nat.add_zero] at change
  exact change

theorem tables_addTable
    (inside : vpn < NPAGES)
    (absent : dir.hasTable vpn = false)
    (new : Nat) :
    (dir.addTable vpn new).tables = dir.tables + 1 := by
  have change := sum_change (fun i => if (dir.table i).isSome then 1 else 0)
    (fun i => if ((dir.addTable vpn new).table i).isSome then 1 else 0)
    (vpn / NPTENTRIES) (Finset.mem_range.mpr (table_lt inside)) (fun other different => by
      simp only [table_addTable_of_ne new different])
  have old : (dir.table (vpn / NPTENTRIES)).isSome = false := absent
  have fresh : ((dir.addTable vpn new).table (vpn / NPTENTRIES)).isSome = true := by
    simp [addTable]
  simp only [old, fresh, Bool.false_eq_true, if_false, if_true, Nat.add_zero] at change
  exact change

/-- Changing an entry of the user part changes what is held. -/
theorem held_setPte
    (present : dir.hasTable vpn = true)
    (user : vpn < USERPAGES)
    (entry : Pte)
    (page : Nat) :
    (dir.setPte vpn entry).held page + single (dir.userPage vpn) page =
      dir.held page + single (if entry.present then some entry.page else none) page := by
  have change := sum_change (fun other => single (dir.userPage other) page)
    (fun other => single ((dir.setPte vpn entry).userPage other) page)
    vpn (Finset.mem_range.mpr user) (fun other different => by
      have same : (dir.setPte vpn entry).pte other = dir.pte other := by
        rw [pte_setPte entry other present, if_neg different]
      simp only [userPage_congr same])
  have new : (dir.setPte vpn entry).userPage vpn =
      if entry.present then some entry.page else none := by
    rw [userPage, pte_setPte entry vpn present, if_pos rfl]
  rw [new] at change
  unfold held
  rw [page_setPte, tableHeld_setPte]
  unfold userHeld
  omega

/-- Entries of the kernel's part hold nothing. -/
theorem held_setPte_kernel
    (present : dir.hasTable vpn = true)
    (kernel : USERPAGES ≤ vpn)
    (entry : Pte)
    (page : Nat) :
    (dir.setPte vpn entry).held page = dir.held page := by
  have same : (dir.setPte vpn entry).userHeld page = dir.userHeld page := by
    refine Finset.sum_congr rfl (fun other below => ?_)
    have different : other ≠ vpn := by
      have less := Finset.mem_range.mp below
      omega
    have pte : (dir.setPte vpn entry).pte other = dir.pte other := by
      rw [pte_setPte entry other present, if_neg different]
    rw [userPage_congr pte]
  unfold held
  rw [page_setPte, tableHeld_setPte, same]

end PageDir

namespace Vm

/-- Pages are only moved between the free list and the directory. -/
def Conserved (vm final : Vm) : Prop :=
  ∀ page, final.free.count page + final.dir.held page = vm.free.count page + vm.dir.held page

theorem Conserved.refl (vm : Vm) : Conserved vm vm := fun _ => rfl

variable {vm middle final : Vm} {dir : PageDir} {oldsz : UInt32} {link : Link}

theorem Conserved.trans
    (first : Conserved vm middle)
    (second : Conserved middle final) :
    Conserved vm final := fun page => (second page).trans (first page)

theorem count_cons (page other : Nat) (rest : List Nat) :
    (page :: rest).count other = rest.count other + single (some page) other := by
  by_cases same : page = other
  · simp [single, same]
  · simp [single, same]

theorem userPage_held
    (user : vpn < USERPAGES)
    (mapped : dir.userPage vpn = some page) :
    0 < dir.held page := by
  have positive : 0 < dir.userHeld page :=
    Finset.sum_pos' (fun _ _ => Nat.zero_le _)
      ⟨vpn, Finset.mem_range.mpr user, single_pos_iff.mpr mapped⟩
  rw [PageDir.held]
  omega

end Vm

end Xv6
