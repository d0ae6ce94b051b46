import Xv6.Vm.Owners

/-!
# Mapping pages

`mappages` enters mappings one after the other and takes a page from the free list
for every page table that is missing.  `enterAll` says what becomes of a list of
entries; `setupkvm` enters the kernel's mappings, and `allocuvm` and `copyuvm` enter
user pages one by one.
-/

namespace Xv6
namespace Vm

open Faulting
open Shares

/-- The address space with a page table for a virtual page, which is taken from the
free list if there is none yet. -/
def withTable (vm : Vm) (vpn : Nat) : Option Vm :=
  if vm.dir.hasTable vpn then some vm
  else
    match vm.free with
    | [] => none
    | page :: rest => some { vm with free := rest, dir := vm.dir.addTable vpn page }

/-- Enter a list of entries, as far as there are pages for the page tables. -/
def enterAll : List (Nat × Pte) → Vm → Bool × Vm
  | [], vm => (true, vm)
  | (vpn, entry) :: rest, vm =>
    match vm.withTable vpn with
    | none => (false, vm)
    | some walked => enterAll rest { walked with dir := walked.dir.setPte vpn entry }

variable {vm middle final walked : Vm} {vpn page : Nat} {entry : Pte} {entries : List (Nat × Pte)}
  {result : Bool}

/-! ## One page table -/

/-- What a page table that is asked for leaves. -/
structure Tabled (vm : Vm) (vpn : Nat) (walked : Vm) : Prop where
  present : walked.dir.hasTable vpn = true
  pte : ∀ other, walked.dir.pte other = vm.dir.pte other
  tables : ∀ other, walked.dir.hasTable other =
    (decide (other / NPTENTRIES = vpn / NPTENTRIES) || vm.dir.hasTable other)
  /-- A new page table came from the free list. -/
  frames : ∀ i page, walked.dir.tablePage i = some page →
    vm.dir.tablePage i = some page ∨ page ∈ vm.free
  held : ∀ page, walked.free.count page + walked.dir.tableHeld page =
    vm.free.count page + vm.dir.tableHeld page
  cost : walked.free.length + walked.dir.tables = vm.free.length + vm.dir.tables
  taken : walked.free.length + (if vm.dir.hasTable vpn then 0 else 1) = vm.free.length
  page : walked.dir.page = vm.dir.page
  log : walked.taken = vm.taken
  free : walked.free <:+ vm.free

theorem withTable_spec
    (inside : vpn < NPAGES)
    (vm : Vm) :
    vm.withTable vpn = none ∧ vm.free = [] ∧ vm.dir.hasTable vpn = false ∨
      ∃ walked, vm.withTable vpn = some walked ∧ Tabled vm vpn walked := by
  unfold withTable
  by_cases table : vm.dir.hasTable vpn = true
  · refine .inr ⟨vm, if_pos table, table, fun _ => rfl, fun other => ?_, fun _ _ => .inl,
      fun _ => rfl, rfl, by rw [if_pos table, Nat.add_zero], rfl, rfl, List.suffix_rfl⟩
    by_cases same : other / NPTENTRIES = vpn / NPTENTRIES
    · simp [same, hasTable_of_same same, table]
    · simp [same]
  have absent : vm.dir.hasTable vpn = false := by simpa using table
  rw [if_neg table]
  cases nonempty : vm.free with
  | nil => exact .inl ⟨rfl, rfl, absent⟩
  | cons new rest =>
    refine .inr ⟨_, rfl, by simp, fun other => PageDir.pte_addTable new other absent,
      PageDir.hasTable_addTable vm.dir vpn new, fun i page found => ?_, fun page => ?_, ?_,
      by rw [if_neg table, nonempty, List.length_cons], rfl, rfl, ?_⟩
    · by_cases here : i = vpn / NPTENTRIES
      · refine .inr ?_
        simp only [PageDir.tablePage, PageDir.addTable, here, Function.update_self,
          Option.map_some, Option.some.injEq] at found
        rw [nonempty, ← found]
        exact List.mem_cons_self
      · refine .inl ?_
        simpa only [PageDir.tablePage, PageDir.table_addTable_of_ne new here] using found
    · show rest.count page + (vm.dir.addTable vpn new).tableHeld page = _
      rw [PageDir.tableHeld_addTable inside absent, nonempty, count_cons]
      omega
    · show rest.length + (vm.dir.addTable vpn new).tables = _
      rw [PageDir.tables_addTable inside absent, nonempty, List.length_cons]
      omega
    · rw [nonempty]
      exact List.suffix_cons new rest

/-! ## Lists of entries -/

/-- What entering a list of entries leaves. -/
structure Entered (entries : List (Nat × Pte)) (vm : Vm) (result : Bool) (final : Vm) : Prop where
  /-- Every entry is as before, or one of the list. -/
  pte : ∀ vpn, final.dir.pte vpn = vm.dir.pte vpn ∨ (vpn, final.dir.pte vpn) ∈ entries
  /-- All entries of the list are entered. -/
  entered : result = true → ∀ e ∈ entries, (e.1, final.dir.pte e.1) ∈ entries
  /-- Page tables are added for the list only. -/
  tables : ∀ vpn, final.dir.hasTable vpn = true → vm.dir.hasTable vpn = true ∨
    ∃ e ∈ entries, vpn / NPTENTRIES = e.1 / NPTENTRIES
  kept : ∀ vpn, vm.dir.hasTable vpn = true → final.dir.hasTable vpn = true
  /-- New page tables come from the free list. -/
  frames : ∀ i page, final.dir.tablePage i = some page →
    vm.dir.tablePage i = some page ∨ page ∈ vm.free
  held : ∀ page, final.free.count page + final.dir.tableHeld page =
    vm.free.count page + vm.dir.tableHeld page
  cost : final.free.length + final.dir.tables = vm.free.length + vm.dir.tables
  page : final.dir.page = vm.dir.page
  log : final.taken = vm.taken
  free : final.free <:+ vm.free
  /-- It fails when no page is left for a page table. -/
  fails : result = false → final.free = [] ∧ ∃ e ∈ entries, final.dir.hasTable e.1 = false

theorem Entered.nil (vm : Vm) : Entered [] vm true vm where
  pte _ := .inl rfl
  entered _ _ member := absurd member List.not_mem_nil
  tables _ := .inl
  kept _ := id
  frames _ _ := .inl
  held _ := rfl
  cost := rfl
  page := rfl
  log := rfl
  free := List.suffix_rfl
  fails impossible := nomatch impossible

/-- Setting the entry of a page and then the others. -/
theorem Entered.cons
    (tabled : Tabled vm vpn walked)
    (rest : Entered entries { walked with dir := walked.dir.setPte vpn entry } result final) :
    Entered ((vpn, entry) :: entries) vm result final := by
  have set : ∀ other, (walked.dir.setPte vpn entry).pte other =
      if other = vpn then entry else vm.dir.pte other := fun other => by
    rw [PageDir.pte_setPte _ _ tabled.present, tabled.pte]
  have first : (vpn, final.dir.pte vpn) ∈ (vpn, entry) :: entries := by
    rcases rest.pte vpn with same | later
    · rw [same]
      show (vpn, (walked.dir.setPte vpn entry).pte vpn) ∈ _
      rw [set, if_pos rfl]
      exact List.mem_cons_self
    · exact List.mem_cons_of_mem _ later
  refine ⟨fun other => ?_, fun done => ?_, fun other present => ?_, fun other present => ?_,
    fun i page found => ?_, fun page => ?_, ?_, ?_, rest.log.trans tabled.log,
    rest.free.trans tabled.free, fun failed => ?_⟩
  · by_cases here : other = vpn
    · rw [here]
      exact .inr first
    · rcases rest.pte other with same | later
      · exact .inl (same.trans ((set other).trans (if_neg here)))
      · exact .inr (List.mem_cons_of_mem _ later)
  · exact List.forall_mem_cons.mpr
      ⟨first, fun e member => List.mem_cons_of_mem _ (rest.entered done e member)⟩
  · rcases rest.tables other present with before | ⟨e, member, same⟩
    · rw [PageDir.hasTable_setPte, tabled.tables, Bool.or_eq_true, decide_eq_true_iff] at before
      rcases before with here | old
      · exact .inr ⟨_, List.mem_cons_self, here⟩
      · exact .inl old
    · exact .inr ⟨e, List.mem_cons_of_mem _ member, same⟩
  · refine rest.kept other ?_
    rw [PageDir.hasTable_setPte, tabled.tables, present, Bool.or_true]
  · rcases rest.frames i page found with old | new
    · rw [PageDir.tablePage_setPte] at old
      exact tabled.frames i page old
    · exact .inr (tabled.free.subset new)
  · rw [rest.held page]
    show walked.free.count page + (walked.dir.setPte vpn entry).tableHeld page = _
    rw [PageDir.tableHeld_setPte, tabled.held page]
  · rw [rest.cost]
    show walked.free.length + (walked.dir.setPte vpn entry).tables = _
    rw [PageDir.tables_setPte, tabled.cost]
  · rw [rest.page, PageDir.page_setPte, tabled.page]
  · obtain ⟨empty, e, member, absent⟩ := rest.fails failed
    exact ⟨empty, e, List.mem_cons_of_mem _ member, absent⟩

theorem enterAll_spec
    (entries : List (Nat × Pte))
    (inside : ∀ e ∈ entries, e.1 < NPAGES)
    (vm : Vm) :
    Entered entries vm (enterAll entries vm).1 (enterAll entries vm).2 := by
  induction entries generalizing vm with
  | nil => exact .nil vm
  | cons e rest ih =>
    obtain ⟨here, later⟩ := List.forall_mem_cons.mp inside
    unfold enterAll
    rcases withTable_spec here vm with ⟨none, empty, absent⟩ | ⟨walked, found, tabled⟩
    · rw [none]
      exact { Entered.nil vm with
        entered := fun impossible => nomatch impossible
        pte := fun _ => .inl rfl
        tables := fun _ => .inl
        fails := fun _ => ⟨empty, e, List.mem_cons_self, absent⟩ }
    · rw [found]
      exact .cons tabled (ih later _)

theorem enterAll_append (entries later : List (Nat × Pte)) (vm : Vm) :
    enterAll (entries ++ later) vm =
      if (enterAll entries vm).1 then enterAll later (enterAll entries vm).2
      else enterAll entries vm := by
  induction entries generalizing vm with
  | nil => rfl
  | cons e rest ih =>
    rw [List.cons_append, enterAll, enterAll]
    cases vm.withTable e.1 with
    | none => rfl
    | some walked => exact ih _

theorem Entered.framed
    (entered : Entered entries vm result final)
    (framed : Framed link vm)
    (frames : ∀ e ∈ entries, e.1 < USERPAGES → e.2.present = true → Link.Frame link e.2.page) :
    Framed link final where
  free page member := framed.free page (entered.free.subset member)
  dir := by
    rw [entered.page]
    exact framed.dir
  table := by
    intro i table found
    rcases entered.frames i table.page (by rw [PageDir.tablePage, found]; rfl) with old | new
    · obtain ⟨before, same, page⟩ := Option.map_eq_some_iff.mp old
      rw [← page]
      exact framed.table i before same
    · exact framed.free _ new
  user := by
    intro vpn user present
    rcases entered.pte vpn with same | member
    · rw [same] at present ⊢
      exact framed.user vpn user present
    · exact frames _ member user present

/-- Entries of the kernel's part hold nothing. -/
theorem Entered.conserved
    (entered : Entered entries vm result final)
    (kernel : ∀ e ∈ entries, USERPAGES ≤ e.1) :
    Conserved vm final := by
  intro page
  have user : final.dir.userHeld page = vm.dir.userHeld page := by
    refine Finset.sum_congr rfl fun vpn below => ?_
    rcases entered.pte vpn with same | member
    · rw [PageDir.userPage_congr same]
    · exact absurd (kernel _ member) (not_le.mpr (Finset.mem_range.mp below))
  have held := entered.held page
  rw [PageDir.held, PageDir.held, user, entered.page]
  omega

/-! ## `mappages` -/

theorem walkpgdir_alloc (vpn : Nat) (vm : Vm) :
    walkpgdir vpn true vm = .ok (match vm.withTable vpn with
      | none => (false, vm)
      | some walked => (true, walked)) := by
  unfold walkpgdir withTable
  rw [Run.bind_of_ok (Run.get_apply vm)]
  by_cases table : vm.dir.hasTable vpn = true
  · rw [if_pos table, if_pos table]
    rfl
  · rw [if_neg table, if_neg table, if_pos rfl, kalloc, Run.bind_apply, Run.bind_apply]
    cases nonempty : vm.free <;> simp [nonempty, Run.bind_apply]

/-- Entries that map consecutive pages to consecutive physical pages. -/
def rangeEntries (perm : Perm) : (count vpn page : Nat) → List (Nat × Pte)
  | 0, _, _ => []
  | count + 1, vpn, page => (vpn, perm.entry page) :: rangeEntries perm count (vpn + 1) (page + 1)

theorem mem_rangeEntries :
    e ∈ rangeEntries perm count vpn page ↔
      vpn ≤ e.1 ∧ e.1 < vpn + count ∧ e.2 = perm.entry (page + (e.1 - vpn)) := by
  induction count generalizing vpn page with
  | zero => simpa [rangeEntries] using fun low high => absurd high (not_lt.mpr low)
  | succ count ih =>
    rw [rangeEntries, List.mem_cons, ih, Prod.ext_iff]
    dsimp only
    constructor
    · rintro (⟨here, value⟩ | ⟨low, high, value⟩)
      · exact ⟨by omega, by omega, by rw [value, here, Nat.sub_self, Nat.add_zero]⟩
      · refine ⟨by omega, by omega, ?_⟩
        rw [value, show page + 1 + (e.1 - (vpn + 1)) = page + (e.1 - vpn) by omega]
    · rintro ⟨low, high, value⟩
      by_cases here : e.1 = vpn
      · exact .inl ⟨here, by rw [value, here, Nat.sub_self, Nat.add_zero]⟩
      · refine .inr ⟨by omega, by omega, ?_⟩
        rw [value, show page + 1 + (e.1 - (vpn + 1)) = page + (e.1 - vpn) by omega]

/-- Mapping pages that are not mapped yet. -/
theorem mapPages_eq
    (perm : Perm)
    (count vpn page : Nat)
    (bound : vpn + count ≤ NPAGES)
    (vm : Vm)
    (absent : ∀ other, vpn ≤ other → other < vpn + count → (vm.dir.pte other).present = false) :
    mapPages perm count vpn page vm = .ok (enterAll (rangeEntries perm count vpn page) vm) := by
  induction count generalizing vpn page vm with
  | zero => rfl
  | succ count ih =>
    rw [mapPages, Run.bind_of_ok (walkpgdir_alloc vpn vm), rangeEntries, enterAll]
    rcases withTable_spec (show vpn < NPAGES by omega) vm with ⟨none, _⟩ | ⟨walked, found, tabled⟩
    · rw [none]
      rfl
    rw [found]
    dsimp only
    rw [if_pos rfl, Run.bind_of_ok (Run.get_apply walked),
      if_neg (by rw [tabled.pte, absent vpn le_rfl (by omega)]; exact Bool.false_ne_true),
      Run.bind_of_ok (Run.modify_apply _ walked)]
    cases count with
    | zero => rfl
    | succ count =>
      rw [Nat.mod_eq_of_lt (show vpn + 1 < NPAGES by omega)]
      refine ih (vpn + 1) (page + 1) (by omega) _ fun other low high => ?_
      show ((walked.dir.setPte vpn _).pte other).present = false
      rw [PageDir.pte_setPte _ _ tabled.present, if_neg (by omega), tabled.pte]
      exact absent other (by omega) (by omega)

theorem mapPages_present
    (perm : Perm)
    (page : Nat)
    (present : (vm.dir.pte vpn).present = true) :
    mapPages perm 1 vpn page vm = .error (.panic "remap") := by
  have found : vm.withTable vpn = some vm := if_pos (hasTable_of_present present)
  rw [mapPages, Run.bind_of_ok (walkpgdir_alloc vpn vm), found]
  dsimp only
  rw [if_pos rfl, Run.bind_of_ok (Run.get_apply vm), if_pos present]
  rfl

/-! ## The mappings of the kernel -/

/-- The virtual pages that the kernel maps. -/
def InKernel (vpn : Nat) : Prop :=
  0x80000 ≤ vpn ∧ vpn < 0x8e000 ∨ 0xfe000 ≤ vpn ∧ vpn < 0x100000

instance : DecidablePred InKernel := fun _ => inferInstanceAs (Decidable (_ ∨ _))

/-- The entries of the kernel's part: physical memory from `KERNBASE` on, where the
instructions are read only, and the devices. -/
def kernelPte (link : Link) (vpn : Nat) : Pte :=
  if vpn < 0x8e000 then
    ⟨vpn - 0x80000, true, decide ¬(0x80100 ≤ vpn ∧ vpn < pageOf link.data), false⟩
  else ⟨vpn, true, true, false⟩

/-- The entries that `setupkvm` makes. -/
def kernelEntries (link : Link) : List (Nat × Pte) :=
  rangeEntries ⟨true, false⟩ 0x100 0x80000 0 ++
    (rangeEntries ⟨false, false⟩ (pageOf link.data - 0x80100) 0x80100 0x100 ++
      (rangeEntries ⟨true, false⟩ (0x8e000 - pageOf link.data) (pageOf link.data)
          (pageOf link.data - 0x80000) ++
        (rangeEntries ⟨true, false⟩ 0x2000 0xfe000 0xfe000 ++ [])))

theorem data_page (link : Link) :
    link.data.toNat = PGSIZE * pageOf link.data ∧ 0x80100 < pageOf link.data ∧
      pageOf link.data < 0x8e000 := by
  have aligned := link.aligned
  have lower := link.lower
  have upper := lt_of_le_of_lt link.ordered link.upper
  unfold KERNLINK KERNBASE EXTMEM at lower
  unfold KERNBASE PHYSTOP at upper
  unfold pageOf PGSIZE at *
  omega

theorem mem_kernelEntries :
    e ∈ kernelEntries link ↔ InKernel e.1 ∧ e.2 = kernelPte link e.1 := by
  obtain ⟨_, lower, upper⟩ := data_page link
  simp only [kernelEntries, List.mem_append, mem_rangeEntries, List.not_mem_nil, or_false, InKernel,
    kernelPte, Perm.entry]
  constructor
  · rintro (⟨low, high, value⟩ | ⟨low, high, value⟩ | ⟨low, high, value⟩ | ⟨low, high, value⟩)
    · refine ⟨by omega, ?_⟩
      rw [value, if_pos (by omega), decide_eq_true (by omega), Nat.zero_add]
    · refine ⟨by omega, ?_⟩
      rw [value, if_pos (by omega), decide_eq_false (by omega),
        show 0x100 + (e.1 - 0x80100) = e.1 - 0x80000 by omega]
    · refine ⟨by omega, ?_⟩
      rw [value, if_pos (by omega), decide_eq_true (by omega),
        show pageOf link.data - 0x80000 + (e.1 - pageOf link.data) = e.1 - 0x80000 by omega]
    · refine ⟨by omega, ?_⟩
      rw [value, if_neg (by omega), show 0xfe000 + (e.1 - 0xfe000) = e.1 by omega]
  · rintro ⟨⟨low, high⟩ | ⟨low, high⟩, value⟩
    · rw [if_pos high] at value
      by_cases text : 0x80100 ≤ e.1 ∧ e.1 < pageOf link.data
      · refine .inr (.inl ⟨by omega, by omega, ?_⟩)
        rw [value, decide_eq_false (by omega),
          show 0x100 + (e.1 - 0x80100) = e.1 - 0x80000 by omega]
      · rw [decide_eq_true text] at value
        by_cases first : e.1 < 0x80100
        · exact .inl ⟨by omega, by omega, by rw [value, Nat.zero_add]⟩
        · refine .inr (.inr (.inl ⟨by omega, by omega, ?_⟩))
          rw [value,
            show pageOf link.data - 0x80000 + (e.1 - pageOf link.data) = e.1 - 0x80000 by omega]
    · rw [if_neg (by omega)] at value
      refine .inr (.inr (.inr ⟨by omega, by omega, ?_⟩))
      rw [value, show 0xfe000 + (e.1 - 0xfe000) = e.1 by omega]

theorem kernelEntries_range (link : Link) :
    ∀ e ∈ kernelEntries link, USERPAGES ≤ e.1 ∧ e.1 < NPAGES := by
  intro e member
  have inside := (mem_kernelEntries.mp member).1
  unfold InKernel at inside
  exact ⟨show 0x80000 ≤ e.1 by omega, show e.1 < 0x100000 by omega⟩

theorem kernelEntries_entered (link : Link) (vm : Vm) :
    Entered (kernelEntries link) vm (enterAll (kernelEntries link) vm).1
      (enterAll (kernelEntries link) vm).2 :=
  enterAll_spec _ (fun e member => (kernelEntries_range link e member).2) vm

/-- One range of the kernel's mappings and then those above it. -/
theorem mapKernel_cons
    (start : k.virt.toNat = PGSIZE * first)
    (target : pageOf k.physStart = page)
    (whole : (k.physEnd - k.physStart).toNat = PGSIZE * count)
    (some : 0 < count)
    (fits : first + count ≤ NPAGES)
    (absent : ∀ other, first ≤ other → (vm.dir.pte other).present = false)
    (tail : ∀ final : Vm, (∀ other, first + count ≤ other → (final.dir.pte other).present = false) →
      mapKernel rest final = .ok (enterAll later final)) :
    mapKernel (k :: rest) vm =
      .ok (enterAll (rangeEntries k.perm count first page ++ later) vm) := by
  have entered := enterAll_spec (rangeEntries k.perm count first page)
    (fun e member => (mem_rangeEntries.mp member).2.1.trans_le fits) vm
  rw [mapKernel, mappages_eq start whole some fits, target, Run.bind_of_ok
    (mapPages_eq k.perm count first _ fits vm fun other low _ => absent other low), enterAll_append]
  generalize enterAll (rangeEntries k.perm count first page) vm = outcome at entered
  obtain ⟨_ | _, next⟩ := outcome
  · rfl
  · refine tail next fun other high => ?_
    rcases entered.pte other with same | member
    · rw [same]
      exact absent other (by omega)
    · exact absurd (mem_rangeEntries.mp member).2.1 (not_lt.mpr high)

theorem mapKernel_kmap
    (link : Link)
    (absent : ∀ vpn, (vm.dir.pte vpn).present = false) :
    mapKernel (kmap link.data) vm = .ok (enterAll (kernelEntries link) vm) := by
  obtain ⟨dataEq, lower, upper⟩ := data_page link
  have physical : (link.data - UInt32.ofNat KERNBASE).toNat =
      PGSIZE * (pageOf link.data - 0x80000) := by
    rw [UInt32.toNat_sub, dataEq, show (UInt32.ofNat KERNBASE).toNat = 0x80000000 from rfl]
    unfold PGSIZE
    omega
  refine mapKernel_cons (by decide) (by decide) (by decide) (by decide) (by decide)
    (fun other _ => absent other) fun _ absent => ?_
  refine mapKernel_cons (show (UInt32.ofNat KERNLINK).toNat = PGSIZE * 0x80100 by decide)
    (show pageOf (UInt32.ofNat EXTMEM) = 0x100 by decide) ?_ (by omega)
    (show 0x80100 + (pageOf link.data - 0x80100) ≤ 0x100000 by omega) absent fun _ absent => ?_
  · rw [UInt32.toNat_sub, physical, show (UInt32.ofNat EXTMEM).toNat = 0x100000 from rfl]
    unfold PGSIZE
    omega
  refine mapKernel_cons dataEq ?_ ?_ (by omega)
    (show pageOf link.data + (0x8e000 - pageOf link.data) ≤ 0x100000 by omega)
    (fun other high => absent other (by omega)) fun _ absent => ?_
  · rw [pageOf, physical, Nat.mul_div_cancel_left _ (by decide)]
  · rw [UInt32.toNat_sub, physical, show (UInt32.ofNat PHYSTOP).toNat = 0xe000000 from rfl]
    unfold PGSIZE
    omega
  exact mapKernel_cons (by decide) (by decide) (by decide) (by decide) (by decide)
    (fun other high => absent other (by omega)) fun _ _ => rfl

/-- What `setupkvm` does. -/
theorem setupkvm_eq (link : Link) (vm : Vm) :
    setupkvm link vm = .ok (match vm.free with
      | [] => (false, vm)
      | page :: rest =>
        enterAll (kernelEntries link) { vm with free := rest, dir := ⟨page, fun _ => none⟩ }) := by
  unfold setupkvm kalloc
  cases nonempty : vm.free with
  | nil => simp [Run.bind_apply, nonempty]
  | cons page rest =>
    simp only [Run.bind_apply, nonempty, Run.get_apply, Run.modify_apply, Run.pure_apply]
    exact mapKernel_kmap link fun _ => rfl

/-- A directory with the kernel's mappings and no user memory. -/
structure Fresh (vm final : Vm) : Prop where
  kernel : KernelHalf final.dir
  /-- The user part has no page tables. -/
  user : ∀ vpn < KERNBASE / PGSIZE, final.dir.hasTable vpn = false
  /-- The first page of the kernel's part is mapped. -/
  first : (final.dir.pte USERPAGES).present = true
  /-- The free list was only taken from. -/
  free : final.free <:+ vm.free
  /-- No user memory was taken. -/
  taken : final.taken = vm.taken

section Kernel

variable {link : Link} {page : Nat} {rest : List Nat}
  (entered : Entered (kernelEntries link) { vm with free := rest, dir := ⟨page, fun _ => none⟩ }
    true final)

include entered

theorem Entered.kernelPte (vpn : Nat) :
    final.dir.pte vpn = if InKernel vpn then Vm.kernelPte link vpn else Pte.zero := by
  split
  case isTrue kernel =>
    have listed : (vpn, Vm.kernelPte link vpn) ∈ kernelEntries link :=
      mem_kernelEntries.mpr ⟨kernel, rfl⟩
    exact (mem_kernelEntries.mp (entered.entered rfl _ listed)).2
  case isFalse outside =>
    rcases entered.pte vpn with same | member
    · exact same
    · exact absurd (mem_kernelEntries.mp member).1 outside

theorem Entered.hasTable_iff (vpn : Nat) :
    final.dir.hasTable vpn = true ↔ ∃ other, InKernel other ∧ vpn / NPTENTRIES = other / NPTENTRIES := by
  constructor
  · intro table
    rcases entered.tables vpn table with old | ⟨e, member, same⟩
    · exact nomatch old
    · exact ⟨e.1, (mem_kernelEntries.mp member).1, same⟩
  · rintro ⟨other, kernel, same⟩
    refine (hasTable_of_same same).trans (hasTable_of_present ?_)
    rw [entered.kernelPte, if_pos kernel, Vm.kernelPte]
    split <;> rfl

theorem Entered.fresh (nonempty : vm.free = page :: rest) :
    Fresh vm final := by
  have absent : ∀ vpn, vpn < 0x80000 ∨ 0x8e000 ≤ vpn ∧ vpn < 0xfe000 →
      final.dir.hasTable vpn = false := by
    intro vpn outside
    rw [← Bool.not_eq_true, entered.hasTable_iff]
    rintro ⟨other, kernel, same⟩
    unfold InKernel at kernel
    unfold NPTENTRIES at same
    omega
  have entry := entered.kernelPte
  refine ⟨⟨fun vpn low high => ?_, fun vpn low high => absent vpn (.inr ⟨low, high⟩),
    fun vpn low high => ?_, fun vpn _ => ?_⟩, fun vpn low => absent vpn (.inl low), ?_, ?_,
    entered.log⟩
  · have high : vpn < 0x8e000 := high
    rw [entry, if_pos (.inl ⟨low, high⟩), Vm.kernelPte, if_pos high]
    rfl
  · have low : 0xfe000 ≤ vpn := low
    rw [entry, if_pos (.inr ⟨low, high⟩), Vm.kernelPte, if_neg (by omega)]
  · rw [entry, Vm.kernelPte]
    split_ifs <;> rfl
  · rw [entry, if_pos (by decide)]
    rfl
  · rw [nonempty]
    exact entered.free.trans (List.suffix_cons page rest)

end Kernel

/-! ## The page tables of the kernel -/

/-- The entries of a directory that the kernel's mappings need. -/
def kernelTables : Finset Nat := Finset.Ico 0x200 0x238 ∪ Finset.Ico 0x3f8 0x400

theorem card_kernelTables : kernelTables.card = 64 := by
  rw [kernelTables, Finset.card_union_of_disjoint, Nat.card_Ico, Nat.card_Ico]
  refine Finset.disjoint_left.mpr (fun i memory device => ?_)
  rw [Finset.mem_Ico] at memory device
  omega

theorem mem_kernelTables : i ∈ kernelTables ↔ ∃ vpn, InKernel vpn ∧ i = vpn / NPTENTRIES := by
  simp only [kernelTables, Finset.mem_union, Finset.mem_Ico, InKernel]
  constructor
  · intro member
    exact ⟨NPTENTRIES * i, by unfold NPTENTRIES; omega, by rw [Nat.mul_div_cancel_left _ (by decide)]⟩
  · rintro ⟨vpn, kernel, rfl⟩
    unfold NPTENTRIES
    omega

/-- The directory entries that are in use. -/
def usedTables (dir : PageDir) : Finset Nat :=
  (Finset.range NPDENTRIES).filter fun i => (dir.table i).isSome

theorem tables_eq_card (dir : PageDir) : dir.tables = (usedTables dir).card := by
  rw [usedTables, Finset.card_filter]
  rfl

theorem mem_usedTables {dir : PageDir} :
    i ∈ usedTables dir ↔ i < NPDENTRIES ∧ dir.hasTable (NPTENTRIES * i) = true := by
  rw [usedTables, Finset.mem_filter, Finset.mem_range, PageDir.hasTable,
    Nat.mul_div_cancel_left _ (by decide)]

/-- Pages that a directory with the kernel's mappings takes: its own and those of
the page tables. -/
abbrev kvmPages : Nat := 65

theorem tables_empty (page : Nat) : (⟨page, fun _ => none⟩ : PageDir).tables = 0 :=
  Finset.sum_eq_zero (fun _ _ => rfl)

theorem held_empty (page other : Nat) :
    (⟨page, fun _ => none⟩ : PageDir).held other = single (some page) other := by
  have tables : (⟨page, fun _ => none⟩ : PageDir).tableHeld other = 0 :=
    Finset.sum_eq_zero (fun _ _ => rfl)
  have user : (⟨page, fun _ => none⟩ : PageDir).userHeld other = 0 :=
    Finset.sum_eq_zero (fun _ _ => rfl)
  rw [PageDir.held, tables, user, Nat.add_zero]

section Kernel

variable {link : Link} {page : Nat} {rest : List Nat}

theorem Entered.usedTables_subset
    (entered : Entered (kernelEntries link) { vm with free := rest, dir := ⟨page, fun _ => none⟩ }
      result final) :
    usedTables final.dir ⊆ kernelTables := by
  intro i member
  rcases entered.tables _ (mem_usedTables.mp member).2 with old | ⟨e, listed, same⟩
  · exact nomatch old
  · rw [Nat.mul_div_cancel_left _ (by decide)] at same
    exact mem_kernelTables.mpr ⟨e.1, (mem_kernelEntries.mp listed).1, same⟩

/-- Mapping the kernel takes a page for each of its page tables, or fails. -/
theorem Entered.tables_kernel
    (entered : Entered (kernelEntries link) { vm with free := rest, dir := ⟨page, fun _ => none⟩ }
      result final) :
    final.dir.tables = 64 ∧ result = true ∨ final.dir.tables < 64 ∧ result = false := by
  rw [tables_eq_card, ← card_kernelTables]
  cases result with
  | true =>
    refine .inl ⟨congrArg _ (entered.usedTables_subset.antisymm fun i member => ?_), rfl⟩
    obtain ⟨vpn, kernel, rfl⟩ := mem_kernelTables.mp member
    refine mem_usedTables.mpr ⟨?_, (entered.hasTable_iff _).mpr ⟨vpn, kernel, ?_⟩⟩
    · unfold InKernel at kernel
      unfold NPTENTRIES NPDENTRIES
      omega
    · rw [Nat.mul_div_cancel_left _ (by decide)]
  | false =>
    obtain ⟨_, e, listed, absent⟩ := entered.fails rfl
    refine .inr ⟨Finset.card_lt_card ⟨entered.usedTables_subset, fun all => ?_⟩, rfl⟩
    have used := mem_usedTables.mp (all (mem_kernelTables.mpr
      ⟨e.1, (mem_kernelEntries.mp listed).1, rfl⟩))
    rw [hasTable_of_same (Nat.mul_div_cancel_left _ (by decide)), absent] at used
    exact nomatch used.2

/-- What `setupkvm` takes from the free list. -/
theorem setupkvm_pages (link : Link) (vm : Vm) :
    Run.Spec (setupkvm link) vm (fun result final =>
        result = true ∧ Fresh vm final ∧ final.free.length + kvmPages = vm.free.length ∧
            (∀ page, final.free.count page + final.dir.held page = vm.free.count page) ∧
            ((∀ page ∈ vm.free, Link.Frame link page) → Framed link final) ∨
          result = false ∧ vm.free.length < kvmPages ∧ (vm.free = [] ∧ final = vm ∨
              ∃ page rest, vm.free = page :: rest ∧ final.free <:+ rest))
      (fun _ => False) := by
  unfold Run.Spec
  rw [setupkvm_eq]
  cases nonempty : vm.free with
  | nil => exact .inr ⟨rfl, by decide, .inl ⟨rfl, rfl⟩⟩
  | cons page rest =>
    have entered :=
      kernelEntries_entered link { vm with free := rest, dir := ⟨page, fun _ => none⟩ }
    dsimp only
    generalize enterAll (kernelEntries link) _ = outcome at entered
    obtain ⟨result, final⟩ := outcome
    have cost := entered.cost
    rw [tables_empty, Nat.add_zero] at cost
    rcases entered.tables_kernel with ⟨all, rfl⟩ | ⟨few, rfl⟩
    · refine .inl ⟨rfl, entered.fresh nonempty, ?_, fun other => ?_, fun frames => ?_⟩
      · rw [List.length_cons, ← cost, all]
        rfl
      · have total := entered.conserved (fun e member => (kernelEntries_range link e member).1) other
        rwa [held_empty, ← count_cons] at total
      · refine entered.framed ⟨fun other member => ?_, ?_, nofun, nofun⟩ ?_
        · exact frames other (List.mem_cons_of_mem _ member)
        · exact frames page List.mem_cons_self
        · exact fun e member user => absurd (kernelEntries_range link e member).1 (not_le.mpr user)
    · obtain ⟨empty, _⟩ := entered.fails rfl
      refine .inr ⟨rfl, ?_, .inr ⟨page, rest, rfl, entered.free⟩⟩
      rw [empty, List.length_nil, Nat.zero_add] at cost
      rw [List.length_cons, ← cost]
      unfold kvmPages
      omega

theorem kernelPte_of_setupkvm
    (started : setupkvm link vm = .ok (true, final))
    (vpn : Nat) :
    final.dir.pte vpn = if InKernel vpn then kernelPte link vpn else Pte.zero := by
  rw [setupkvm_eq] at started
  have outcome := Except.ok.inj started
  split at outcome
  · exact nomatch (Prod.mk.inj outcome).1
  · rename_i page rest _
    have entered :=
      kernelEntries_entered link { vm with free := rest, dir := ⟨page, fun _ => none⟩ }
    rw [outcome] at entered
    exact entered.kernelPte vpn

theorem fresh_of_setupkvm (started : setupkvm link vm = .ok (true, final)) :
    Fresh vm final ∧ ((∀ page ∈ vm.free, Link.Frame link page) → Framed link final) := by
  rcases (setupkvm_pages link vm).of_ok started with ⟨_, fresh, _, _, framed⟩ | ⟨impossible, _⟩
  · exact ⟨fresh, framed⟩
  · exact nomatch impossible

theorem setupkvm_returns
    (link : Link)
    (vm : Vm)
    (frames : ∀ page ∈ vm.free, Link.Frame link page)
    (memory : kvmPages ≤ vm.free.length) :
    ∃ final, setupkvm link vm = .ok (true, final) ∧ Fresh vm final ∧
      final.free.length + kvmPages = vm.free.length ∧ Framed link final := by
  obtain ⟨result, final, returned, outcome⟩ := (setupkvm_pages link vm).exists_ok fun _ => id
  rcases outcome with ⟨rfl, fresh, length, _, framed⟩ | ⟨_, few, _⟩
  · exact ⟨final, returned, fresh, length, framed frames⟩
  · omega

end Kernel

/-! ## A page of user memory -/

/-- What mapping a page of user memory does. -/
structure UserMapped (vm final : Vm) (vpn page : Nat) : Prop where
  entered : Entered [(vpn, Perm.entry ⟨true, true⟩ page)] vm true final
  /-- The page is held. -/
  counts : ∀ other, final.free.count other + final.dir.held other =
    vm.free.count other + vm.dir.held other + single (some page) other
  /-- A page is taken for a new page table. -/
  cost : final.free.length + (if vm.dir.hasTable vpn then 0 else 1) = vm.free.length

theorem Tabled.userMapped
    (tabled : Tabled vm vpn walked)
    (user : vpn < USERPAGES)
    (absent : (vm.dir.pte vpn).present = false)
    (page : Nat) :
    UserMapped vm
      { walked with dir := walked.dir.setPte vpn (Perm.entry ⟨true, true⟩ page) } vpn page where
  entered := .cons tabled (.nil _)
  counts other := by
    have change := PageDir.held_setPte tabled.present user (Perm.entry ⟨true, true⟩ page) other
    have old : walked.dir.userPage vpn = none := by
      rw [PageDir.userPage, tabled.pte, absent]
      rfl
    have new : (if (Perm.entry ⟨true, true⟩ page).present then
        some (Perm.entry ⟨true, true⟩ page).page else none) = some page := rfl
    have held := tabled.held other
    rw [old, new, single_none, Pi.zero_apply, Nat.add_zero, PageDir.held, PageDir.held,
      PageDir.userHeld_congr tabled.pte, tabled.page] at change
    show walked.free.count other + (walked.dir.setPte vpn _).held other = _
    rw [PageDir.held, PageDir.held]
    omega
  cost := tabled.taken

section UserMapped

variable (mapped : UserMapped vm final vpn page)

include mapped

theorem UserMapped.newPte : final.dir.pte vpn = Perm.entry ⟨true, true⟩ page :=
  congrArg Prod.snd (List.mem_singleton.mp (mapped.entered.entered rfl _ List.mem_cons_self))

/-- Other entries stay. -/
theorem UserMapped.pte (different : other ≠ vpn) :
    final.dir.pte other = vm.dir.pte other :=
  (mapped.entered.pte other).resolve_right fun member =>
    different (congrArg Prod.fst (List.mem_singleton.mp member))

/-- The page has a page table. -/
theorem UserMapped.tables (other : Nat) :
    final.dir.hasTable other = true ↔
      other / NPTENTRIES = vpn / NPTENTRIES ∨ vm.dir.hasTable other = true := by
  constructor
  · intro table
    rcases mapped.entered.tables other table with old | ⟨e, member, same⟩
    · exact .inr old
    · rw [List.mem_singleton.mp member] at same
      exact .inl same
  · rintro (same | old)
    · refine (hasTable_of_same same).trans (hasTable_of_present ?_)
      rw [mapped.newPte]
      rfl
    · exact mapped.entered.kept other old

theorem UserMapped.framed
    (framed : Framed link vm)
    (frame : Link.Frame link page) :
    Framed link final :=
  mapped.entered.framed framed fun e member _ _ => by
    rw [List.mem_singleton.mp member]
    exact frame

end UserMapped

/-- Mapping a page twice is a panic. -/
theorem mappages_present
    (address : a.toNat = PGSIZE * vpn)
    (inside : vpn < NPAGES)
    (present : (vm.dir.pte vpn).present = true)
    (perm : Perm) :
    mappages a 4096 pa perm vm = .error (.panic "remap") := by
  rw [mappages_eq address rfl Nat.one_pos inside]
  exact mapPages_present perm _ present

/-- Mapping a page of memory at a user address. -/
theorem mappages_user
    (user : vpn < USERPAGES)
    (address : a.toNat = PGSIZE * vpn)
    (physical : page < PHYSTOP / PGSIZE)
    (vm : Vm) :
    Run.Spec (mappages a 4096 (UInt32.ofNat (PGSIZE * page)) ⟨true, true⟩) vm (fun result final =>
        result = true ∧ (vm.dir.pte vpn).present = false ∧ UserMapped vm final vpn page ∨
          result = false ∧ vm.free = [] ∧ vm.dir.hasTable vpn = false ∧ final = vm)
      (fun reason => reason = .panic "remap" ∧ (vm.dir.pte vpn).present = true) := by
  have inside : vpn < NPAGES := user.trans (by decide)
  unfold Run.Spec
  cases present : (vm.dir.pte vpn).present with
  | true =>
    rw [mappages_present address inside present]
    exact ⟨rfl, rfl⟩
  | false =>
    have target : pageOf (UInt32.ofNat (PGSIZE * page)) = page := by
      have small : page < 0xe000 := physical
      rw [pageOf, UInt32.toNat_ofNat_of_lt', Nat.mul_div_cancel_left _ (by decide)]
      unfold PGSIZE UInt32.size
      omega
    rw [mappages_eq address rfl Nat.one_pos inside, target,
      mapPages_eq ⟨true, true⟩ 1 vpn page inside vm fun other low high => by
        rwa [show other = vpn by omega]]
    rcases withTable_spec inside vm with ⟨none, empty, absent⟩ | ⟨walked, found, tabled⟩
    · rw [rangeEntries, enterAll, none]
      exact .inr ⟨rfl, empty, absent, rfl⟩
    · rw [rangeEntries, enterAll, found]
      exact .inl ⟨rfl, rfl, tabled.userMapped user present page⟩

end Vm
end Xv6
