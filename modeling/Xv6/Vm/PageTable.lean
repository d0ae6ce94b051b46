import Xv6.Fs.State

/-!
# Page tables

The functions of `vm.c` that build an address space, over physical pages that
are named by their numbers.  The state holds the free list of `kalloc` and the
page directory under construction.
-/

namespace Xv6

open Function
open Faulting

/-! ## Addresses -/

/-- Bytes mapped by a page. -/
abbrev PGSIZE : Nat := 4096

/-- Entries of a page table. -/
abbrev NPTENTRIES : Nat := 1024

/-- Entries of a page directory. -/
abbrev NPDENTRIES : Nat := 1024

/-- Pages of the virtual address space. -/
abbrev NPAGES : Nat := NPDENTRIES * NPTENTRIES

/-- Start of extended memory. -/
abbrev EXTMEM : Nat := 0x100000

/-- Top of physical memory. -/
abbrev PHYSTOP : Nat := 0xE000000

/-- Start of the device addresses. -/
abbrev DEVSPACE : Nat := 0xFE000000

/-- Address where the kernel is linked. -/
abbrev KERNLINK : Nat := KERNBASE + EXTMEM

/-- The page of an address. -/
def pageOf (addr : UInt32) : Nat := addr.toNat / PGSIZE

/-- Round up to a page boundary, in 32 bits. -/
def PGROUNDUP (sz : UInt32) : UInt32 := (sz + 4095) / 4096 * 4096

/-- Pages that a size takes up. -/
def pagesOf (sz : UInt32) : Nat := (sz.toNat + (PGSIZE - 1)) / PGSIZE

theorem toNat_PGROUNDUP (below : sz.toNat < KERNBASE) :
    (PGROUNDUP sz).toNat = PGSIZE * pagesOf sz := by
  unfold KERNBASE at below
  unfold PGROUNDUP pagesOf PGSIZE
  rw [UInt32.toNat_mul, UInt32.toNat_div, UInt32.toNat_add,
    show (4096 : UInt32).toNat = 4096 from rfl, show (4095 : UInt32).toNat = 4095 from rfl]
  omega

/-- The address of a page lies below a size. -/
theorem lt_iff_page (address : a.toNat = PGSIZE * vpn) :
    a < sz ↔ vpn < pagesOf sz := by
  rw [UInt32.lt_iff_toNat_lt, address]
  unfold pagesOf PGSIZE
  omega

/-- Pages of the user part of an address space. -/
abbrev USERPAGES : Nat := KERNBASE / PGSIZE

theorem pagesOf_le_userPages (below : sz.toNat ≤ KERNBASE) :
    pagesOf sz ≤ USERPAGES := by
  unfold pagesOf USERPAGES KERNBASE PGSIZE at *
  omega

/-! ## Page directories -/

/-- A page table entry. -/
structure Pte where
  page : Nat
  present : Bool
  writable : Bool
  user : Bool
  deriving DecidableEq, Repr

/-- An entry with all bits clear. -/
def Pte.zero : Pte where
  page := 0
  present := false
  writable := false
  user := false

/-- A page table. -/
structure PageTable where
  page : Nat
  pte : Nat → Pte

/-- A page directory. -/
structure PageDir where
  page : Nat
  table : Nat → Option PageTable

namespace PageDir

/-- Whether the directory entry of a virtual page is present. -/
def hasTable (dir : PageDir) (vpn : Nat) : Bool :=
  (dir.table (vpn / NPTENTRIES)).isSome

/-- The page table entry of a virtual page; zero without a page table. -/
def pte (dir : PageDir) (vpn : Nat) : Pte :=
  match dir.table (vpn / NPTENTRIES) with
  | some table => table.pte (vpn % NPTENTRIES)
  | none => Pte.zero

/-- Install a cleared page table for a virtual page. -/
def addTable (dir : PageDir) (vpn page : Nat) : PageDir :=
  { dir with
    table := update dir.table (vpn / NPTENTRIES) (some ⟨page, fun _ => Pte.zero⟩) }

/-- Change the page table entry of a virtual page. -/
def setPte (dir : PageDir) (vpn : Nat) (entry : Pte) : PageDir :=
  match dir.table (vpn / NPTENTRIES) with
  | some table =>
    { dir with
      table := update dir.table (vpn / NPTENTRIES) (some { table with
          pte := update table.pte (vpn % NPTENTRIES) entry }) }
  | none => dir

theorem page_eq_of_parts
    (quotient : vpn / NPTENTRIES = other / NPTENTRIES)
    (remainder : vpn % NPTENTRIES = other % NPTENTRIES) :
    vpn = other := by
  rw [← Nat.div_add_mod vpn NPTENTRIES, quotient, remainder, Nat.div_add_mod]

@[simp] theorem pte_addTable {dir : PageDir}
    (page other : Nat)
    (absent : dir.hasTable vpn = false) :
    (dir.addTable vpn page).pte other = dir.pte other := by
  unfold pte addTable
  by_cases same : other / NPTENTRIES = vpn / NPTENTRIES
  · have missing : dir.table (vpn / NPTENTRIES) = none := by
      simpa [hasTable] using absent
    simp [same, missing]
  · simp [update_of_ne same]

@[simp] theorem hasTable_addTable
    (dir : PageDir)
    (vpn page other : Nat) :
    (dir.addTable vpn page).hasTable other =
      (decide (other / NPTENTRIES = vpn / NPTENTRIES) || dir.hasTable other) := by
  unfold hasTable addTable
  by_cases same : other / NPTENTRIES = vpn / NPTENTRIES
  · simp [same]
  · simp [same]

theorem pte_setPte {dir : PageDir}
    (entry : Pte)
    (other : Nat)
    (present : dir.hasTable vpn = true) :
    (dir.setPte vpn entry).pte other = if other = vpn then entry else dir.pte other := by
  obtain ⟨table, found⟩ := Option.isSome_iff_exists.mp present
  unfold pte setPte
  simp only [found]
  by_cases same : other / NPTENTRIES = vpn / NPTENTRIES
  · simp only [same, update_self, found]
    by_cases equal : other = vpn
    · simp [equal]
    · have different : other % NPTENTRIES ≠ vpn % NPTENTRIES :=
        fun remainder => equal (page_eq_of_parts same remainder)
      rw [if_neg equal, update_of_ne different]
  · have different : other ≠ vpn := fun equal => same (by rw [equal])
    rw [update_of_ne same, if_neg different]

@[simp] theorem hasTable_setPte
    (dir : PageDir)
    (vpn other : Nat)
    (entry : Pte) :
    (dir.setPte vpn entry).hasTable other = dir.hasTable other := by
  unfold hasTable setPte
  cases found : dir.table (vpn / NPTENTRIES) with
  | none => rfl
  | some table =>
    by_cases same : other / NPTENTRIES = vpn / NPTENTRIES
    · simp [same, found]
    · simp [update_of_ne same]

/-- The page of a page table. -/
def tablePage (dir : PageDir) (i : Nat) : Option Nat :=
  (dir.table i).map PageTable.page

theorem tablePage_setPte (dir : PageDir) (vpn : Nat) (entry : Pte) (i : Nat) :
    (dir.setPte vpn entry).tablePage i = dir.tablePage i := by
  unfold tablePage setPte
  cases found : dir.table (vpn / NPTENTRIES) with
  | none => rfl
  | some table =>
    by_cases same : i = vpn / NPTENTRIES
    · rw [same, found]
      simp
    · simp [update_of_ne same]

@[simp] theorem page_setPte {dir : PageDir} (entry : Pte) :
    (dir.setPte vpn entry).page = dir.page := by
  unfold setPte
  split <;> rfl

end PageDir

/-! ## Building an address space -/

/-- The page allocator and the page directory under construction. -/
structure Vm where
  free : List Nat
  dir : PageDir
  /-- The pages that `allocuvm` has taken for user memory. -/
  taken : List Nat

/-- A function of the kernel that works on an address space. -/
abbrev VmM := Run Stop Vm

/-- Addresses that the linker fixes. -/
structure Link where
  data : UInt32
  kend : UInt32
  /-- The data starts on a page boundary. -/
  aligned : data.toNat % PGSIZE = 0
  /-- The data lies behind the kernel's instructions. -/
  lower : KERNLINK < data.toNat
  /-- The data ends with the kernel. -/
  ordered : data.toNat ≤ kend.toNat
  /-- The kernel lies in physical memory. -/
  upper : kend.toNat < KERNBASE + PHYSTOP

namespace Vm

/-- Stop the kernel. -/
def panic (text : String) : VmM α := Run.fault (Stop.panic text)

/-- Allocate one page of physical memory. -/
def kalloc : VmM (Option Nat) := do
  let vm ← Run.get
  match vm.free with
  | [] => pure none
  | page :: rest =>
    Run.modify fun vm => { vm with free := rest }
    pure (some page)

/-- Whether a virtual page has a page table entry, creating the page table if
asked to. -/
def walkpgdir (vpn : Nat) (alloc : Bool) : VmM Bool := do
  let vm ← Run.get
  if vm.dir.hasTable vpn then pure true
  else if alloc then
    match ← kalloc with
    | none => pure false
    | some page =>
      Run.modify fun vm => { vm with dir := vm.dir.addTable vpn page }
      pure true
  else pure false

/-- Permissions of a mapping. -/
structure Perm where
  writable : Bool
  user : Bool

/-- The present entry for a physical page. -/
def Perm.entry (perm : Perm) (page : Nat) : Pte where
  page := page
  present := true
  writable := perm.writable
  user := perm.user

/-- The loop of `mappages`: map `count` virtual pages to physical pages. -/
def mapPages (perm : Perm) : (count vpn page : Nat) → VmM Bool
  | 0, _, _ => pure true
  | count + 1, vpn, page => do
      if ← walkpgdir vpn true then
        let vm ← Run.get
        if (vm.dir.pte vpn).present then panic "remap"
        else
          Run.modify fun vm =>
            { vm with dir := vm.dir.setPte vpn (perm.entry page) }
          mapPages perm count ((vpn + 1) % NPAGES) (page + 1)
      else pure false

/-- Steps from one page to another, around the end of the address space if
necessary. -/
def pageSteps (first last : Nat) : Nat :=
  if first ≤ last then last - first else NPAGES - first + last

/-- Map a range of virtual addresses to physical addresses. -/
def mappages (va size pa : UInt32) (perm : Perm) : VmM Bool :=
  mapPages perm (pageSteps (pageOf va) (pageOf (va + size - 1)) + 1) (pageOf va) (pageOf pa)

/-- A mapping of the kernel. -/
structure Kmap where
  virt : UInt32
  physStart : UInt32
  physEnd : UInt32
  perm : Perm

/-- The kernel's mappings. -/
def kmap (data : UInt32) : List Kmap :=
  [⟨UInt32.ofNat KERNBASE, 0, UInt32.ofNat EXTMEM, ⟨true, false⟩⟩,
    ⟨UInt32.ofNat KERNLINK, UInt32.ofNat EXTMEM, data - UInt32.ofNat KERNBASE, ⟨false, false⟩⟩,
    ⟨data, data - UInt32.ofNat KERNBASE, UInt32.ofNat PHYSTOP, ⟨true, false⟩⟩,
    ⟨UInt32.ofNat DEVSPACE, UInt32.ofNat DEVSPACE, 0, ⟨true, false⟩⟩]

/-- Enter mappings of the kernel. -/
def mapKernel : List Kmap → VmM Bool
  | [] => pure true
  | k :: rest => do
      if ← mappages k.virt (k.physEnd - k.physStart) k.physStart k.perm then
        mapKernel rest
      else pure false

/-- Set up a page directory with the kernel's mappings. -/
def setupkvm (link : Link) : VmM Bool := do
  match ← kalloc with
  | none => pure false
  | some page =>
    Run.modify fun vm => { vm with dir := ⟨page, fun _ => none⟩ }
    mapKernel (kmap link.data)

/-- Free a page of physical memory. -/
def kfree (link : Link) (page : Nat) : VmM Unit :=
  if KERNBASE + PGSIZE * page < link.kend.toNat ∨ PHYSTOP ≤ PGSIZE * page then
    panic "kfree"
  else Run.modify fun vm => { vm with free := page :: vm.free }

/-- The loop of `deallocuvm`.  Each round moves on by a page or, past a missing
page table, by the pages of one. -/
def deallocLoop (link : Link) (oldsz : UInt32) : (fuel : Nat) → UInt32 → VmM Unit
  | 0, _ => pure ()
  | fuel + 1, a =>
    if a < oldsz then do
      if ← walkpgdir (pageOf a) false then
        let vm ← Run.get
        if (vm.dir.pte (pageOf a)).present then
          if (vm.dir.pte (pageOf a)).page = 0 then panic "kfree"
          kfree link (vm.dir.pte (pageOf a)).page
          Run.modify fun vm =>
            { vm with dir := vm.dir.setPte (pageOf a) Pte.zero }
        deallocLoop link oldsz fuel (a + 4096)
      else deallocLoop link oldsz fuel (a + (1024 - 1) * 4096 + 4096)
    else pure ()

/-- Free the user pages between two sizes. -/
def deallocuvm (link : Link) (oldsz newsz : UInt32) : VmM UInt32 :=
  if oldsz ≤ newsz then pure oldsz
  else do
    deallocLoop link oldsz (oldsz.toNat / PGSIZE + 1) (PGROUNDUP newsz)
    pure newsz

/-- Free page tables named by their entries in the directory. -/
def freeTables (link : Link) : List Nat → VmM Unit
  | [] => pure ()
  | i :: rest => do
      let vm ← Run.get
      match vm.dir.table i with
      | some table => kfree link table.page
      | none => pure ()
      freeTables link rest

/-- Free a page directory, its page tables and the user memory. -/
def freevm (link : Link) : VmM Unit := do
  let _ ← deallocuvm link (UInt32.ofNat KERNBASE) 0
  freeTables link (List.range NPDENTRIES)
  let vm ← Run.get
  kfree link vm.dir.page

/-- The loop of `allocuvm`.  What `mappages` returns is not looked at. -/
def allocLoop (link : Link) (oldsz newsz : UInt32) :
    (fuel : Nat) → UInt32 → VmM UInt32
  | 0, _ => pure newsz
  | fuel + 1, a =>
    if a < newsz then do
      match ← kalloc with
      | none =>
        let _ ← deallocuvm link newsz oldsz
        pure 0
      | some page =>
        Run.modify fun vm => { vm with taken := page :: vm.taken }
        let _ ← mappages a 4096 (UInt32.ofNat (PGSIZE * page)) ⟨true, true⟩
        allocLoop link oldsz newsz fuel (a + 4096)
    else pure newsz

/-- Grow user memory from `oldsz` to `newsz`; the result is zero on failure. -/
def allocuvm (link : Link) (oldsz newsz : UInt32) : VmM UInt32 :=
  if KERNBASE ≤ newsz.toNat then pure 0
  else if newsz < oldsz then pure oldsz
  else allocLoop link oldsz newsz (newsz.toNat / PGSIZE + 1) (PGROUNDUP oldsz)

/-- Clear `PTE_U` on a page. -/
def clearpteu (uva : UInt32) : VmM Unit := do
  if ← walkpgdir (pageOf uva) false then
    Run.modify fun vm =>
      { vm with
        dir := vm.dir.setPte (pageOf uva)
          { vm.dir.pte (pageOf uva) with user := false } }
  else panic "clearpteu"

/-! ## What the functions do -/

theorem kalloc_spec (vm : Vm) :
    Run.Spec kalloc vm (fun result final =>
        (result = none ∧ vm.free = [] ∧ final = vm) ∨
          ∃ page rest, vm.free = page :: rest ∧ result = some page ∧
            final = { vm with free := rest })
      (fun _ => False) := by
  apply Run.Spec.get_bind
  split
  · rename_i empty
    exact Or.inl ⟨rfl, empty, rfl⟩
  · rename_i page rest nonempty
    exact Or.inr ⟨page, rest, nonempty, rfl, rfl⟩

variable {vm : Vm} {vpn page : Nat}

section

variable {dir : PageDir}

theorem pte_of_no_table (absent : dir.hasTable vpn = false) :
    dir.pte vpn = Pte.zero := by
  have missing : dir.table (vpn / NPTENTRIES) = none := by
    simpa [PageDir.hasTable] using absent
  rw [PageDir.pte, missing]

theorem hasTable_of_same (same : vpn / NPTENTRIES = other / NPTENTRIES) :
    dir.hasTable vpn = dir.hasTable other := by
  rw [PageDir.hasTable, PageDir.hasTable, same]

/-- A page that is mapped has a page table. -/
theorem hasTable_of_present (present : (dir.pte vpn).present = true) :
    dir.hasTable vpn = true := by
  by_contra missing
  rw [pte_of_no_table (by simpa using missing)] at present
  exact nomatch present

end

/-- `mappages` on whole pages that do not wrap around. -/
theorem mappages_eq
    (start : va.toNat = PGSIZE * first)
    (whole : size.toNat = PGSIZE * count)
    (some : 0 < count)
    (fits : first + count ≤ NPAGES)
    (pa : UInt32)
    (perm : Perm) :
    mappages va size pa perm = mapPages perm count first (pageOf pa) := by
  have last : (va + size - 1).toNat = PGSIZE * (first + count) - 1 := by
    rw [UInt32.toNat_sub, UInt32.toNat_add, start, whole, show (1 : UInt32).toNat = 1 from rfl]
    unfold PGSIZE NPAGES NPDENTRIES NPTENTRIES at *
    omega
  have firstPage : pageOf va = first := by
    rw [pageOf, start, Nat.mul_div_cancel_left _ (by decide)]
  have lastPage : pageOf (va + size - 1) = first + (count - 1) := by
    rw [pageOf, last]
    unfold PGSIZE
    omega
  rw [mappages, lastPage, firstPage, pageSteps, if_pos (by omega), Nat.add_sub_cancel_left,
    Nat.sub_add_cancel some]

/-- The kernel's part of an address space. -/
structure KernelHalf (dir : PageDir) : Prop where
  /-- Physical memory is mapped from `KERNBASE` on. -/
  memory : ∀ vpn, KERNBASE / PGSIZE ≤ vpn → vpn < (KERNBASE + PHYSTOP) / PGSIZE →
    (dir.pte vpn).page = vpn - KERNBASE / PGSIZE
  /-- Nothing is mapped between physical memory and the devices. -/
  gap : ∀ vpn, (KERNBASE + PHYSTOP) / PGSIZE ≤ vpn → vpn < DEVSPACE / PGSIZE →
    dir.hasTable vpn = false
  /-- The devices are mapped directly. -/
  devices : ∀ vpn, DEVSPACE / PGSIZE ≤ vpn → vpn < NPAGES → (dir.pte vpn).page = vpn
  /-- No mapping of the kernel is open to user code. -/
  supervisor : ∀ vpn, KERNBASE / PGSIZE ≤ vpn → (dir.pte vpn).user = false

/-! ## Frames that can be given back -/

/-- A physical page that `kfree` takes. -/
def Link.Frame (link : Link) (page : Nat) : Prop :=
  link.kend.toNat ≤ KERNBASE + PGSIZE * page ∧ PGSIZE * page < PHYSTOP

theorem Link.Frame.pos (frame : Link.Frame link page) :
    0 < page := by
  have lower := frame.1
  have first := link.lower
  have second := link.ordered
  unfold KERNLINK KERNBASE EXTMEM at *
  unfold PGSIZE at lower
  omega

/-- An address space made of pages that `kfree` takes. -/
structure Framed (link : Link) (vm : Vm) : Prop where
  /-- The free pages. -/
  free : ∀ page ∈ vm.free, Link.Frame link page
  dir : Link.Frame link vm.dir.page
  /-- The pages of the page tables. -/
  table : ∀ i table, vm.dir.table i = some table → Link.Frame link table.page
  /-- The user pages. -/
  user : ∀ vpn < KERNBASE / PGSIZE, (vm.dir.pte vpn).present = true →
    Link.Frame link (vm.dir.pte vpn).page

variable {link : Link}

theorem kfree_frame (frame : Link.Frame link page) :
    kfree link page vm = .ok ((), { vm with free := page :: vm.free }) := by
  unfold kfree
  rw [if_neg (by rintro (low | high) <;> [have := frame.1; have := frame.2] <;> omega)]
  rfl

theorem kfree_refused (refused : ¬Link.Frame link page) :
    kfree link page vm = .error (.panic "kfree") := by
  unfold Link.Frame at refused
  unfold kfree
  rw [if_pos (by omega)]
  rfl

theorem Framed.kfree
    (framed : Framed link vm)
    (frame : Link.Frame link page) :
    Framed link { vm with free := page :: vm.free } where
  free := by
    intro other member
    rcases List.mem_cons.mp member with rfl | old
    · exact frame
    · exact framed.free other old
  dir := framed.dir
  table := framed.table
  user := framed.user

/-- A page taken from the free list. -/
theorem Framed.take
    (framed : Framed link vm)
    (nonempty : vm.free = page :: rest) :
    Link.Frame link page ∧ page < PHYSTOP / PGSIZE ∧
      ∀ log, Framed link { vm with free := rest, taken := log } := by
  have frames := framed.free
  rw [nonempty] at frames
  obtain ⟨frame, later⟩ := List.forall_mem_cons.mp frames
  exact ⟨frame, (Nat.lt_div_iff_mul_lt' (by decide) _).mpr frame.2,
    fun _ => ⟨later, framed.dir, framed.table, framed.user⟩⟩

theorem Framed.setPte
    (framed : Framed link vm)
    (present : vm.dir.hasTable vpn = true)
    (entry : Pte)
    (frame : vpn < KERNBASE / PGSIZE → entry.present = true → Link.Frame link entry.page) :
    Framed link { vm with dir := vm.dir.setPte vpn entry } where
  free := framed.free
  dir := by
    unfold PageDir.setPte
    split <;> exact framed.dir
  table := by
    intro i table found
    obtain ⟨old, same⟩ := Option.isSome_iff_exists.mp present
    simp only [PageDir.setPte, same] at found
    by_cases here : i = vpn / NPTENTRIES
    · rw [here, update_self] at found
      rw [← Option.some.inj found]
      exact framed.table _ old same
    · rw [update_of_ne here] at found
      exact framed.table i table found
  user := by
    intro other below
    rw [PageDir.pte_setPte _ _ present]
    split
    · rename_i same
      rw [same] at below
      exact frame below
    · exact framed.user other below

end Vm
end Xv6
