import Xv6.Vm.Stack

/-!
# Where the arguments are copied to

`exec` pushes the argument strings below the top of the new stack, and subtracts
their lengths in 32 bits.  A string that is longer than the new image makes the
address wrap around into the kernel's part, where some pages have no page table.
-/

namespace Xv6

open Cells
open Vm

/-! ## The addresses handed to `copyout` -/

/-- A copy starts at an address, after all earlier copies have succeeded. -/
inductive CopyStarts (running : Nat → Option Nat) (null imageSize : UInt32)
    (vm : Vm) (start : UInt32) :
    (argv : List (List UInt8)) → (argc sp : UInt32) → Prop where
  | frame
      (first : start = sp - frameSize argc) :
      CopyStarts running null imageSize vm start [] argc sp
  | string
      (room : argc < MAXARG)
      (first : start = pushed sp arg) :
      CopyStarts running null imageSize vm start (arg :: rest) argc sp
  | later
      (room : argc < MAXARG)
      (copied : (copyout running null imageSize vm (pushed sp arg)
        (UInt32.ofNat arg.length + 1)).2 = .ok true)
      (later : CopyStarts running null imageSize vm start rest (argc + 1) (pushed sp arg)) :
      CopyStarts running null imageSize vm start (arg :: rest) argc sp

/-- An address lies outside of the unmapped part of the kernel half, and the last
page of the stack, if it is there, has a page table. -/
def StartSound (vm : Vm) (top start : UInt32) : Prop :=
  ¬(KERNBASE + PHYSTOP ≤ start.toNat ∧ start.toNat < DEVSPACE) ∧
    (pageOf start + 1 = pagesOf top → vm.dir.hasTable (pageOf start) = true)

/-- The new image with its stack below `top`: the page below the last one is closed
to user code. -/
structure Stacked (origin : List Nat) (vm : Vm) (top : UInt32) : Prop where
  image : UserPages origin vm (pagesOf top)
  guard : ∀ vpn, vpn + 2 = pagesOf top → (vm.dir.pte vpn).user = false
  whole : top.toNat = PGSIZE * pagesOf top

theorem pageOf_PGROUNDDOWN (va : UInt32) : pageOf (PGROUNDDOWN va) = pageOf va := by
  rw [pageOf, toNat_PGROUNDDOWN, Nat.mul_div_cancel_left _ (by decide), pageOf]

theorem toNat_string {arg : List UInt8}
    (short : arg.length < KERNBASE) :
    (UInt32.ofNat arg.length + 1).toNat = arg.length + 1 := by
  unfold KERNBASE at short
  have size : arg.length < 2 ^ 32 := by omega
  rw [UInt32.toNat_add, UInt32.toNat_ofNat_of_lt' size]
  exact Nat.mod_eq_of_lt (show arg.length + 1 < 2 ^ 32 by omega)

theorem string_ne_zero {arg : List UInt8}
    (short : arg.length < KERNBASE) :
    UInt32.ofNat arg.length + 1 ≠ 0 := by
  intro zero
  have length := toNat_string short
  rw [zero] at length
  exact absurd length.symm (Nat.succ_ne_zero _)

/-- A string that does not wrap around lies below the stack pointer. -/
theorem pushed_fits {arg : List UInt8}
    (short : arg.length < KERNBASE)
    (user : (pushed sp arg).toNat < KERNBASE) :
    (pushed sp arg).toNat + (UInt32.ofNat arg.length + 1).toNat ≤ sp.toNat := by
  have bound : sp.toNat < 2 ^ 32 := sp.toNat_lt
  rw [pushed, UInt32.toNat_mul, UInt32.toNat_div, UInt32.toNat_sub, toNat_string short,
    show (4 : UInt32).toNat = 4 from rfl] at user ⊢
  unfold KERNBASE at *
  omega

theorem toNat_frameSize (few : argc.toNat ≤ 32) :
    (frameSize argc).toNat = 16 + 4 * argc.toNat := by
  rw [frameSize, UInt32.toNat_mul, UInt32.toNat_add, UInt32.toNat_add]
  change ((3 + argc.toNat) % 2 ^ 32 + 1) % 2 ^ 32 * 4 % 2 ^ 32 = _
  omega

theorem argc_succ (room : argc < MAXARG) :
    (argc + 1).toNat ≤ 32 := by
  have bound : argc.toNat < 32 := UInt32.lt_iff_toNat_lt.mp room
  rw [UInt32.toNat_add]
  change (argc.toNat + 1) % 2 ^ 32 ≤ 32
  omega

theorem frame_fits
    (few : argc.toNat ≤ 32)
    (user : (sp - frameSize argc).toNat < KERNBASE) :
    (sp - frameSize argc).toNat + (frameSize argc).toNat ≤ sp.toNat := by
  have bound : sp.toNat < 2 ^ 32 := sp.toNat_lt
  rw [UInt32.toNat_sub, toNat_frameSize few] at user ⊢
  unfold KERNBASE at *
  omega

section Lookups

variable {running : Nat → Option Nat} {null top : UInt32} {vm : Vm} {origin : List Nat}

/-! ## Page tables of the new image -/

theorem hasTable_of_page (mapped : (vm.dir.pte vpn).page ≠ 0) :
    vm.dir.hasTable vpn = true := by
  by_contra absent
  rw [pte_of_no_table (by simpa using absent)] at mapped
  exact mapped rfl

/-- The addresses without a page table are those between the kernel's memory and
the devices, and perhaps the last page of the stack. -/
theorem Stacked.hasTable
    (stacked : Stacked origin vm top)
    (sound : StartSound vm top start)
    (user : start.toNat < KERNBASE → start.toNat < top.toNat) :
    vm.dir.hasTable (pageOf start) = true := by
  have bound : pageOf start < NPAGES := pageOf_lt start
  obtain ⟨outside, last⟩ := sound
  by_contra absent
  have missing : vm.dir.hasTable (pageOf start) = false := by simpa using absent
  rcases Nat.lt_or_ge start.toNat KERNBASE with inUser | inKernel
  · have inside : pageOf start < pagesOf top := by
      have low := user inUser
      rw [stacked.whole] at low
      exact Nat.div_lt_of_lt_mul low
    exact absent (last (stacked.image.missing _ inside missing).2)
  rcases Nat.lt_or_ge start.toNat (KERNBASE + PHYSTOP) with inMemory | notMemory
  · -- page zero is mapped first, so its neighbour shows the table
    have low : 0x80000 ≤ pageOf start := Nat.div_le_div_right (c := PGSIZE) inKernel
    have high : pageOf start < 0x8e000 := Nat.div_lt_of_lt_mul inMemory
    have odd : (vm.dir.pte (pageOf start / 2 * 2 + 1)).page ≠ 0 := by
      rw [stacked.image.kernel.memory _ (show 0x80000 ≤ _ by omega) (show _ < 0x8e000 by omega)]
      exact Nat.sub_ne_zero_of_lt (show 0x80000 < _ by omega)
    have table := hasTable_of_page odd
    rw [hasTable_of_same (show _ = pageOf start / NPTENTRIES by
      unfold NPTENTRIES
      omega)] at table
    exact absent table
  · have inDevices : DEVSPACE ≤ start.toNat := by
      by_contra low
      exact outside ⟨notMemory, by omega⟩
    have low : 0xfe000 ≤ pageOf start := Nat.div_le_div_right (c := PGSIZE) inDevices
    refine absent (hasTable_of_page ?_)
    rw [stacked.image.kernel.devices _ low bound]
    omega

/-- A page that `uva2ka` finds by its page table is one of the image, and not the
one that is closed to user code. -/
theorem Stacked.found
    (stacked : Stacked origin vm top)
    (table : vm.dir.hasTable (pageOf va) = true)
    (found : uva2ka null vm (PGROUNDDOWN va) ≠ none) :
    pageOf va < pagesOf top ∧ pageOf va + 2 ≠ pagesOf top := by
  have entry : lookedUp null vm (PGROUNDDOWN va) = vm.dir.pte (pageOf va) := by
    rw [lookedUp, pageOf_PGROUNDDOWN, if_pos table]
  rw [uva2ka, entry] at found
  have present : (vm.dir.pte (pageOf va)).present = true := by
    by_contra absent
    exact found (if_pos (by simpa using absent))
  have user : (vm.dir.pte (pageOf va)).user = true := by
    by_contra closed
    rw [if_neg (by simp [present]), if_pos (by simpa using closed)] at found
    exact found rfl
  refine ⟨?_, fun guard => by simp [stacked.guard _ guard] at user⟩
  by_contra above
  rcases Nat.lt_or_ge (pageOf va) (KERNBASE / PGSIZE) with inGap | inKernel
  · rw [stacked.image.above _ (by omega) inGap] at present
    cases present
  · rw [stacked.image.kernel.supervisor _ inKernel] at user
    cases user

theorem LooksUp.nonempty (looks : LooksUp null vm page va len) :
    len ≠ 0 := by
  cases looks <;> assumption

/-- A copy that starts at a page with a page table and fits below the top of the
stack comes only to pages with a page table. -/
theorem LooksUp.hasTable
    (stacked : Stacked origin vm top)
    (looks : LooksUp null vm page va len)
    (table : vm.dir.hasTable (pageOf va) = true)
    (fits : va.toNat < KERNBASE → va.toNat + len.toNat ≤ top.toNat) :
    vm.dir.hasTable (pageOf page) = true := by
  have below : pagesOf top ≤ 0x80000 := stacked.image.bound
  have whole := stacked.whole
  induction looks with
  | here more first => rw [first, pageOf_PGROUNDDOWN, table]
  | @next len va more found later ih =>
    obtain ⟨inside, open_⟩ := stacked.found table found
    have position : va.toNat = PGSIZE * pageOf va + va.toNat % PGSIZE :=
      (Nat.div_add_mod _ _).symm
    have offset : va.toNat % PGSIZE < PGSIZE := Nat.mod_lt _ (by decide)
    have left := toNat_sub_copyCount va len
    have enough := fits (by unfold PGSIZE KERNBASE at *; omega)
    have next : (PGROUNDDOWN va + 4096).toNat = PGSIZE * (pageOf va + 1) := by
      rw [UInt32.toNat_add, toNat_PGROUNDDOWN]
      change (PGSIZE * pageOf va + 4096) % 2 ^ 32 = _
      unfold PGSIZE KERNBASE at *
      omega
    by_cases last : pageOf va + 1 = pagesOf top
    · -- nothing is left behind the last page
      have done : (len - copyCount va len).toNat = 0 := by
        unfold PGSIZE at *
        omega
      exact absurd (UInt32.toNat_inj.mp done) later.nonempty
    · refine ih ?_ fun _ => by unfold PGSIZE at *; omega
      by_contra absent
      have beyond : pageOf (PGROUNDDOWN va + 4096) = pageOf va + 1 := by
        rw [pageOf, next, Nat.mul_div_cancel_left _ (by decide)]
      rw [beyond] at absent
      have final := (stacked.image.missing (pageOf va + 1) (by omega) (by simpa using absent)).2
      omega

/-- A copy that succeeds has found its first page. -/
theorem found_of_copyout
    (more : len ≠ 0)
    (copied : (copyout running null imageSize vm va len).2 = .ok true) :
    uva2ka null vm (PGROUNDDOWN va) ≠ none := by
  intro missing
  rw [copyout, copyLoop, if_neg more, missing] at copied
  cases copied

/-- All pages that the arguments look up have a page table if those have that the
copies start at. -/
theorem ArgumentsLookUp.hasTable
    (stacked : Stacked origin vm top)
    (looks : ArgumentsLookUp running null top vm page argv argc sp)
    (sound : ∀ start, CopyStarts running null top vm start argv argc sp → StartSound vm top start)
    (strings : ∀ arg ∈ argv, arg.length < KERNBASE)
    (few : argc.toNat ≤ 32)
    (lower : sp.toNat ≤ top.toNat) :
    vm.dir.hasTable (pageOf page) = true := by
  have pushedTable : ∀ {sp : UInt32} {arg : List UInt8}, sp.toNat ≤ top.toNat →
      arg.length < KERNBASE → StartSound vm top (pushed sp arg) →
      vm.dir.hasTable (pageOf (pushed sp arg)) = true := by
    intro sp arg lower short sound
    refine stacked.hasTable sound fun user => ?_
    have fits := pushed_fits short user
    rw [toNat_string short] at fits
    omega
  induction looks with
  | @frame sp argc copied =>
    have fits : (sp - frameSize argc).toNat < KERNBASE →
        (sp - frameSize argc).toNat + (frameSize argc).toNat ≤ top.toNat :=
      fun user => le_trans (frame_fits few user) lower
    have starts : CopyStarts running null top vm (sp - frameSize argc) [] argc sp := .frame rfl
    refine copied.hasTable stacked (stacked.hasTable (sound _ starts) fun user => ?_) fits
    have room := fits user
    rw [toNat_frameSize few] at room
    omega
  | @string argc sp arg rest room copied =>
    have short := strings _ List.mem_cons_self
    have starts : CopyStarts running null top vm (pushed sp arg) (arg :: rest) argc sp :=
      .string room rfl
    exact copied.hasTable stacked (pushedTable lower short (sound _ starts))
      fun user => (pushed_fits short user).trans lower
  | @later argc sp arg rest room copied later ih =>
    have short := strings _ List.mem_cons_self
    have starts : CopyStarts running null top vm (pushed sp arg) (arg :: rest) argc sp :=
      .string room rfl
    have table := pushedTable lower short (sound _ starts)
    obtain ⟨inside, _⟩ := stacked.found table (found_of_copyout (string_ne_zero short) copied)
    refine ih (fun start starts => sound start (.later room copied starts))
      (fun arg member => strings arg (List.mem_cons_of_mem _ member)) (argc_succ room) ?_
    rw [stacked.whole, mul_comm]
    exact le_of_lt ((Nat.div_lt_iff_lt_mul (by decide)).mp inside)

/-- The copies look up the pages that they start at. -/
theorem CopyStarts.looksUp
    (starts : CopyStarts running null top vm start argv argc sp)
    (strings : ∀ arg ∈ argv, arg.length < KERNBASE)
    (few : argc.toNat ≤ 32) :
    ArgumentsLookUp running null top vm (PGROUNDDOWN start) argv argc sp := by
  induction starts with
  | frame first =>
    refine .frame (.here (fun zero => ?_) (congrArg _ first))
    have size := toNat_frameSize few
    rw [zero] at size
    exact absurd size (Nat.ne_of_lt (by change 0 < _; omega))
  | string room first =>
    exact .string room (.here (string_ne_zero (strings _ List.mem_cons_self)) (congrArg _ first))
  | later room copied later ih =>
    exact .later room copied (ih
      (fun arg member => strings arg (List.mem_cons_of_mem _ member)) (argc_succ room))

end Lookups

/-! ## Every image of `exec` -/

/-- The image that `exec` has built, with the stack on top of it. -/
theorem stacked_of_ready
    (supports : Supports link running old start)
    (built : (execImage link running file start).2 = .ok (.built sz image))
    (ready : StackReady link sz image top space) :
    Stacked start.free space top := by
  obtain ⟨framed, below, pages⟩ := (execImage_judges supports file).2 _ built
  obtain ⟨grown, allocated, nonzero, cleared⟩ := ready
  obtain ⟨result, final, returned, grownFramed, growth⟩ :=
    allocuvm_stack supports framed below pages
  obtain ⟨rfl, rfl⟩ := Prod.mk.inj (Except.ok.inj (returned.symm.trans allocated))
  obtain ⟨newPages, guard, size⟩ := growth nonzero
  have inside : pageOf (result - 2 * 4096) < pagesOf result := by omega
  have table : final.dir.hasTable (pageOf (result - 2 * 4096)) = true := by
    by_contra absent
    have last := (newPages.missing _ inside (by simpa using absent)).2
    omega
  rw [clearpteu_eq table] at cleared
  obtain rfl := (Prod.mk.inj (Except.ok.inj cleared)).2
  have whole : result.toNat = PGSIZE * pagesOf result := by
    rw [pagesOf, size]
    unfold PGSIZE
    omega
  refine ⟨newPages.clearpteu inside table, ?_, whole⟩
  intro vpn next
  obtain rfl : vpn = pageOf (result - 2 * 4096) := by omega
  rw [PageDir.pte_setPte _ _ table, if_pos rfl]

/-- For every image that `exec` builds and all argument strings shorter than a
process can be: every address that a copy hands to `uva2ka` has a page table,
exactly when no copy starts in the unmapped part of the kernel half, or in the last
page of the stack if memory ran out for its page table. -/
theorem copyout_hasTable_iff
    (link : Link)
    (running : Nat → Option Nat)
    (null : UInt32)
    (file : List UInt8)
    (argv : List (List UInt8))
    (old : PageDir)
    (vm image space : Vm)
    (sz top : UInt32)
    (supports : Supports link running old vm)
    (built : (execImage link running file vm).2 = .ok (.built sz image))
    (ready : StackReady link sz image top space)
    (strings : ∀ arg ∈ argv, arg.length < KERNBASE) :
    (∀ page, ArgumentsLookUp running null top space page argv 0 top →
        space.dir.hasTable (pageOf page) = true) ↔
      ∀ start, CopyStarts running null top space start argv 0 top →
        StartSound space top start := by
  have stacked := stacked_of_ready supports built ready
  constructor
  · intro tables start starts
    have table := tables _ (starts.looksUp strings (by decide))
    rw [pageOf_PGROUNDDOWN] at table
    refine ⟨fun gap => ?_, fun _ => table⟩
    have absent := stacked.image.kernel.gap (pageOf start) (Nat.div_le_div_right gap.1)
      (Nat.div_lt_of_lt_mul gap.2)
    exact absurd (table.symm.trans absent) (by decide)
  · intro sound page looks
    exact looks.hasTable stacked sound strings (by decide) le_rfl

/-! ## A string that wraps around -/

namespace BareSample

open WrapSample (link running vm)
open UnalignedSample (old supports)

/-- An executable without segments. -/
def file : List UInt8 := [0x7f, 0x45, 0x4c, 0x46] ++ List.replicate 48 0

/-- The image of the executable is a closed page and a stack page. -/
theorem ready {vm : Vm}
    (frames : ∀ page ∈ vm.free, Link.Frame link page)
    (memory : kvmPages + 4 ≤ vm.free.length) :
    ∃ image space first second, (execImage link running file vm).2 = .ok (.built 0 image) ∧
      StackReady link 0 image 8192 space ∧ space.dir.pte 0 = ⟨first, true, true, false⟩ ∧
      space.dir.pte 1 = ⟨second, true, true, true⟩ ∧ (∀ page ∈ space.free, Link.Frame link page) ∧
      vm.free.length ≤ space.free.length + (kvmPages + 4) := by
  obtain ⟨start, started, fresh, length, framed⟩ := setupkvm_returns link vm frames (by omega)
  have absent : ∀ offset < 2, (start.dir.pte (0 + offset)).present = false := by
    intro offset small
    rw [pte_of_no_table (fresh.user _ (by rw [Nat.zero_add]; exact small.trans (by decide)))]
    rfl
  have cost : needed start.dir 0 2 ≤ 4 := needed_le _ _ 2
  obtain ⟨grown, returned, growth, grownFramed⟩ := allocuvm_grows framed
    (show (8192 : UInt32).toNat < KERNBASE by decide)
    (show (0 : UInt32).toNat ≤ _ by decide) absent (cost.trans (by omega))
  obtain ⟨first, firstEntry⟩ := growth.entry 0 (by decide)
  obtain ⟨second, secondEntry⟩ := growth.entry 1 (by decide)
  have table : grown.dir.hasTable 0 = true := by
    refine hasTable_of_present ?_
    rw [show grown.dir.pte 0 = _ from firstEntry]
    rfl
  refine ⟨start, _, first, second, ?_, ⟨grown, returned, by decide, clearpteu_eq table⟩, ?_, ?_,
    grownFramed.free, ?_⟩
  · have elf : readBytes file 0 elfhdrSize = some file := by decide
    have count : leNat ((file.drop 44).take 2) = 0 := by decide
    simp only [execImage, elf, started, count]
    rw [if_neg (by decide), if_neg (by decide)]
    rfl
  · refine (PageDir.pte_setPte _ _ table).trans ?_
    show (⟨(grown.dir.pte 0).page, (grown.dir.pte 0).present, (grown.dir.pte 0).writable, _⟩ : Pte) =
      _
    rw [show grown.dir.pte 0 = _ from firstEntry]
    rfl
  · refine (PageDir.pte_setPte _ _ table).trans ?_
    rw [if_neg (by decide)]
    exact secondEntry
  · have spent := growth.cost
    have bound : needed start.dir (pagesOf 0) (pagesOf 8192 - pagesOf 0) ≤ 4 := cost
    show _ ≤ grown.free.length + _
    omega

/-- Without arguments every lookup has a page table. -/
theorem copyout_hasTable_bare :
    ∃ image space, (execImage link running file vm).2 = .ok (.built 0 image) ∧
      StackReady link 0 image 8192 space ∧
      ∀ page, ArgumentsLookUp running 0 8192 space page [] 0 8192 →
        space.dir.hasTable (pageOf page) = true := by
  obtain ⟨image, space, _, second, built, ready, _, entry, _⟩ := ready WrapSample.frames (by decide)
  refine ⟨image, space, built, ready, ?_⟩
  refine (copyout_hasTable_iff link running 0 file [] old vm image space 0 8192 supports built
    ready (fun _ member => nomatch member)).mpr ?_
  intro start starts
  cases starts with
  | frame first =>
    have position : start = 8176 := first.trans (by decide)
    rw [position]
    exact ⟨by decide, fun _ => hasTable_of_present (by rw [show pageOf 8176 = 1 by decide, entry])⟩

/-- A string of 33 megabytes makes `copyout` look up an address between the
kernel's memory and the devices. -/
theorem copyout_no_table :
    ∃ image space argv page, (execImage link running file vm).2 = .ok (.built 0 image) ∧
      StackReady link 0 image 8192 space ∧ Supports link running old vm ∧
      (∀ arg ∈ argv, arg.length < KERNBASE) ∧
      ArgumentsLookUp running 0 8192 space page argv 0 8192 ∧
      space.dir.hasTable (pageOf page) = false := by
  obtain ⟨image, space, _, _, built, ready, _⟩ := ready WrapSample.frames (by decide)
  have stacked := stacked_of_ready supports built ready
  have short : (List.replicate 0x2100000 (65 : UInt8)).length < KERNBASE := by
    rw [List.length_replicate]
    decide
  have wrapped : pushed 8192 (List.replicate 0x2100000 65) = 0xfdf01ffc := by
    rw [pushed, List.length_replicate]
    decide
  refine ⟨image, space, [List.replicate 0x2100000 65], PGROUNDDOWN 0xfdf01ffc, built, ready,
    supports, ?_, .string (by decide) (.here (string_ne_zero short) (by rw [wrapped])), ?_⟩
  · intro arg member
    rw [List.mem_singleton.mp member]
    exact short
  · exact stacked.image.kernel.gap _ (by decide) (by decide)

end BareSample

end Xv6
