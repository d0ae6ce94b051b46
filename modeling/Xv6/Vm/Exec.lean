import Xv6.Fs.Contents
import Xv6.Vm.Growth

/-!
# Loading a program

The part of `exec` that builds the new address space from the program headers
of an executable: `allocuvm` grows the image to the end of each segment, and
`loaduvm` reads the segment into the physical pages that the new page
directory names.
-/

namespace Xv6

open Cells
open Faulting
open Vm

/-! ## Reading segments into memory -/

/-- One store of `loaduvm` into a physical page. -/
structure Load where
  /-- The virtual address in the new address space. -/
  va : UInt32
  sz : UInt32
  vm : Vm
  page : Nat

/-- Virtual page through which the kernel reaches a physical page. -/
def p2vPage (page : Nat) : Nat := (page + KERNBASE / PGSIZE) % NPAGES

/-- Bytes that `loaduvm` reads into the page at an offset of the segment. -/
def loadCount (sz i : UInt32) : UInt32 := if sz - i < 4096 then sz - i else 4096

/-- The loop of `loaduvm`: the stores, and whether all of the segment was read.
`running` is the physical page that a store to a virtual page reaches in the
address space of the running process, if that page is present and writable. -/
def loadLoop (running : Nat → Option Nat) (file : List UInt8)
    (imageSize : UInt32) (vm : Vm) (addr offset sz : UInt32) :
    (fuel : Nat) → UInt32 → List Load × Except Stop Bool
  | 0, _ => ([], .ok true)
  | fuel + 1, i =>
    if i < sz then
      if vm.dir.hasTable (pageOf (addr + i)) = false then
        ([], .error (.panic "loaduvm: address should exist"))
      else
        match readBytes file (offset + i) (loadCount sz i) with
        | none => ([], .ok false)
        | some bytes =>
          let pa := (vm.dir.pte (pageOf (addr + i))).page
          if bytes = [] then ([], .ok false)
          else
            match running (p2vPage pa) with
            | none => ([], .error (.panic "trap"))
            | some page =>
              let load : Load := ⟨addr + i, imageSize, vm, page⟩
              if bytes.length ≠ (loadCount sz i).toNat then ([load], .ok false)
              else
                let later := loadLoop running file imageSize vm addr offset sz fuel (i + 4096)
                (load :: later.1, later.2)
    else ([], .ok true)

/-- Load a program segment. -/
def loaduvm (running : Nat → Option Nat) (file : List UInt8)
    (imageSize : UInt32) (vm : Vm) (addr offset sz : UInt32) :
    List Load × Except Stop Bool :=
  if addr.toNat % PGSIZE ≠ 0 then
    ([], .error (.panic "loaduvm: addr must be page aligned"))
  else
    loadLoop running file imageSize vm addr offset sz (sz.toNat / PGSIZE + 1) 0

/-! ## The program headers -/

/-- A program header. -/
structure Proghdr where
  type : UInt32
  off : UInt32
  vaddr : UInt32
  filesz : UInt32
  memsz : UInt32

/-- The word at an offset of some bytes. -/
def wordAt (bytes : List UInt8) (start : Nat) : UInt32 :=
  UInt32.ofNat (leNat ((bytes.drop start).take 4))

/-- The program header in some bytes. -/
def Proghdr.ofBytes (bytes : List UInt8) : Proghdr where
  type := wordAt bytes 0
  off := wordAt bytes 4
  vaddr := wordAt bytes 8
  filesz := wordAt bytes 16
  memsz := wordAt bytes 20

/-- Bytes of a program header. -/
abbrev proghdrSize : UInt32 := 32

/-- Bytes of the header of an executable. -/
abbrev elfhdrSize : UInt32 := 52

/-- First word of an executable. -/
abbrev ELF_MAGIC : UInt32 := 0x464C457F

/-- Kind of a segment to load. -/
abbrev ELF_PROG_LOAD : UInt32 := 1

/-- What `exec` makes of the program headers. -/
inductive Image where
  /-- The executable is refused and there is no new page directory. -/
  | absent
  /-- The executable is refused; the address space is to be freed. -/
  | refused (vm : Vm)
  /-- All segments are loaded, into an image of a size. -/
  | built (sz : UInt32) (vm : Vm)

/-- The loop of `exec` over the program headers: the stores, and the image. -/
def loadSegments (link : Link) (running : Nat → Option Nat) (file : List UInt8) :
    (count : Nat) → (off sz : UInt32) → Vm → List Load × Except Stop Image
  | 0, _, sz, vm => ([], .ok (.built sz vm))
  | count + 1, off, sz, vm =>
    match readBytes file off proghdrSize with
    | none => ([], .ok (.refused vm))
    | some bytes =>
      if bytes.length ≠ proghdrSize.toNat then ([], .ok (.refused vm))
      else
        let ph := Proghdr.ofBytes bytes
        if ph.type ≠ ELF_PROG_LOAD then
          loadSegments link running file count (off + proghdrSize) sz vm
        else if ph.memsz < ph.filesz then ([], .ok (.refused vm))
        else
          match allocuvm link sz (ph.vaddr + ph.memsz) vm with
          | .error reason => ([], .error reason)
          | .ok (newsz, vm) =>
            if newsz = 0 then ([], .ok (.refused vm))
            else
              match loaduvm running file newsz vm ph.vaddr ph.off ph.filesz with
              | (loads, .error reason) => (loads, .error reason)
              | (loads, .ok false) => (loads, .ok (.refused vm))
              | (loads, .ok true) =>
                let later := loadSegments link running file count (off + proghdrSize) newsz vm
                (loads ++ later.1, later.2)

/-- Building the new address space in `exec`, up to the stack. -/
def execImage (link : Link) (running : Nat → Option Nat) (file : List UInt8)
    (vm : Vm) : List Load × Except Stop Image :=
  match readBytes file 0 elfhdrSize with
  | none => ([], .ok .absent)
  | some elf =>
    if elf.length < elfhdrSize.toNat then ([], .ok .absent)
    else if wordAt elf 0 ≠ ELF_MAGIC then ([], .ok .absent)
    else
      match setupkvm link vm with
      | .error reason => ([], .error reason)
      | .ok (false, _) => ([], .ok .absent)
      | .ok (true, vm) =>
        loadSegments link running file (leNat ((elf.drop 44).take 2)) (wordAt elf 28) 0 vm

/-! ## The image under construction -/

/-- An address space whose first `count` user pages have been allocated from the
free list `origin`. -/
structure UserPages (origin : List Nat) (vm : Vm) (count : Nat) : Prop where
  /-- The pages lie below the kernel. -/
  bound : count ≤ KERNBASE / PGSIZE
  kernel : KernelHalf vm.dir
  /-- Pages with a page table are mapped to allocated memory. -/
  mapped : ∀ vpn < count, vm.dir.hasTable vpn = true → (vm.dir.pte vpn).page ∈ vm.taken
  /-- A page table is only missing when memory has run out at the last page. -/
  missing : ∀ vpn < count, vm.dir.hasTable vpn = false → vm.free = [] ∧ vpn + 1 = count
  /-- Nothing is mapped between the image and the kernel. -/
  above : ∀ vpn, count ≤ vpn → vpn < KERNBASE / PGSIZE → vm.dir.pte vpn = Pte.zero
  /-- All memory comes from the free list. -/
  source : ∀ page, page ∈ vm.free ∨ page ∈ vm.taken → page ∈ origin

theorem Vm.KernelHalf.of_userMapped
    (kernel : KernelHalf vm.dir)
    (mapped : UserMapped vm final vpn page)
    (user : vpn < KERNBASE / PGSIZE) :
    KernelHalf final.dir := by
  have entry : ∀ other, KERNBASE / PGSIZE ≤ other → final.dir.pte other = vm.dir.pte other :=
    fun other low => mapped.pte (by omega)
  refine ⟨fun other low high => ?_, fun other low high => ?_, fun other low high => ?_,
    fun other low => ?_⟩
  · rw [entry other low]
    exact kernel.memory other low high
  · rw [← Bool.not_eq_true, mapped.tables, kernel.gap other low high]
    have low : 0x8e000 ≤ other := low
    have user : vpn < 0x80000 := user
    simp only [Bool.false_eq_true, or_false]
    unfold NPTENTRIES
    omega
  · rw [entry other (le_trans (by decide) low)]
    exact kernel.devices other low high
  · rw [entry other low]
    exact kernel.supervisor other low

/-- Allocating one more page, whether or not its mapping succeeds. -/
theorem UserPages.mappages
    (link : Link)
    (image : UserPages origin vm count)
    (room : count < KERNBASE / PGSIZE)
    (nonempty : vm.free = page :: rest)
    (address : a.toNat = PGSIZE * count)
    (physical : page < PHYSTOP / PGSIZE) :
    Run.Spec (Vm.mappages a 4096 (UInt32.ofNat (PGSIZE * page)) ⟨true, true⟩)
      { vm with free := rest, taken := page :: vm.taken }
      (fun _ final => UserPages origin final (count + 1) ∧ (Framed link vm → Framed link final))
      (fun _ => False) := by
  have source : ∀ other, other ∈ rest ∨ other ∈ page :: vm.taken → other ∈ origin := by
    rintro other (inRest | inTaken)
    · exact image.source other (Or.inl (by rw [nonempty]; simp [inRest]))
    · rcases List.mem_cons.mp inTaken with rfl | old
      · exact image.source other (Or.inl (by rw [nonempty]; simp))
      · exact image.source other (Or.inr old)
  have frames : Framed link vm →
      Framed link { vm with free := rest, taken := page :: vm.taken } ∧ Link.Frame link page := by
    intro framed
    obtain ⟨frame, _, still⟩ := framed.take nonempty
    exact ⟨still _, frame⟩
  have kernel : KernelHalf ({ vm with free := rest, taken := page :: vm.taken } : Vm).dir :=
    image.kernel
  -- a missing table would mean that no page was left to allocate
  have tables : ∀ vpn < count, vm.dir.hasTable vpn = true := by
    intro vpn below
    by_contra absent
    have empty := (image.missing vpn below (by simpa using absent)).1
    rw [nonempty] at empty
    cases empty
  refine (mappages_user room address physical _).mono ?_ ?_
  · rintro result final (⟨_, _, mapped⟩ | ⟨_, empty, absent, rfl⟩)
    · refine ⟨⟨room, Vm.KernelHalf.of_userMapped kernel mapped room, ?_, ?_, ?_, ?_⟩,
        fun framed => mapped.framed (frames framed).1 (frames framed).2⟩
      · intro vpn below _
        rw [mapped.entered.log]
        by_cases last : vpn = count
        · rw [last, mapped.newPte]
          exact List.mem_cons_self
        · rw [mapped.pte last]
          exact List.mem_cons_of_mem _ (image.mapped vpn (by omega) (tables vpn (by omega)))
      · intro vpn below missing
        refine absurd ((mapped.tables vpn).mpr ?_) (by rw [missing]; exact Bool.false_ne_true)
        by_cases last : vpn = count
        · exact .inl (by rw [last])
        · exact .inr (tables vpn (by omega))
      · intro vpn lower upper
        rw [mapped.pte (by omega)]
        exact image.above vpn (by omega) upper
      · rintro other (free | taken)
        · exact source other (Or.inl (mapped.entered.free.subset free))
        · rw [mapped.entered.log] at taken
          exact source other (Or.inr taken)
    · refine ⟨⟨room, image.kernel, ?_, ?_, ?_, source⟩, fun framed => (frames framed).1⟩
      · intro vpn below present
        by_cases last : vpn = count
        · rw [last] at present
          exact absurd (present.symm.trans absent) (by decide)
        · exact List.mem_cons_of_mem _ (image.mapped vpn (by omega) present)
      · intro vpn below missing
        refine ⟨empty, ?_⟩
        by_contra earlier
        exact absurd ((tables vpn (by omega)).symm.trans missing) (by decide)
      · exact fun vpn lower upper => image.above vpn (by omega) upper
  · rintro _ ⟨_, present⟩
    rw [show ({ vm with free := rest, taken := page :: vm.taken } : Vm).dir.pte count = Pte.zero
      from image.above count le_rfl room] at present
    cases present

/-- Physical memory that the free list may hold. -/
def InMemory (origin : List Nat) : Prop :=
  ∀ page ∈ origin, 0 < page ∧ page < PHYSTOP / PGSIZE

/-- `allocuvm` grows the image to the requested size, or leaves a larger one as
it is. -/
theorem allocuvm_spec
    (link : Link)
    (memory : InMemory origin)
    (newsz : UInt32)
    (image : UserPages origin vm (pagesOf oldsz))
    (below : oldsz.toNat < KERNBASE) :
    Run.Spec (allocuvm link oldsz newsz) vm
      (fun result final => (Framed link vm → Framed link final) ∧
        (result ≠ 0 → newsz.toNat ≤ result.toNat ∧ result.toNat < KERNBASE ∧
          UserPages origin final (pagesOf result) ∧ (oldsz ≤ newsz → result = newsz)))
      (fun _ => ¬Framed link vm) := by
  unfold allocuvm
  split
  · exact ⟨id, fun impossible => absurd rfl impossible⟩
  rename_i newBelow
  split
  · rename_i smaller
    exact ⟨id, fun _ => ⟨le_of_lt (UInt32.lt_iff_toNat_lt.mp smaller), below, image,
      fun larger => absurd smaller (UInt32.not_lt.mpr larger)⟩⟩
  rename_i notSmaller
  have grows : pagesOf oldsz ≤ pagesOf newsz := by
    rw [UInt32.not_lt, UInt32.le_iff_toNat_le] at notSmaller
    exact Nat.div_le_div_right (by omega)
  -- every page is taken for the image, whether or not it is mapped
  refine allocLoop_rule (P := fun vpn now =>
      (Framed link vm → Framed link now) ∧ UserPages origin now vpn)
    (by omega) ?_ ?_ ?_ _ ?_ grows ⟨id, image⟩ (toNat_PGROUNDUP below)
  · exact fun now ⟨framed, grown⟩ => ⟨framed, fun _ => ⟨le_rfl, by omega, grown, fun _ => rfl⟩⟩
  · intro _ now _ ⟨still, _⟩ _
    by_cases framed : Framed link now
    · refine (deallocuvm_framed (by omega) oldsz framed).mono ?_ (fun _ => False.elim)
      exact fun _ final ⟨_, _, finalFramed⟩ => ⟨fun _ => finalFramed, fun none => absurd rfl none⟩
    · refine (Run.Spec.trivial _ _).mono ?_ fun _ _ started => framed (still started)
      exact fun _ _ _ => ⟨fun started => absurd (still started) framed, fun none => absurd rfl none⟩
  · intro vpn now page rest a _ room ⟨still, grown⟩ nonempty address
    have physical := memory page (grown.source page (.inl (by rw [nonempty]; simp)))
    refine (grown.mappages link room nonempty address physical.2).mono ?_ (fun _ => False.elim)
    exact fun _ next ⟨further, framed⟩ => ⟨fun started => framed (still started), further⟩
  · unfold pagesOf PGSIZE
    omega

/-! ## Where the stores go -/

/-- The address space in which the kernel runs while it builds the new one: its
kernel part reaches physical memory, and nothing else of it is on the free
list. -/
structure RunningSpace (running : Nat → Option Nat) (free : List Nat) : Prop where
  /-- Physical memory is mapped from `KERNBASE` on. -/
  memory : ∀ vpn page, KERNBASE / PGSIZE ≤ vpn →
    vpn < (KERNBASE + PHYSTOP) / PGSIZE → running vpn = some page → page = vpn - KERNBASE / PGSIZE
  /-- The other pages in use are not free. -/
  elsewhere : ∀ vpn page, ¬(KERNBASE / PGSIZE ≤ vpn ∧ vpn < (KERNBASE + PHYSTOP) / PGSIZE) →
    running vpn = some page → page ∉ free

/-- What is known of a store: it goes through an entry of the page tables. -/
structure Load.Walked (running : Nat → Option Nat) (load : Load) : Prop where
  /-- The virtual page has a page table. -/
  table : load.vm.dir.hasTable (pageOf load.va) = true
  /-- The store is made at the kernel's address of the entry's page. -/
  target : running (p2vPage (load.vm.dir.pte (pageOf load.va)).page) = some load.page

theorem loadLoop_walked
    (running : Nat → Option Nat)
    (file : List UInt8)
    (imageSize : UInt32)
    (vm : Vm)
    (addr offset sz : UInt32)
    (fuel : Nat)
    (i : UInt32) :
    ∀ load ∈ (loadLoop running file imageSize vm addr offset sz fuel i).1,
      load.vm = vm ∧ load.sz = imageSize ∧ load.Walked running ∧
        ∃ index, index < sz ∧ load.va = addr + index := by
  induction fuel generalizing i with
  | zero =>
    intro load member
    cases member
  | succ fuel ih =>
    intro load member
    simp only [loadLoop] at member
    split at member
    · rename_i inside
      split at member
      · cases member
      rename_i table
      split at member
      · cases member
      split at member
      · cases member
      split at member
      · cases member
      rename_i page target
      have here : ∀ load : Load, load = ⟨addr + i, imageSize, vm, page⟩ →
          load.vm = vm ∧ load.sz = imageSize ∧ load.Walked running ∧
            ∃ index, index < sz ∧ load.va = addr + index := by
        rintro load rfl
        exact ⟨rfl, rfl, ⟨by simpa using table, target⟩, i, inside, rfl⟩
      split at member
      · exact here load (List.mem_singleton.mp member)
      · rcases List.mem_cons.mp member with first | later
        · exact here load first
        · exact ih (i + 4096) load later
    · cases member

theorem loaduvm_walked
    (running : Nat → Option Nat)
    (file : List UInt8)
    (imageSize : UInt32)
    (vm : Vm)
    (addr offset sz : UInt32) :
    ∀ load ∈ (loaduvm running file imageSize vm addr offset sz).1,
      load.vm = vm ∧ load.sz = imageSize ∧ load.Walked running ∧
        ∃ index, index < sz ∧ load.va = addr + index := by
  unfold loaduvm
  split
  · intro load member
    cases member
  · exact loadLoop_walked running file imageSize vm addr offset sz _ 0

/-- The store stays in the pages of the image, or the address is the kernel's
own address of such a page. -/
def Load.InImage (load : Load) : Prop :=
  load.va < PGROUNDUP load.sz ∨ KERNBASE ≤ load.va.toNat ∧ load.va.toNat < KERNBASE + PHYSTOP ∧
      (load.va.toNat - KERNBASE) / PGSIZE ∈ load.vm.taken

/-- A store reaches memory of the image exactly when its address is one of the
image. -/
theorem Load.taken_iff_inImage {origin : List Nat}
    (memory : InMemory origin)
    (space : RunningSpace running origin)
    {load : Load}
    (walked : load.Walked running)
    (below : load.sz.toNat < KERNBASE)
    (image : UserPages origin load.vm (pagesOf load.sz)) :
    load.page ∈ load.vm.taken ↔ load.InImage := by
  have taken : ∀ page ∈ load.vm.taken, 0 < page ∧ page < 0xe000 :=
    fun page member => memory page (image.source page (Or.inr member))
  have userBound : pagesOf load.sz ≤ 0x80000 := image.bound
  have page : load.va.toNat < 2 ^ 32 := load.va.toNat_lt
  have target := walked.target
  have rounded : load.va < PGROUNDUP load.sz ↔ pageOf load.va < pagesOf load.sz := by
    rw [UInt32.lt_iff_toNat_lt, toNat_PGROUNDUP below, pageOf]
    unfold PGSIZE
    omega
  have upper : pageOf load.va < 0x100000 := by
    unfold pageOf PGSIZE
    omega
  have kernel : KERNBASE ≤ load.va.toNat ↔ 0x80000 ≤ pageOf load.va := by
    unfold pageOf PGSIZE KERNBASE
    omega
  have top : load.va.toNat < KERNBASE + PHYSTOP ↔ pageOf load.va < 0x8e000 := by
    unfold pageOf PGSIZE KERNBASE PHYSTOP
    omega
  have mirror : (load.va.toNat - KERNBASE) / PGSIZE = pageOf load.va - 0x80000 := by
    unfold pageOf PGSIZE KERNBASE
    omega
  unfold InImage
  rw [rounded, kernel, top, mirror]
  have direct : ∀ physical, physical < 0xe000 →
      running (p2vPage physical) = some load.page → load.page = physical := by
    intro physical bound reached
    have position : p2vPage physical = physical + 0x80000 :=
      Nat.mod_eq_of_lt (show physical + 0x80000 < 0x100000 by omega)
    rw [position] at reached
    have := space.memory _ _ (show 0x80000 ≤ physical + 0x80000 by omega)
      (show physical + 0x80000 < 0x8e000 by omega) reached
    rw [this]
    exact Nat.add_sub_cancel _ _
  rcases Nat.lt_or_ge (pageOf load.va) (pagesOf load.sz) with inUser | notUser
  · -- a page of the image
    have mapped := image.mapped _ inUser walked.table
    have reached := direct _ (taken _ mapped).2 target
    rw [reached]
    exact ⟨fun _ => Or.inl inUser, fun _ => mapped⟩
  rcases Nat.lt_or_ge (pageOf load.va) 0x80000 with inGap | inKernel
  · -- an entry that was never set names page zero
    have entry := image.above _ notUser inGap
    rw [entry] at target
    have reached := direct 0 (by omega) target
    rw [reached]
    constructor
    · intro member
      exact absurd (taken 0 member).1 (lt_irrefl 0)
    · rintro (inside | ⟨lower, _⟩)
      · omega
      · omega
  rcases Nat.lt_or_ge (pageOf load.va) 0x8e000 with inMemory | beyond
  · have entry := image.kernel.memory _ inKernel inMemory
    have entry : (load.vm.dir.pte (pageOf load.va)).page = pageOf load.va - 0x80000 := entry
    rw [entry] at target
    have reached := direct _ (by omega) target
    rw [reached]
    constructor
    · intro member
      exact Or.inr ⟨inKernel, inMemory, member⟩
    · rintro (inside | ⟨_, _, member⟩)
      · omega
      · exact member
  · rcases Nat.lt_or_ge (pageOf load.va) 0xfe000 with inHole | inDevices
    · have absent := image.kernel.gap _ beyond inHole
      rw [walked.table] at absent
      cases absent
    -- a device address names a page that no free list holds
    have entry := image.kernel.devices _ inDevices upper
    rw [entry] at target
    have position : p2vPage (pageOf load.va) = pageOf load.va - 0x80000 := by
      have wraps : (pageOf load.va + 0x80000) % 0x100000 = pageOf load.va - 0x80000 := by omega
      exact wraps
    rw [position] at target
    have foreign := space.elsewhere _ _ (fun inside => by
      have lower : 0x80000 ≤ pageOf load.va - 0x80000 := inside.1
      omega) target
    constructor
    · intro member
      exact absurd (image.source _ (Or.inr member)) foreign
    · rintro (inside | ⟨_, inside, _⟩)
      · omega
      · omega

/-- A loadable program header of the file that `exec` can read. -/
def Loadable (file : List UInt8) (ph : Proghdr) : Prop :=
  ∃ off bytes, readBytes file off proghdrSize = some bytes ∧
    ph = Proghdr.ofBytes bytes ∧ ph.type = ELF_PROG_LOAD

/-- Where a store of `exec` comes from. -/
structure Load.FromSegment (running : Nat → Option Nat) (origin : List Nat)
    (load : Load) (ph : Proghdr) : Prop where
  /-- The segment is not shorter in memory than in the file. -/
  ordered : ¬ph.memsz < ph.filesz
  /-- The image reaches the end of the segment, as computed in 32 bits. -/
  grown : (ph.vaddr + ph.memsz).toNat ≤ load.sz.toNat
  /-- The image lies below the kernel. -/
  below : load.sz.toNat < KERNBASE
  image : UserPages origin load.vm (pagesOf load.sz)
  walked : load.Walked running
  /-- The address is one of the segment. -/
  address : ∃ index, index < ph.filesz ∧ load.va = ph.vaddr + index

theorem loadSegments_fromSegment
    (link : Link)
    (running : Nat → Option Nat)
    (memory : InMemory origin)
    (file : List UInt8)
    (count : Nat)
    (off : UInt32)
    (below : sz.toNat < KERNBASE)
    (image : UserPages origin vm (pagesOf sz)) :
    ∀ load ∈ (loadSegments link running file count off sz vm).1,
      ∃ ph, Loadable file ph ∧ load.FromSegment running origin ph := by
  induction count generalizing off sz vm with
  | zero =>
    intro load member
    cases member
  | succ count ih =>
    intro load member
    simp only [loadSegments] at member
    split at member
    · cases member
    rename_i bytes header
    split at member
    · cases member
    split at member
    · exact ih _ below image load member
    rename_i loadable
    split at member
    · cases member
    rename_i ordered
    split at member
    · cases member
    rename_i newsz grown allocated
    split at member
    · cases member
    rename_i nonzero
    obtain ⟨reached, newBelow, newImage, _⟩ :=
      ((allocuvm_spec link memory _ image below).of_ok allocated).2 nonzero
    have here : ∀ load ∈ (loaduvm running file newsz grown
        (Proghdr.ofBytes bytes).vaddr (Proghdr.ofBytes bytes).off
        (Proghdr.ofBytes bytes).filesz).1,
        ∃ ph, Loadable file ph ∧ load.FromSegment running origin ph := by
      intro load member
      obtain ⟨rfl, rfl, walked, address⟩ :=
        loaduvm_walked running file newsz grown _ _ _ load member
      exact ⟨Proghdr.ofBytes bytes, ⟨off, bytes, header, rfl, not_not.mp loadable⟩,
        ⟨ordered, reached, newBelow, newImage, walked, address⟩⟩
    split at member
    · rename_i loaded
      rw [loaded] at here
      exact here load member
    · rename_i loaded
      rw [loaded] at here
      exact here load member
    · rename_i loaded
      rw [loaded] at here
      rcases List.mem_append.mp member with first | later
      · exact here load first
      · exact ih _ newBelow newImage load later

/-- A fresh directory holds no user pages. -/
theorem UserPages.of_fresh
    (fresh : Fresh vm final)
    (unused : vm.taken = []) :
    UserPages vm.free final (pagesOf 0) where
  bound := by decide
  kernel := fresh.kernel
  mapped := by
    intro vpn below
    exact absurd below (Nat.not_lt_zero vpn)
  missing := by
    intro vpn below
    exact absurd below (Nat.not_lt_zero vpn)
  above := by
    intro vpn _ user
    have absent := fresh.user vpn user
    unfold PageDir.hasTable at absent
    simp only [Option.isSome_eq_false_iff, Option.isNone_iff_eq_none] at absent
    rw [PageDir.pte, absent]
  source := by
    rintro page (free | taken)
    · exact fresh.free.subset free
    · rw [fresh.taken, unused] at taken
      cases taken

theorem execImage_fromSegment
    (link : Link)
    (running : Nat → Option Nat)
    (file : List UInt8)
    (vm : Vm)
    (memory : InMemory vm.free)
    (unused : vm.taken = []) :
    ∀ load ∈ (execImage link running file vm).1,
      ∃ ph, Loadable file ph ∧ load.FromSegment running vm.free ph := by
  intro load member
  unfold execImage at member
  split at member
  · cases member
  split at member
  · cases member
  split at member
  · cases member
  · split at member
    · cases member
    · cases member
    · rename_i started
      have fresh := (fresh_of_setupkvm started).1
      exact loadSegments_fromSegment link running memory file _ _ (by decide)
        (UserPages.of_fresh fresh unused) load member

/-! ## A segment that wraps around -/

namespace WrapSample

/-- An executable with one segment of four bytes at address `0x2000`, whose size
in memory wraps around so that it seems to end at `0x1000`. -/
def file : List UInt8 :=
  [0x7f, 0x45, 0x4c, 0x46] ++ List.replicate 24 0 ++ leBytes 4 52 ++
    List.replicate 12 0 ++ leBytes 2 1 ++ List.replicate 6 0 ++
    leBytes 4 1 ++ leBytes 4 0 ++ leBytes 4 0x2000 ++ leBytes 4 0 ++
    leBytes 4 4 ++ leBytes 4 0xfffff000 ++ leBytes 4 0 ++ leBytes 4 0

/-- The kernel's part of the running address space. -/
def running (vpn : Nat) : Option Nat :=
  if KERNBASE / PGSIZE ≤ vpn ∧ vpn < (KERNBASE + PHYSTOP) / PGSIZE then
    some (vpn - KERNBASE / PGSIZE)
  else none

/-- A hundred free pages. -/
def vm : Vm where
  free := List.range' 0x1000 100
  dir := ⟨0, fun _ => none⟩
  taken := []

theorem inMemory : InMemory vm.free := by
  intro page member
  have range := List.mem_range'_1.mp member
  exact ⟨by omega, lt_trans range.2 (by decide)⟩

theorem frames : ∀ page ∈ vm.free, Link.Frame link page := by
  intro page member
  obtain ⟨low, high⟩ := List.mem_range'_1.mp member
  unfold Link.Frame PGSIZE
  exact ⟨show 0x80110000 ≤ 0x80000000 + 4096 * page by omega, show 4096 * page < 0xE000000 by omega⟩

theorem space : RunningSpace running vm.free where
  memory := by
    intro vpn page low high reached
    rw [running, if_pos ⟨low, high⟩] at reached
    exact (Option.some.inj reached).symm
  elsewhere := by
    intro vpn page outside reached
    rw [running, if_neg outside] at reached
    cases reached

/-- An empty image can be grown to one page. -/
theorem allocuvm_one :
    ∃ start, setupkvm link vm = .ok (true, start) ∧ Fresh vm start ∧
      ∃ final, allocuvm link 0 0x1000 start = .ok (0x1000, final) ∧
        final.dir.hasTable 2 = true := by
  obtain ⟨start, started, fresh, length, framed⟩ := setupkvm_returns link vm frames (by decide)
  have memory : 2 ≤ start.free.length := by
    have total : vm.free.length = 100 := by decide
    unfold kvmPages at length
    omega
  have absent : ∀ offset < 1, (start.dir.pte (0 + offset)).present = false := by
    intro offset small
    rw [pte_of_no_table (fresh.user _ (by rw [Nat.zero_add]; exact small.trans (by decide)))]
    rfl
  obtain ⟨final, returned, grown, _⟩ := allocuvm_grows framed
    (show (0x1000 : UInt32).toNat < KERNBASE by decide)
    (show (0 : UInt32).toNat ≤ _ by decide) absent ((needed_le _ _ 1).trans memory)
  exact ⟨start, started, fresh, final, returned, (grown.tables 2).mpr (.inr ⟨0, by decide, rfl⟩)⟩

/-- The segment is stored into physical page zero. -/
theorem stores_page_zero :
    ∃ load ∈ (execImage link running file vm).1, load.page ∉ load.vm.taken := by
  obtain ⟨start, started, fresh, final, grown, table⟩ := allocuvm_one
  obtain ⟨_, _, image, _⟩ := ((allocuvm_spec link inMemory _
    (UserPages.of_fresh fresh rfl) (by decide)).of_ok grown).2 (by decide)
  have unmapped : final.dir.pte 2 = Pte.zero :=
    image.above 2 (by decide) (by decide)
  have loaded : loaduvm running file 0x1000 final 0x2000 0 4 =
      ([⟨0x2000, 0x1000, final, 0⟩], .ok true) := by
    have header : readBytes file (0 + 0) (loadCount 4 0) =
        some [0x7f, 0x45, 0x4c, 0x46] := by decide
    have page : pageOf (0x2000 + 0) = 2 := by decide
    have target : running (p2vPage Pte.zero.page) = some 0 := by decide
    have rounds : (4 : UInt32).toNat / PGSIZE + 1 = 1 := by decide
    rw [loaduvm, if_neg (by decide), rounds, loadLoop, if_pos (by decide), page,
      table, if_neg (by decide), header]
    simp only [unmapped, target]
    rfl
  have headers : (execImage link running file vm).1 =
      (loadSegments link running file 1 52 0 start).1 := by
    have elf : readBytes file 0 elfhdrSize = some (file.take 52) := by decide
    have count : leNat (((file.take 52).drop 44).take 2) = 1 := by decide
    have offset : wordAt (file.take 52) 28 = 52 := by decide
    simp only [execImage, elf, started, count, offset]
    rw [if_neg (by decide), if_neg (by decide)]
  have segment : (loadSegments link running file 1 52 0 start).1 =
      [⟨0x2000, 0x1000, final, 0⟩] := by
    have header : readBytes file 52 proghdrSize = some ((file.drop 52).take 32) := by decide
    have type : (Proghdr.ofBytes ((file.drop 52).take 32)).type = ELF_PROG_LOAD := by decide
    have vaddr : (Proghdr.ofBytes ((file.drop 52).take 32)).vaddr = 0x2000 := by
      decide
    have off : (Proghdr.ofBytes ((file.drop 52).take 32)).off = 0 := by decide
    have filesz : (Proghdr.ofBytes ((file.drop 52).take 32)).filesz = 4 := by
      decide
    have memsz : (Proghdr.ofBytes ((file.drop 52).take 32)).memsz = 0xfffff000 := by decide
    have ending : (0x2000 : UInt32) + 0xfffff000 = 0x1000 := by decide
    simp only [loadSegments, header, type, vaddr, off, filesz, memsz, ending, grown, loaded]
    rw [if_neg (by decide), if_neg (by decide), if_neg (by decide), if_neg (by decide)]
    rfl
  rw [headers, segment]
  refine ⟨_, List.mem_singleton_self _, ?_⟩
  intro member
  exact absurd (inMemory 0 (image.source 0 (Or.inr member))).1 (by decide)

end WrapSample

end Xv6
