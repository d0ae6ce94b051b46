import Xv6.Vm.Exec

/-!
# The stack of a new program

The rest of `exec` after the program headers: two pages for the stack, the
arguments copied to its top, and the change to the new address space, or the
way out that frees it.  The main result says for which executables and
arguments `exec` comes to its end: every segment it reaches must be aligned to
pages and lie in memory that was really allocated, since `exec` checks neither,
and the arguments must not run into addresses without a page table, since
`uva2ka` does not look for a null pointer.
-/

namespace Xv6

open Cells
open Faulting
open Vm

/-- Largest number of arguments. -/
abbrev MAXARG : UInt32 := 32

/-! ## Outcomes -/

/-- The stores of a part of `exec`, and how it ends. -/
abbrev Outcome (α : Type) := List Load × Except Stop α

namespace Outcome

/-- One part of `exec` after another. -/
def andThen (first : Outcome α) (next : α → Outcome β) : Outcome β :=
  match first with
  | (loads, .error reason) => (loads, .error reason)
  | (loads, .ok value) => (loads ++ (next value).1, (next value).2)

/-- A part of `exec` that stores nothing through physical addresses. -/
def ofRun (result : Except Stop α) : Outcome α := ([], result)

/-- The part comes to its end, and has only stored into memory allocated for
the new address space. -/
def Survives (outcome : Outcome α) : Prop :=
  (∀ load ∈ outcome.1, load.page ∈ load.vm.taken) ∧ ∃ value, outcome.2 = .ok value

theorem survives_andThen_iff
    (first : Outcome α)
    (next : α → Outcome β) :
    (first.andThen next).Survives ↔
      first.Survives ∧ ∀ value, first.2 = .ok value → (next value).Survives := by
  obtain ⟨loads, _ | value⟩ := first
  · simp [andThen, Survives]
  simp only [andThen, Survives, List.mem_append, Except.ok.injEq, exists_eq', and_true, forall_eq']
  constructor
  · rintro ⟨confined, ended⟩
    exact ⟨fun load member => confined load (Or.inl member),
      fun load member => confined load (Or.inr member), ended⟩
  · rintro ⟨confined, later, ended⟩
    exact ⟨fun load member => member.elim (confined load) (later load), ended⟩

theorem survives_ok (value : α) :
    Survives (([], .ok value) : Outcome α) :=
  ⟨fun _ member => absurd member List.not_mem_nil, value, rfl⟩

theorem survives_ofRun_of_returns {value : α}
    (returns : result = .ok value) :
    (ofRun result).Survives :=
  ⟨fun _ member => absurd member List.not_mem_nil, value, returns⟩

@[simp] theorem andThen_ofRun_ok
    (value : α)
    (next : α → Outcome β) :
    (ofRun (.ok value)).andThen next = next value := rfl

theorem not_survives_error
    (loads : List Load)
    (reason : Stop) :
    ¬Survives ((loads, .error reason) : Outcome α) := by
  rintro ⟨_, _, impossible⟩
  cases impossible

/-- A store in front of a part of `exec`. -/
theorem survives_cons_iff {rest : Outcome α} :
    Survives ((load :: rest.1, rest.2) : Outcome α) ↔
      load.page ∈ load.vm.taken ∧ rest.Survives := by
  simp only [Survives, List.mem_cons, forall_eq_or_imp, and_assoc]

end Outcome

open Outcome

/-! ## Copying to the new address space -/

/-- A word of memory read as a page table entry. -/
def Pte.ofWord (word : UInt32) : Pte where
  page := word.toNat / PGSIZE
  present := word.toNat.testBit 0
  writable := word.toNat.testBit 1
  user := word.toNat.testBit 2

/-- The entry that `uva2ka` looks at.  Without a page table `walkpgdir` returns a
null pointer, and `uva2ka` reads the word at address zero of the running
process. -/
def lookedUp (null : UInt32) (vm : Vm) (uva : UInt32) : Pte :=
  if vm.dir.hasTable (pageOf uva) then vm.dir.pte (pageOf uva) else Pte.ofWord null

/-- Map a user virtual address to the kernel's page for it.  Page zero stands
for the null pointer that `copyout` takes for a failure. -/
def uva2ka (null : UInt32) (vm : Vm) (uva : UInt32) : Option Nat :=
  if (lookedUp null vm uva).present = false then none
  else if (lookedUp null vm uva).user = false then none
  else if p2vPage (lookedUp null vm uva).page = 0 then none
  else some (p2vPage (lookedUp null vm uva).page)

/-- Start of the page of an address. -/
def PGROUNDDOWN (a : UInt32) : UInt32 := a / 4096 * 4096

/-- Bytes that one round of `copyout` copies. -/
def copyCount (va len : UInt32) : UInt32 :=
  if len < 4096 - (va - PGROUNDDOWN va) then len
  else 4096 - (va - PGROUNDDOWN va)

/-- The loop of `copyout`: the stores, and whether all pages were found. -/
def copyLoop (running : Nat → Option Nat) (null imageSize : UInt32) (vm : Vm) :
    (fuel : Nat) → (va len : UInt32) → Outcome Bool
  | 0, _, _ => ([], .ok true)
  | fuel + 1, va, len =>
    if len = 0 then ([], .ok true)
    else
      match uva2ka null vm (PGROUNDDOWN va) with
      | none => ([], .ok false)
      | some target =>
        match running target with
        | none => ([], .error (.panic "trap"))
        | some page =>
          let later := copyLoop running null imageSize vm fuel
            (PGROUNDDOWN va + 4096) (len - copyCount va len)
          (⟨va, imageSize, vm, page⟩ :: later.1, later.2)

/-- Copy bytes to a user address of a page directory. -/
def copyout (running : Nat → Option Nat) (null imageSize : UInt32) (vm : Vm)
    (va len : UInt32) : Outcome Bool :=
  copyLoop running null imageSize vm (len.toNat / PGSIZE + 2) va len

/-! ## The stack -/

/-- Address of an argument string pushed on the stack. -/
def pushed (sp : UInt32) (arg : List UInt8) : UInt32 :=
  (sp - (UInt32.ofNat arg.length + 1)) / 4 * 4

/-- Bytes of the frame below the strings: the return address, `argc`, `argv` and
its elements. -/
def frameSize (argc : UInt32) : UInt32 := (3 + argc + 1) * 4

/-- Push the argument strings and the frame below them: the stores, and the
stack pointer unless a copy fails. -/
def pushArguments (running : Nat → Option Nat) (null imageSize : UInt32) (vm : Vm) :
    (argv : List (List UInt8)) → (argc sp : UInt32) → Outcome (Option UInt32)
  | [], argc, sp =>
    (copyout running null imageSize vm (sp - frameSize argc) (frameSize argc)).andThen fun copied =>
        ([], .ok (if copied then some (sp - frameSize argc) else none))
  | arg :: rest, argc, sp =>
    if MAXARG ≤ argc then ([], .ok none)
    else
      (copyout running null imageSize vm (pushed sp arg)
        (UInt32.ofNat arg.length + 1)).andThen fun copied =>
          if copied then
            pushArguments running null imageSize vm rest (argc + 1) (pushed sp arg)
          else ([], .ok none)

/-- The user image that `exec` commits to. -/
structure Program where
  dir : PageDir
  sz : UInt32
  esp : UInt32
  eip : UInt32

/-- The way out of `exec` that frees the new address space. -/
def refuse (link : Link) (vm : Vm) : Outcome (Option Program) :=
  (ofRun (freevm link vm)).andThen fun _ => ([], .ok none)

/-- Exec from the stack pages on: the arguments, and the change to the new
address space. -/
def execStack (link : Link) (running : Nat → Option Nat) (null eip : UInt32)
    (argv : List (List UInt8)) (old : PageDir) (sz : UInt32) (vm : Vm) :
    Outcome (Option Program) :=
  (ofRun (allocuvm link (PGROUNDUP sz) (PGROUNDUP sz + 2 * 4096) vm)).andThen
    fun (top, vm) =>
      if top = 0 then refuse link vm
      else
        (ofRun (clearpteu (top - 2 * 4096) vm)).andThen fun (_, vm) =>
          (pushArguments running null top vm argv 0 top).andThen fun
            | none => refuse link vm
            | some sp =>
              (ofRun (freevm link { vm with dir := old })).andThen fun _ =>
                ([], .ok (some ⟨vm.dir, top, sp, eip⟩))

/-- Replace the running program by an executable; `old` is the page directory of
the running program and `null` the word at its address zero.  Without a result
the program keeps running and the call returns -1. -/
def exec (link : Link) (running : Nat → Option Nat) (null : UInt32)
    (file : List UInt8) (argv : List (List UInt8)) (old : PageDir) (vm : Vm) :
    Outcome (Option Program) :=
  andThen (execImage link running file vm) fun
    | .absent => ([], .ok none)
    | .refused vm => refuse link vm
    | .built sz vm =>
      execStack link running null (wordAt (file.take elfhdrSize.toNat) 24) argv old sz vm

/-! ## What `exec` reaches -/

/-- The loop of `loaduvm` reads all bytes of a page of a segment. -/
def ReadsPage (file : List UInt8) (offset sz : UInt32) (k : Nat) : Prop :=
  ∃ bytes, readBytes file (offset + UInt32.ofNat (PGSIZE * k))
      (loadCount sz (UInt32.ofNat (PGSIZE * k))) = some bytes ∧
    bytes.length = (loadCount sz (UInt32.ofNat (PGSIZE * k))).toNat

/-- A page of a segment has a page table and, if the file has bytes for it,
memory allocated for the image. -/
def PageSound (file : List UInt8) (vm : Vm) (addr offset sz : UInt32) (k : Nat) :
    Prop :=
  vm.dir.hasTable (pageOf (addr + UInt32.ofNat (PGSIZE * k))) = true ∧ ∀ bytes,
      readBytes file (offset + UInt32.ofNat (PGSIZE * k))
        (loadCount sz (UInt32.ofNat (PGSIZE * k))) = some bytes →
      bytes ≠ [] → (vm.dir.pte (pageOf (addr + UInt32.ofNat (PGSIZE * k)))).page ∈ vm.taken

/-- A segment is aligned to pages, and each of its pages that `loaduvm` comes to
is sound. -/
structure SegmentSound (file : List UInt8) (ph : Proghdr) (vm : Vm) : Prop where
  /-- The segment starts at a page. -/
  aligned : ph.vaddr.toNat % PGSIZE = 0
  /-- The pages up to the first that the file ends in are sound. -/
  pages : ∀ k, PGSIZE * k < ph.filesz.toNat → (∀ j < k, ReadsPage file ph.off ph.filesz j) →
    PageSound file vm ph.vaddr ph.off ph.filesz k

/-- A complete program header at an offset of the file. -/
def HeaderAt (file : List UInt8) (off : UInt32) (ph : Proghdr) : Prop :=
  ∃ bytes, readBytes file off proghdrSize = some bytes ∧
    bytes.length = proghdrSize.toNat ∧ ph = Proghdr.ofBytes bytes

/-- The loop over the program headers comes to load a segment, after `allocuvm`
has grown the image for it to a size and an address space. -/
inductive ReachesSegment (link : Link) (running : Nat → Option Nat)
    (file : List UInt8) (ph : Proghdr) (newsz : UInt32) (grown : Vm) :
    (count : Nat) → (off sz : UInt32) → Vm → Prop where
  | here
      (header : HeaderAt file off ph)
      (loadable : ph.type = ELF_PROG_LOAD)
      (ordered : ¬ph.memsz < ph.filesz)
      (allocated : allocuvm link sz (ph.vaddr + ph.memsz) vm = .ok (newsz, grown))
      (nonzero : newsz ≠ 0) :
      ReachesSegment link running file ph newsz grown (count + 1) off sz vm
  | skip
      (header : HeaderAt file off other)
      (foreign : other.type ≠ ELF_PROG_LOAD)
      (later : ReachesSegment link running file ph newsz grown count (off + proghdrSize) sz vm) :
      ReachesSegment link running file ph newsz grown (count + 1) off sz vm
  | next
      (header : HeaderAt file off other)
      (loadable : other.type = ELF_PROG_LOAD)
      (ordered : ¬other.memsz < other.filesz)
      (allocated : allocuvm link sz (other.vaddr + other.memsz) vm = .ok (middle, next))
      (nonzero : middle ≠ 0)
      (loaded : (loaduvm running file middle next other.vaddr other.off other.filesz).2 = .ok true)
      (later : ReachesSegment link running file ph newsz grown count
        (off + proghdrSize) middle next) :
      ReachesSegment link running file ph newsz grown (count + 1) off sz vm

/-- The pages that a copy looks up. -/
inductive LooksUp (null : UInt32) (vm : Vm) (page : UInt32) :
    (va len : UInt32) → Prop where
  | here
      (more : len ≠ 0)
      (first : page = PGROUNDDOWN va) :
      LooksUp null vm page va len
  | next
      (more : len ≠ 0)
      (found : uva2ka null vm (PGROUNDDOWN va) ≠ none)
      (later : LooksUp null vm page (PGROUNDDOWN va + 4096) (len - copyCount va len)) :
      LooksUp null vm page va len

/-- The pages that the arguments look up. -/
inductive ArgumentsLookUp (running : Nat → Option Nat) (null imageSize : UInt32)
    (vm : Vm) (page : UInt32) :
    (argv : List (List UInt8)) → (argc sp : UInt32) → Prop where
  | frame
      (copied : LooksUp null vm page (sp - frameSize argc) (frameSize argc)) :
      ArgumentsLookUp running null imageSize vm page [] argc sp
  | string
      (room : argc < MAXARG)
      (copied : LooksUp null vm page (pushed sp arg) (UInt32.ofNat arg.length + 1)) :
      ArgumentsLookUp running null imageSize vm page (arg :: rest) argc sp
  | later
      (room : argc < MAXARG)
      (copied : (copyout running null imageSize vm (pushed sp arg)
        (UInt32.ofNat arg.length + 1)).2 = .ok true)
      (later : ArgumentsLookUp running null imageSize vm page rest (argc + 1) (pushed sp arg)) :
      ArgumentsLookUp running null imageSize vm page (arg :: rest) argc sp

/-- A page that a copy looks up has a page table, or the word at address zero
does not make `uva2ka` return a page outside of the image. -/
def LookupSound (null : UInt32) (vm : Vm) (page : UInt32) : Prop :=
  vm.dir.hasTable (pageOf page) = true ∨ uva2ka null vm page = none ∨
    (Pte.ofWord null).page ∈ vm.taken

/-! ## Stores into the image -/

/-- What `exec` finds: free memory that `kfree` takes back and that the kernel
reaches at its own addresses, no user memory yet, and a running program whose
address space can be freed. -/
structure Supports (link : Link) (running : Nat → Option Nat) (old : PageDir)
    (vm : Vm) : Prop where
  /-- The free pages and those of the running program. -/
  framed : Framed link { vm with dir := old }
  /-- No user memory is taken. -/
  unused : vm.taken = []
  /-- The running address space has the kernel's part. -/
  space : RunningSpace running vm.free
  /-- The kernel's addresses of the free pages are mapped. -/
  reached : ∀ page ∈ vm.free, running (p2vPage page) = some page

theorem Supports.inMemory (supports : Supports link running old vm) :
    InMemory vm.free := by
  intro page member
  have frame : Link.Frame link page := supports.framed.free page member
  refine ⟨frame.pos, ?_⟩
  have below := frame.2
  unfold PHYSTOP at *
  unfold PGSIZE at *
  omega

section Image

variable {link : Link} {running : Nat → Option Nat} {old : PageDir} {start : Vm}

/-- The kernel's address of a page reaches memory of the image exactly when the
page is memory of the image. -/
theorem Supports.target_taken_iff
    (supports : Supports link running old start)
    {taken : List Nat}
    (source : ∀ page ∈ taken, page ∈ start.free)
    (bound : page < NPAGES) :
    (∃ target, running (p2vPage page) = some target ∧ target ∈ taken) ↔ page ∈ taken := by
  constructor
  · rintro ⟨target, reached, member⟩
    have below : target < 0xe000 := (supports.inMemory target (source _ member)).2
    have bound : page < 0x100000 := bound
    have position : p2vPage page = (page + 0x80000) % 0x100000 := rfl
    by_cases inside : KERNBASE / PGSIZE ≤ p2vPage page ∧
        p2vPage page < (KERNBASE + PHYSTOP) / PGSIZE
    · have same : target = p2vPage page - 0x80000 :=
        supports.space.memory _ _ inside.1 inside.2 reached
      have lower : 0x80000 ≤ p2vPage page := inside.1
      obtain rfl : target = page := by omega
      exact member
    · exact absurd (source _ member) (supports.space.elsewhere _ _ inside reached)
  · intro member
    exact ⟨page, supports.reached page (source page member), member⟩

variable {origin : List Nat} {vm : Vm} {count vpn : Nat} {sz : UInt32}

/-- Entries of the new address space name pages. -/
theorem UserPages.page_lt
    (memory : InMemory origin)
    (image : UserPages origin vm count)
    (bound : vpn < NPAGES) :
    (vm.dir.pte vpn).page < NPAGES := by
  have total : NPAGES = 0x100000 := rfl
  have unset : Pte.zero.page < NPAGES := by decide
  rcases Nat.lt_or_ge vpn count with inUser | notUser
  · by_cases table : vm.dir.hasTable vpn = true
    · have physical : (vm.dir.pte vpn).page < 0xe000 :=
        (memory _ (image.source _ (Or.inr (image.mapped vpn inUser table)))).2
      omega
    · have missing : vm.dir.table (vpn / NPTENTRIES) = none := by
        simpa [PageDir.hasTable] using table
      rw [PageDir.pte, missing]
      exact unset
  · rcases Nat.lt_or_ge vpn 0x80000 with inGap | inKernel
    · rw [image.above vpn notUser inGap]
      exact unset
    rcases Nat.lt_or_ge vpn 0x8e000 with inMemory | beyond
    · rw [image.kernel.memory vpn inKernel inMemory]
      exact lt_of_le_of_lt (Nat.sub_le _ _) bound
    · rcases Nat.lt_or_ge vpn 0xfe000 with inHole | inDevices
      · have missing : vm.dir.table (vpn / NPTENTRIES) = none := by
          simpa [PageDir.hasTable] using image.kernel.gap vpn beyond inHole
        rw [PageDir.pte, missing]
        exact unset
      · rw [image.kernel.devices vpn inDevices bound]
        exact bound

theorem pageOf_lt (addr : UInt32) : pageOf addr < NPAGES := by
  have bound : addr.toNat < 2 ^ 32 := addr.toNat_lt
  unfold pageOf PGSIZE NPAGES NPDENTRIES NPTENTRIES
  omega

theorem toNat_loadCount_pos (inside : i < sz) :
    0 < (loadCount sz i).toNat := by
  rw [UInt32.lt_iff_toNat_lt] at inside
  have size : sz.toNat < 2 ^ 32 := sz.toNat_lt
  unfold loadCount
  split
  · rw [UInt32.toNat_sub]
    omega
  · decide

/-- A condition on the places from one on that are reached while another one holds. -/
theorem forall_while_iff {place reached holds : Nat → Prop}
    (here : place k) :
    (∀ page, k ≤ page → place page → (∀ j, k ≤ j → j < page → reached j) → holds page) ↔
      holds k ∧ (reached k → ∀ page, k + 1 ≤ page → place page →
        (∀ j, k + 1 ≤ j → j < page → reached j) → holds page) := by
  constructor
  · intro all
    refine ⟨all k le_rfl here fun j _ _ => by omega, fun first page lower inside before => ?_⟩
    refine all page (by omega) inside fun j low high => ?_
    rcases Nat.eq_or_lt_of_le low with rfl | beyond
    · exact first
    · exact before j beyond high
  · rintro ⟨first, later⟩ page lower inside before
    rcases Nat.eq_or_lt_of_le lower with rfl | beyond
    · exact first
    · exact later (before k le_rfl beyond) page beyond inside fun j low => before j (by omega)

section Loop

variable (supports : Supports link running old start) (file : List UInt8) (imageSize : UInt32)
  (image : UserPages start.free vm count) (addr offset sz : UInt32)

include supports image

/-- One round of the loop of `loaduvm`. -/
theorem loadLoop_round
    (fuel k : Nat)
    (inside : UInt32.ofNat (PGSIZE * k) < sz) :
    Survives (loadLoop running file imageSize vm addr offset sz (fuel + 1)
        (UInt32.ofNat (PGSIZE * k))) ↔
      PageSound file vm addr offset sz k ∧ (ReadsPage file offset sz k →
        Survives (loadLoop running file imageSize vm addr offset sz fuel
          (UInt32.ofNat (PGSIZE * (k + 1))))) := by
  have next : UInt32.ofNat (PGSIZE * (k + 1)) = UInt32.ofNat (PGSIZE * k) + 4096 := by
    rw [Nat.mul_succ, UInt32.ofNat_add]
    rfl
  rw [next, loadLoop, if_pos inside]
  unfold PageSound ReadsPage
  generalize UInt32.ofNat (PGSIZE * k) = i at inside ⊢
  have entry := supports.target_taken_iff (fun page member => image.source page (Or.inr member))
    (image.page_lt supports.inMemory (pageOf_lt (addr + i)))
  have positive := toNat_loadCount_pos inside
  by_cases table : vm.dir.hasTable (pageOf (addr + i)) = false
  · rw [if_pos table]
    exact iff_of_false (not_survives_error _ _) (by simp [table])
  rw [if_neg table]
  cases read : readBytes file (offset + i) (loadCount sz i) with
  | none => exact iff_of_true (survives_ok false) (by simpa using table)
  | some bytes =>
    simp only [eq_true_of_ne_false table, Option.some.injEq, exists_eq_left', forall_eq', true_and]
    by_cases empty : bytes = []
    · rw [if_pos empty]
      refine iff_of_true (survives_ok false) ⟨absurd empty, fun complete => ?_⟩
      rw [empty, List.length_nil] at complete
      omega
    rw [if_neg empty, ← entry]
    cases reached : running (p2vPage (vm.dir.pte (pageOf (addr + i))).page) with
    | none => exact iff_of_false (not_survives_error _ _) (by simp [empty])
    | some target =>
      simp only [ne_eq, empty, not_false_eq_true, true_implies, Option.some.injEq, exists_eq_left']
      by_cases complete : bytes.length = (loadCount sz i).toNat
      · rw [if_neg (not_not.mpr complete), survives_cons_iff]
        exact and_congr_right fun _ => (true_imp_iff.symm.trans (by rw [complete, eq_self]))
      · rw [if_pos complete, and_iff_left fun equal => absurd equal complete]
        exact survives_cons_iff.trans (and_iff_left (survives_ok false))

/-- The loop of `loaduvm` survives from a page on exactly when the pages that it
comes to are sound. -/
theorem loadLoop_survives_iff
    (fuel k : Nat)
    (enough : fuel + k = sz.toNat / PGSIZE + 1) :
    Survives (loadLoop running file imageSize vm addr offset sz fuel (UInt32.ofNat (PGSIZE * k))) ↔
      ∀ page, k ≤ page → PGSIZE * page < sz.toNat →
        (∀ j, k ≤ j → j < page → ReadsPage file offset sz j) →
        PageSound file vm addr offset sz page := by
  have size : sz.toNat < 2 ^ 32 := sz.toNat_lt
  induction fuel generalizing k with
  | zero =>
    refine iff_of_true (survives_ok true) ?_
    intro page lower inside
    unfold PGSIZE at *
    omega
  | succ fuel ih =>
    have index : UInt32.ofNat (PGSIZE * k) < sz ↔ PGSIZE * k < sz.toNat := by
      rw [UInt32.lt_iff_toNat_lt, UInt32.toNat_ofNat_of_lt']
      unfold PGSIZE UInt32.size at *
      omega
    by_cases inside : UInt32.ofNat (PGSIZE * k) < sz
    · have later := ih (k + 1) (by omega)
      refine (loadLoop_round supports file imageSize image addr offset sz fuel k inside).trans
        (Iff.trans (and_congr_right fun _ => imp_congr_right fun _ => later)
          (forall_while_iff ?_).symm)
      exact index.mp inside
    · rw [loadLoop, if_neg inside]
      rw [index] at inside
      refine iff_of_true (survives_ok true) ?_
      intro page lower insidePage
      unfold PGSIZE at *
      omega

end Loop

theorem loaduvm_survives_iff
    (supports : Supports link running old start)
    (file : List UInt8)
    (imageSize : UInt32)
    (image : UserPages start.free vm count)
    (ph : Proghdr) :
    Survives (loaduvm running file imageSize vm ph.vaddr ph.off ph.filesz) ↔
      SegmentSound file ph vm := by
  unfold loaduvm
  by_cases aligned : ph.vaddr.toNat % PGSIZE = 0
  · rw [if_neg (not_not.mpr aligned)]
    refine (loadLoop_survives_iff supports file imageSize image ph.vaddr ph.off
      ph.filesz _ 0 rfl).trans ?_
    constructor
    · intro pages
      exact ⟨aligned, fun k inside before =>
        pages k (Nat.zero_le _) inside (fun j _ => before j)⟩
    · intro sound page _ inside before
      exact sound.pages page inside (fun j => before j (Nat.zero_le _))
  · rw [if_pos aligned]
    exact iff_of_false (not_survives_error _ _) (fun sound => aligned sound.aligned)

/-! ## The program headers -/

theorem HeaderAt.unique
    (first : HeaderAt file off ph)
    (second : HeaderAt file off other) :
    ph = other := by
  obtain ⟨bytes, read, _, rfl⟩ := first
  obtain ⟨same, readSame, _, rfl⟩ := second
  rw [Option.some.inj (read.symm.trans readSame)]

/-- What is loaded from a complete header on. -/
theorem ReachesSegment.succ_iff (header : HeaderAt file off other) :
    ReachesSegment link running file ph newsz grown (count + 1) off sz vm ↔
      (other.type ≠ ELF_PROG_LOAD ∧
        ReachesSegment link running file ph newsz grown count (off + proghdrSize) sz vm) ∨
      other.type = ELF_PROG_LOAD ∧ ¬other.memsz < other.filesz ∧ ∃ middle next,
        allocuvm link sz (other.vaddr + other.memsz) vm = .ok (middle, next) ∧ middle ≠ 0 ∧
          ((ph = other ∧ newsz = middle ∧ grown = next) ∨
            (loaduvm running file middle next other.vaddr other.off other.filesz).2 = .ok true ∧
              ReachesSegment link running file ph newsz grown count
                (off + proghdrSize) middle next) := by
  constructor
  · intro reaches
    cases reaches with
    | here same loadable ordered allocated nonzero =>
      obtain rfl := header.unique same
      exact Or.inr ⟨loadable, ordered, _, _, allocated, nonzero, Or.inl ⟨rfl, rfl, rfl⟩⟩
    | skip same foreign later =>
      obtain rfl := header.unique same
      exact Or.inl ⟨foreign, later⟩
    | next same loadable ordered allocated nonzero loaded later =>
      obtain rfl := header.unique same
      exact Or.inr ⟨loadable, ordered, _, _, allocated, nonzero, Or.inr ⟨loaded, later⟩⟩
  · rintro (⟨foreign, later⟩ | ⟨loadable, ordered, middle, next, allocated, nonzero,
      ⟨rfl, rfl, rfl⟩ | ⟨loaded, later⟩⟩)
    · exact .skip header foreign later
    · exact .here header loadable ordered allocated nonzero
    · exact .next header loadable ordered allocated nonzero loaded later

/-- Without one nothing is loaded. -/
theorem ReachesSegment.header
    (reaches : ReachesSegment link running file ph newsz grown (count + 1) off sz vm) :
    ∃ other, HeaderAt file off other := by
  cases reaches with
  | here header => exact ⟨_, header⟩
  | skip header => exact ⟨_, header⟩
  | next header => exact ⟨_, header⟩

/-- Where the loop over the program headers leaves the address space. -/
def Image.Sound (link : Link) (origin : List Nat) : Image → Prop
  | .absent => True
  | .refused vm => Framed link vm
  | .built sz vm =>
    Framed link vm ∧ sz.toNat < KERNBASE ∧ UserPages origin vm (pagesOf sz)

/-- A part of `exec` survives exactly when the segments that it reaches are sound, and leaves a
sound image. -/
def Judges (link : Link) (origin : List Nat) (file : List UInt8)
    (reaches : Proghdr → UInt32 → Vm → Prop) (outcome : Outcome Image) : Prop :=
  (outcome.Survives ↔ ∀ ph newsz grown, reaches ph newsz grown → SegmentSound file ph grown) ∧
    ∀ result, outcome.2 = .ok result → result.Sound link origin

/-- An executable of which no segment is reached. -/
theorem judges_of_unreached {image : Image} {reaches : Proghdr → UInt32 → Vm → Prop}
    (sound : image.Sound link origin)
    (unreached : ∀ ph newsz grown, ¬reaches ph newsz grown) :
    Judges link origin file reaches ([], .ok image) := by
  refine ⟨iff_of_true (survives_ok _) ?_, ?_⟩
  · exact fun ph newsz grown reached => absurd reached (unreached ph newsz grown)
  · rintro _ ⟨⟩
    exact sound

theorem Judges.congr {reaches reachesSame : Proghdr → UInt32 → Vm → Prop}
    (judges : Judges link origin file reaches outcome)
    (same : ∀ ph newsz grown, reachesSame ph newsz grown ↔ reaches ph newsz grown) :
    Judges link origin file reachesSame outcome := by
  unfold Judges
  simp only [same]
  exact judges

/-- A segment is loaded, and then what follows it. -/
theorem judges_load {reaches : Proghdr → UInt32 → Vm → Prop} {outcome : Outcome Bool}
    (newsz : UInt32)
    (framed : Framed link grown)
    (segment : outcome.Survives ↔ SegmentSound file ph grown)
    (rest : Judges link origin file reaches later) :
    Judges link origin file
      (fun other last final => (other = ph ∧ last = newsz ∧ final = grown) ∨
        outcome.2 = .ok true ∧ reaches other last final)
      (outcome.andThen fun loaded => if loaded then later else ([], .ok (.refused grown))) := by
  refine ⟨(survives_andThen_iff _ _).trans ?_, ?_⟩
  · rw [segment]
    constructor
    · rintro ⟨first, more⟩ other last final (⟨rfl, rfl, rfl⟩ | ⟨loaded, reached⟩)
      · exact first
      · exact rest.1.mp (more true loaded) other last final reached
    · intro all
      refine ⟨all ph newsz grown (Or.inl ⟨rfl, rfl, rfl⟩), ?_⟩
      rintro (_ | _) loaded
      · exact survives_ok _
      · exact rest.1.mpr fun other last final reached =>
          all other last final (Or.inr ⟨loaded, reached⟩)
  · obtain ⟨loads, _ | _ | _⟩ := outcome
    · exact fun _ impossible => nomatch impossible
    · rintro _ ⟨⟩
      exact framed
    · exact rest.2

/-- The loop over the program headers survives exactly when every segment that it
comes to is sound, and leaves a sound image. -/
theorem loadSegments_judges
    (supports : Supports link running old start)
    (file : List UInt8)
    (count : Nat)
    (off : UInt32)
    (below : sz.toNat < KERNBASE)
    (image : UserPages start.free vm (pagesOf sz))
    (framed : Framed link vm) :
    Judges link start.free file
      (fun ph newsz grown => ReachesSegment link running file ph newsz grown count off sz vm)
      (loadSegments link running file count off sz vm) := by
  induction count generalizing off sz vm with
  | zero => exact judges_of_unreached ⟨framed, below, image⟩ fun _ _ _ reaches => by cases reaches
  | succ count ih =>
    unfold loadSegments
    cases read : readBytes file off proghdrSize with
    | none =>
      refine judges_of_unreached framed fun ph newsz grown reaches => ?_
      obtain ⟨other, bytes, found, _⟩ := reaches.header
      cases read.symm.trans found
    | some bytes =>
      simp only
      by_cases short : bytes.length ≠ proghdrSize.toNat
      · rw [if_pos short]
        refine judges_of_unreached framed fun ph newsz grown reaches => ?_
        obtain ⟨other, same, found, complete, _⟩ := reaches.header
        obtain rfl := Option.some.inj (read.symm.trans found)
        exact short complete
      rw [if_neg short]
      have header : HeaderAt file off (Proghdr.ofBytes bytes) :=
        ⟨bytes, read, not_not.mp short, rfl⟩
      generalize Proghdr.ofBytes bytes = ph at header
      refine Judges.congr ?_ fun other newsz grown => ReachesSegment.succ_iff header
      by_cases foreign : ph.type ≠ ELF_PROG_LOAD
      · rw [if_pos foreign]
        refine (ih (off + proghdrSize) below image framed).congr fun _ _ _ => ?_
        simp [foreign]
      rw [if_neg foreign]
      by_cases disordered : ph.memsz < ph.filesz
      · rw [if_pos disordered]
        exact judges_of_unreached framed fun _ _ _ => by simp [foreign, disordered]
      rw [if_neg disordered]
      have spec := allocuvm_spec link supports.inMemory (ph.vaddr + ph.memsz) image below
      cases allocated : allocuvm link sz (ph.vaddr + ph.memsz) vm with
      | error reason => exact absurd framed (spec.of_error allocated)
      | ok pair =>
        obtain ⟨newsz, grown⟩ := pair
        obtain ⟨stillFramed, growth⟩ := spec.of_ok allocated
        simp only
        by_cases zero : newsz = 0
        · rw [if_pos zero]
          exact judges_of_unreached (stillFramed framed) fun _ _ _ => by simp [foreign, zero]
        rw [if_neg zero]
        obtain ⟨_, newBelow, newImage, _⟩ := growth zero
        have judged := judges_load newsz (stillFramed framed)
          (loaduvm_survives_iff supports file newsz newImage ph)
          (ih (off + proghdrSize) newBelow newImage (stillFramed framed))
        convert judged.congr fun other last final => ?_ using 1
        · generalize loaduvm running file newsz grown ph.vaddr ph.off ph.filesz = outcome
          obtain ⟨loads, _ | _ | _⟩ := outcome <;> simp [andThen]
        · simp [not_not.mp foreign, disordered, zero]

/-- `exec` comes to load a segment of the executable. -/
def LoadsSegment (link : Link) (running : Nat → Option Nat) (file : List UInt8)
    (vm : Vm) (ph : Proghdr) (newsz : UInt32) (grown : Vm) : Prop :=
  ∃ elf fresh, readBytes file 0 elfhdrSize = some elf ∧
    ¬elf.length < elfhdrSize.toNat ∧ wordAt elf 0 = ELF_MAGIC ∧
    setupkvm link vm = .ok (true, fresh) ∧
    ReachesSegment link running file ph newsz grown (leNat ((elf.drop 44).take 2))
      (wordAt elf 28) 0 fresh

theorem execImage_judges
    (supports : Supports link running old start)
    (file : List UInt8) :
    Judges link start.free file (LoadsSegment link running file start)
      (execImage link running file start) := by
  unfold execImage
  cases read : readBytes file 0 elfhdrSize with
  | none =>
    refine judges_of_unreached True.intro ?_
    rintro ph newsz grown ⟨elf, fresh, found, _⟩
    exact nomatch read.symm.trans found
  | some elf =>
    simp only
    by_cases short : elf.length < elfhdrSize.toNat
    · rw [if_pos short]
      refine judges_of_unreached True.intro ?_
      rintro ph newsz grown ⟨same, fresh, found, complete, _⟩
      obtain rfl := Option.some.inj (read.symm.trans found)
      exact complete short
    rw [if_neg short]
    by_cases foreign : wordAt elf 0 ≠ ELF_MAGIC
    · rw [if_pos foreign]
      refine judges_of_unreached True.intro ?_
      rintro ph newsz grown ⟨same, fresh, found, _, magic, _⟩
      obtain rfl := Option.some.inj (read.symm.trans found)
      exact foreign magic
    rw [if_neg foreign]
    cases made : setupkvm link start with
    | error reason => exact ((setupkvm_pages link start).of_error made).elim
    | ok pair =>
      match pair with
      | (false, vm) =>
        refine judges_of_unreached True.intro ?_
        rintro ph newsz grown ⟨_, fresh, _, _, _, begun, _⟩
        exact nomatch made.symm.trans begun
      | (true, vm) =>
        obtain ⟨fresh, framed⟩ := fresh_of_setupkvm made
        refine (loadSegments_judges supports file (leNat ((elf.drop 44).take 2)) (wordAt elf 28)
          (by decide) (UserPages.of_fresh fresh supports.unused)
          (framed supports.framed.free)).congr fun ph newsz grown => ⟨?_, fun reaches => ?_⟩
        · rintro ⟨same, other, found, _, _, begun, reaches⟩
          obtain rfl := Option.some.inj (read.symm.trans found)
          obtain ⟨_, rfl⟩ := Prod.mk.inj (Except.ok.inj (made.symm.trans begun))
          exact reaches
        · exact ⟨elf, vm, read, short, not_not.mp foreign, made, reaches⟩

/-! ## The arguments -/

/-- Pages of the new address space that user code can use are memory of the
image. -/
theorem UserPages.taken_of_user
    (image : UserPages origin vm count)
    (present : (vm.dir.pte vpn).present = true)
    (user : (vm.dir.pte vpn).user = true) :
    (vm.dir.pte vpn).page ∈ vm.taken := by
  have table : vm.dir.hasTable vpn = true := by
    by_contra absent
    have missing : vm.dir.table (vpn / NPTENTRIES) = none := by
      simpa [PageDir.hasTable] using absent
    rw [PageDir.pte, missing] at present
    cases present
  rcases Nat.lt_or_ge vpn count with inUser | notUser
  · exact image.mapped vpn inUser table
  · rcases Nat.lt_or_ge vpn (KERNBASE / PGSIZE) with inGap | inKernel
    · rw [image.above vpn notUser inGap] at present
      cases present
    · rw [image.kernel.supervisor vpn inKernel] at user
      cases user

/-- What `uva2ka` finds reaches memory of the image exactly when the lookup is
sound. -/
theorem Supports.uva2ka_taken_iff
    (supports : Supports link running old start)
    (image : UserPages start.free vm count)
    (found : uva2ka null vm page = some address) :
    (∃ target, running address = some target ∧ target ∈ vm.taken) ↔
      LookupSound null vm page := by
  obtain ⟨present, user, target⟩ : (lookedUp null vm page).present = true ∧
      (lookedUp null vm page).user = true ∧
      address = p2vPage (lookedUp null vm page).page := by
    unfold uva2ka at found
    split_ifs at found with absent kernel zero
    exact ⟨by simpa using absent, by simpa using kernel, (Option.some.inj found).symm⟩
  rw [target]
  have taken : ∀ page ∈ vm.taken, page ∈ start.free :=
    fun page member => image.source page (Or.inr member)
  by_cases table : vm.dir.hasTable (pageOf page) = true
  · have entry : lookedUp null vm page = vm.dir.pte (pageOf page) := if_pos table
    rw [entry] at present user ⊢
    refine iff_of_true ?_ (Or.inl table)
    exact (supports.target_taken_iff taken (image.page_lt supports.inMemory
      (pageOf_lt page))).mpr (image.taken_of_user present user)
  · have entry : lookedUp null vm page = Pte.ofWord null := if_neg table
    have bound : (Pte.ofWord null).page < NPAGES := pageOf_lt null
    rw [entry, supports.target_taken_iff taken bound, LookupSound]
    simp [table, found]

theorem toNat_PGROUNDDOWN (va : UInt32) :
    (PGROUNDDOWN va).toNat = PGSIZE * (va.toNat / PGSIZE) := by
  have bound : va.toNat < 2 ^ 32 := va.toNat_lt
  rw [PGROUNDDOWN, UInt32.toNat_mul, UInt32.toNat_div, show (4096 : UInt32).toNat = 4096 from rfl]
  unfold PGSIZE
  omega

/-- What is left after one round of `copyout`. -/
theorem toNat_sub_copyCount (va len : UInt32) :
    (len - copyCount va len).toNat = len.toNat - (PGSIZE - va.toNat % PGSIZE) := by
  have size : len.toNat < 2 ^ 32 := len.toNat_lt
  have chunk : (4096 - (va - PGROUNDDOWN va)).toNat = PGSIZE - va.toNat % PGSIZE := by
    have bound : va.toNat < 2 ^ 32 := va.toNat_lt
    rw [UInt32.toNat_sub, UInt32.toNat_sub, toNat_PGROUNDDOWN,
      show (4096 : UInt32).toNat = 4096 from rfl]
    unfold PGSIZE
    omega
  unfold copyCount
  split
  · rename_i short
    rw [UInt32.lt_iff_toNat_lt, chunk] at short
    rw [UInt32.toNat_sub]
    omega
  · rename_i long
    rw [UInt32.lt_iff_toNat_lt, chunk] at long
    rw [UInt32.toNat_sub, chunk]
    unfold PGSIZE at *
    omega

section

variable (supports : Supports link running old start) (null imageSize : UInt32)
  (image : UserPages start.free vm count)

include supports null imageSize image

/-- The loop of `copyout` survives exactly when the pages that it looks up are
sound. -/
theorem copyLoop_survives_iff
    (fuel : Nat)
    (va len : UInt32)
    (enough : len.toNat ≤ PGSIZE * fuel)
    (slack : va.toNat % PGSIZE = 0 ∨ len.toNat ≤ PGSIZE * (fuel - 1)) :
    Survives (copyLoop running null imageSize vm fuel va len) ↔
      ∀ page, LooksUp null vm page va len → LookupSound null vm page := by
  induction fuel generalizing va len with
  | zero =>
    have empty : len = 0 := UInt32.toNat_inj.mp (by
      rw [UInt32.toNat_zero]
      omega)
    refine iff_of_true (survives_ok true) ?_
    intro page looksUp
    cases looksUp with
    | here more => exact absurd empty more
    | next more => exact absurd empty more
  | succ fuel ih =>
    unfold copyLoop
    by_cases empty : len = 0
    · rw [if_pos empty]
      refine iff_of_true (survives_ok true) ?_
      intro page looksUp
      cases looksUp with
      | here more => exact absurd empty more
      | next more => exact absurd empty more
    rw [if_neg empty]
    cases found : uva2ka null vm (PGROUNDDOWN va) with
    | none =>
      refine iff_of_true (survives_ok false) ?_
      intro page looksUp
      cases looksUp with
      | here _ first =>
        rw [first]
        exact Or.inr (Or.inl found)
      | next _ present => exact absurd found present
    | some address =>
      have lookup := supports.uva2ka_taken_iff image found
      cases reached : running address with
      | none =>
        simp only [reached]
        refine iff_of_false (not_survives_error _ _) ?_
        intro sound
        obtain ⟨target, impossible, _⟩ :=
          lookup.mpr (sound _ (LooksUp.here empty rfl))
        rw [reached] at impossible
        cases impossible
      | some target =>
        simp only [reached, Option.some.injEq, exists_eq_left'] at lookup
        have aligned : (PGROUNDDOWN va + 4096).toNat % PGSIZE = 0 := by
          rw [UInt32.toNat_add, toNat_PGROUNDDOWN, show (4096 : UInt32).toNat = 4096 from rfl]
          unfold PGSIZE
          omega
        have less : (len - copyCount va len).toNat ≤ PGSIZE * fuel := by
          rw [toNat_sub_copyCount]
          unfold PGSIZE at *
          omega
        have later := ih _ _ less (Or.inl aligned)
        simp only [reached]
        rw [survives_cons_iff, later, lookup]
        constructor
        · rintro ⟨first, rest⟩ page looksUp
          cases looksUp with
          | here _ same =>
            rw [same]
            exact first
          | next _ _ beyond => exact rest page beyond
        · intro sound
          refine ⟨sound _ (LooksUp.here empty rfl), ?_⟩
          intro page beyond
          exact sound page (LooksUp.next empty (by rw [found]; simp) beyond)

theorem copyout_survives_iff (va len : UInt32) :
    Survives (copyout running null imageSize vm va len) ↔
      ∀ page, LooksUp null vm page va len → LookupSound null vm page := by
  apply copyLoop_survives_iff supports null imageSize image
  · unfold PGSIZE
    omega
  · right
    unfold PGSIZE
    omega

theorem pushArguments_survives_iff
    (argv : List (List UInt8))
    (argc sp : UInt32) :
    Survives (pushArguments running null imageSize vm argv argc sp) ↔
      ∀ page, ArgumentsLookUp running null imageSize vm page argv argc sp →
        LookupSound null vm page := by
  induction argv generalizing argc sp with
  | nil =>
    unfold pushArguments
    rw [survives_andThen_iff, copyout_survives_iff supports null imageSize image]
    constructor
    · rintro ⟨sound, _⟩ page looksUp
      cases looksUp with
      | frame copied => exact sound page copied
    · intro sound
      exact ⟨fun page copied => sound page (.frame copied), fun _ _ => survives_ok _⟩
  | cons arg rest ih =>
    unfold pushArguments
    by_cases full : MAXARG ≤ argc
    · rw [if_pos full]
      refine iff_of_true (survives_ok _) ?_
      intro page looksUp
      cases looksUp with
      | string room => exact absurd room (UInt32.not_lt.mpr full)
      | later room => exact absurd room (UInt32.not_lt.mpr full)
    rw [if_neg full, survives_andThen_iff, copyout_survives_iff supports null imageSize image]
    have room := UInt32.not_le.mp full
    constructor
    · rintro ⟨sound, more⟩ page looksUp
      cases looksUp with
      | string _ copied => exact sound page copied
      | later _ copied beyond =>
        exact (ih _ _).mp (more true copied) page beyond
    · intro sound
      refine ⟨fun page copied => sound page (.string room copied), ?_⟩
      rintro (_ | _) copied
      · exact survives_ok _
      · exact (ih _ _).mpr (fun page beyond => sound page (.later room copied beyond))

end

/-! ## The whole of `exec` -/

theorem clearpteu_eq (table : vm.dir.hasTable (pageOf uva) = true) :
    clearpteu uva vm = .ok ((), { vm with
      dir := vm.dir.setPte (pageOf uva)
        { vm.dir.pte (pageOf uva) with user := false } }) := by
  have walked : walkpgdir (pageOf uva) false vm = .ok (true, vm) := by
    rw [walkpgdir, Run.bind_of_ok (Run.get_apply vm), if_pos table]
    rfl
  rw [clearpteu, Run.bind_of_ok walked]
  rfl

/-- Closing a page of the image to user code leaves the image. -/
theorem UserPages.clearpteu
    (image : UserPages origin vm count)
    (inside : vpn < count)
    (table : vm.dir.hasTable vpn = true) :
    UserPages origin
      { vm with dir := vm.dir.setPte vpn { vm.dir.pte vpn with user := false } }
      count := by
  have bound := image.bound
  have page : ∀ other, ((vm.dir.setPte vpn { vm.dir.pte vpn with user := false }).pte other).page =
        (vm.dir.pte other).page := by
    intro other
    rw [PageDir.pte_setPte _ _ table]
    split
    · rename_i same
      rw [same]
    · rfl
  have kept : ∀ other, count ≤ other →
      (vm.dir.setPte vpn { vm.dir.pte vpn with user := false }).pte other = vm.dir.pte other := by
    intro other above
    rw [PageDir.pte_setPte _ _ table, if_neg (by omega)]
  refine ⟨bound, ⟨?_, ?_, ?_, ?_⟩, ?_, ?_, ?_, image.source⟩
  · intro other low high
    rw [page]
    exact image.kernel.memory other low high
  · intro other low high
    rw [PageDir.hasTable_setPte]
    exact image.kernel.gap other low high
  · intro other low high
    rw [page]
    exact image.kernel.devices other low high
  · intro other low
    rw [kept other (by omega)]
    exact image.kernel.supervisor other low
  · intro other below present
    rw [PageDir.hasTable_setPte] at present
    rw [page]
    exact image.mapped other below present
  · intro other below absent
    rw [PageDir.hasTable_setPte] at absent
    exact image.missing other below absent
  · intro other lower upper
    rw [kept other lower]
    exact image.above other lower upper

theorem clearpteu_returns
    (image : UserPages origin vm count)
    (framed : Framed link vm)
    (inside : pageOf uva + 1 < count) :
    ∃ space, clearpteu uva vm = .ok ((), space) ∧ UserPages origin space count ∧
      Framed link space := by
  have table : vm.dir.hasTable (pageOf uva) = true := by
    by_contra absent
    have last := image.missing (pageOf uva) (by omega) (by simpa using absent)
    omega
  exact ⟨_, clearpteu_eq table, image.clearpteu (by omega) table,
    framed.setPte table _ (framed.user (pageOf uva))⟩

/-- The way out of `exec` survives. -/
theorem refuse_survives (framed : Framed link vm) :
    (refuse link vm).Survives := by
  obtain ⟨final, freed⟩ := freevm_returns framed
  exact (survives_andThen_iff _ _).mpr ⟨survives_ofRun_of_returns freed, fun _ _ => survives_ok _⟩

/-- The stack pages are allocated for an image of a size: `exec` comes to push
the arguments below `top`. -/
def StackReady (link : Link) (sz : UInt32) (image : Vm) (top : UInt32)
    (space : Vm) : Prop :=
  ∃ grown, allocuvm link (PGROUNDUP sz) (PGROUNDUP sz + 2 * 4096) image =
      .ok (top, grown) ∧ top ≠ 0 ∧
    clearpteu (top - 2 * 4096) grown = .ok ((), space)

/-- Allocating the stack does not panic, and leaves an image whose next to last
page has a page table. -/
theorem allocuvm_stack
    (supports : Supports link running old start)
    (framed : Framed link vm)
    (below : sz.toNat < KERNBASE)
    (image : UserPages start.free vm (pagesOf sz)) :
    ∃ top grown, allocuvm link (PGROUNDUP sz) (PGROUNDUP sz + 2 * 4096) vm = .ok (top, grown) ∧
      Framed link grown ∧ (top ≠ 0 → UserPages start.free grown (pagesOf top) ∧
        pageOf (top - 2 * 4096) + 2 = pagesOf top ∧ top.toNat = PGSIZE * pagesOf sz + 8192) := by
  have rounded := toNat_PGROUNDUP below
  have grows : (PGROUNDUP sz + 2 * 4096).toNat = PGSIZE * pagesOf sz + 8192 := by
    rw [UInt32.toNat_add, rounded, show (2 * 4096 : UInt32).toNat = 8192 from rfl]
    have bound : pagesOf sz ≤ 0x80000 := image.bound
    unfold PGSIZE
    omega
  by_cases high : KERNBASE ≤ (PGROUNDUP sz + 2 * 4096).toNat
  · refine ⟨0, vm, ?_, framed, fun impossible => absurd rfl impossible⟩
    rw [allocuvm, if_pos high]
    rfl
  have roundedBelow : (PGROUNDUP sz).toNat < KERNBASE := by omega
  have samePages : pagesOf (PGROUNDUP sz) = pagesOf sz := by
    rw [pagesOf, rounded]
    unfold PGSIZE
    omega
  rw [← samePages] at image
  generalize PGROUNDUP sz = oldsz at *
  generalize oldsz + 2 * 4096 = newsz at *
  have spec := allocuvm_spec link supports.inMemory newsz image roundedBelow
  cases allocated : allocuvm link oldsz newsz vm with
  | error reason => exact absurd framed (spec.of_error allocated)
  | ok pair =>
    obtain ⟨stillFramed, growth⟩ := spec.of_ok allocated
    refine ⟨pair.1, pair.2, rfl, stillFramed framed, fun nonzero => ?_⟩
    obtain ⟨_, _, newImage, same⟩ := growth nonzero
    have reached : pair.1.toNat = PGSIZE * pagesOf sz + 8192 := by
      rw [same (by rw [UInt32.le_iff_toNat_le]; omega), grows]
    refine ⟨newImage, ?_, reached⟩
    rw [pageOf, pagesOf, UInt32.toNat_sub_of_le _ _ (by
      rw [UInt32.le_iff_toNat_le, show (2 * 4096 : UInt32).toNat = 8192 from rfl]
      omega), show (2 * 4096 : UInt32).toNat = 8192 from rfl]
    unfold PGSIZE at *
    omega

theorem execStack_survives_iff
    (supports : Supports link running old start)
    (null eip : UInt32)
    (argv : List (List UInt8))
    (framed : Framed link vm)
    (below : sz.toNat < KERNBASE)
    (image : UserPages start.free vm (pagesOf sz)) :
    (execStack link running null eip argv old sz vm).Survives ↔
      ∀ top space, StackReady link sz vm top space →
        ∀ page, ArgumentsLookUp running null top space page argv 0 top →
          LookupSound null space page := by
  obtain ⟨top, grown, allocated, grownFramed, growth⟩ :=
    allocuvm_stack supports framed below image
  rw [execStack, allocated, andThen_ofRun_ok]
  simp only
  by_cases zero : top = 0
  · rw [if_pos zero]
    refine iff_of_true (refuse_survives grownFramed) ?_
    rintro other space ⟨same, allocatedSame, nonzero, _⟩
    obtain ⟨rfl, rfl⟩ :=
      Prod.mk.inj (Except.ok.inj (allocated.symm.trans allocatedSame))
    exact absurd zero nonzero
  rw [if_neg zero]
  obtain ⟨newImage, guardPage, _⟩ := growth zero
  have guard : pageOf (top - 2 * 4096) + 1 < pagesOf top := by omega
  obtain ⟨space, cleared, clearedImage, clearedFramed⟩ :=
    clearpteu_returns newImage grownFramed guard
  rw [cleared, andThen_ofRun_ok]
  simp only
  rw [survives_andThen_iff, pushArguments_survives_iff supports null top clearedImage]
  have unique : ∀ otherTop otherSpace, StackReady link sz vm otherTop otherSpace →
      otherTop = top ∧ otherSpace = space := by
    rintro otherTop otherSpace ⟨same, allocatedSame, _, clearedSame⟩
    obtain ⟨rfl, rfl⟩ :=
      Prod.mk.inj (Except.ok.inj (allocated.symm.trans allocatedSame))
    exact ⟨rfl, ((Prod.mk.inj (Except.ok.inj (cleared.symm.trans clearedSame))).2).symm⟩
  constructor
  · rintro ⟨sound, _⟩ otherTop otherSpace ready
    obtain ⟨rfl, rfl⟩ := unique _ _ ready
    exact sound
  intro sound
  refine ⟨sound top space ⟨grown, allocated, zero, cleared⟩, ?_⟩
  rintro (_ | sp) _
  · exact refuse_survives clearedFramed
  · have oldFramed : Framed link { space with dir := old } :=
      ⟨clearedFramed.free, supports.framed.dir, supports.framed.table, supports.framed.user⟩
    obtain ⟨final, freed⟩ := freevm_returns oldFramed
    exact (survives_andThen_iff _ _).mpr ⟨survives_ofRun_of_returns freed, fun _ _ => survives_ok _⟩

end Image

/-! ## A segment that is not aligned -/

namespace UnalignedSample

open WrapSample (link running vm)

/-- An executable with one segment of four bytes at address one. -/
def file : List UInt8 :=
  [0x7f, 0x45, 0x4c, 0x46] ++ List.replicate 24 0 ++ leBytes 4 52 ++
    List.replicate 12 0 ++ leBytes 2 1 ++ List.replicate 6 0 ++
    leBytes 4 1 ++ leBytes 4 0 ++ leBytes 4 1 ++ leBytes 4 0 ++
    leBytes 4 4 ++ leBytes 4 0xfff ++ leBytes 4 0 ++ leBytes 4 0

/-- The page directory of a program without memory. -/
def old : PageDir := ⟨0x900, fun _ => none⟩

theorem supports : Supports link running old vm where
  framed := by
    refine ⟨WrapSample.frames, ⟨by decide, by decide⟩, ?_, ?_⟩
    · intro i table found
      cases found
    · intro vpn _ present
      cases present
  unused := rfl
  space := WrapSample.space
  reached := by
    intro page member
    have range := List.mem_range'_1.mp member
    have upper : page < 0x1064 := range.2
    have position : p2vPage page = page + 0x80000 :=
      Nat.mod_eq_of_lt (show page + 0x80000 < 0x100000 by omega)
    have inside : KERNBASE / PGSIZE ≤ page + 0x80000 ∧
        page + 0x80000 < (KERNBASE + PHYSTOP) / PGSIZE :=
      ⟨show 0x80000 ≤ page + 0x80000 by omega, show page + 0x80000 < 0x8e000 by omega⟩
    rw [position, running, if_pos inside]
    exact congrArg some (Nat.add_sub_cancel _ _)

/-- Loading the executable ends in a panic. -/
theorem execImage_panics :
    (execImage link running file vm).2 = .error (.panic "loaduvm: addr must be page aligned") := by
  obtain ⟨start, started, _, final, grown, _⟩ := WrapSample.allocuvm_one
  have headers : (execImage link running file vm).2 =
      (loadSegments link running file 1 52 0 start).2 := by
    have elf : readBytes file 0 elfhdrSize = some (file.take 52) := by decide
    have count : leNat (((file.take 52).drop 44).take 2) = 1 := by decide
    have offset : wordAt (file.take 52) 28 = 52 := by decide
    simp only [execImage, elf, started, count, offset]
    rw [if_neg (by decide), if_neg (by decide)]
  have header : readBytes file 52 proghdrSize = some ((file.drop 52).take 32) := by decide
  have type : (Proghdr.ofBytes ((file.drop 52).take 32)).type = ELF_PROG_LOAD := by decide
  have vaddr : (Proghdr.ofBytes ((file.drop 52).take 32)).vaddr = 1 := by decide
  have filesz : (Proghdr.ofBytes ((file.drop 52).take 32)).filesz = 4 := by decide
  have memsz : (Proghdr.ofBytes ((file.drop 52).take 32)).memsz = 0xfff := by
    decide
  have ending : (1 : UInt32) + 0xfff = 0x1000 := by decide
  have unaligned : ∀ offset, loaduvm running file 0x1000 final 1 offset 4 =
      ([], .error (.panic "loaduvm: addr must be page aligned")) :=
    fun offset => if_pos (by decide)
  rw [headers]
  simp only [loadSegments, header, type, vaddr, filesz, memsz, ending, grown, unaligned]
  rw [if_neg (by decide), if_neg (by decide), if_neg (by decide), if_neg (by decide)]

/-- So `exec` panics, whatever the arguments. -/
theorem exec_panics
    (null : UInt32)
    (argv : List (List UInt8)) :
    (exec link running null file argv old vm).2 =
      .error (.panic "loaduvm: addr must be page aligned") := by
  have panics := execImage_panics
  rw [exec]
  generalize execImage link running file vm = outcome at panics
  obtain ⟨loads, result⟩ := outcome
  obtain rfl : result = _ := panics
  rfl

end UnalignedSample

end Xv6
