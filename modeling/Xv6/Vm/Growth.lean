import Xv6.Vm.Mapping
import Xv6.Vm.Unmap

/-!
# Growing an address space

`allocuvm` and `copyuvm` map one page of user memory after the other.  Each one
takes a page from the free list, and another one if it is the first page of a new
page table.  The module counts the pages that are needed, and follows what happens
to them when there are not enough.
-/

namespace Xv6
namespace Vm

open Faulting
open Shares

/-! ## Copying an address space -/

/-- The loop of `copyuvm` over the pages of the old address space. -/
def copyPages (link : Link) (old : PageDir) (sz : UInt32) : (fuel : Nat) → UInt32 → VmM Bool
  | 0, _ => pure true
  | fuel + 1, i =>
    if i < sz then
      if old.hasTable (pageOf i) then
        if (old.pte (pageOf i)).present then do
          match ← kalloc with
          | none =>
            freevm link
            pure false
          | some page =>
            if ← mappages i 4096 (UInt32.ofNat (PGSIZE * page)) ⟨true, true⟩ then
              copyPages link old sz fuel (i + 4096)
            else do
              freevm link
              pure false
        else panic "copyuvm: page not present"
      else panic "copyuvm: pte should exist"
    else pure true

/-- Copy an address space; the copy is the page directory under construction. -/
def copyuvm (link : Link) (old : PageDir) (sz : UInt32) : VmM Bool := do
  if ← setupkvm link then copyPages link old sz (sz.toNat / PGSIZE + 1) 0
  else pure false

variable {a : UInt32} {origin vm : Vm}

/-! ## Counting the pages that are needed -/

/-- The page at an offset is the first one of a page table that the directory does
not have. -/
def newTable (dir : PageDir) (first offset : Nat) : Bool :=
  !dir.hasTable (first + offset) && (offset == 0 || (first + offset) % NPTENTRIES == 0)

/-- Pages that growing a directory by some pages takes, with those of the new page
tables. -/
def needed (dir : PageDir) (first : Nat) : Nat → Nat
  | 0 => 0
  | count + 1 => needed dir first count + 1 + if newTable dir first count then 1 else 0

theorem needed_lt_succ (dir : PageDir) (first count : Nat) :
    needed dir first count < needed dir first (count + 1) := by
  rw [needed]
  omega

theorem needed_le (dir : PageDir) (first count : Nat) : needed dir first count ≤ 2 * count := by
  induction count with
  | zero => exact le_rfl
  | succ count ih =>
    rw [needed]
    split <;> omega

theorem needed_strictMono (dir : PageDir) (first : Nat) : StrictMono (needed dir first) :=
  strictMono_nat_of_lt_succ (needed_lt_succ dir first)

/-- An address space that has grown from another one by some pages. -/
structure Grown (origin : Vm) (first : Nat) (vm : Vm) (count : Nat) : Prop where
  conserved : Conserved origin vm
  /-- The pages that are needed have been taken. -/
  cost : vm.free.length + needed origin.dir first count = origin.free.length
  /-- Other entries stay. -/
  pte : ∀ vpn, vm.dir.pte vpn = origin.dir.pte vpn ∨ first ≤ vpn ∧ vpn < first + count
  /-- The new pages are open to user code. -/
  entry : ∀ offset < count, ∃ page, vm.dir.pte (first + offset) = Perm.entry ⟨true, true⟩ page
  /-- The page tables are those of the new pages, and the old ones. -/
  tables : ∀ vpn, vm.dir.hasTable vpn = true ↔ origin.dir.hasTable vpn = true ∨
    ∃ offset < count, vpn / NPTENTRIES = (first + offset) / NPTENTRIES
  /-- The directory stays where it is. -/
  page : vm.dir.page = origin.dir.page
  /-- The free list was only taken from. -/
  free : vm.free <:+ origin.free

theorem Grown.refl (origin : Vm) (first : Nat) : Grown origin first origin 0 where
  conserved := Conserved.refl origin
  cost := rfl
  pte _ := .inl rfl
  entry _ small := absurd small (Nat.not_lt_zero _)
  tables vpn := by simp
  page := rfl
  free := List.suffix_rfl

section Grown

variable {origin vm final : Vm} {first count page : Nat} {rest log : List Nat}

/-- The next page needs a new page table exactly if it has none yet. -/
theorem Grown.newTable_iff (grown : Grown origin first vm count) :
    newTable origin.dir first count = true ↔ vm.dir.hasTable (first + count) = false := by
  have tables := grown.tables (first + count)
  have shared : (∃ offset < count, (first + count) / NPTENTRIES = (first + offset) / NPTENTRIES) ↔
      ¬(count = 0 ∨ (first + count) % NPTENTRIES = 0) := by
    constructor
    · rintro ⟨offset, small, same⟩
      unfold NPTENTRIES at *
      omega
    · intro inside
      refine ⟨count - 1, by omega, ?_⟩
      unfold NPTENTRIES at *
      omega
  rw [shared] at tables
  rw [newTable, ← Bool.not_eq_true, tables, not_or, not_not, Bool.and_eq_true, Bool.or_eq_true,
    beq_iff_eq, beq_iff_eq, Bool.not_eq_true', Bool.not_eq_true]

/-- Mapping the next page. -/
theorem Grown.step
    (grown : Grown origin first vm count)
    (nonempty : vm.free = page :: rest)
    (mapped : UserMapped { vm with free := rest, taken := log } final (first + count) page) :
    Grown origin first final (count + 1) where
  conserved := by
    intro other
    rw [mapped.counts other, ← grown.conserved other, nonempty, count_cons]
    show rest.count other + vm.dir.held other + _ = _
    rw [Nat.add_right_comm]
  cost := by
    have taken := mapped.cost
    have before := grown.cost
    rw [nonempty, List.length_cons] at before
    have new := grown.newTable_iff
    replace taken : final.free.length +
      (if vm.dir.hasTable (first + count) then 0 else 1) = rest.length := taken
    rw [needed]
    cases table : vm.dir.hasTable (first + count) with
    | true =>
      rw [table] at new taken
      have old : ¬newTable origin.dir first count = true := fun fresh => nomatch new.mp fresh
      rw [if_neg old]
      rw [if_pos rfl] at taken
      omega
    | false =>
      rw [table] at new taken
      rw [if_pos (new.mpr rfl)]
      rw [if_neg Bool.false_ne_true] at taken
      omega
  pte := by
    intro vpn
    by_cases here : vpn = first + count
    · exact .inr (by omega)
    · rw [mapped.pte here]
      rcases grown.pte vpn with same | inside
      · exact .inl same
      · exact .inr (by omega)
  entry := by
    intro offset small
    rcases Nat.lt_succ_iff_lt_or_eq.mp small with less | rfl
    · rw [mapped.pte (by omega)]
      exact grown.entry offset less
    · exact ⟨page, mapped.newPte⟩
  tables := by
    intro vpn
    rw [mapped.tables]
    show _ ∨ vm.dir.hasTable vpn = true ↔ _
    rw [grown.tables, Nat.exists_lt_succ_right]
    exact or_comm.trans or_assoc
  page := mapped.entered.page.trans grown.page
  free := by
    refine (mapped.entered.free.trans ?_).trans grown.free
    rw [nonempty]
    exact List.suffix_cons page rest

end Grown

/-! ## What can go wrong -/

/-- One page is neither free nor held any more. -/
def Loses (origin final : Vm) : Prop :=
  ∃ page ∈ origin.free, ∀ other, final.free.count other + final.dir.held other +
    single (some page) other = origin.free.count other + origin.dir.held other

/-- Growing stops at a page because no page is free. -/
structure RunsOut (origin : Vm) (first offset : Nat) : Prop where
  /-- The pages before were not mapped. -/
  absent : ∀ before < offset, (origin.dir.pte (first + before)).present = false
  /-- They have taken all pages. -/
  memory : origin.free.length = needed origin.dir first offset

/-- Growing takes a page, and then no page is left for the page table. -/
structure LosesAt (origin : Vm) (first offset : Nat) : Prop where
  /-- The pages up to this one were not mapped. -/
  absent : ∀ before ≤ offset, (origin.dir.pte (first + before)).present = false
  /-- The page needs a new page table. -/
  table : newTable origin.dir first offset = true
  /-- There is one page left. -/
  memory : origin.free.length = needed origin.dir first offset + 1

/-- Growing comes to a page that is mapped already. -/
structure Remaps (origin : Vm) (first offset : Nat) : Prop where
  /-- The page is mapped. -/
  present : (origin.dir.pte (first + offset)).present = true
  /-- A page was free for it. -/
  memory : needed origin.dir first offset < origin.free.length

/-- Pages after the one that is lost need more pages than there are. -/
theorem LosesAt.lt_needed
    (loses : LosesAt origin first offset)
    (later : offset < other) :
    origin.free.length < needed origin.dir first other := by
  have next : needed origin.dir first (offset + 1) = needed origin.dir first offset + 2 := by
    rw [needed, if_pos loses.table]
  have bound := (needed_strictMono origin.dir first).monotone (Nat.succ_le_of_lt later)
  have memory := loses.memory
  rw [Nat.succ_eq_add_one, next] at bound
  omega

theorem RunsOut.not_losesAt (out : RunsOut origin first offset) :
    ¬LosesAt origin first other := by
  intro loses
  have memory := out.memory
  rcases Nat.lt_or_ge other offset with before | after
  · have bound := loses.lt_needed before
    omega
  · have bound := (needed_strictMono origin.dir first).monotone after
    have one := loses.memory
    omega

/-- Mapping the page at an offset succeeds, or loses it. -/
theorem Grown.mappages {first count page : Nat}
    (grown : Grown origin first vm count)
    (framed : Framed link vm)
    (absent : ∀ before < count, (origin.dir.pte (first + before)).present = false)
    (user : first + count < USERPAGES)
    (address : a.toNat = PGSIZE * (first + count))
    (nonempty : vm.free = page :: rest) :
    Run.Spec (Vm.mappages a 4096 (UInt32.ofNat (PGSIZE * page)) ⟨true, true⟩)
      { vm with free := rest, taken := log }
      (fun result final => Framed link final ∧
        (result = true ∧ (∀ before < count + 1, (origin.dir.pte (first + before)).present = false) ∧
            Grown origin first final (count + 1) ∨
          result = false ∧ LosesAt origin first count ∧ Loses origin final ∧ final.free = [] ∧
            final.dir = vm.dir))
      (fun _ => Remaps origin first count) := by
  obtain ⟨frame, physical, stillFramed⟩ := framed.take nonempty
  have same : vm.dir.pte (first + count) = origin.dir.pte (first + count) := by
    rcases grown.pte (first + count) with same | inside
    · exact same
    · omega
  have cost := grown.cost
  rw [nonempty, List.length_cons] at cost
  refine (mappages_user user address physical _).mono ?_ ?_
  · intro result final outcome
    have upTo : (origin.dir.pte (first + count)).present = false →
        ∀ before < count + 1, (origin.dir.pte (first + before)).present = false := by
      intro here before small
      rcases Nat.lt_succ_iff_lt_or_eq.mp small with less | equal
      · exact absent before less
      · rw [equal]
        exact here
    rcases outcome with ⟨rfl, missing, mapped⟩ | ⟨rfl, empty, table, rfl⟩
    · exact ⟨mapped.framed (stillFramed log) frame,
        .inl ⟨rfl, upTo (same ▸ missing), grown.step nonempty mapped⟩⟩
    replace empty : rest = [] := empty
    replace table : vm.dir.hasTable (first + count) = false := table
    have unmapped : (origin.dir.pte (first + count)).present = false := by
      rw [← same, pte_of_no_table table]
      rfl
    refine ⟨stillFramed log, .inr ⟨rfl,
      ⟨fun before small => upTo unmapped before (Nat.lt_succ_of_le small),
        grown.newTable_iff.mpr table, ?_⟩, ⟨page, ?_, fun other => ?_⟩, empty, rfl⟩⟩
    · rw [empty, List.length_nil] at cost
      omega
    · refine grown.free.subset ?_
      rw [nonempty]
      exact List.mem_cons_self
    · rw [← grown.conserved other, nonempty, count_cons]
      show rest.count other + vm.dir.held other + _ = _
      rw [Nat.add_right_comm]
  · rintro reason ⟨_, present⟩
    replace present : (vm.dir.pte (first + count)).present = true := present
    refine ⟨same ▸ present, ?_⟩
    omega

/-! ## `allocuvm` -/

/-- What `allocuvm` leaves when it fails: the pages are back, and entries are as
before or cleared. -/
structure RolledBack (origin final : Vm) : Prop where
  conserved : Conserved origin final
  /-- Entries are kept or cleared. -/
  pte : ∀ vpn, final.dir.pte vpn = origin.dir.pte vpn ∨ (final.dir.pte vpn).present = false
  /-- The directory stays where it is. -/
  page : final.dir.page = origin.dir.page

/-- The ways in which growing an address space to a number of pages returns. -/
def AllocOutcome (link : Link) (origin : Vm) (first total : Nat) (newsz result : UInt32)
    (final : Vm) : Prop :=
  Framed link final ∧ (result = newsz ∧ (Grown origin first final total ∨
        ∃ offset, offset + 1 = total ∧ LosesAt origin first offset ∧ Loses origin final) ∨
      result = 0 ∧ (∃ offset < total, RunsOut origin first offset) ∧ RolledBack origin final ∨
      result = 0 ∧ (∃ offset, offset + 1 < total ∧ LosesAt origin first offset) ∧
        Loses origin final)

theorem Loses.trans {origin middle final : Vm}
    (loses : Loses origin middle)
    (conserved : Conserved middle final) :
    Loses origin final := by
  obtain ⟨page, member, counts⟩ := loses
  refine ⟨page, member, fun other => ?_⟩
  rw [conserved other]
  exact counts other

section Alloc

variable {link : Link} {origin vm : Vm} {oldsz newsz a : UInt32} {first count total : Nat}

/-- Giving the new pages back. -/
theorem Grown.rollback
    (grown : Grown origin (pagesOf oldsz) vm count)
    (framed : Framed link vm)
    (below : newsz.toNat < KERNBASE)
    (inside : pagesOf oldsz + count ≤ pagesOf newsz) :
    Run.Spec (deallocuvm link newsz oldsz) vm
      (fun _ final => Framed link final ∧ RolledBack origin final)
      (fun _ => False) := by
  refine (deallocuvm_conserved below.le oldsz framed).mono ?_ (fun _ => id)
  rintro _ final ⟨_, unmapped, conserved, stillFramed⟩
  refine ⟨stillFramed, grown.conserved.trans conserved, fun vpn => ?_,
    unmapped.page.trans grown.page⟩
  rcases grown.pte vpn with same | ⟨low, high⟩
  · rw [← same, unmapped.pte]
    split
    · exact .inr rfl
    · exact .inl rfl
  · have table : vm.dir.hasTable (pagesOf oldsz) = true :=
      (grown.tables _).mpr (.inr ⟨0, by omega, rfl⟩)
    exact .inr (unmapped.absent low (by omega) (not_skipped (.inl table) vpn))

/-- The rule for the loop of `allocuvm`: what holds of the address space when the loop
comes to a page. -/
theorem allocLoop_rule {P : Nat → Vm → Prop} {fault : Stop → Prop}
    (below : newsz.toNat < KERNBASE)
    (done : ∀ vm, P (pagesOf newsz) vm → post newsz vm)
    (fails : ∀ vpn vm, vpn < pagesOf newsz → P vpn vm → vm.free = [] →
      Run.Spec (deallocuvm link newsz oldsz) vm (fun _ => post 0) fault)
    (maps : ∀ vpn vm page rest a, vpn < pagesOf newsz → vpn < USERPAGES → P vpn vm →
      vm.free = page :: rest → a.toNat = PGSIZE * vpn →
      Run.Spec (mappages a 4096 (UInt32.ofNat (PGSIZE * page)) ⟨true, true⟩)
        { vm with free := rest, taken := page :: vm.taken } (fun _ => P (vpn + 1)) fault)
    (fuel : Nat)
    (enough : pagesOf newsz ≤ vpn + fuel)
    (inside : vpn ≤ pagesOf newsz)
    (holds : P vpn vm)
    (address : a.toNat = PGSIZE * vpn) :
    Run.Spec (allocLoop link oldsz newsz fuel a) vm post fault := by
  induction fuel generalizing vm vpn a with
  | zero =>
    obtain rfl : vpn = pagesOf newsz := by omega
    exact done vm holds
  | succ fuel ih =>
    unfold allocLoop
    split
    case isFalse past =>
      rw [lt_iff_page address] at past
      obtain rfl : vpn = pagesOf newsz := by omega
      exact done vm holds
    case isTrue here =>
      have room := (lt_iff_page address).mp here
      have user := room.trans_le (pagesOf_le_userPages below.le)
      apply Run.Spec.bind
      refine (kalloc_spec vm).mono ?_ (fun _ => False.elim)
      rintro result next (⟨rfl, empty, rfl⟩ | ⟨page, rest, nonempty, rfl, rfl⟩)
      · exact .bind ((fails vpn next room holds empty).mono (fun _ _ => id) fun _ => id)
      · apply Run.Spec.modify_bind
        apply Run.Spec.bind
        refine (maps vpn vm page rest a room user holds nonempty address).mono ?_ (fun _ => id)
        exact fun _ mapped later => ih (by omega) room later (toNat_next address user)

/-- The loop of `allocuvm` grows the address space, fails for want of a page and
gives the new pages back, or loses a page for want of a page table. -/
theorem allocLoop_outcome
    (below : newsz.toNat < KERNBASE)
    (smaller : oldsz.toNat ≤ newsz.toNat)
    (framed : Framed link vm) :
    Run.Spec (allocLoop link oldsz newsz (newsz.toNat / PGSIZE + 1) (PGROUNDUP oldsz)) vm
      (AllocOutcome link vm (pagesOf oldsz) (pagesOf newsz - pagesOf oldsz) newsz)
      (fun _ => ∃ offset < pagesOf newsz - pagesOf oldsz, Remaps vm (pagesOf oldsz) offset ∧
        ∀ before < offset, (vm.dir.pte (pagesOf oldsz + before)).present = false) := by
  have ordered : pagesOf oldsz ≤ pagesOf newsz := by
    unfold pagesOf PGSIZE
    omega
  -- the loop grows the address space, or has just lost a page and finds no other one
  refine allocLoop_rule (P := fun vpn now => Framed link now ∧ ∃ count, pagesOf oldsz + count = vpn ∧
      ((∀ before < count, (vm.dir.pte (pagesOf oldsz + before)).present = false) ∧
          Grown vm (pagesOf oldsz) now count ∨
        ∃ offset, offset + 1 = count ∧ LosesAt vm (pagesOf oldsz) offset ∧ Loses vm now ∧
          now.free = []))
    below ?_ ?_ ?_ _ ?_ ordered ⟨framed, 0, rfl, .inl ⟨nofun, .refl vm _⟩⟩
    (toNat_PGROUNDUP (smaller.trans_lt below))
  · rintro now ⟨nowFramed, count, total, ⟨_, grown⟩ | ⟨offset, last, losesAt, loses, _⟩⟩
    · rw [show pagesOf newsz - pagesOf oldsz = count by omega]
      exact ⟨nowFramed, .inl ⟨rfl, .inl grown⟩⟩
    · exact ⟨nowFramed, .inl ⟨rfl, .inr ⟨offset, by omega, losesAt, loses⟩⟩⟩
  · rintro _ now room ⟨nowFramed, count, rfl, ⟨absent, grown⟩ | ⟨offset, last, losesAt, loses, _⟩⟩ empty
    · refine (grown.rollback nowFramed below room.le).mono ?_ (fun _ => False.elim)
      rintro _ final ⟨stillFramed, back⟩
      have cost := grown.cost
      rw [empty, List.length_nil, Nat.zero_add] at cost
      exact ⟨stillFramed, .inr (.inl ⟨rfl, ⟨count, by omega, absent, cost.symm⟩, back⟩)⟩
    · refine (deallocuvm_conserved below.le oldsz nowFramed).mono ?_ (fun _ => False.elim)
      rintro _ final ⟨_, _, conserved, stillFramed⟩
      exact ⟨stillFramed, .inr (.inr ⟨rfl, ⟨offset, by omega, losesAt⟩, loses.trans conserved⟩)⟩
  · rintro _ now page rest a room user ⟨nowFramed, count, rfl, ⟨absent, grown⟩ | ⟨_, _, _, _, none⟩⟩
      nonempty address
    · refine (grown.mappages nowFramed absent user address nonempty).mono ?_ ?_
      · rintro result next ⟨stillFramed, ⟨rfl, upTo, further⟩ | ⟨rfl, losesAt, loses, empty, _⟩⟩
        · exact ⟨stillFramed, count + 1, rfl, .inl ⟨upTo, further⟩⟩
        · exact ⟨stillFramed, count + 1, rfl, .inr ⟨count, rfl, losesAt, loses, empty⟩⟩
      · exact fun reason remaps => ⟨count, by omega, remaps, absent⟩
    · exact nomatch none.symm.trans nonempty
  · unfold pagesOf PGSIZE
    omega

/-- With enough memory `allocuvm` maps all pages. -/
theorem allocuvm_grows
    (framed : Framed link vm)
    (below : newsz.toNat < KERNBASE)
    (smaller : oldsz.toNat ≤ newsz.toNat)
    (absent : ∀ offset < pagesOf newsz - pagesOf oldsz,
      (vm.dir.pte (pagesOf oldsz + offset)).present = false)
    (memory : needed vm.dir (pagesOf oldsz) (pagesOf newsz - pagesOf oldsz) ≤ vm.free.length) :
    ∃ final, allocuvm link oldsz newsz vm = .ok (newsz, final) ∧
      Grown vm (pagesOf oldsz) final (pagesOf newsz - pagesOf oldsz) ∧ Framed link final := by
  obtain ⟨result, final, returned, stillFramed, outcome⟩ :=
    (allocLoop_outcome below smaller framed).exists_ok fun _ ⟨offset, inside, remaps, _⟩ =>
      absurd ((absent offset inside).symm.trans remaps.present) Bool.false_ne_true
  have loses : ∀ offset < pagesOf newsz - pagesOf oldsz, ¬LosesAt vm (pagesOf oldsz) offset :=
    fun offset inside loses => absurd (loses.lt_needed inside) (not_lt.mpr memory)
  obtain ⟨rfl, grown⟩ : result = newsz ∧
      Grown vm (pagesOf oldsz) final (pagesOf newsz - pagesOf oldsz) := by
    rcases outcome with ⟨same, grown | ⟨offset, last, lost, _⟩⟩ | ⟨_, ⟨offset, inside, out⟩, _⟩ |
      ⟨_, ⟨offset, inside, lost⟩, _⟩
    · exact ⟨same, grown⟩
    · exact absurd lost (loses offset (by omega))
    · have more := needed_strictMono vm.dir (pagesOf oldsz) inside
      have memory := out.memory
      omega
    · exact absurd lost (loses offset (by omega))
  refine ⟨final, ?_, grown, stillFramed⟩
  rw [allocuvm, if_neg (not_le.mpr below), if_neg (by rw [UInt32.lt_iff_toNat_lt]; omega)]
  exact returned

end Alloc

/-! ## `copyuvm` -/

/-- A page that `copyuvm` finds in the old address space. -/
def Copied (old : PageDir) (vpn : Nat) : Prop :=
  old.hasTable vpn = true ∧ (old.pte vpn).present = true

/-- The ways in which copying a number of pages returns. -/
def CopyOutcome (old : PageDir) (origin : Vm) (total : Nat) (result : Bool) (final : Vm) : Prop :=
  result = true ∧ Grown origin 0 final total ∨
    result = false ∧ (∃ offset < total, RunsOut origin 0 offset) ∧
      (∀ page, final.free.count page = origin.free.count page + origin.dir.held page) ∨
    result = false ∧ (∃ offset < total, offset < USERPAGES ∧
        (∀ before ≤ offset, Copied old before) ∧ LosesAt origin 0 offset) ∧
      ∃ lost ∈ origin.free, ∀ page, final.free.count page + single (some lost) page =
        origin.free.count page + origin.dir.held page

/-- The loop of `copyuvm`.  It panics at a page that the old address space lacks,
or at the end of the user part. -/
theorem copyPages_pages {old : PageDir} {count : Nat}
    (user : ∀ vpn < USERPAGES, (origin.dir.pte vpn).present = false)
    (kernel : (origin.dir.pte USERPAGES).present = true)
    (fuel : Nat)
    (enough : pagesOf sz ≤ count + fuel)
    (inside : count ≤ pagesOf sz)
    (bound : count ≤ USERPAGES)
    (grown : Grown origin 0 vm count)
    (framed : Framed link vm)
    (copied : ∀ before < count, Copied old before)
    (address : i.toNat = PGSIZE * count) :
    Run.Spec (copyPages link old sz fuel i) vm (CopyOutcome old origin (pagesOf sz))
      (fun _ => ∃ offset < pagesOf sz, needed origin.dir 0 offset ≤ origin.free.length ∧
        (¬Copied old offset ∨ USERPAGES ≤ offset)) := by
  induction fuel generalizing vm count i with
  | zero =>
    refine .inl ⟨rfl, ?_⟩
    rw [show pagesOf sz = count by omega]
    exact grown
  | succ fuel ih =>
    have more : i < sz ↔ count < pagesOf sz := lt_iff_page address
    have cost := grown.cost
    have page : pageOf i = count := by
      rw [pageOf, address, Nat.mul_div_cancel_left _ (by decide)]
    unfold copyPages
    split
    case isFalse past =>
      refine .inl ⟨rfl, ?_⟩
      rw [show pagesOf sz = count by have := mt more.mpr past; omega]
      exact grown
    case isTrue here =>
      have room := more.mp here
      rw [page]
      split
      case isFalse table =>
        exact ⟨count, room, by omega, .inl fun found => table found.1⟩
      case isTrue table =>
        split
        case isFalse missing =>
          exact ⟨count, room, by omega, .inl fun found => missing found.2⟩
        case isTrue present =>
          have absent : ∀ before < count, (origin.dir.pte (0 + before)).present = false :=
            fun before small => user _ (by omega)
          apply Run.Spec.bind
          refine (kalloc_spec vm).mono ?_ (fun _ => False.elim)
          rintro result next (⟨rfl, empty, rfl⟩ | ⟨page, rest, nonempty, rfl, rfl⟩)
          · apply Run.Spec.bind
            refine (freevm_spec framed).mono ?_ (fun _ => False.elim)
            intro _ final counts
            rw [empty, List.length_nil, Nat.zero_add] at cost
            refine .inr (.inl ⟨rfl, ⟨count, room, absent, cost.symm⟩, fun page => ?_⟩)
            rw [counts page, grown.conserved page]
          apply Run.Spec.bind
          rcases Nat.lt_or_ge count USERPAGES with below | top
          · refine (grown.mappages framed absent (by omega) (by rw [address, Nat.zero_add])
              nonempty).mono ?_ ?_
            · rintro result next ⟨stillFramed, ⟨rfl, _, further⟩ |
                ⟨rfl, losesAt, ⟨lost, member, loses⟩, _, _⟩⟩
              · refine ih (by omega) room below further stillFramed ?_ (toNat_next address below)
                intro before small
                rcases Nat.lt_succ_iff_lt_or_eq.mp small with less | rfl
                · exact copied before less
                · exact ⟨table, present⟩
              · apply Run.Spec.bind
                refine (freevm_spec stillFramed).mono ?_ (fun _ => False.elim)
                intro _ final counts
                refine .inr (.inr ⟨rfl, ⟨count, room, below, ?_, losesAt⟩, lost, member,
                  fun page => ?_⟩)
                · intro before small
                  rcases Nat.lt_or_eq_of_le small with less | rfl
                  · exact copied before less
                  · exact ⟨table, present⟩
                · rw [counts page, loses page]
            · intro reason remaps
              have clear := user _ below
              have set := remaps.present
              rw [Nat.zero_add] at set
              exact absurd (clear.symm.trans set) Bool.false_ne_true
          · obtain rfl : count = USERPAGES := by omega
            have mapped : (({ vm with free := rest } : Vm).dir.pte USERPAGES).present = true := by
              show (vm.dir.pte USERPAGES).present = true
              rcases grown.pte USERPAGES with same | ⟨_, high⟩
              · rw [same]
                exact kernel
              · omega
            unfold Run.Spec
            rw [mappages_present address (by decide) mapped]
            exact ⟨USERPAGES, room, by omega, .inr le_rfl⟩

end Vm
end Xv6
