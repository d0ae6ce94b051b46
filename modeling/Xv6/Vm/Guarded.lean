import Xv6.Vm.Growth

/-!
# Giving pages back once

The functions of `vm.c` that give pages back, with a `kfree` that faults on a page
that is free already.  From a state in which every page is in one place at most
they do what the functions of the kernel do: no page is freed twice.
-/

namespace Xv6
namespace Vm

open Faulting
open Shares

namespace Guarded

/-- The fault of giving back a page that is free. -/
def twice : Stop := .panic "page freed twice"

/-- `kfree` of a page that is not free. -/
def kfree (link : Link) (page : Nat) : VmM Unit := do
  let vm ← Run.get
  if page ∈ vm.free then Run.fault twice
  else Vm.kfree link page

/-- The loop of `deallocuvm`. -/
def deallocLoop (link : Link) (oldsz : UInt32) : (fuel : Nat) → UInt32 → VmM Unit
  | 0, _ => pure ()
  | fuel + 1, a =>
    if a < oldsz then do
      if ← walkpgdir (pageOf a) false then
        let vm ← Run.get
        if (vm.dir.pte (pageOf a)).present then
          if (vm.dir.pte (pageOf a)).page = 0 then panic "kfree"
          kfree link (vm.dir.pte (pageOf a)).page
          Run.modify fun vm =>
            { vm with dir := vm.dir.setPte (pageOf a) Pte.zero }
        deallocLoop link oldsz fuel (a + 4096)
      else deallocLoop link oldsz fuel (a + (1024 - 1) * 4096 + 4096)
    else pure ()

/-- `deallocuvm`. -/
def deallocuvm (link : Link) (oldsz newsz : UInt32) : VmM UInt32 :=
  if oldsz ≤ newsz then pure oldsz
  else do
    deallocLoop link oldsz (oldsz.toNat / PGSIZE + 1) (PGROUNDUP newsz)
    pure newsz

/-- The loop of `freevm` over the page tables. -/
def freeTables (link : Link) : List Nat → VmM Unit
  | [] => pure ()
  | i :: rest => do
      let vm ← Run.get
      match vm.dir.table i with
      | some table => kfree link table.page
      | none => pure ()
      freeTables link rest

/-- `freevm`. -/
def freevm (link : Link) : VmM Unit := do
  let _ ← deallocuvm link (UInt32.ofNat KERNBASE) 0
  freeTables link (List.range NPDENTRIES)
  let vm ← Run.get
  kfree link vm.dir.page

/-- The loop of `allocuvm`. -/
def allocLoop (link : Link) (oldsz newsz : UInt32) :
    (fuel : Nat) → UInt32 → VmM UInt32
  | 0, _ => pure newsz
  | fuel + 1, a =>
    if a < newsz then do
      match ← kalloc with
      | none =>
        let _ ← deallocuvm link newsz oldsz
        pure 0
      | some page =>
        Run.modify fun vm => { vm with taken := page :: vm.taken }
        let _ ← mappages a 4096 (UInt32.ofNat (PGSIZE * page)) ⟨true, true⟩
        allocLoop link oldsz newsz fuel (a + 4096)
    else pure newsz

/-- `allocuvm`. -/
def allocuvm (link : Link) (oldsz newsz : UInt32) : VmM UInt32 :=
  if KERNBASE ≤ newsz.toNat then pure 0
  else if newsz < oldsz then pure oldsz
  else allocLoop link oldsz newsz (newsz.toNat / PGSIZE + 1) (PGROUNDUP oldsz)

/-- The loop of `copyuvm`. -/
def copyPages (link : Link) (old : PageDir) (sz : UInt32) : (fuel : Nat) → UInt32 → VmM Bool
  | 0, _ => pure true
  | fuel + 1, i =>
    if i < sz then
      if old.hasTable (pageOf i) then
        if (old.pte (pageOf i)).present then do
          match ← kalloc with
          | none =>
            freevm link
            pure false
          | some page =>
            if ← mappages i 4096 (UInt32.ofNat (PGSIZE * page)) ⟨true, true⟩ then
              copyPages link old sz fuel (i + 4096)
            else do
              freevm link
              pure false
        else panic "copyuvm: page not present"
      else panic "copyuvm: pte should exist"
    else pure true

/-- `copyuvm`. -/
def copyuvm (link : Link) (old : PageDir) (sz : UInt32) : VmM Bool := do
  if ← setupkvm link then copyPages link old sz (sz.toNat / PGSIZE + 1) 0
  else pure false

end Guarded

/-! ## Pages in one place -/

/-- Every page is free or held by the directory, at most once. -/
def Exclusive (vm : Vm) : Prop :=
  ∀ page, vm.free.count page + vm.dir.held page ≤ 1

theorem Exclusive.of_conserved
    (exclusive : Exclusive vm)
    (conserved : Conserved vm final) :
    Exclusive final := by
  intro page
  rw [conserved page]
  exact exclusive page

/-- A page that is held is not free. -/
theorem Exclusive.not_free
    (exclusive : Exclusive vm)
    (held : 0 < vm.dir.held page) :
    page ∉ vm.free := by
  intro free
  have count := List.count_pos_iff.mpr free
  have bound := exclusive page
  omega

variable {link : Link} {vm : Vm}

theorem guarded_kfree (unused : page ∉ vm.free) :
    Guarded.kfree link page vm = kfree link page vm := by
  rw [Guarded.kfree, Run.bind_of_ok (Run.get_apply vm), if_neg unused]

/-- `kfree` puts a page on the free list. -/
theorem kfree_pushes (freed : kfree link page vm = .ok ((), final)) :
    final = { vm with free := page :: vm.free } := by
  unfold kfree at freed
  split at freed
  · exact nomatch freed
  · exact (Prod.mk.inj (Except.ok.inj freed)).2.symm

variable {oldsz newsz : UInt32} {vpn : Nat}

theorem guarded_deallocLoop
    (below : oldsz.toNat ≤ KERNBASE)
    (fuel : Nat)
    (a : UInt32)
    (exclusive : Exclusive vm) :
    Guarded.deallocLoop link oldsz fuel a vm = deallocLoop link oldsz fuel a vm := by
  induction fuel generalizing a vm with
  | zero => rfl
  | succ fuel ih =>
    unfold Guarded.deallocLoop deallocLoop
    split
    case isFalse => rfl
    case isTrue inside =>
      rw [UInt32.lt_iff_toNat_lt] at inside
      have user : pageOf a < USERPAGES := Nat.div_lt_of_lt_mul (inside.trans_le below)
      have lookup := walkpgdir_lookup (pageOf a) vm
      rw [Run.bind_of_ok lookup, Run.bind_of_ok lookup]
      by_cases table : vm.dir.hasTable (pageOf a) = true
      · rw [if_pos table, if_pos table, Run.bind_of_ok (Run.get_apply vm),
          Run.bind_of_ok (Run.get_apply vm)]
        by_cases present : (vm.dir.pte (pageOf a)).present = true
        · rw [if_pos present, if_pos present]
          split
          case isTrue => rfl
          case isFalse =>
            have mapped : vm.dir.userPage (pageOf a) = some (vm.dir.pte (pageOf a)).page := by
              rw [PageDir.userPage, if_pos present]
            refine Run.bind_congr (guarded_kfree (exclusive.not_free
              (userPage_held user mapped))) (fun _ middle freed => ?_)
            obtain rfl := kfree_pushes freed
            refine ih _ (exclusive.of_conserved ((Unmapped.one table).conserved
              (List.nodup_singleton _) fun vpn member => ?_))
            rw [List.mem_singleton.mp member]
            exact ⟨user, present⟩
        · rw [if_neg present, if_neg present]
          exact ih _ exclusive
      · rw [if_neg table, if_neg table]
        exact ih _ exclusive

theorem guarded_deallocuvm
    (below : oldsz.toNat ≤ KERNBASE)
    (exclusive : Exclusive vm) :
    Guarded.deallocuvm link oldsz newsz vm = deallocuvm link oldsz newsz vm := by
  unfold Guarded.deallocuvm deallocuvm
  split
  case isTrue => rfl
  case isFalse =>
    exact Run.bind_congr (guarded_deallocLoop below _ _ exclusive) (fun _ _ _ => rfl)

/-- The page tables are given back one by one. -/
theorem guarded_freeTables
    (entries : List Nat)
    (once : ∀ page, vm.free.count page +
      (entries.map (fun i => single (vm.dir.tablePage i) page)).sum ≤ 1) :
    Guarded.freeTables link entries vm = freeTables link entries vm := by
  induction entries generalizing vm with
  | nil => rfl
  | cons i rest ih =>
    unfold Guarded.freeTables freeTables
    rw [Run.bind_of_ok (Run.get_apply vm), Run.bind_of_ok (Run.get_apply vm)]
    simp only [List.map_cons, List.sum_cons] at once
    cases found : vm.dir.table i with
    | some table =>
      have held : vm.dir.tablePage i = some table.page := by
        rw [PageDir.tablePage, found]
        rfl
      rw [held] at once
      have unused : table.page ∉ vm.free := by
        intro free
        have count := List.count_pos_iff.mpr free
        have bound := once table.page
        rw [single, if_pos rfl] at bound
        omega
      refine Run.bind_congr (guarded_kfree unused) (fun _ middle freed => ?_)
      obtain rfl := kfree_pushes freed
      refine ih (fun page => ?_)
      have bound := once page
      show (table.page :: vm.free).count page + _ ≤ 1
      rw [count_cons, Nat.add_assoc]
      exact bound
    | none =>
      refine ih (fun page => ?_)
      have bound := once page
      exact le_trans (Nat.add_le_add_left (Nat.le_add_left _ _) _) bound

theorem guarded_freevm
    (framed : Framed link vm)
    (exclusive : Exclusive vm) :
    Guarded.freevm link vm = freevm link vm := by
  unfold Guarded.freevm freevm
  generalize range : List.range NPDENTRIES = entries
  refine Run.bind_congr (guarded_deallocuvm (by decide) exclusive) (fun _ bare unmapped => ?_)
  obtain ⟨_, _, conserved, bareFramed⟩ :=
    (deallocuvm_conserved (by decide) 0 framed).of_ok unmapped
  have still := exclusive.of_conserved conserved
  have tables : ∀ page, (entries.map (fun i => single (bare.dir.tablePage i) page)).sum =
      bare.dir.tableHeld page := by
    intro page
    rw [← range, sum_map_range]
    rfl
  refine Run.bind_congr (guarded_freeTables entries (fun page => ?_)) (fun _ stripped freed => ?_)
  · have bound := still page
    rw [PageDir.held] at bound
    rw [tables page]
    omega
  obtain ⟨sameDir, _, counts⟩ := (freeTables_spec entries bareFramed).of_ok freed
  rw [Run.bind_of_ok (Run.get_apply stripped), Run.bind_of_ok (Run.get_apply stripped)]
  refine guarded_kfree (fun free => ?_)
  have count := List.count_pos_iff.mpr free
  have bound := still stripped.dir.page
  rw [counts, tables] at count
  rw [PageDir.held, sameDir, single, if_pos rfl] at bound
  rw [sameDir] at count
  omega

/-! ## Functions that keep every page in one place -/

theorem Framed.of_held
    (framed : Framed link vm)
    (held : 0 < vm.dir.held page) :
    Link.Frame link page := by
  unfold PageDir.held at held
  by_cases own : 0 < single (some vm.dir.page) page
  · obtain rfl := Option.some.inj (single_pos_iff.mp own)
    exact framed.dir
  by_cases table : 0 < vm.dir.tableHeld page
  · obtain ⟨i, _, positive⟩ := Finset.exists_ne_zero_of_sum_ne_zero (Nat.ne_of_gt table)
    have mapped := single_pos_iff.mp (Nat.pos_of_ne_zero positive)
    obtain ⟨found, entry, rfl⟩ := Option.map_eq_some_iff.mp mapped
    exact framed.table i found entry
  have user : 0 < vm.dir.userHeld page := by omega
  obtain ⟨vpn, inside, positive⟩ := Finset.exists_ne_zero_of_sum_ne_zero (Nat.ne_of_gt user)
  have mapped := single_pos_iff.mp (Nat.pos_of_ne_zero positive)
  unfold PageDir.userPage at mapped
  split at mapped
  case isTrue present =>
    obtain rfl := Option.some.inj mapped
    exact framed.user vpn (Finset.mem_range.mp inside) present
  case isFalse => exact nomatch mapped

/-- Pages that were free or held still are, or are lost. -/
def Keeps (vm final : Vm) : Prop :=
  ∀ page, final.free.count page + final.dir.held page ≤ vm.free.count page + vm.dir.held page

theorem Exclusive.of_keeps
    (exclusive : Exclusive vm)
    (keeps : Keeps vm final) :
    Exclusive final :=
  fun page => (keeps page).trans (exclusive page)

/-- The function frees no page twice, and keeps the pages of its address space. -/
structure Settles (link : Link) (run : VmM α) (vm : Vm) (post : α → Prop) : Prop where
  /-- What it leaves. -/
  spec : Run.Spec run vm (fun result final => post result ∧ Framed link final ∧ Keeps vm final)
    (· ≠ Guarded.twice)

theorem Settles.bind {next : α → VmM β} {post : α → Prop}
    (exclusive : Exclusive vm)
    (settles : Settles link run vm post)
    (later : ∀ result middle, post result → Framed link middle → Exclusive middle →
      Settles link (next result) middle final) :
    Settles link (run >>= next) vm final := by
  refine ⟨Run.Spec.bind (settles.spec.mono ?_ (fun _ => id))⟩
  rintro result middle ⟨holds, framed, keeps⟩
  refine (later result middle holds framed (exclusive.of_keeps keeps)).spec.mono ?_ (fun _ => id)
  rintro _ last ⟨lastHolds, lastFramed, lastKeeps⟩
  exact ⟨lastHolds, lastFramed, fun page => (lastKeeps page).trans (keeps page)⟩

theorem Settles.pure {post : α → Prop}
    (holds : post result)
    (framed : Framed link vm) :
    Settles link (Pure.pure result) vm post :=
  ⟨Run.Spec.pure ⟨holds, framed, fun _ => le_rfl⟩⟩

theorem deallocuvm_settles
    (below : oldsz.toNat ≤ KERNBASE)
    (newsz : UInt32)
    (framed : Framed link vm)
    (exclusive : Exclusive vm) :
    Settles link (Guarded.deallocuvm link oldsz newsz) vm
      (fun result => result.toNat ≤ KERNBASE) := by
  constructor
  unfold Run.Spec
  rw [guarded_deallocuvm below exclusive]
  refine (deallocuvm_conserved below newsz framed).mono ?_ (fun _ => False.elim)
  rintro result final ⟨rfl, _, conserved, stillFramed⟩
  refine ⟨?_, stillFramed, fun page => (conserved page).le⟩
  split
  · exact below
  · rename_i smaller
    rw [UInt32.le_iff_toNat_le] at smaller
    omega

/-- What an address space leaves on the free list when it is given back. -/
def Released (link : Link) (vm final : Vm) : Prop :=
  (∀ page ∈ final.free, Link.Frame link page) ∧
    ∀ page, final.free.count page ≤ vm.free.count page + vm.dir.held page

theorem freevm_released
    (framed : Framed link vm)
    (exclusive : Exclusive vm) :
    Run.Spec (Guarded.freevm link) vm (fun _ final => Released link vm final) (fun _ => False) := by
  unfold Run.Spec
  rw [guarded_freevm framed exclusive]
  refine (freevm_spec framed).mono ?_ (fun _ => id)
  intro _ final counts
  refine ⟨fun page free => ?_, fun page => (counts page).le⟩
  have positive := List.count_pos_iff.mpr free
  rw [counts page] at positive
  by_cases before : 0 < vm.free.count page
  · exact framed.free page (List.count_pos_iff.mp before)
  · exact framed.of_held (by omega)

/-! ## Growing -/

/-- A page is taken and mapped, or lost. -/
theorem mappages_settles
    (framed : Framed link vm)
    (user : vpn < USERPAGES)
    (address : a.toNat = PGSIZE * vpn)
    (nonempty : vm.free = page :: rest) :
    Run.Spec (mappages a 4096 (UInt32.ofNat (PGSIZE * page)) ⟨true, true⟩)
      { vm with free := rest, taken := log }
      (fun _ final => Framed link final ∧ Keeps vm final ∧
        ∀ other, other ≠ vpn → final.dir.pte other = vm.dir.pte other)
      (· ≠ Guarded.twice) := by
  obtain ⟨frame, physical, still⟩ := framed.take nonempty
  refine (mappages_user user address physical _).mono ?_ ?_
  · rintro result final (⟨_, _, mapped⟩ | ⟨_, _, _, rfl⟩)
    · refine ⟨mapped.framed (still log) frame, fun other => ?_, fun _ => mapped.pte⟩
      have counts : final.free.count other + final.dir.held other =
        rest.count other + vm.dir.held other + single (some page) other := mapped.counts other
      rw [nonempty, count_cons]
      omega
    · refine ⟨still log, fun other => ?_, fun _ _ => rfl⟩
      show rest.count other + vm.dir.held other ≤ _
      rw [nonempty, count_cons]
      omega
  · rintro _ ⟨rfl, _⟩
    decide

theorem allocLoop_settles
    (below : newsz.toNat < KERNBASE)
    (fuel : Nat)
    (address : a.toNat = PGSIZE * vpn)
    (framed : Framed link vm)
    (exclusive : Exclusive vm) :
    Settles link (Guarded.allocLoop link oldsz newsz fuel a) vm
      (fun result => result = newsz ∨ result = 0) := by
  induction fuel generalizing a vpn vm with
  | zero => exact Settles.pure (.inl rfl) framed
  | succ fuel ih =>
    unfold Guarded.allocLoop
    split
    case isFalse => exact Settles.pure (.inl rfl) framed
    case isTrue inside =>
      have user := ((lt_iff_page address).mp inside).trans_le (pagesOf_le_userPages below.le)
      refine ⟨Run.Spec.bind ((kalloc_spec vm).mono ?_ (fun _ => False.elim))⟩
      rintro result next (⟨rfl, _, rfl⟩ | ⟨page, rest, nonempty, rfl, rfl⟩)
      · exact (Settles.bind exclusive (deallocuvm_settles below.le oldsz framed exclusive)
          (fun _ _ _ stillFramed _ => Settles.pure (.inr rfl) stillFramed)).spec
      apply Run.Spec.modify_bind
      apply Run.Spec.bind
      refine (mappages_settles framed user address nonempty).mono ?_ (fun _ => id)
      rintro _ mapped ⟨stillFramed, keeps, _⟩
      refine (ih (toNat_next address user) stillFramed (exclusive.of_keeps keeps)).spec.mono ?_
        (fun _ => id)
      rintro _ final ⟨holds, finalFramed, finalKeeps⟩
      exact ⟨holds, finalFramed, fun page => (finalKeeps page).trans (keeps page)⟩

theorem allocuvm_settles
    (below : oldsz.toNat ≤ KERNBASE)
    (framed : Framed link vm)
    (exclusive : Exclusive vm) :
    Settles link (Guarded.allocuvm link oldsz newsz) vm
      (fun result => result.toNat ≤ KERNBASE) := by
  unfold Guarded.allocuvm
  split
  case isTrue => exact Settles.pure (Nat.zero_le KERNBASE) framed
  case isFalse small =>
    split
    case isTrue => exact Settles.pure below framed
    case isFalse grows =>
      have bound : newsz.toNat < KERNBASE := Nat.lt_of_not_le small
      rw [UInt32.lt_iff_toNat_lt] at grows
      refine ⟨(allocLoop_settles bound _ (toNat_PGROUNDUP (by omega)) framed
        exclusive).spec.mono ?_ (fun _ => id)⟩
      rintro result final ⟨rfl | rfl, rest⟩
      · exact ⟨bound.le, rest⟩
      · exact ⟨Nat.zero_le KERNBASE, rest⟩

/-- Closing a page to user code moves no page. -/
theorem clearpteu_settles
    (uva : UInt32)
    (framed : Framed link vm) :
    Settles link (clearpteu uva) vm (fun _ => True) := by
  refine ⟨Run.Spec.bind_ok (walkpgdir_lookup (pageOf uva) vm) ?_⟩
  split
  case isFalse => exact (by decide : Stop.panic "clearpteu" ≠ Guarded.twice)
  case isTrue table =>
    generalize pageOf uva = vpn at table
    refine ⟨True.intro, framed.setPte table _ (fun user present => framed.user vpn user present),
      fun page => ?_⟩
    refine Nat.add_le_add_left (Nat.le_of_eq ?_) _
    rcases Nat.lt_or_ge vpn USERPAGES with user | kernel
    · have change := PageDir.held_setPte table user { vm.dir.pte vpn with user := false } page
      exact Nat.add_right_cancel change
    · exact PageDir.held_setPte_kernel table kernel _ page

/-! ## Making an address space -/

/-- What a function that makes an address space leaves. -/
structure Built (link : Link) (vm : Vm) (made : Bool) (final : Vm) : Prop where
  /-- The free pages can be given back. -/
  free : ∀ page ∈ final.free, Link.Frame link page
  /-- So can those of the address space. -/
  dir : made = true → Framed link final
  /-- The pages come from the free list. -/
  counts : ∀ page, final.free.count page + (if made then final.dir.held page else 0) ≤
    vm.free.count page

theorem setupkvm_built (frames : ∀ page ∈ vm.free, Link.Frame link page) :
    Run.Spec (setupkvm link) vm (Built link vm) (fun _ => False) := by
  refine (setupkvm_pages link vm).mono ?_ (fun _ => id)
  rintro result final (⟨rfl, _, _, counts, framed⟩ |
    ⟨rfl, _, ⟨_, rfl⟩ | ⟨page, rest, nonempty, suffix⟩⟩)
  · exact ⟨(framed frames).free, fun _ => framed frames, fun page => (counts page).le⟩
  · exact ⟨frames, nofun, fun page => le_rfl⟩
  · have contained : final.free.Sublist vm.free := by
      rw [nonempty]
      exact suffix.sublist.trans (List.sublist_cons_self page rest)
    exact ⟨fun page free => frames page (contained.subset free),
      nofun, fun page => contained.count_le page⟩

/-- Giving up an address space that was begun. -/
theorem freevm_built
    (framed : Framed link vm)
    (exclusive : Exclusive vm)
    (counts : ∀ page, vm.free.count page + vm.dir.held page ≤ origin.free.count page) :
    Run.Spec (Guarded.freevm link) vm (fun _ final => Built link origin false final)
      (fun _ => False) := by
  refine (freevm_released framed exclusive).mono ?_ (fun _ => id)
  rintro _ final ⟨frames, released⟩
  exact ⟨frames, nofun, fun page => (released page).trans (counts page)⟩

theorem copyPages_built
    (fuel : Nat)
    (bound : vpn ≤ USERPAGES)
    (address : i.toNat = PGSIZE * vpn)
    (kernel : (vm.dir.pte USERPAGES).present = true)
    (framed : Framed link vm)
    (exclusive : Exclusive vm)
    (counts : ∀ page, vm.free.count page + vm.dir.held page ≤ origin.free.count page) :
    Run.Spec (Guarded.copyPages link old sz fuel i) vm (Built link origin) (· ≠ Guarded.twice) := by
  induction fuel generalizing i vpn vm with
  | zero => exact ⟨framed.free, fun _ => framed, counts⟩
  | succ fuel ih =>
    unfold Guarded.copyPages
    split
    case isFalse => exact ⟨framed.free, fun _ => framed, counts⟩
    case isTrue inside =>
      split
      case isFalse => exact (by decide : Stop.panic "copyuvm: pte should exist" ≠ Guarded.twice)
      case isTrue =>
        split
        case isFalse => exact (by decide : Stop.panic "copyuvm: page not present" ≠ Guarded.twice)
        case isTrue =>
          apply Run.Spec.bind
          refine (kalloc_spec vm).mono ?_ (fun _ => False.elim)
          rintro result next (⟨rfl, _, rfl⟩ | ⟨page, rest, nonempty, rfl, rfl⟩)
          · apply Run.Spec.bind
            exact (freevm_built framed exclusive counts).mono (fun _ _ => id) (fun _ => False.elim)
          apply Run.Spec.bind
          rcases Nat.lt_or_ge vpn USERPAGES with user | top
          · refine (mappages_settles framed user address nonempty).mono ?_ (fun _ => id)
            rintro result mapped ⟨stillFramed, keeps, same⟩
            have still := exclusive.of_keeps keeps
            have later := fun page => (keeps page).trans (counts page)
            cases result with
            | false =>
              apply Run.Spec.bind
              exact (freevm_built stillFramed still later).mono (fun _ _ => id)
                (fun _ => False.elim)
            | true =>
              exact ih user (toNat_next address user)
                (by rw [same _ user.ne']; exact kernel) stillFramed still later
          · obtain rfl : vpn = USERPAGES := le_antisymm bound top
            have present : (({ vm with free := rest } : Vm).dir.pte
              USERPAGES).present = true := kernel
            unfold Run.Spec
            rw [mappages_present address (by decide) present]
            exact (by decide : Stop.panic "remap" ≠ Guarded.twice)

theorem copyuvm_built
    (old : PageDir)
    (sz : UInt32)
    (frames : ∀ page ∈ vm.free, Link.Frame link page)
    (nodup : vm.free.Nodup) :
    Run.Spec (Guarded.copyuvm link old sz) vm (Built link vm) (· ≠ Guarded.twice) := by
  apply Run.Spec.bind
  refine ((setupkvm_built frames).and (setupkvm_pages link vm)).mono ?_
    (fun _ impossible => impossible.1.elim)
  rintro (_ | _) built ⟨made, ⟨done, fresh, _⟩ | ⟨failed, _⟩⟩
  · exact nomatch done
  · rw [if_neg Bool.false_ne_true]
    exact made
  · have exclusive : Exclusive built := fun page =>
      (made.counts page).trans (List.nodup_iff_count_le_one.mp nodup page)
    exact copyPages_built _ (Nat.zero_le USERPAGES) rfl fresh.first (made.dir rfl) exclusive
      made.counts
  · exact nomatch failed

end Vm
end Xv6
