import Xv6.Vm.Owners

/-!
# Unmapping user pages

`deallocuvm` walks over a range of pages and jumps over page tables that are
missing.  `visited` is the list of the pages that the walk comes to; the loop
unmaps these pages and frees them, one after the other.
-/

namespace Xv6
namespace Vm

open Faulting
open Shares

variable {vm : Vm} {vpn page : Nat}

section Walk

variable {dir : PageDir} {first last : Nat}

/-- The walk of `deallocuvm` from a page on jumps over a page: there is no page table
for the pages before, and where the walk comes to the first page table it goes on as far
behind the start of it as it began. -/
def Skipped (dir : PageDir) (first vpn : Nat) : Prop :=
  first / NPTENTRIES < vpn / NPTENTRIES ∧ vpn % NPTENTRIES < first % NPTENTRIES ∧
    ∀ before < vpn, first ≤ before → before / NPTENTRIES < vpn / NPTENTRIES →
      dir.hasTable before = false

instance : DecidablePred (Skipped dir first) := fun _ =>
  inferInstanceAs (Decidable (_ ∧ _ ∧ _))

/-- The present pages of a range that the walk of `deallocuvm` comes to. -/
def visited (dir : PageDir) (first last : Nat) : List Nat :=
  (List.range' first (last - first)).filter fun vpn =>
    (dir.pte vpn).present && decide (¬Skipped dir first vpn)

theorem mem_visited :
    vpn ∈ visited dir first last ↔
      first ≤ vpn ∧ vpn < last ∧ (dir.pte vpn).present = true ∧ ¬Skipped dir first vpn := by
  simp only [visited, List.mem_filter, List.mem_range'_1, Bool.and_eq_true, decide_eq_true_eq,
    and_assoc]
  refine and_congr_right fun low => and_congr_left fun _ => ?_
  omega

theorem visited_sorted (dir : PageDir) (first last : Nat) :
    (visited dir first last).Pairwise (· < ·) :=
  (List.pairwise_lt_range').filter _

theorem visited_eq
    (same : ∀ vpn, first ≤ vpn ∧ vpn < last ∧ (dir.pte vpn).present = true ∧
        ¬Skipped dir first vpn ↔
      first' ≤ vpn ∧ vpn < last' ∧ (other.pte vpn).present = true ∧ ¬Skipped other first' vpn) :
    visited dir first last = visited other first' last' :=
  (visited_sorted _ _ _).eq_of_mem_iff (visited_sorted _ _ _) fun vpn => by
    rw [mem_visited, mem_visited, same]

/-- Nothing is jumped over behind a page that has a page table, or is the first one of
its page table. -/
theorem not_skipped
    (aligned : dir.hasTable first = true ∨ first % NPTENTRIES = 0)
    (vpn : Nat) :
    ¬Skipped dir first vpn := by
  rintro ⟨later, offset, missing⟩
  rcases aligned with table | start
  · have absent := missing first (by unfold NPTENTRIES at *; omega) le_rfl later
    rw [table] at absent
    exact nomatch absent
  · omega

theorem aligned_next (table : dir.hasTable first = true) :
    dir.hasTable (first + 1) = true ∨ (first + 1) % NPTENTRIES = 0 := by
  by_cases same : (first + 1) / NPTENTRIES = first / NPTENTRIES
  · exact .inl ((hasTable_of_same same).trans table)
  · refine .inr ?_
    unfold NPTENTRIES at *
    omega

/-- The walk past a missing page table. -/
theorem visited_of_missing (missing : dir.hasTable first = false) :
    visited dir first last = visited dir (first + NPTENTRIES) last := by
  have absent : ∀ vpn, vpn / NPTENTRIES = first / NPTENTRIES → (dir.pte vpn).present = false :=
    fun vpn same => by rw [pte_of_no_table ((hasTable_of_same same).trans missing)]; rfl
  refine visited_eq fun vpn => ?_
  by_cases near : vpn < first + NPTENTRIES
  · refine iff_of_false ?_ (fun far => absurd far.1 (by omega))
    rintro ⟨low, _, present, walked⟩
    have later : vpn / NPTENTRIES ≠ first / NPTENTRIES := fun same => by
      rw [absent vpn same] at present
      exact nomatch present
    refine walked ⟨by unfold NPTENTRIES at *; omega, by unfold NPTENTRIES at *; omega, ?_⟩
    intro before _ above earlier
    refine (hasTable_of_same ?_).trans missing
    unfold NPTENTRIES at *
    omega
  have skipped : Skipped dir first vpn ↔ Skipped dir (first + NPTENTRIES) vpn := by
    unfold Skipped
    rw [Nat.add_mod_right, Nat.add_div_right _ (by decide)]
    constructor
    · rintro ⟨later, offset, none⟩
      refine ⟨by unfold NPTENTRIES at *; omega, offset, fun before small above => ?_⟩
      exact none before small (by omega)
    rintro ⟨later, offset, none⟩
    refine ⟨by omega, offset, fun before small above earlier => ?_⟩
    by_cases here : before / NPTENTRIES = first / NPTENTRIES
    · exact (hasTable_of_same here).trans missing
    rcases Nat.lt_or_ge before (first + NPTENTRIES) with close | far
    · have next : before / NPTENTRIES = (first + NPTENTRIES) / NPTENTRIES := by
        unfold NPTENTRIES at *
        omega
      rw [hasTable_of_same next]
      refine none _ ?_ le_rfl (next ▸ earlier)
      unfold NPTENTRIES at *
      omega
    · exact none before small far earlier
  rw [skipped]
  refine and_congr_left fun _ => ?_
  omega

theorem visited_nil (none : last ≤ first) :
    visited dir first last = [] := by
  rw [visited, Nat.sub_eq_zero_of_le none]
  rfl

/-- The walk through a page table. -/
theorem visited_of_table
    (table : dir.hasTable first = true)
    (inside : first < last) :
    visited dir first last =
      (if (dir.pte first).present then [first] else []) ++ visited dir (first + 1) last := by
  have rest : (List.range' (first + 1) (last - (first + 1))).filter (fun vpn =>
        (dir.pte vpn).present && decide (¬Skipped dir first vpn)) =
      visited dir (first + 1) last := by
    refine List.filter_congr fun vpn _ => ?_
    simp [not_skipped (.inl table) vpn, not_skipped (aligned_next table) vpn]
  rw [← rest, visited, show last - first = last - (first + 1) + 1 by omega, List.range'_succ,
    List.filter_cons]
  have here := not_skipped (.inl table) first
  cases (dir.pte first).present <;> simp [here]

end Walk

/-- Unmap a page of user memory and free it. -/
def unmap (link : Link) (vpn : Nat) : VmM Unit := do
  let vm ← Run.get
  if (vm.dir.pte vpn).page = 0 then panic "kfree"
  kfree link (vm.dir.pte vpn).page
  Run.modify fun vm => { vm with dir := vm.dir.setPte vpn Pte.zero }

/-- Unmap pages one after the other. -/
def unmapAll (link : Link) : List Nat → VmM Unit
  | [] => pure ()
  | vpn :: rest => do
      unmap link vpn
      unmapAll link rest

/-- What unmapping pages does. -/
structure Unmapped (vm final : Vm) (pages : List Nat) : Prop where
  /-- The entries of the pages, and no others, are cleared. -/
  pte : ∀ vpn, final.dir.pte vpn = if vpn ∈ pages then Pte.zero else vm.dir.pte vpn
  /-- The page tables stay. -/
  tables : ∀ vpn, final.dir.hasTable vpn = vm.dir.hasTable vpn
  /-- Their pages too. -/
  tablePages : ∀ i, final.dir.tablePage i = vm.dir.tablePage i
  /-- The directory stays where it is. -/
  page : final.dir.page = vm.dir.page
  /-- Each page is freed. -/
  free : final.free = pages.reverse.map (fun vpn => (vm.dir.pte vpn).page) ++ vm.free

variable {link : Link} {middle final : Vm} {pages : List Nat} {first last : Nat} {oldsz : UInt32}

theorem Unmapped.refl (vm : Vm) : Unmapped vm vm [] :=
  ⟨fun _ => rfl, fun _ => rfl, fun _ => rfl, rfl, rfl⟩

/-- Unmapping one page. -/
theorem Unmapped.one (table : vm.dir.hasTable vpn = true) :
    Unmapped vm
      { vm with
        free := (vm.dir.pte vpn).page :: vm.free
        dir := vm.dir.setPte vpn Pte.zero } [vpn] where
  pte other := by
    simp only [List.mem_singleton]
    exact PageDir.pte_setPte Pte.zero other table
  tables other := PageDir.hasTable_setPte _ _ _ _
  tablePages i := PageDir.tablePage_setPte _ _ _ i
  page := PageDir.page_setPte _
  free := rfl

theorem Unmapped.cons
    (first : Unmapped vm middle [vpn])
    (rest : Unmapped middle final pages)
    (fresh : vpn ∉ pages) :
    Unmapped vm final (vpn :: pages) where
  pte other := by
    rw [rest.pte, first.pte]
    simp only [List.mem_cons, List.not_mem_nil, or_false]
    by_cases here : other = vpn
    · simp [here]
    · simp [here]
  tables other := (rest.tables other).trans (first.tables other)
  tablePages i := (rest.tablePages i).trans (first.tablePages i)
  page := rest.page.trans first.page
  free := by
    have same : pages.reverse.map (fun vpn => (middle.dir.pte vpn).page) =
        pages.reverse.map (fun vpn => (vm.dir.pte vpn).page) := by
      refine List.map_congr_left fun other member => ?_
      rw [first.pte, if_neg]
      rintro inside
      rw [List.mem_singleton.mp inside, List.mem_reverse] at member
      exact fresh member
    rw [rest.free, same, first.free]
    simp

theorem Unmapped.visited_eq
    (unmapped : Unmapped vm middle [vpn])
    (later : vpn < first) :
    visited middle.dir first last = visited vm.dir first last := by
  refine Vm.visited_eq fun other => and_congr_right fun low => ?_
  have entry : middle.dir.pte other = vm.dir.pte other := by
    rw [unmapped.pte, if_neg]
    intro inside
    rw [List.mem_singleton.mp inside] at low
    omega
  unfold Skipped
  simp only [entry, unmapped.tables]

theorem unmap_frame (frame : Link.Frame link (vm.dir.pte vpn).page) :
    unmap link vpn vm = .ok ((), { vm with
      free := (vm.dir.pte vpn).page :: vm.free
      dir := vm.dir.setPte vpn Pte.zero }) := by
  rw [unmap, Run.bind_of_ok (Run.get_apply vm), if_neg frame.pos.ne']
  exact Run.bind_of_ok (kfree_frame frame)

theorem unmap_refused (refused : ¬Link.Frame link (vm.dir.pte vpn).page) :
    unmap link vpn vm = .error (.panic "kfree") := by
  rw [unmap, Run.bind_of_ok (Run.get_apply vm)]
  split
  · rfl
  · exact Run.bind_of_error (kfree_refused refused)

/-- The address of the next page. -/
theorem toNat_next_page (user : a.toNat < KERNBASE) :
    (a + 4096).toNat = a.toNat + PGSIZE ∧ pageOf (a + 4096) = pageOf a + 1 := by
  have sum : (a + 4096).toNat = a.toNat + PGSIZE := by
    rw [UInt32.toNat_add]
    unfold KERNBASE at user
    simp only [UInt32.reduceToNat]
    unfold PGSIZE
    omega
  refine ⟨sum, ?_⟩
  rw [pageOf, sum]
  exact Nat.add_div_right _ (by decide)

theorem toNat_next {a : UInt32}
    (address : a.toNat = PGSIZE * vpn)
    (user : vpn < USERPAGES) :
    (a + 4096).toNat = PGSIZE * (vpn + 1) := by
  have low : a.toNat < KERNBASE := by
    rw [address]
    exact (Nat.lt_div_iff_mul_lt' (by decide) _).mp user
  rw [(toNat_next_page low).1, address, Nat.mul_succ]

/-- The address after the pages of a page table. -/
theorem toNat_next_table (user : a.toNat < KERNBASE) :
    (a + (1024 - 1) * 4096 + 4096).toNat = a.toNat + PGSIZE * NPTENTRIES ∧
      pageOf (a + (1024 - 1) * 4096 + 4096) = pageOf a + NPTENTRIES := by
  have sum : (a + (1024 - 1) * 4096 + 4096).toNat = a.toNat + PGSIZE * NPTENTRIES := by
    rw [UInt32.toNat_add, UInt32.toNat_add]
    unfold KERNBASE at user
    simp only [UInt32.reduceSub, UInt32.reduceMul, UInt32.reduceToNat]
    unfold PGSIZE NPTENTRIES
    omega
  refine ⟨sum, ?_⟩
  rw [pageOf, sum, Nat.mul_comm]
  exact Nat.add_mul_div_right _ _ (by decide)

theorem walkpgdir_lookup (vpn : Nat) (vm : Vm) :
    walkpgdir vpn false vm = .ok (vm.dir.hasTable vpn, vm) := by
  rw [walkpgdir, Run.bind_of_ok (Run.get_apply vm)]
  cases vm.dir.hasTable vpn <;> rfl

/-- The loop of `deallocuvm` unmaps the pages that it comes to. -/
theorem deallocLoop_eq
    (below : oldsz.toNat ≤ KERNBASE)
    (fuel : Nat)
    (a : UInt32)
    (whole : a.toNat % PGSIZE = 0)
    (enough : oldsz.toNat ≤ a.toNat + PGSIZE * fuel)
    (vm : Vm) :
    deallocLoop link oldsz fuel a vm =
      unmapAll link (visited vm.dir (pageOf a) (pagesOf oldsz)) vm := by
  induction fuel generalizing a vm with
  | zero =>
    rw [visited_nil (by unfold pageOf pagesOf PGSIZE at *; omega)]
    rfl
  | succ fuel ih =>
    unfold deallocLoop
    split
    case isFalse past =>
      rw [UInt32.lt_iff_toNat_lt] at past
      rw [visited_nil (by unfold pageOf pagesOf PGSIZE at *; omega)]
      rfl
    case isTrue inside =>
      rw [UInt32.lt_iff_toNat_lt] at inside
      obtain ⟨sumPage, nextPage⟩ := toNat_next_page (inside.trans_le below)
      obtain ⟨sumTable, nextTable⟩ := toNat_next_table (inside.trans_le below)
      have later := ih (a + 4096) (by rw [sumPage, Nat.add_mod_right, whole])
        (by rw [sumPage]; unfold PGSIZE at *; omega)
      rw [Run.bind_of_ok (walkpgdir_lookup (pageOf a) vm)]
      by_cases table : vm.dir.hasTable (pageOf a) = true
      · have range : pageOf a < pagesOf oldsz := by
          unfold pageOf pagesOf PGSIZE at *
          omega
        rw [if_pos table, Run.bind_of_ok (Run.get_apply vm), visited_of_table table range]
        by_cases present : (vm.dir.pte (pageOf a)).present = true
        · rw [if_pos present, if_pos present, List.singleton_append]
          show _ = (unmap link (pageOf a) >>= fun _ => unmapAll link _) vm
          by_cases frame : Link.Frame link (vm.dir.pte (pageOf a)).page
          · rw [if_neg frame.pos.ne', Run.bind_of_ok (unmap_frame frame),
              ← (Unmapped.one table).visited_eq (Nat.lt_add_one _), ← nextPage, ← later]
            exact Run.bind_of_ok (kfree_frame frame)
          · rw [Run.bind_of_error (unmap_refused frame)]
            split
            · rfl
            · exact Run.bind_of_error (kfree_refused frame)
        · rw [if_neg present, if_neg present, List.nil_append, ← nextPage]
          exact later vm
      · have missing : vm.dir.hasTable (pageOf a) = false := by simpa using table
        rw [if_neg table, visited_of_missing missing, ← nextTable]
        refine ih _ ?_ ?_ vm
        · rw [sumTable, Nat.add_mul_mod_self_left, whole]
        · rw [sumTable]
          unfold NPTENTRIES PGSIZE at *
          omega

/-- Unmapping pages, one after the other. -/
theorem unmapAll_spec
    (pages : List Nat)
    (vm : Vm)
    (present : ∀ vpn ∈ pages, (vm.dir.pte vpn).present = true)
    (distinct : pages.Nodup) :
    Run.Spec (unmapAll link pages) vm
      (fun _ final => Unmapped vm final pages ∧ ∀ vpn ∈ pages, Link.Frame link (vm.dir.pte vpn).page)
      (fun _ => ∃ vpn ∈ pages, ¬Link.Frame link (vm.dir.pte vpn).page) := by
  induction pages generalizing vm with
  | nil => exact ⟨.refl vm, fun _ member => absurd member List.not_mem_nil⟩
  | cons vpn rest ih =>
    obtain ⟨fresh, distinct⟩ := List.nodup_cons.mp distinct
    have table := hasTable_of_present (present vpn List.mem_cons_self)
    by_cases frame : Link.Frame link (vm.dir.pte vpn).page
    · have one : Unmapped vm _ [vpn] := .one table
      have same : ∀ other ∈ rest, (vm.dir.setPte vpn Pte.zero).pte other = vm.dir.pte other := by
        intro other member
        refine (one.pte other).trans (if_neg ?_)
        rintro here
        rw [List.mem_singleton.mp here] at member
        exact fresh member
      refine .bind_ok (unmap_frame frame) ((ih _ ?_ distinct).mono ?_ ?_)
      · intro other member
        show ((vm.dir.setPte vpn Pte.zero).pte other).present = true
        rw [same other member]
        exact present other (List.mem_cons_of_mem _ member)
      · rintro _ final ⟨unmapped, frames⟩
        refine ⟨one.cons unmapped fresh, List.forall_mem_cons.mpr ⟨frame, fun other member => ?_⟩⟩
        rw [← same other member]
        exact frames other member
      · rintro _ ⟨other, member, bad⟩
        refine ⟨other, List.mem_cons_of_mem _ member, ?_⟩
        rw [← same other member]
        exact bad
    · unfold unmapAll Run.Spec
      rw [Run.bind_of_error (unmap_refused frame)]
      exact ⟨vpn, List.mem_cons_self, frame⟩

theorem Unmapped.absent
    (unmapped : Unmapped vm final (visited vm.dir first last))
    (low : first ≤ vpn)
    (high : vpn < last)
    (walked : ¬Skipped vm.dir first vpn) :
    (final.dir.pte vpn).present = false := by
  rw [unmapped.pte]
  split
  · rfl
  · rename_i other
    rw [mem_visited] at other
    simpa [low, high, walked] using other

/-- The loop of `deallocuvm`, with any number of rounds that is large enough. -/
theorem deallocLoop_start
    (below : oldsz.toNat ≤ KERNBASE)
    (smaller : newsz.toNat < oldsz.toNat)
    (enough : oldsz.toNat / PGSIZE < fuel)
    (vm : Vm) :
    deallocLoop link oldsz fuel (PGROUNDUP newsz) vm =
      unmapAll link (visited vm.dir (pagesOf newsz) (pagesOf oldsz)) vm := by
  have rounded : (PGROUNDUP newsz).toNat = _ := toNat_PGROUNDUP (smaller.trans_le below)
  have first : pageOf (PGROUNDUP newsz) = pagesOf newsz := by
    rw [pageOf, rounded, Nat.mul_div_cancel_left _ (by decide)]
  rw [deallocLoop_eq below fuel _ (by rw [rounded, Nat.mul_mod_right]) _ vm, first]
  exact ((Nat.lt_mul_div_succ _ (by decide)).le.trans (Nat.mul_le_mul_left PGSIZE enough)).trans
    (Nat.le_add_left _ _)

theorem visited_spec
    (link : Link)
    (vm : Vm)
    (first last : Nat) :
    Run.Spec (unmapAll link (visited vm.dir first last)) vm
      (fun _ final => Unmapped vm final (visited vm.dir first last) ∧
        ∀ vpn ∈ visited vm.dir first last, Link.Frame link (vm.dir.pte vpn).page)
      (fun _ => ∃ vpn ∈ visited vm.dir first last, ¬Link.Frame link (vm.dir.pte vpn).page) :=
  unmapAll_spec _ vm (fun _ member => (mem_visited.mp member).2.2.1) (visited_sorted _ _ _).nodup

/-- `deallocuvm` unmaps the pages between the sizes that it comes to. -/
theorem deallocuvm_spec
    (below : oldsz.toNat ≤ KERNBASE)
    (newsz : UInt32)
    (vm : Vm) :
    Run.Spec (deallocuvm link oldsz newsz) vm
      (fun result final => result = (if oldsz ≤ newsz then oldsz else newsz) ∧
        Unmapped vm final (visited vm.dir (pagesOf newsz) (pagesOf oldsz)) ∧
        ∀ vpn ∈ visited vm.dir (pagesOf newsz) (pagesOf oldsz),
          Link.Frame link (vm.dir.pte vpn).page)
      (fun _ => ∃ vpn ∈ visited vm.dir (pagesOf newsz) (pagesOf oldsz),
        ¬Link.Frame link (vm.dir.pte vpn).page) := by
  unfold deallocuvm
  split
  case isTrue larger =>
    rw [UInt32.le_iff_toNat_le] at larger
    rw [visited_nil (by unfold pagesOf; exact Nat.div_le_div_right (by omega))]
    exact ⟨rfl, .refl vm, fun _ member => absurd member List.not_mem_nil⟩
  case isFalse smaller =>
    rw [UInt32.le_iff_toNat_le] at smaller
    apply Run.Spec.bind
    unfold Run.Spec
    rw [deallocLoop_start below (not_le.mp smaller) (Nat.lt_add_one _)]
    exact (visited_spec link vm _ _).mono (fun _ _ done => ⟨rfl, done⟩) (fun _ => id)

theorem Unmapped.framed
    (unmapped : Unmapped vm final pages)
    (frames : ∀ vpn ∈ pages, Link.Frame link (vm.dir.pte vpn).page)
    (framed : Framed link vm) :
    Framed link final where
  free := by
    intro page member
    rw [unmapped.free] at member
    rcases List.mem_append.mp member with freed | old
    · obtain ⟨vpn, inside, rfl⟩ := List.mem_map.mp freed
      exact frames vpn (List.mem_reverse.mp inside)
    · exact framed.free page old
  dir := by
    rw [unmapped.page]
    exact framed.dir
  table := by
    intro i table found
    have same := unmapped.tablePages i
    rw [PageDir.tablePage, found] at same
    obtain ⟨old, before, page⟩ := Option.map_eq_some_iff.mp same.symm
    rw [← page]
    exact framed.table i old before
  user := by
    intro vpn below present
    rw [unmapped.pte] at present ⊢
    split at present
    · cases present
    · rename_i kept
      rw [if_neg kept]
      exact framed.user vpn below present

theorem deallocuvm_framed
    (below : oldsz.toNat ≤ KERNBASE)
    (newsz : UInt32)
    (framed : Framed link vm) :
    Run.Spec (deallocuvm link oldsz newsz) vm
      (fun result final => result = (if oldsz ≤ newsz then oldsz else newsz) ∧
        Unmapped vm final (visited vm.dir (pagesOf newsz) (pagesOf oldsz)) ∧ Framed link final)
      (fun _ => False) := by
  refine (deallocuvm_spec below newsz vm).mono ?_ ?_
  · exact fun _ final ⟨result, unmapped, frames⟩ => ⟨result, unmapped, unmapped.framed frames framed⟩
  · rintro _ ⟨vpn, member, refused⟩
    obtain ⟨_, high, present, _⟩ := mem_visited.mp member
    exact refused (framed.user vpn (high.trans_le (pagesOf_le_userPages below)) present)

/-! ## Giving pages back -/

/-- Unmapping user pages moves them to the free list. -/
theorem Unmapped.conserved
    (unmapped : Unmapped vm final pages)
    (distinct : pages.Nodup)
    (mapped : ∀ vpn ∈ pages, vpn < USERPAGES ∧ (vm.dir.pte vpn).present = true) :
    Conserved vm final := by
  intro page
  have tables : final.dir.tableHeld page = vm.dir.tableHeld page :=
    Finset.sum_congr rfl fun i _ => by rw [unmapped.tablePages]
  have entry : ∀ vpn, single (vm.dir.userPage vpn) page =
      (if vpn ∈ pages.toFinset then single (some (vm.dir.pte vpn).page) page else 0) +
        single (final.dir.userPage vpn) page := by
    intro vpn
    rw [PageDir.userPage, PageDir.userPage, unmapped.pte]
    by_cases inside : vpn ∈ pages
    · simp [inside, (mapped vpn inside).2, Pte.zero]
    · simp [inside]
  have freed : ∑ vpn ∈ pages.toFinset, single (some (vm.dir.pte vpn).page) page =
      (pages.map fun vpn => (vm.dir.pte vpn).page).count page := by
    rw [List.sum_toFinset _ distinct]
    clear entry unmapped distinct mapped
    induction pages with
    | nil => rfl
    | cons vpn rest ih => rw [List.map_cons, List.sum_cons, ih, List.map_cons, count_cons, Nat.add_comm]
  have user : vm.dir.userHeld page = (pages.map fun vpn => (vm.dir.pte vpn).page).count page +
      final.dir.userHeld page := by
    rw [PageDir.userHeld, Finset.sum_congr rfl fun vpn _ => entry vpn, Finset.sum_add_distrib,
      Finset.sum_ite_mem, Finset.inter_eq_right.mpr, freed]
    · rfl
    · exact fun vpn inside => Finset.mem_range.mpr (mapped vpn (List.mem_toFinset.mp inside)).1
  rw [unmapped.free, List.count_append, ← List.map_reverse.symm, List.count_reverse, PageDir.held,
    PageDir.held, tables, user, unmapped.page]
  omega

/-- `deallocuvm` moves user pages to the free list. -/
theorem deallocuvm_conserved
    (below : oldsz.toNat ≤ KERNBASE)
    (newsz : UInt32)
    (framed : Framed link vm) :
    Run.Spec (deallocuvm link oldsz newsz) vm
      (fun result final => result = (if oldsz ≤ newsz then oldsz else newsz) ∧
        Unmapped vm final (visited vm.dir (pagesOf newsz) (pagesOf oldsz)) ∧
        Conserved vm final ∧ Framed link final)
      (fun _ => False) := by
  refine (deallocuvm_framed below newsz framed).mono ?_ (fun _ => id)
  rintro _ final ⟨result, unmapped, stillFramed⟩
  refine ⟨result, unmapped, unmapped.conserved (visited_sorted _ _ _).nodup ?_, stillFramed⟩
  intro vpn member
  obtain ⟨_, high, present, _⟩ := mem_visited.mp member
  exact ⟨high.trans_le (pagesOf_le_userPages below), present⟩

/-- The page tables are given back. -/
theorem freeTables_spec
    (entries : List Nat)
    (framed : Framed link vm) :
    Run.Spec (freeTables link entries) vm
      (fun _ final => final.dir = vm.dir ∧ Framed link final ∧ ∀ page, final.free.count page =
        vm.free.count page + (entries.map (fun i => single (vm.dir.tablePage i) page)).sum)
      (fun _ => False) := by
  induction entries generalizing vm with
  | nil => exact ⟨rfl, framed, fun _ => rfl⟩
  | cons i rest ih =>
    apply Run.Spec.get_bind
    cases found : vm.dir.table i with
    | some table =>
      have frame := framed.table i table found
      refine .bind_ok (kfree_frame frame) ((ih (framed.kfree frame)).mono ?_ (fun _ => id))
      rintro _ final ⟨dir, finalFramed, counts⟩
      refine ⟨dir, finalFramed, fun page => ?_⟩
      have held : vm.dir.tablePage i = some table.page := by rw [PageDir.tablePage, found]; rfl
      rw [counts page, count_cons, List.map_cons, List.sum_cons, held, Nat.add_assoc]
    | none =>
      refine (ih framed).mono ?_ (fun _ => id)
      rintro _ final ⟨dir, finalFramed, counts⟩
      refine ⟨dir, finalFramed, fun page => ?_⟩
      have held : vm.dir.tablePage i = none := by rw [PageDir.tablePage, found]; rfl
      rw [counts page, List.map_cons, List.sum_cons, held, single_none, Pi.zero_apply, Nat.zero_add]

theorem sum_map_range (n : Nat) (f : Nat → Nat) :
    ((List.range n).map f).sum = ∑ i ∈ Finset.range n, f i := rfl

/-- `freevm` gives all pages of the directory back. -/
theorem freevm_spec (framed : Framed link vm) :
    Run.Spec (freevm link) vm
      (fun _ final => ∀ page, final.free.count page = vm.free.count page + vm.dir.held page)
      (fun _ => False) := by
  unfold freevm
  generalize range : List.range NPDENTRIES = entries
  apply Run.Spec.bind
  refine (deallocuvm_conserved (by decide) 0 framed).mono ?_ (fun _ => False.elim)
  rintro _ bare ⟨_, shrunk, conserved, bareFramed⟩
  have noUser : ∀ page, bare.dir.userHeld page = 0 := by
    intro page
    refine Finset.sum_eq_zero (fun vpn below => ?_)
    have absent := shrunk.absent (Nat.zero_le _) (Finset.mem_range.mp below)
      (not_skipped (.inr rfl) vpn)
    rw [PageDir.userPage, if_neg (by rw [absent]; exact Bool.false_ne_true), single_none,
      Pi.zero_apply]
  apply Run.Spec.bind
  refine (freeTables_spec _ bareFramed).mono ?_ (fun _ => id)
  rintro _ stripped ⟨sameDir, strippedFramed, counts⟩
  apply Run.Spec.get_bind
  refine Run.Spec.returns (kfree_frame strippedFramed.dir) fun page => ?_
  have total := conserved page
  rw [PageDir.held, noUser, Nat.add_zero] at total
  rw [← total]
  show (stripped.dir.page :: stripped.free).count page = _
  rw [count_cons, counts page, ← range, sum_map_range, sameDir]
  show _ + bare.dir.tableHeld page + _ = _
  omega

/-- An address space made of such pages is freed without a panic. -/
theorem freevm_returns (framed : Framed link vm) :
    ∃ final, freevm link vm = .ok ((), final) := by
  obtain ⟨_, final, returned, _⟩ := (freevm_spec framed).exists_ok fun _ => id
  exact ⟨final, returned⟩

/-! ## Exactly the pages between the sizes -/

/-- What is wanted of `deallocuvm`: the mapped pages between the sizes are unmapped
and freed, each once, and nothing else is changed. -/
structure Removes (link : Link) (vm : Vm) (oldsz newsz : UInt32) (final : Vm) : Prop where
  /-- It returns the new size. -/
  returns : deallocuvm link oldsz newsz vm = .ok (newsz, final)
  /-- No page between the sizes is mapped. -/
  absent : ∀ vpn, pagesOf newsz ≤ vpn → vpn < pagesOf oldsz → (final.dir.pte vpn).present = false
  /-- Each of those that were mapped is freed once. -/
  freed : ∃ pages : List Nat, pages.Nodup ∧ (∀ vpn, vpn ∈ pages ↔
      pagesOf newsz ≤ vpn ∧ vpn < pagesOf oldsz ∧ (vm.dir.pte vpn).present = true) ∧
    final.free = pages.map (fun vpn => (vm.dir.pte vpn).page) ++ vm.free
  /-- The other entries are as before. -/
  kept : ∀ vpn, ¬(pagesOf newsz ≤ vpn ∧ vpn < pagesOf oldsz ∧ (vm.dir.pte vpn).present = true) →
    final.dir.pte vpn = vm.dir.pte vpn
  /-- The loop ends: more rounds make no difference. -/
  ends : ∀ fuel, oldsz.toNat / PGSIZE < fuel →
    deallocLoop link oldsz fuel (PGROUNDUP newsz) vm = .ok ((), final)
  /-- No address wraps around. -/
  climbs : newsz ≤ PGROUNDUP newsz ∧ ∀ a < oldsz, a < a + 4096 ∧ a < a + (1024 - 1) * 4096 + 4096

/-- `deallocuvm` removes exactly the pages between the sizes if and only if `kfree`
takes each of them, and the walk jumps over none of them. -/
theorem deallocuvm_removes_iff
    (link : Link)
    (vm : Vm)
    (oldsz newsz : UInt32)
    (smaller : newsz.toNat < oldsz.toNat)
    (below : oldsz.toNat ≤ KERNBASE) :
    (∃ final, Removes link vm oldsz newsz final) ↔
      ∀ vpn, pagesOf newsz ≤ vpn → vpn < pagesOf oldsz → (vm.dir.pte vpn).present = true →
        Link.Frame link (vm.dir.pte vpn).page ∧ ¬Skipped vm.dir (pagesOf newsz) vpn := by
  constructor
  · rintro ⟨final, removes⟩ vpn low high present
    obtain ⟨_, unmapped, frames⟩ := (deallocuvm_spec below newsz vm).of_ok removes.returns
    have absent := removes.absent vpn low high
    rw [unmapped.pte] at absent
    split at absent
    · rename_i member
      exact ⟨frames vpn member, (mem_visited.mp member).2.2.2⟩
    · rw [present] at absent
      exact nomatch absent
  intro sound
  have walked : ∀ vpn, vpn ∈ visited vm.dir (pagesOf newsz) (pagesOf oldsz) ↔
      pagesOf newsz ≤ vpn ∧ vpn < pagesOf oldsz ∧ (vm.dir.pte vpn).present = true := by
    intro vpn
    rw [mem_visited]
    exact ⟨fun ⟨low, high, present, _⟩ => ⟨low, high, present⟩,
      fun ⟨low, high, present⟩ => ⟨low, high, present, (sound vpn low high present).2⟩⟩
  obtain ⟨_, final, run, unmapped, _⟩ :=
    (visited_spec link vm (pagesOf newsz) (pagesOf oldsz)).exists_ok fun _ ⟨vpn, member, refused⟩ => by
      obtain ⟨low, high, present⟩ := (walked vpn).mp member
      exact refused (sound vpn low high present).1
  have ends : ∀ fuel, oldsz.toNat / PGSIZE < fuel →
      deallocLoop link oldsz fuel (PGROUNDUP newsz) vm = .ok ((), final) :=
    fun fuel enough => (deallocLoop_start below smaller enough vm).trans run
  refine ⟨final, ?_, ?_, ?_, ?_, ends, ?_⟩
  · unfold deallocuvm
    rw [if_neg (by rw [UInt32.le_iff_toNat_le]; omega), Run.bind_of_ok (ends _ (Nat.lt_add_one _))]
    rfl
  · intro vpn low high
    rw [unmapped.pte]
    split
    · rfl
    · rename_i other
      simpa [walked, low, high] using other
  · refine ⟨(visited vm.dir (pagesOf newsz) (pagesOf oldsz)).reverse,
      List.nodup_reverse.mpr (visited_sorted _ _ _).nodup, fun vpn => ?_, unmapped.free⟩
    rw [List.mem_reverse, walked]
  · intro vpn outside
    rw [unmapped.pte, if_neg (fun member => outside ((walked vpn).mp member))]
  · refine ⟨?_, fun a inside => ?_⟩
    · rw [UInt32.le_iff_toNat_le, toNat_PGROUNDUP (smaller.trans_le below)]
      unfold pagesOf PGSIZE
      omega
    · rw [UInt32.lt_iff_toNat_lt] at inside
      rw [UInt32.lt_iff_toNat_lt, UInt32.lt_iff_toNat_lt,
        (toNat_next_page (inside.trans_le below)).1, (toNat_next_table (inside.trans_le below)).1]
      unfold PGSIZE NPTENTRIES
      omega

end Vm

namespace WrapSample

/-- A kernel image. -/
def link : Link where
  data := 0x80108000
  kend := 0x80110000
  aligned := by decide
  lower := by decide
  ordered := by decide
  upper := by decide

end WrapSample

namespace Vm
namespace SkipSample

/-- An address space with one page, the first one of its second page table. -/
def vm : Vm where
  free := []
  dir := ⟨0x500, fun i => if i = 1 then
    some ⟨0x501, fun vpn => if vpn = 0 then ⟨0x502, true, true, true⟩ else Pte.zero⟩ else none⟩
  taken := []

/-- The page is removed when the range starts at it. -/
theorem deallocuvm_removes_page :
    (0x400000 : UInt32).toNat < (0x401000 : UInt32).toNat ∧
      (0x401000 : UInt32).toNat ≤ KERNBASE ∧
      ∃ final, Removes WrapSample.link vm 0x401000 0x400000 final := by
  refine ⟨by decide, by decide,
    (deallocuvm_removes_iff WrapSample.link vm 0x401000 0x400000 (by decide) (by decide)).mpr ?_⟩
  intro vpn low high _
  obtain rfl : vpn = 1024 := by
    rw [show pagesOf 0x400000 = 1024 by decide] at low
    rw [show pagesOf 0x401000 = 1025 by decide] at high
    omega
  exact ⟨⟨by decide, by decide⟩, not_skipped (.inl rfl) _⟩

/-- The page stays when the range starts behind the first page of the first page table,
which is missing. -/
theorem deallocuvm_skips_page :
    (0x1000 : UInt32).toNat < (0x401000 : UInt32).toNat ∧
      (0x401000 : UInt32).toNat ≤ KERNBASE ∧
      pagesOf 0x1000 ≤ 1024 ∧ 1024 < pagesOf 0x401000 ∧
      ∃ final, deallocuvm WrapSample.link 0x401000 0x1000 vm = .ok (0x1000, final) ∧
        (final.dir.pte 1024).present = true :=
  ⟨by decide, by decide, by decide, by decide, _, rfl, rfl⟩

end SkipSample

end Vm
end Xv6
