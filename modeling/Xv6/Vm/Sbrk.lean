import Xv6.Vm.Growth

/-!
# `sbrk`

`growproc` on the size and the address space of a process.  The module says which
pages are mapped after it, for every number it is called with and every number of
free pages.  `allocuvm` and `deallocuvm` report failure as the size 0, which is also
a size that a process can shrink to.
-/

namespace Xv6
namespace Vm

open Faulting
open Function (update update_of_ne update_self)

/-- The free list at the moments when a round of the loop of `allocuvm` asks for a
page, and when it asks for a page table: other processes take pages and give pages
back in between. -/
abbrev Moments := Nat → List Nat × List Nat

/-- The loop of `allocuvm`, from a round on.  What `mappages` returns is not looked
at. -/
def allocRounds (link : Link) (moments : Moments) (oldsz newsz : UInt32) :
    (fuel round : Nat) → UInt32 → VmM UInt32
  | 0, _, _ => pure newsz
  | fuel + 1, round, a =>
    if a < newsz then do
      Run.modify fun vm => { vm with free := (moments round).1 }
      match ← kalloc with
      | none =>
        let _ ← deallocuvm link newsz oldsz
        pure 0
      | some page =>
        Run.modify fun vm => { vm with free := (moments round).2 }
        let _ ← mappages a 4096 (UInt32.ofNat (PGSIZE * page)) ⟨true, true⟩
        allocRounds link moments oldsz newsz fuel (round + 1) (a + 4096)
    else pure newsz

/-- `allocuvm` among other processes. -/
def allocuvmAmong (link : Link) (moments : Moments) (oldsz newsz : UInt32) : VmM UInt32 :=
  if KERNBASE ≤ newsz.toNat then pure 0
  else if newsz < oldsz then pure oldsz
  else allocRounds link moments oldsz newsz (newsz.toNat / PGSIZE + 1) 0 (PGROUNDUP oldsz)

/-- All pages on the free list are ones that `kfree` takes. -/
def Moments.Framed (link : Link) (moments : Moments) : Prop :=
  ∀ round, ∀ page ∈ (moments round).1 ++ (moments round).2, Link.Frame link page

/-- The bytes of every physical page. -/
abbrev Memory := Nat → Nat → UInt8

namespace Contents

/-- The loop of `allocuvm`, with the zeros that it fills pages with. -/
def allocRounds (link : Link) (moments : Moments) (oldsz newsz : UInt32) :
    (fuel round : Nat) → UInt32 → Run Stop (Vm × Memory) UInt32
  | 0, _, _ => pure newsz
  | fuel + 1, round, a =>
    if a < newsz then do
      Run.onFirst (Run.modify fun vm => { vm with free := (moments round).1 })
      match ← Run.onFirst kalloc with
      | none =>
        let _ ← Run.onFirst (deallocuvm link newsz oldsz)
        pure 0
      | some page =>
        Run.modify fun state => (state.1, update state.2 page fun _ => 0)
        Run.onFirst (Run.modify fun vm => { vm with free := (moments round).2 })
        let _ ← Run.onFirst (mappages a 4096 (UInt32.ofNat (PGSIZE * page)) ⟨true, true⟩)
        allocRounds link moments oldsz newsz fuel (round + 1) (a + 4096)
    else pure newsz

/-- `allocuvm` among other processes, with the bytes of the pages. -/
def allocuvmAmong (link : Link) (moments : Moments) (oldsz newsz : UInt32) :
    Run Stop (Vm × Memory) UInt32 :=
  if KERNBASE ≤ newsz.toNat then pure 0
  else if newsz < oldsz then pure oldsz
  else allocRounds link moments oldsz newsz (newsz.toNat / PGSIZE + 1) 0 (PGROUNDUP oldsz)

theorem allocRounds_over (link : Link) (moments : Moments) (oldsz newsz : UInt32)
    (fuel round : Nat) (a : UInt32) :
    Run.Over (Contents.allocRounds link moments oldsz newsz fuel round a)
      (Vm.allocRounds link moments oldsz newsz fuel round a) := by
  induction fuel generalizing round a with
  | zero => exact .pure newsz
  | succ fuel ih =>
    unfold Contents.allocRounds Vm.allocRounds
    split
    · refine .bind (.onFirst _) fun _ => .bind (.onFirst kalloc) fun taken => ?_
      cases taken with
      | none => exact .bind (.onFirst _) fun _ => .pure 0
      | some page =>
        refine .modify_bind (fun _ => rfl) (.bind (.onFirst _) fun _ => ?_)
        exact .bind (.onFirst _) fun _ => ih (round + 1) (a + 4096)
    · exact .pure newsz

/-- The address space is the one that `allocuvm` makes. -/
theorem allocuvmAmong_over (link : Link) (moments : Moments) (oldsz newsz : UInt32) :
    Run.Over (Contents.allocuvmAmong link moments oldsz newsz)
      (Vm.allocuvmAmong link moments oldsz newsz) := by
  unfold Contents.allocuvmAmong Vm.allocuvmAmong
  split
  · exact .pure 0
  · split
    · exact .pure oldsz
    · exact allocRounds_over _ _ _ _ _ _ _

end Contents

/-- `growproc` for a process of a size; `n` is a signed number.  The value is what it
returns, with `proc->sz` after it. -/
def growproc (link : Link) (moments : Moments) (sz n : UInt32) : VmM (Int × UInt32) := do
  if 0 < asInt n then
    let new ← allocuvmAmong link moments sz (sz + n)
    if new = 0 then pure (-1, sz) else pure (0, new)
  else if asInt n < 0 then
    let new ← deallocuvm link sz (sz + n)
    if new = 0 then pure (-1, sz) else pure (0, new)
  else pure (0, sz)

/-- The user pages below a number are mapped, and no others. -/
def MapsBelow (dir : PageDir) (pages : Nat) : Prop :=
  ∀ vpn < USERPAGES, (dir.pte vpn).present = true ↔ vpn < pages

section MapsBelow

variable {dir : PageDir} {pages vpn : Nat}

theorem MapsBelow.absent
    (maps : MapsBelow dir pages)
    (user : vpn < USERPAGES)
    (above : pages ≤ vpn) :
    (dir.pte vpn).present = false := by
  rw [← Bool.not_eq_true, maps vpn user]
  omega

/-- Nothing is jumped over behind the pages that are mapped, or behind one of them. -/
theorem MapsBelow.aligned
    (maps : MapsBelow dir pages)
    (user : pages ≤ USERPAGES)
    (inside : vpn ≤ pages) :
    dir.hasTable vpn = true ∨ vpn % NPTENTRIES = 0 := by
  by_cases first : vpn % NPTENTRIES = 0
  · exact .inr first
  · have before : vpn - 1 < pages := by
      have := Nat.pos_of_ne_zero fun zero : vpn = 0 => first (by rw [zero, Nat.zero_mod])
      omega
    have table := hasTable_of_present ((maps (vpn - 1) (by omega)).mpr before)
    refine .inl ((hasTable_of_same ?_).trans table)
    unfold NPTENTRIES at *
    omega

end MapsBelow

/-! ## Shrinking -/

variable {link : Link} {oldsz : UInt32}

/-- Unmapping leaves exactly the pages below the first one that is walked to. -/
theorem Unmapped.mapsBelow
    (unmapped : Unmapped vm final (visited vm.dir first last))
    (low : ∀ vpn < first, (vm.dir.pte vpn).present = true)
    (high : ∀ vpn < USERPAGES, last ≤ vpn → (vm.dir.pte vpn).present = false)
    (aligned : vm.dir.hasTable first = true ∨ first % NPTENTRIES = 0) :
    MapsBelow final.dir first := by
  intro vpn user
  rcases Nat.lt_or_ge vpn first with inside | outside
  · rw [unmapped.pte, if_neg fun member => absurd (mem_visited.mp member).1 (not_le.mpr inside)]
    exact iff_of_true (low vpn inside) inside
  · refine iff_of_false ?_ (not_lt.mpr outside)
    rw [Bool.not_eq_true]
    rcases Nat.lt_or_ge vpn last with walked | beyond
    · exact unmapped.absent outside walked (not_skipped aligned vpn)
    · rw [unmapped.pte, if_neg fun member => absurd (mem_visited.mp member).2.1 (not_lt.mpr beyond)]
      exact high vpn user beyond

/-! ## Growing -/

/-- After some rounds there is no page table for a page: there was none, and no page
whenever one was asked for. -/
def Untabled (dir : PageDir) (moments : Moments) (first count vpn : Nat) : Prop :=
  dir.hasTable vpn = false ∧ ∀ round < count,
    (first + round) / NPTENTRIES = vpn / NPTENTRIES → (moments round).2 = []

/-- The page of a round is lost: there is no page table for it, and whenever one was
asked for there was no page. -/
def Lost (dir : PageDir) (moments : Moments) (first round : Nat) : Prop :=
  dir.hasTable (first + round) = false ∧
    ∀ earlier ≤ round, (first + earlier) / NPTENTRIES = (first + round) / NPTENTRIES →
      (moments earlier).2 = []

/-- An address space and its memory after some rounds that have all had a page. -/
structure Rounds (origin : PageDir) (moments : Moments) (first : Nat) (dir : PageDir)
    (mem : Memory) (count : Nat) : Prop where
  pages : ∀ round < count, (moments round).1 ≠ []
  /-- The other entries are as before. -/
  pte : ∀ vpn, ¬(first ≤ vpn ∧ vpn < first + count) → dir.pte vpn = origin.pte vpn
  /-- The page of a round is lost, or mapped and filled with zeros. -/
  entry : ∀ round < count,
    Lost origin moments first round ∧ (dir.pte (first + round)).present = false ∨
      ¬Lost origin moments first round ∧ ∃ page rest, (moments round).1 = page :: rest ∧
        dir.pte (first + round) = Perm.entry ⟨true, true⟩ page ∧ mem page = fun _ => 0
  tables : ∀ vpn, dir.hasTable vpn = false ↔ Untabled origin moments first count vpn

theorem Rounds.start (origin : PageDir) (moments : Moments) (first : Nat) (mem : Memory) :
    Rounds origin moments first origin mem 0 where
  pages _ small := absurd small (Nat.not_lt_zero _)
  pte _ _ := rfl
  entry _ small := absurd small (Nat.not_lt_zero _)
  tables vpn := by simp [Untabled]

section Rounds

variable {origin dir final : PageDir} {moments : Moments} {mem : Memory}
  {first count vpn page : Nat} {rest : List Nat}

theorem untabled_succ :
    Untabled origin moments first (count + 1) vpn ↔ Untabled origin moments first count vpn ∧
      ((first + count) / NPTENTRIES = vpn / NPTENTRIES → (moments count).2 = []) := by
  rw [Untabled, Untabled, Nat.forall_lt_succ_right, and_assoc]

variable (rounds : Rounds origin moments first dir mem count)

include rounds

/-- The page of the next round is lost exactly if it has no page table and there is
no page for one. -/
theorem Rounds.lost_iff :
    Lost origin moments first count ↔
      dir.hasTable (first + count) = false ∧ (moments count).2 = [] := by
  rw [rounds.tables, Lost, Untabled]
  constructor
  · rintro ⟨missing, empty⟩
    exact ⟨⟨missing, fun round less => empty round less.le⟩, empty count le_rfl rfl⟩
  · rintro ⟨⟨missing, empty⟩, last⟩
    refine ⟨missing, fun round small same => ?_⟩
    rcases small.lt_or_eq with less | rfl
    · exact empty round less same
    · exact last

/-- A round that has a page, which is filled with zeros. -/
theorem Rounds.step
    (nonempty : (moments count).1 = page :: rest)
    (pte : ∀ other, other ≠ first + count → final.pte other = dir.pte other)
    (entry : Lost origin moments first count ∧ (final.pte (first + count)).present = false ∨
      ¬Lost origin moments first count ∧ final.pte (first + count) = Perm.entry ⟨true, true⟩ page)
    (tables : ∀ vpn, final.hasTable vpn = false ↔ Untabled origin moments first (count + 1) vpn) :
    Rounds origin moments first final (update mem page fun _ => 0) (count + 1) where
  pages round small := by
    rcases Nat.lt_succ_iff_lt_or_eq.mp small with earlier | rfl
    · exact rounds.pages round earlier
    · rw [nonempty]
      exact List.cons_ne_nil _ _
  pte vpn outside := by
    rw [pte vpn (by omega)]
    exact rounds.pte vpn (by omega)
  entry round small := by
    rcases Nat.lt_succ_iff_lt_or_eq.mp small with earlier | rfl
    · rw [pte _ (by omega)]
      refine (rounds.entry round earlier).imp id fun ⟨kept, other, more, taken, mapped, zeros⟩ =>
        ⟨kept, other, more, taken, mapped, ?_⟩
      rw [Function.update_apply]
      split
      · rfl
      · exact zeros
    · exact entry.imp id fun ⟨kept, mapped⟩ =>
        ⟨kept, page, rest, nonempty, mapped, update_self _ _ _⟩
  tables := tables

end Rounds

/-- The ways in which `allocuvm` ends. -/
inductive Growth (origin : PageDir) (moments : Moments) (oldsz newsz : UInt32) :
    UInt32 → Vm → Memory → Prop where
  | whole
      (rounds : Rounds origin moments (pagesOf oldsz) final.dir mem
        (pagesOf newsz - pagesOf oldsz)) :
      Growth origin moments oldsz newsz newsz final mem
  /-- There was no page for a round, and the new pages are unmapped. -/
  | failed (round : Nat)
      (inside : round < pagesOf newsz - pagesOf oldsz)
      (none : (moments round).1 = [])
      (unmapped : Unmapped vm final (visited vm.dir (pagesOf oldsz) (pagesOf newsz)))
      (rounds : Rounds origin moments (pagesOf oldsz) vm.dir mem round) :
      Growth origin moments oldsz newsz 0 final mem

section Grow

variable {link : Link} {origin : PageDir} {moments : Moments} {vm : Vm} {mem : Memory}
  {oldsz newsz a : UInt32} {count : Nat}

/-- Mapping the page of a round. -/
theorem Rounds.mappages
    (rounds : Rounds origin moments (pagesOf oldsz) vm.dir mem count)
    (absent : (origin.pte (pagesOf oldsz + count)).present = false)
    (nonempty : (moments count).1 = page :: rest)
    (frame : Link.Frame link page)
    (user : pagesOf oldsz + count < USERPAGES)
    (address : a.toNat = PGSIZE * (pagesOf oldsz + count)) :
    Run.Spec (Vm.mappages a 4096 (UInt32.ofNat (PGSIZE * page)) ⟨true, true⟩)
      { vm with free := (moments count).2 }
      (fun _ final => Rounds origin moments (pagesOf oldsz) final.dir
        (update mem page fun _ => 0) (count + 1))
      (fun _ => False) := by
  have physical : page < PHYSTOP / PGSIZE := (Nat.lt_div_iff_mul_lt' (by decide) _).mpr frame.2
  have here := rounds.pte (pagesOf oldsz + count) (by omega)
  refine (mappages_user user address physical _).mono ?_ ?_
  · rintro result final (⟨rfl, _, mapped⟩ | ⟨rfl, empty, missing, rfl⟩)
    · have kept : ¬Lost origin moments (pagesOf oldsz) count := by
        intro lost
        obtain ⟨missing, empty⟩ := rounds.lost_iff.mp lost
        have cost := mapped.cost
        simp only [missing, empty, Bool.false_eq_true, if_false, List.length_nil] at cost
        omega
      refine rounds.step nonempty (fun _ => mapped.pte) (.inr ⟨kept, mapped.newPte⟩) fun vpn => ?_
      rw [untabled_succ, ← rounds.tables, ← Bool.not_eq_true, mapped.tables, not_or,
        Bool.not_eq_true, and_comm]
      refine and_congr_right fun missing => ⟨fun other same => absurd same.symm other, ?_⟩
      -- a page that has its page table for want of a page would be lost
      intro empty same
      exact kept (rounds.lost_iff.mpr ⟨(hasTable_of_same same.symm).trans missing, empty same.symm⟩)
    · have lost := rounds.lost_iff.mpr ⟨missing, empty⟩
      refine rounds.step nonempty (fun _ _ => rfl) (.inl ⟨lost, ?_⟩) fun vpn => ?_
      · show (vm.dir.pte _).present = false
        rw [here, absent]
      · rw [untabled_succ, ← rounds.tables]
        exact (and_iff_left fun _ => empty).symm
  · rintro reason ⟨_, present⟩
    replace present : (vm.dir.pte (pagesOf oldsz + count)).present = true := present
    rw [here, absent] at present
    exact nomatch present

/-- The pages that are mapped between the sizes are new. -/
theorem Rounds.frame {vpn : Nat}
    (rounds : Rounds origin moments (pagesOf oldsz) vm.dir mem count)
    (absent : ∀ vpn, pagesOf oldsz ≤ vpn → vpn < USERPAGES → (origin.pte vpn).present = false)
    (frames : moments.Framed link)
    (low : pagesOf oldsz ≤ vpn)
    (user : vpn < USERPAGES)
    (present : (vm.dir.pte vpn).present = true) :
    Link.Frame link (vm.dir.pte vpn).page := by
  rcases Nat.lt_or_ge vpn (pagesOf oldsz + count) with new | old
  · obtain ⟨round, rfl⟩ := Nat.exists_eq_add_of_le low
    rcases rounds.entry round (by omega) with ⟨_, missing⟩ | ⟨_, page, rest, nonempty, entry, _⟩
    · exact nomatch missing.symm.trans present
    · rw [entry]
      refine frames round page (List.mem_append_left _ ?_)
      rw [nonempty]
      exact List.mem_cons_self
  · rw [rounds.pte vpn (by omega), absent vpn low user] at present
    exact nomatch present

/-- The loop of `allocuvm`. -/
theorem Contents.allocRounds_growth
    (below : newsz.toNat < KERNBASE)
    (absent : ∀ vpn, pagesOf oldsz ≤ vpn → vpn < USERPAGES → (origin.pte vpn).present = false)
    (frames : moments.Framed link)
    (fuel : Nat)
    (enough : pagesOf newsz ≤ pagesOf oldsz + count + fuel)
    (inside : pagesOf oldsz + count ≤ pagesOf newsz)
    (rounds : Rounds origin moments (pagesOf oldsz) vm.dir mem count)
    (address : a.toNat = PGSIZE * (pagesOf oldsz + count)) :
    Run.Spec (Contents.allocRounds link moments oldsz newsz fuel count a) (vm, mem)
      (fun result final => Growth origin moments oldsz newsz result final.1 final.2)
      (fun _ => False) := by
  have top := pagesOf_le_userPages below.le
  induction fuel generalizing vm mem count a with
  | zero =>
    have equal : pagesOf newsz - pagesOf oldsz = count := by omega
    exact .whole (equal ▸ rounds)
  | succ fuel ih =>
    unfold Contents.allocRounds
    split
    case isFalse past =>
      rw [lt_iff_page address] at past
      have equal : pagesOf newsz - pagesOf oldsz = count := by omega
      exact .whole (equal ▸ rounds)
    case isTrue here =>
      have room := (lt_iff_page address).mp here
      have user := room.trans_le top
      refine .bind_ok rfl (.bind ?_)
      change Run.Spec _ ({ vm with free := (moments count).1 }, mem) _ _
      refine ((kalloc_spec _).onFirst mem).mono ?_ (fun _ => False.elim)
      rintro _ _ ⟨_, rfl, ⟨rfl, empty, rfl⟩ | ⟨page, rest, nonempty, rfl, rfl⟩⟩
      · apply Run.Spec.bind
        refine ((deallocuvm_spec below.le oldsz _).onFirst mem).mono ?_ ?_
        · rintro _ _ ⟨final, rfl, _, unmapped, _⟩
          exact .failed count (by omega) empty unmapped rounds
        · rintro _ ⟨vpn, member, refused⟩
          obtain ⟨low, high, present, _⟩ := mem_visited.mp member
          exact refused (rounds.frame absent frames low (high.trans_le top) present)
      · replace nonempty : (moments count).1 = page :: rest := nonempty
        have frame : Link.Frame link page := by
          refine frames count page (List.mem_append_left _ ?_)
          rw [nonempty]
          exact List.mem_cons_self
        apply Run.Spec.modify_bind
        refine .bind_ok rfl (.bind ?_)
        change Run.Spec _ ({ vm with free := (moments count).2 }, update mem page _) _ _
        refine ((rounds.mappages (absent _ (Nat.le_add_right _ _) user) nonempty frame user
          address).onFirst _).mono ?_ (fun _ => False.elim)
        rintro _ _ ⟨mapped, rfl, further⟩
        exact ih (by omega) (by omega) further (toNat_next address user)

/-- What `allocuvm` maps when it grows an address space. -/
theorem Contents.allocuvmAmong_growth
    (below : newsz.toNat < KERNBASE)
    (smaller : oldsz.toNat < newsz.toNat)
    (absent : ∀ vpn, pagesOf oldsz ≤ vpn → vpn < USERPAGES → (vm.dir.pte vpn).present = false)
    (frames : moments.Framed link)
    (mem : Memory) :
    Run.Spec (Contents.allocuvmAmong link moments oldsz newsz) (vm, mem)
      (fun result final => Growth vm.dir moments oldsz newsz result final.1 final.2)
      (fun _ => False) := by
  have ordered : pagesOf oldsz ≤ pagesOf newsz := by
    unfold pagesOf PGSIZE
    omega
  unfold Contents.allocuvmAmong
  rw [if_neg (not_le.mpr below), if_neg (by rw [UInt32.lt_iff_toNat_lt]; omega)]
  refine allocRounds_growth below absent frames _ ?_ ordered (.start _ _ _ mem) ?_
  · unfold pagesOf PGSIZE
    omega
  · rw [toNat_PGROUNDUP (smaller.trans below), Nat.add_zero]

end Grow

/-! ## All pages or none -/

/-- A page that is in use is not the next one on the free list. -/
structure Moments.Sound (link : Link) (dir : PageDir) (moments : Moments) : Prop where
  frames : moments.Framed link
  /-- The pages of the address space are in use. -/
  unused : ∀ round page, (moments round).1.head? = some page → ∀ vpn < USERPAGES,
    (dir.pte vpn).present = true → (dir.pte vpn).page ≠ page
  /-- So are those of earlier rounds. -/
  once : ∀ round page, (moments round).1.head? = some page → ∀ earlier < round,
    (moments earlier).1.head? ≠ some page

/-- User code can read and write a page, which is full of zeros, was free in its round
and is mapped nowhere else. -/
def OwnPage (moments : Moments) (first : Nat) (dir : PageDir) (mem : Memory) (vpn : Nat) : Prop :=
  ∃ page, dir.pte vpn = ⟨page, true, true, true⟩ ∧ page ∈ (moments (vpn - first)).1 ∧
    (∀ offset, mem page offset = 0) ∧
    ∀ other < USERPAGES, (dir.pte other).present = true → (dir.pte other).page = page → other = vpn

/-- What is wanted of `allocuvm`. -/
structure AllOrNone (origin : PageDir) (moments : Moments) (oldsz newsz result : UInt32)
    (dir : PageDir) (mem : Memory) : Prop where
  /-- All pages between the sizes are there, or none. -/
  pages : result = newsz ∧ (∀ vpn, pagesOf oldsz ≤ vpn → vpn < pagesOf newsz →
      OwnPage moments (pagesOf oldsz) dir mem vpn) ∨
    result = 0 ∧ ∀ vpn, pagesOf oldsz ≤ vpn → vpn < pagesOf newsz → (dir.pte vpn).present = false
  /-- The other entries are as before. -/
  kept : ∀ vpn, ¬(pagesOf oldsz ≤ vpn ∧ vpn < pagesOf newsz) → dir.pte vpn = origin.pte vpn

/-- After some rounds `deallocuvm` would jump over a page, as page tables are missing for
the pages before. -/
def JumpsOver (dir : PageDir) (moments : Moments) (first count vpn : Nat) : Prop :=
  first / NPTENTRIES < vpn / NPTENTRIES ∧ vpn % NPTENTRIES < first % NPTENTRIES ∧
    ∀ before < vpn, first ≤ before → before / NPTENTRIES < vpn / NPTENTRIES →
      Untabled dir moments first count before

/-- There is a page for every round, but one is lost for want of a page table; or there
is none for a round, and a page of an earlier one is jumped over when it is taken back. -/
def Spoils (dir : PageDir) (moments : Moments) (first total : Nat) : Prop :=
  (∀ round < total, (moments round).1 ≠ []) ∧ (∃ round < total, Lost dir moments first round) ∨
    ∃ failed < total, (∀ round < failed, (moments round).1 ≠ []) ∧ (moments failed).1 = [] ∧
      ∃ round < failed, ¬Lost dir moments first round ∧
        JumpsOver dir moments first failed (first + round)

section AllOrNone

variable {link : Link} {origin dir : PageDir} {moments : Moments} {mem : Memory}
  {first count round : Nat}

theorem Rounds.skipped_iff (rounds : Rounds origin moments first dir mem count) :
    Skipped dir first vpn ↔ JumpsOver origin moments first count vpn := by
  unfold Skipped JumpsOver
  simp only [rounds.tables]

/-- A page that is not lost is the round's own. -/
theorem Rounds.own
    (rounds : Rounds origin moments first dir mem count)
    (sound : moments.Sound link origin)
    (inside : round < count)
    (kept : ¬Lost origin moments first round) :
    OwnPage moments first dir mem (first + round) := by
  obtain ⟨page, rest, nonempty, entry, zeros⟩ :=
    ((rounds.entry round inside).resolve_left fun lost => kept lost.1).2
  have next : (moments round).1.head? = some page := by rw [nonempty]; rfl
  refine ⟨page, entry, ?_, fun offset => by rw [zeros], fun other user present same => ?_⟩
  · rw [Nat.add_sub_cancel_left, nonempty]
    exact List.mem_cons_self
  by_cases new : first ≤ other ∧ other < first + count
  · obtain ⟨second, rfl⟩ := Nat.exists_eq_add_of_le new.1
    rcases rounds.entry second (by omega) with ⟨_, missing⟩ | ⟨_, taken, _, more, mapped, _⟩
    · exact nomatch missing.symm.trans present
    · rw [mapped] at same
      obtain rfl : taken = page := same
      have nextToo : (moments second).1.head? = some taken := by rw [more]; rfl
      rcases Nat.lt_trichotomy second round with less | rfl | more
      · exact absurd nextToo (sound.once round taken next second less)
      · rfl
      · exact absurd next (sound.once second taken nextToo round more)
  · rw [rounds.pte other new] at present same
    exact absurd same (sound.unused round page next other user present)

end AllOrNone

/-- `allocuvm` maps all pages or none if and only if no page is lost for want of a page
table, and none is jumped over when the pages are taken back. -/
theorem allocuvm_allOrNone_iff
    (link : Link)
    (moments : Moments)
    (vm : Vm)
    (mem : Memory)
    (oldsz newsz : UInt32)
    (smaller : oldsz < newsz)
    (below : newsz.toNat < KERNBASE)
    (absent : ∀ vpn, pagesOf oldsz ≤ vpn → vpn < USERPAGES → (vm.dir.pte vpn).present = false)
    (sound : moments.Sound link vm.dir) :
    (∃ result final after, Contents.allocuvmAmong link moments oldsz newsz (vm, mem) =
        .ok (result, final, after) ∧
      AllOrNone vm.dir moments oldsz newsz result final.dir after) ↔
    ¬Spoils vm.dir moments (pagesOf oldsz) (pagesOf newsz - pagesOf oldsz) := by
  rw [UInt32.lt_iff_toNat_lt] at smaller
  have nonzero : newsz ≠ 0 := by
    rintro rfl
    exact absurd smaller (Nat.not_lt_zero _)
  obtain ⟨result, ⟨final, after⟩, ran, growth⟩ := (Contents.allocuvmAmong_growth below smaller
    absent sound.frames mem).exists_ok fun _ => id
  have outcome : (∃ result final after, Contents.allocuvmAmong link moments oldsz newsz (vm, mem) =
        .ok (result, final, after) ∧
      AllOrNone vm.dir moments oldsz newsz result final.dir after) ↔
      AllOrNone vm.dir moments oldsz newsz result final.dir after := by
    simp [ran]
  rw [outcome]
  cases growth with
  | whole rounds =>
    constructor
    · rintro ⟨⟨_, own⟩ | ⟨zero, _⟩, _⟩
      · rintro (⟨_, round, inside, lost⟩ | ⟨failed, inside, _, none, _⟩)
        · obtain ⟨page, entry, _⟩ := own (pagesOf oldsz + round) (by omega) (by omega)
          rcases rounds.entry round inside with ⟨_, missing⟩ | ⟨kept, _⟩
          · rw [entry] at missing
            exact nomatch missing
          · exact kept lost
        · exact rounds.pages failed inside none
      · exact absurd zero nonzero
    · intro keeps
      refine ⟨.inl ⟨rfl, fun vpn low high => ?_⟩, fun vpn outside => rounds.pte vpn (by omega)⟩
      obtain ⟨round, rfl⟩ := Nat.exists_eq_add_of_le low
      have inside : round < pagesOf newsz - pagesOf oldsz := by omega
      exact rounds.own sound inside fun lost => keeps (.inl ⟨rounds.pages, round, inside, lost⟩)
  | @failed middle final _ failed inside none unmapped rounds =>
    have present : ∀ vpn, pagesOf oldsz ≤ vpn → vpn < pagesOf newsz →
        ((final.dir.pte vpn).present = true ↔ (middle.dir.pte vpn).present = true ∧
          JumpsOver vm.dir moments (pagesOf oldsz) failed vpn) := by
      intro vpn low high
      rw [unmapped.pte, ← rounds.skipped_iff]
      split
      · rename_i walked
        exact iff_of_false Bool.false_ne_true fun stays => (mem_visited.mp walked).2.2.2 stays.2
      · rename_i left
        refine ⟨fun mapped => ⟨mapped, ?_⟩, And.left⟩
        by_contra walked
        exact left (mem_visited.mpr ⟨low, high, mapped, walked⟩)
    constructor
    · rintro ⟨⟨zero, _⟩ | ⟨_, missing⟩, _⟩
      · exact absurd zero.symm nonzero
      rintro (⟨pages, _⟩ | ⟨other, small, pages, out, round, less, kept, jumps⟩)
      · exact pages failed inside none
      obtain rfl : other = failed := by
        rcases Nat.lt_trichotomy other failed with before | same | after
        · exact absurd out (rounds.pages other before)
        · exact same
        · exact absurd none (pages failed after)
      obtain ⟨page, _, _, entry, _⟩ :=
        ((rounds.entry round less).resolve_left fun lost => kept lost.1).2
      have stays := (present (pagesOf oldsz + round) (by omega) (by omega)).mpr
        ⟨by rw [entry]; rfl, jumps⟩
      exact nomatch (missing _ (by omega) (by omega)).symm.trans stays
    · intro keeps
      refine ⟨.inr ⟨rfl, fun vpn low high => ?_⟩, fun vpn outside => ?_⟩
      · rw [← Bool.not_eq_true, present vpn low high]
        rintro ⟨mapped, jumps⟩
        obtain ⟨round, rfl⟩ := Nat.exists_eq_add_of_le low
        by_cases new : round < failed
        · refine keeps (.inr ⟨failed, inside, rounds.pages, none, round, new, ?_, jumps⟩)
          rcases rounds.entry round new with ⟨_, missing⟩ | ⟨kept, _⟩
          · exact nomatch missing.symm.trans mapped
          · exact kept
        · rw [rounds.pte _ (by omega), absent _ low
            (high.trans_le (pagesOf_le_userPages below.le))] at mapped
          exact nomatch mapped
      · rw [unmapped.pte, if_neg fun member =>
          outside ⟨(mem_visited.mp member).1, (mem_visited.mp member).2.1⟩]
        exact rounds.pte vpn (by omega)

/-! ## `growproc` -/

/-- A process is of a size and has exactly the pages of it. -/
structure Process (link : Link) (vm : Vm) (sz : UInt32) : Prop where
  framed : Framed link vm
  /-- The size ends below the kernel. -/
  below : sz.toNat < KERNBASE
  maps : MapsBelow vm.dir (pagesOf sz)

/-- What is wanted of `growproc`: it returns 0 with the exact size and the exact pages,
or -1 with the size and the pages unchanged. -/
def ExactOrNothing (sz n : UInt32) (dir : PageDir) (result : Int) (new : UInt32)
    (final : PageDir) : Prop :=
  result = 0 ∧ (new.toNat : Int) = sz.toNat + asInt n ∧ MapsBelow final (pagesOf new) ∨
    result = -1 ∧ new = sz ∧ ∀ vpn < USERPAGES, (final.pte vpn).present = (dir.pte vpn).present

/-- `growproc` returns, with the exact size and pages or without any effect. -/
def SbrkExact (link : Link) (moments : Moments) (vm : Vm) (sz n : UInt32) : Prop :=
  ∃ result new final, growproc link moments sz n vm = .ok ((result, new), final) ∧
    ExactOrNothing sz n vm.dir result new final.dir

/-- Every page that a process wants to grow by is there, but one of them cannot be
mapped because no page is there for the page table that it needs. -/
def LosesPage (dir : PageDir) (moments : Moments) (sz n : UInt32) : Prop :=
  (sz + n).toNat < KERNBASE ∧ (∀ round < pagesOf (sz + n) - pagesOf sz, (moments round).1 ≠ []) ∧
    ∃ round < pagesOf (sz + n) - pagesOf sz, Lost dir moments (pagesOf sz) round

/-- A process shrinks to a size that is not 0, or has the size 0 already; and one that
grows does not lose a page. -/
structure Granted (dir : PageDir) (moments : Moments) (sz n : UInt32) : Prop where
  /-- Shrinking. -/
  shrinks : asInt n < 0 → 0 < sz.toNat + asInt n ∨ sz = 0
  /-- Growing. -/
  grows : 0 < asInt n → ¬LosesPage dir moments sz n

section Sbrk

variable {link : Link} {moments : Moments} {vm : Vm} {sz n : UInt32}

theorem MapsBelow.same {dir other : PageDir}
    (maps : MapsBelow dir pages)
    (mapsToo : MapsBelow other pages)
    (vpn : Nat)
    (user : vpn < USERPAGES) :
    (other.pte vpn).present = (dir.pte vpn).present :=
  Bool.eq_iff_iff.mpr ((mapsToo vpn user).trans (maps vpn user).symm)

variable {final : Vm}

/-- `growproc` fails without having done anything. -/
theorem SbrkExact.of_failed
    (returned : growproc link moments sz n vm = .ok ((-1, sz), final))
    (maps : MapsBelow vm.dir pages)
    (mapsToo : MapsBelow final.dir pages) :
    SbrkExact link moments vm sz n :=
  ⟨-1, sz, final, returned, .inr ⟨rfl, rfl, maps.same mapsToo⟩⟩

/-- `growproc` is exact only if what it leaves is. -/
theorem SbrkExact.outcome
    (exact : SbrkExact link moments vm sz n)
    (returned : growproc link moments sz n vm = .ok ((result, new), final)) :
    ExactOrNothing sz n vm.dir result new final.dir := by
  obtain ⟨_, _, _, returnedToo, outcome⟩ := exact
  rw [returned] at returnedToo
  obtain ⟨same, rfl⟩ := Prod.mk.inj (Except.ok.inj returnedToo)
  obtain ⟨rfl, rfl⟩ := Prod.mk.inj same
  exact outcome

/-- What `growproc` makes of the result of `allocuvm`. -/
theorem growproc_of_allocuvm
    (positive : 0 < asInt n)
    (returned : allocuvmAmong link moments sz (sz + n) vm = .ok (result, final)) :
    growproc link moments sz n vm = .ok (if result = 0 then (-1, sz) else (0, result), final) := by
  unfold growproc
  rw [if_pos positive, Run.bind_of_ok returned]
  split <;> rfl

/-- What `growproc` makes of the result of `deallocuvm`. -/
theorem growproc_of_deallocuvm
    (moments : Moments)
    (negative : asInt n < 0)
    (returned : deallocuvm link sz (sz + n) vm = .ok (result, final)) :
    growproc link moments sz n vm = .ok (if result = 0 then (-1, sz) else (0, result), final) := by
  unfold growproc
  rw [if_neg (not_lt.mpr negative.le), if_pos negative, Run.bind_of_ok returned]
  split <;> rfl

/-- Adding a number of either sign to a size. -/
theorem toNat_add_asInt (below : sz.toNat < KERNBASE) :
    ((sz + n).toNat : Int) =
      sz.toNat + asInt n + if sz.toNat + asInt n < 0 then 2 ^ 32 else 0 := by
  rw [UInt32.toNat_add]
  have word := n.toNat_lt
  unfold asInt
  unfold KERNBASE at below
  split <;> split <;> omega

/-- The pages of all rounds are mapped exactly if none is lost. -/
theorem Rounds.mapsBelow_iff {origin dir : PageDir} {mem : Memory}
    (rounds : Rounds origin moments first dir mem count)
    (old : MapsBelow origin first)
    (user : first + count ≤ USERPAGES) :
    MapsBelow dir (first + count) ↔ ∀ round < count, ¬Lost origin moments first round := by
  constructor
  · intro maps round inside lost
    have present := (maps (first + round) (by omega)).mpr (by omega)
    rcases rounds.entry round inside with ⟨_, missing⟩ | ⟨kept, _⟩
    · exact nomatch missing.symm.trans present
    · exact kept lost
  intro kept vpn inside
  by_cases new : first ≤ vpn ∧ vpn < first + count
  · obtain ⟨round, rfl⟩ := Nat.exists_eq_add_of_le new.1
    refine iff_of_true ?_ new.2
    rcases rounds.entry round (by omega) with ⟨lost, _⟩ | ⟨_, page, _, _, entry, _⟩
    · exact absurd lost (kept round (by omega))
    · rw [entry]
      rfl
  · rw [rounds.pte vpn new, old vpn inside]
    omega

/-- Growing is exact unless a page is lost. -/
theorem sbrkExact_grow_iff
    (process : Process link vm sz)
    (frames : moments.Framed link)
    (positive : 0 < asInt n) :
    SbrkExact link moments vm sz n ↔ ¬LosesPage vm.dir moments sz n := by
  have sum := toNat_add_asInt (n := n) process.below
  rw [if_neg (by omega), add_zero] at sum
  rcases Nat.lt_or_ge (sz + n).toNat KERNBASE with below | above
  · have nonzero : sz + n ≠ 0 := by
      intro zero
      rw [zero] at sum
      simp only [UInt32.toNat_zero, Nat.cast_zero] at sum
      omega
    have absent : ∀ vpn, pagesOf sz ≤ vpn → vpn < USERPAGES → (vm.dir.pte vpn).present = false :=
      fun vpn high user => process.maps.absent user high
    obtain ⟨result, ⟨final, mem⟩, ran, growth⟩ := (Contents.allocuvmAmong_growth below (by omega)
      absent frames fun _ _ => 0).exists_ok fun _ => id
    have returned := (Contents.allocuvmAmong_over _ _ _ _).of_ok ran
    have grew := growproc_of_allocuvm positive returned
    cases growth with
    | whole rounds =>
      rw [if_neg nonzero] at grew
      have ordered : pagesOf sz ≤ pagesOf (sz + n) := by
        unfold pagesOf PGSIZE
        omega
      have total : pagesOf sz + (pagesOf (sz + n) - pagesOf sz) = pagesOf (sz + n) := by omega
      have maps := rounds.mapsBelow_iff process.maps
        (total.le.trans (pagesOf_le_userPages below.le))
      rw [total] at maps
      constructor
      · rintro exact ⟨_, _, round, inside, lost⟩
        rcases exact.outcome grew with ⟨_, _, mapsAll⟩ | ⟨impossible, _⟩
        · exact maps.mp mapsAll round inside lost
        · exact nomatch impossible
      · intro keeps
        refine ⟨0, sz + n, final, grew, .inl ⟨rfl, sum, maps.mpr ?_⟩⟩
        exact fun round inside lost => keeps ⟨below, rounds.pages, round, inside, lost⟩
    | failed round inside none unmapped rounds =>
      rw [if_pos rfl] at grew
      have maps : MapsBelow final.dir (pagesOf sz) := by
        refine unmapped.mapsBelow ?_ ?_ ?_
        · intro vpn low
          rw [rounds.pte vpn (by omega)]
          exact (process.maps vpn (low.trans_le (pagesOf_le_userPages process.below.le))).mpr low
        · intro vpn user high
          rw [rounds.pte vpn (by omega)]
          exact absent vpn (by omega) user
        · refine (process.maps.aligned (pagesOf_le_userPages process.below.le) le_rfl).imp_left
            fun table => ?_
          by_contra missing
          rw [Bool.not_eq_true, rounds.tables] at missing
          exact nomatch table.symm.trans missing.1
      refine iff_of_true (.of_failed grew process.maps maps) ?_
      rintro ⟨_, pages, _⟩
      exact pages round inside none
  · refine iff_of_true ?_ fun loses => absurd loses.1 (not_lt.mpr above)
    have returned : allocuvmAmong link moments sz (sz + n) vm = .ok (0, vm) := by
      unfold allocuvmAmong
      rw [if_pos above]
      rfl
    have grew := growproc_of_allocuvm positive returned
    rw [if_pos rfl] at grew
    exact .of_failed grew process.maps process.maps

/-- Shrinking is exact where something is left, and where there was nothing. -/
theorem sbrkExact_shrink_iff
    (process : Process link vm sz)
    (negative : asInt n < 0) :
    SbrkExact link moments vm sz n ↔ 0 < sz.toNat + asInt n ∨ sz = 0 := by
  have sum := toNat_add_asInt (n := n) process.below
  rcases lt_or_ge ((sz.toNat : Int) + asInt n) 0 with wraps | exact
  · -- the new size is above the old one, which is returned
    rw [if_pos wraps] at sum
    have larger : sz ≤ sz + n := by
      rw [UInt32.le_iff_toNat_le]
      have low : -(2 ^ 31) ≤ asInt n := by
        unfold asInt
        split <;> omega
      omega
    have returned : deallocuvm link sz (sz + n) vm = .ok (sz, vm) := by
      unfold deallocuvm
      rw [if_pos larger]
      rfl
    have shrank := growproc_of_deallocuvm moments negative returned
    by_cases zero : sz = 0
    · rw [if_pos zero] at shrank
      exact iff_of_true (.of_failed shrank process.maps process.maps) (.inr zero)
    · rw [if_neg zero] at shrank
      refine iff_of_false (fun exact => ?_) (by simp only [zero, or_false]; omega)
      rcases exact.outcome shrank with ⟨_, size, _⟩ | ⟨impossible, _⟩
      · omega
      · exact nomatch impossible
  · rw [if_neg (by omega), add_zero] at sum
    have smaller : (sz + n).toNat < sz.toNat := by omega
    have pages : pagesOf (sz + n) ≤ pagesOf sz := by
      unfold pagesOf PGSIZE
      omega
    have top := pagesOf_le_userPages process.below.le
    obtain ⟨result, final, returned, value, unmapped, _⟩ :=
      (deallocuvm_framed process.below.le (sz + n) process.framed).exists_ok fun _ => id
    have equal : result = sz + n := by
      rw [value, if_neg]
      rw [UInt32.le_iff_toNat_le]
      omega
    have maps := unmapped.mapsBelow (fun vpn low => (process.maps vpn (by omega)).mpr (by omega))
      (fun vpn user high => process.maps.absent user high) (process.maps.aligned top pages)
    have shrank := growproc_of_deallocuvm moments negative returned
    by_cases zero : sz + n = 0
    · -- the pages are gone when the size 0 is taken for a failure
      rw [equal, if_pos zero] at shrank
      have nothing : (sz + n).toNat = 0 := by rw [zero]; rfl
      have used : sz ≠ 0 := by
        rintro rfl
        exact absurd smaller (Nat.not_lt_zero _)
      refine iff_of_false (fun exact => ?_) (by simp only [used, or_false]; omega)
      rcases exact.outcome shrank with ⟨impossible, _⟩ | ⟨_, _, same⟩
      · exact nomatch impossible
      have first : (0 : Nat) < USERPAGES := by decide
      have before : (vm.dir.pte 0).present = true := by
        refine (process.maps 0 first).mpr ?_
        unfold pagesOf PGSIZE
        omega
      have after : (final.dir.pte 0).present = false := by
        refine maps.absent first ?_
        rw [zero]
        exact le_rfl
      rw [same 0 first, before] at after
      exact nomatch after
    · rw [equal, if_neg zero] at shrank
      refine iff_of_true ⟨0, sz + n, final, shrank, .inl ⟨rfl, sum, maps⟩⟩ (.inl ?_)
      have positive : (sz + n).toNat ≠ 0 := fun none => zero (UInt32.toNat.inj none)
      omega

/-- `sbrk` is exact or has no effect if and only if the process does not shrink to
nothing or below, and does not lose a page for want of a page table. -/
theorem sbrk_exact_iff
    (link : Link)
    (moments : Moments)
    (vm : Vm)
    (sz n : UInt32)
    (process : Process link vm sz)
    (frames : moments.Framed link) :
    SbrkExact link moments vm sz n ↔ Granted vm.dir moments sz n := by
  rcases lt_trichotomy (asInt n) 0 with negative | zero | positive
  · rw [sbrkExact_shrink_iff process negative]
    exact ⟨fun shrinks => ⟨fun _ => shrinks, fun positive => by omega⟩,
      fun granted => granted.shrinks negative⟩
  · refine iff_of_true ⟨0, sz, vm, ?_, .inl ⟨rfl, by omega, process.maps⟩⟩
      ⟨fun _ => by omega, fun _ => by omega⟩
    unfold growproc
    rw [if_neg (by omega), if_neg (by omega)]
    rfl
  · rw [sbrkExact_grow_iff process frames positive]
    exact ⟨fun keeps => ⟨fun negative => by omega, fun _ => keeps⟩,
      fun granted => granted.grows positive⟩

end Sbrk

namespace SbrkSample

/-- The page table of a process of one page. -/
def table : PageTable where
  page := 0x501
  pte vpn := if vpn = 0 then ⟨0x502, true, true, true⟩ else Pte.zero

/-- A process of one page. -/
def vm : Vm where
  free := []
  dir := ⟨0x500, fun i => if i = 0 then some table else none⟩
  taken := []

/-- A process without pages. -/
def bare : Vm where
  free := []
  dir := ⟨0x500, fun _ => none⟩
  taken := []

/-- There is a page whenever one is wanted for user memory, and none for page
tables. -/
def moments : Moments := fun _ => ([0x400], [])

theorem vm_pte (vpn : Nat) :
    vm.dir.pte vpn = if vpn = 0 then ⟨0x502, true, true, true⟩ else Pte.zero := by
  unfold PageDir.pte vm table
  by_cases small : vpn / NPTENTRIES = 0
  · simp only [small, if_true]
    rw [Nat.mod_eq_of_lt (by unfold NPTENTRIES at *; omega)]
  · simp only [small, if_false]
    rw [if_neg]
    rintro rfl
    exact small rfl

theorem process : Process WrapSample.link vm 0x1000 where
  framed := by
    refine ⟨fun _ member => absurd member List.not_mem_nil, ⟨by decide, by decide⟩, ?_, ?_⟩
    · intro i found equal
      have page : found = table := by
        by_cases zero : i = 0
        · simpa [vm, zero] using equal.symm
        · simp [vm, zero] at equal
      rw [page]
      exact ⟨by decide, by decide⟩
    · intro vpn _ present
      rw [vm_pte] at present ⊢
      split at present
      · rw [if_pos (by assumption)]
        exact ⟨by decide, by decide⟩
      · exact nomatch present
  below := by decide
  maps := by
    intro vpn _
    rw [vm_pte, show pagesOf 0x1000 = 1 by decide]
    split
    case isTrue zero => exact iff_of_true rfl (by omega)
    case isFalse nonzero => exact iff_of_false Bool.false_ne_true (by omega)

theorem process_bare : Process WrapSample.link bare 0 where
  framed := by
    refine ⟨fun _ member => absurd member List.not_mem_nil, ⟨by decide, by decide⟩, ?_, ?_⟩
    · exact fun _ _ found => nomatch found
    · exact fun _ _ present => nomatch present
  below := by decide
  maps _ _ := iff_of_false Bool.false_ne_true (Nat.not_lt_zero _)

theorem moments_framed : moments.Framed WrapSample.link := by
  intro _ page member
  rw [List.mem_singleton.mp member]
  exact ⟨by decide, by decide⟩

/-- There is a page for the first round only. -/
def once : Moments := fun round => (if round = 0 then [0x400] else [], [])

theorem once_head {round : Nat}
    (next : (once round).1.head? = some page) :
    round = 0 ∧ page = 0x400 := by
  unfold once at next
  split at next
  · rename_i zero
    exact ⟨zero, (Option.some.inj next).symm⟩
  · exact nomatch next

theorem once_sound : once.Sound WrapSample.link vm.dir where
  frames round page member := by
    unfold once at member
    split at member
    · rw [List.mem_singleton.mp member]
      exact ⟨by decide, by decide⟩
    · exact absurd member List.not_mem_nil
  unused round page next vpn _ present := by
    rw [(once_head next).2]
    rw [vm_pte] at present ⊢
    split at present
    · rw [if_pos (by assumption)]
      decide
    · exact nomatch present
  once round page next earlier less := by
    rw [(once_head next).1] at less
    exact absurd less (Nat.not_lt_zero _)

/-- A process of one page gets a second one. -/
theorem allocuvm_allOrNone_page :
    ∃ result final after, Contents.allocuvmAmong WrapSample.link once 0x1000 0x2000
        (vm, fun _ _ => 1) = .ok (result, final, after) ∧
      AllOrNone vm.dir once 0x1000 0x2000 result final.dir after := by
  refine (allocuvm_allOrNone_iff WrapSample.link once vm (fun _ _ => 1) 0x1000 0x2000 (by decide)
    (by decide) (fun vpn low user => process.maps.absent user low) once_sound).mpr ?_
  rw [show pagesOf 0x2000 - pagesOf 0x1000 = 1 by decide]
  rintro (⟨_, round, inside, missing, _⟩ | ⟨round, inside, _, none, _⟩)
  · rw [Nat.lt_one_iff.mp inside] at missing
    exact nomatch missing
  · rw [Nat.lt_one_iff.mp inside] at none
    exact nomatch none

/-- A process without pages is told that it has its first page while nothing is mapped. -/
theorem allocuvm_maps_nothing :
    once.Sound WrapSample.link bare.dir ∧ (∀ vpn, (bare.dir.pte vpn).present = false) ∧
      ∃ final after, Contents.allocuvmAmong WrapSample.link once 0 0x1000 (bare, fun _ _ => 1) =
          .ok (0x1000, final, after) ∧ (final.dir.pte 0).present = false :=
  ⟨⟨once_sound.frames, fun _ _ _ _ _ => nofun, once_sound.once⟩, fun _ => rfl, _, _, rfl, rfl⟩

/-- A process of one page gives up one byte. -/
theorem sbrk_exact_byte :
    Process WrapSample.link vm 0x1000 ∧ moments.Framed WrapSample.link ∧
      asInt 0xffffffff = -1 ∧ SbrkExact WrapSample.link moments vm 0x1000 0xffffffff := by
  refine ⟨process, moments_framed, by decide,
    (sbrk_exact_iff WrapSample.link moments vm 0x1000 0xffffffff process moments_framed).mpr ?_⟩
  exact ⟨fun _ => .inl (by decide), fun positive => absurd positive (by decide)⟩

/-- A process of one page that gives it up is told that this failed, and the page is
gone; one that gives up two pages is told that this worked, and nothing has changed;
and one that gets its first page is told so while the page is not mapped. -/
theorem sbrk_not_exact :
    (Process WrapSample.link vm 0x1000 ∧ (vm.dir.pte 0).present = true ∧
      ∃ final, growproc WrapSample.link moments 0x1000 0xfffff000 vm = .ok ((-1, 0x1000), final) ∧
        (final.dir.pte 0).present = false) ∧
      (∃ final, growproc WrapSample.link moments 0x1000 0xffffe000 vm = .ok ((0, 0x1000), final)) ∧
      Process WrapSample.link bare 0 ∧ moments.Framed WrapSample.link ∧
        ∃ final, growproc WrapSample.link moments 0 0x1000 bare = .ok ((0, 0x1000), final) ∧
          (final.dir.pte 0).present = false :=
  ⟨⟨process, rfl, _, rfl, rfl⟩, ⟨_, rfl⟩, process_bare, moments_framed, _, rfl, rfl⟩

end SbrkSample

end Vm
end Xv6
