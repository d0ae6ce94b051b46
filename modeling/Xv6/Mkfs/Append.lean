import Mathlib.Data.List.GetD
import Xv6.Mkfs.Layout

/-!
# Appending to an inode of an image

The places of an inode are filled in the order of the blocks of the file, and
`iappend` appends to the contents of one inode.
-/

namespace Xv6

open Function
open Cells
open Faulting
open Fs (Place blockAt placeOf fileBlock fileByte withAddr fieldsOf)

namespace Mkfs

/-! ## The order of places -/

/-- The first block of a file that needs a place. -/
def rank : Place → Nat
  | .addr index => index.val
  | .entry index => NDIRECT + index.val

/-- The places that the first `count` blocks of a file need are filled, and no
others. -/
def Filled (held : Nat × Place → Nat) (inum count : Nat) : Prop :=
  ∀ place, held (inum, place) ≠ 0 ↔ rank place < count

/-- How many blocks a file of `count` blocks takes, its indirect block
included. -/
def taken (count : Nat) : Nat := if NDIRECT < count then count + 1 else count

theorem rank_of_placeOf (found : placeOf bn = some place) :
    rank place = bn := by
  unfold placeOf at found
  split at found
  · obtain rfl := Option.some.inj found
    rfl
  · split at found
    · obtain rfl := Option.some.inj found
      simp only [rank]
      omega
    · cases found

theorem exists_placeOf (inside : bn < MAXFILE) :
    ∃ place, placeOf bn = some place := by
  unfold placeOf
  split
  · exact ⟨_, rfl⟩
  · rw [dif_pos (by unfold MAXFILE at inside; omega)]
    exact ⟨_, rfl⟩

namespace Filled

variable {held newHeld : Nat × Place → Nat} {inum count : Nat}

/-- The blocks of the file that are mapped. -/
theorem fileBlock_ne_zero_iff
    (filled : Filled (heldAt disk dins) inum count)
    (inside : bn < MAXFILE) :
    fileBlock disk (dins inum) bn ≠ 0 ↔ bn < count := by
  obtain ⟨place, found⟩ := exists_placeOf inside
  rw [Fs.fileBlock_of_place found, ← heldAt_ne_zero_iff, filled place, rank_of_placeOf found]

/-- Whether there is an indirect block. -/
theorem indirect_ne_zero_iff (filled : Filled (heldAt disk dins) inum count) :
    (dins inum).addrs Fs.indirect ≠ 0 ↔ NDIRECT < count := by
  rw [← Fs.blockAt_addr disk, ← heldAt_ne_zero_iff, filled]
  rfl

/-- The places of one more block are filled. -/
theorem succ
    (filled : Filled held inum count)
    (places : ∀ place, newHeld (inum, place) ≠ 0 ↔ held (inum, place) ≠ 0 ∨ rank place = count) :
    Filled newHeld inum (count + 1) := by
  intro place
  rw [places, filled place]
  omega

/-- Other inodes are not concerned. -/
theorem update_other
    (filled : Filled held other count)
    (different : other ≠ inum)
    (place : Place)
    (block : Nat) :
    Filled (update held (inum, place) block) other count := by
  intro otherPlace
  rw [update_of_ne (by simp [different])]
  exact filled otherPlace

/-- A place is filled. -/
theorem update_ne_zero_iff
    (held : Nat × Place → Nat)
    (inum : Nat)
    (positive : block ≠ 0)
    (place other : Place) :
    update held (inum, place) block (inum, other) ≠ 0 ↔ held (inum, other) ≠ 0 ∨ other = place := by
  by_cases same : other = place
  · simp [same, positive]
  · rw [update_of_ne (by simp [same])]
    simp [same]

end Filled

/-! ## Taking blocks -/

namespace State

/-- A block is taken. -/
def take (state : State) : State :=
  { state with
    freeblock := state.freeblock + 1, usedblocks := state.usedblocks + 1 }

/-- A sector is written. -/
def put (state : State) (sec : Nat) (buf : Block) : State :=
  { state with disk := update state.disk sec buf }

/-- Only data blocks have been taken and written. -/
structure Extends (state final : State) : Prop where
  /-- Same blocks before the data. -/
  front : ∀ block, block < Mkfs.usedblocks → final.disk block = state.disk block
  /-- Same inodes. -/
  freeinode : final.freeinode = state.freeinode
  /-- As many blocks are in use as are taken. -/
  used : final.usedblocks + state.freeblock = final.freeblock + state.usedblocks

theorem Extends.refl (state : State) : state.Extends state :=
  ⟨fun _ _ => rfl, rfl, Nat.add_comm _ _⟩

theorem Extends.trans {state middle final : State}
    (first : state.Extends middle)
    (second : middle.Extends final) :
    state.Extends final := by
  refine ⟨fun block before => ?_, second.freeinode.trans first.freeinode, ?_⟩
  · rw [second.front block before, first.front block before]
  · have one := first.used
    have two := second.used
    omega

theorem extends_take (state : State) : state.Extends state.take :=
  ⟨fun _ _ => rfl, rfl, by simp only [take]; omega⟩

theorem extends_put
    (state : State)
    (behind : Mkfs.usedblocks ≤ sec)
    (buf : Block) :
    state.Extends (state.put sec buf) :=
  ⟨fun _ before => update_of_ne (by omega) _ _, rfl, Nat.add_comm _ _⟩

end State

theorem wsect_eq (sec : Nat) (buf : Block) (state : State) :
    wsect sec buf state = .ok ((), state.put sec buf) := rfl

variable {state : State} {din : Dinode} {m : Nat} {dins : Nat → Dinode} {inum : Nat}
  {contents : Nat → List UInt8} {p : List UInt8}

theorem rsect_eq (bound : sec < sb.size) :
    rsect sec state = .ok (state.disk sec, state) := by
  rw [rsect, if_pos bound]
  rfl

theorem needAddr_empty
    (empty : din.addrs index = 0)
    (state : State) :
    needAddr din index state =
      .ok (withAddr din index (UInt32.ofNat state.freeblock), state.take) := by
  rw [needAddr, if_pos empty]
  rfl

theorem needAddr_used
    (used : din.addrs index ≠ 0)
    (state : State) :
    needAddr din index state = .ok (din, state) := by
  rw [needAddr, if_neg used]
  rfl

theorem needEntry_empty
    (bound : table < sb.size)
    (empty : (state.disk table).word (4 * entry) = 0) :
    needEntry table entry state = .ok (UInt32.ofNat state.freeblock, state.take.put table
        ((state.disk table).putWord (4 * entry) (UInt32.ofNat state.freeblock))) := by
  rw [needEntry, Run.bind_of_ok (rsect_eq bound), if_pos empty]
  rfl

theorem needEntry_used
    (bound : table < sb.size)
    (used : (state.disk table).word (4 * entry) ≠ 0) :
    needEntry table entry state = .ok ((state.disk table).word (4 * entry), state) := by
  rw [needEntry, Run.bind_of_ok (rsect_eq bound), if_neg used]
  rfl

/-- A block of a file has been made available. -/
structure Needed (state final : State) (dins : Nat → Dinode)
    (contents : Nat → List UInt8) (inum fbn count : Nat) (x : UInt32)
    (din : Dinode) : Prop where
  layout : Layout final.disk (update dins inum din) final.freeblock contents
  filled : Filled (heldAt final.disk (update dins inum din)) inum count
  /-- Other inodes are as they were. -/
  others : ∀ other otherCount, other ≠ inum → Filled (heldAt state.disk dins) other otherCount →
    Filled (heldAt final.disk (update dins inum din)) other otherCount
  /-- This is the block. -/
  block : fileBlock final.disk din fbn = x
  nonzero : x ≠ 0
  extends_ : state.Extends final
  /-- The inode differs in its addresses only. -/
  fields : fieldsOf din = fieldsOf (dins inum)

section NeedBlock

variable {state : State} {dins : Nat → Dinode} {contents : Nat → List UInt8}
  {inum fbn count : Nat}

section

variable (layout : Layout state.disk dins state.freeblock contents)

include layout

theorem table_bounds (table : (dins inum).addrs Fs.indirect ≠ 0) :
    usedblocks ≤ ((dins inum).addrs Fs.indirect).toNat ∧
      ((dins inum).addrs Fs.indirect).toNat < sb.size := by
  have bounds := layout.held_bounds (inum, .addr Fs.indirect) (heldAt_ne_zero_iff.mpr table)
  exact ⟨bounds.1, lt_of_lt_of_le bounds.2 layout.bound⟩

/-- A block that is there already. -/
theorem needBlock_mapped
    (filled : Filled (heldAt state.disk dins) inum count)
    (inside : fbn < MAXFILE)
    (mapped : fbn < count) :
    ∃ x, needBlock (dins inum) fbn state = .ok ((x, dins inum), state) ∧
      Needed state state dins contents inum fbn count x (dins inum) := by
  have nonzero := (filled.fileBlock_ne_zero_iff inside).mpr mapped
  refine ⟨fileBlock state.disk (dins inum) fbn, ?_, ?_⟩
  · unfold fileBlock placeOf at *
    unfold needBlock
    by_cases direct : fbn < NDIRECT
    · simp only [dif_pos direct, Fs.blockAt_addr] at nonzero ⊢
      rw [Run.bind_of_ok (needAddr_used nonzero state)]
      rfl
    have inTable : fbn - NDIRECT < NINDIRECT := by
      unfold MAXFILE at inside
      omega
    have table := filled.indirect_ne_zero_iff.mpr (by omega)
    simp only [dif_neg direct, dif_pos inTable, blockAt, if_neg table]
      at nonzero ⊢
    rw [Run.bind_of_ok (needAddr_used table state),
      Run.bind_of_ok (needEntry_used (table_bounds layout table).2 nonzero)]
    rfl
  · have same : update dins inum (dins inum) = dins :=
      update_eq_self inum dins
    exact ⟨by rwa [same], by rwa [same], fun _ _ _ other => by rwa [same], rfl,
      nonzero, State.Extends.refl state, rfl⟩

/-- The next block of a file, with its number in the inode. -/
theorem needBlock_direct
    (filled : Filled (heldAt state.disk dins) inum count)
    (direct : count < NDIRECT)
    (room : state.freeblock < sb.size) :
    ∃ x din, needBlock (dins inum) count state = .ok ((x, din), state.take) ∧
      Needed state state.take dins contents inum count (count + 1) x din := by
  have place : placeOf count = some (.addr (Fin.castSucc ⟨count, direct⟩)) := by
    rw [placeOf, dif_pos direct]
  generalize indexEq : Fin.castSucc (⟨count, direct⟩ : Fin NDIRECT) = index at place
  have value : index.val = count := by rw [← indexEq]; rfl
  have empty : (dins inum).addrs index = 0 := by
    by_contra used
    have inRank := (filled (.addr index)).mp (heldAt_ne_zero_iff.mpr used)
    simp only [rank, value] at inRank
    omega
  have held := layout.heldAt_takeAddr room empty
  have positive : state.freeblock ≠ 0 :=
    Nat.pos_iff_ne_zero.mp (lt_of_lt_of_le usedblocks_pos layout.start)
  refine ⟨UInt32.ofNat state.freeblock,
    withAddr (dins inum) index (UInt32.ofNat state.freeblock), ?_, ?_⟩
  · unfold needBlock
    rw [dif_pos direct]
    simp only [indexEq]
    rw [Run.bind_of_ok (needAddr_empty empty state)]
    simp [withAddr]
  refine ⟨layout.takeAddr room empty, ?_, ?_, ?_,
    ofNat_block_ne_zero layout.start room, state.extends_take, rfl⟩
  · apply filled.succ
    intro other
    change heldAt state.disk _ _ ≠ 0 ↔ _
    rw [held, Filled.update_ne_zero_iff _ _ positive]
    refine or_congr_right ⟨?_, ?_⟩
    · rintro rfl
      exact value
    cases other with
    | addr otherIndex =>
      intro same
      exact congrArg Place.addr (Fin.ext (by
        simp only [rank] at same
        omega))
    | entry entry =>
      intro same
      simp only [rank] at same
      omega
  · intro other otherCount different otherFilled
    change Filled (heldAt state.disk _) _ _
    rw [held]
    exact otherFilled.update_other different _ _
  · rw [Fs.fileBlock_of_place place]
    simp [withAddr]

end

/-- An entry of the indirect block takes the next block. -/
theorem needEntry_step
    (state : State)
    (layout : Layout state.disk dins state.freeblock contents)
    (room : state.freeblock < sb.size)
    (table : (dins inum).addrs Fs.indirect ≠ 0)
    (entry : Fin NINDIRECT)
    (empty : blockAt state.disk (dins inum) (.entry entry) = 0) :
    ∃ final, needEntry ((dins inum).addrs Fs.indirect).toNat entry.val state =
        .ok (UInt32.ofNat state.freeblock, final) ∧
      Layout final.disk dins final.freeblock contents ∧
      heldAt final.disk dins = update (heldAt state.disk dins)
        (inum, .entry entry) state.freeblock ∧
      blockAt final.disk (dins inum) (.entry entry) = UInt32.ofNat state.freeblock ∧
      state.Extends final ∧ final.freeblock = state.freeblock + 1 := by
  have bounds := table_bounds layout table
  have held := layout.heldAt_takeEntry entry room table
  have word : (state.disk ((dins inum).addrs Fs.indirect).toNat).word (4 * entry.val) = 0 := by
    rwa [blockAt, if_neg table] at empty
  refine ⟨_, needEntry_empty bounds.2 word, layout.takeEntry entry room table empty, held,
    ?_, state.extends_take.trans (state.take.extends_put bounds.1 _), rfl⟩
  apply UInt32.toNat.inj
  have here := congrFun held (inum, .entry entry)
  rw [update_self] at here
  rw [toNat_ofNat_block room]
  exact here

variable (layout : Layout state.disk dins state.freeblock contents)

include layout

/-- The next block of a file, with its number in the indirect block. -/
theorem needBlock_entry
    (filled : Filled (heldAt state.disk dins) inum count)
    (inside : count < MAXFILE)
    (behind : NDIRECT < count)
    (room : state.freeblock < sb.size) :
    ∃ x final, needBlock (dins inum) count state = .ok ((x, dins inum), final) ∧
      Needed state final dins contents inum count (count + 1) x (dins inum) ∧
      final.freeblock = state.freeblock + 1 := by
  have direct : ¬count < NDIRECT := by omega
  have inTable : count - NDIRECT < NINDIRECT := by
    unfold MAXFILE at inside
    omega
  have place : placeOf count = some (.entry ⟨count - NDIRECT, inTable⟩) := by
    rw [placeOf, dif_neg direct, dif_pos inTable]
  have table := filled.indirect_ne_zero_iff.mpr behind
  have empty : blockAt state.disk (dins inum)
      (.entry ⟨count - NDIRECT, inTable⟩) = 0 := by
    by_contra used
    have inRank := (filled _).mp (heldAt_ne_zero_iff.mpr used)
    simp only [rank] at inRank
    omega
  have positive : state.freeblock ≠ 0 :=
    Nat.pos_iff_ne_zero.mp (lt_of_lt_of_le usedblocks_pos layout.start)
  obtain ⟨final, ran, newLayout, held, block, extends_, freeblock⟩ :=
    needEntry_step state layout room table ⟨count - NDIRECT, inTable⟩ empty
  have same : update dins inum (dins inum) = dins :=
    update_eq_self inum dins
  refine ⟨UInt32.ofNat state.freeblock, final, ?_, ⟨by rwa [same], ?_, ?_, ?_,
    ofNat_block_ne_zero layout.start room, extends_, rfl⟩, freeblock⟩
  · unfold needBlock
    rw [dif_neg direct, Run.bind_of_ok (needAddr_used table state), Run.bind_of_ok ran]
    rfl
  · rw [same]
    apply filled.succ
    intro other
    rw [held, Filled.update_ne_zero_iff _ _ positive]
    refine or_congr_right ⟨?_, ?_⟩
    · rintro rfl
      simp only [rank]
      omega
    cases other with
    | addr index =>
      intro same
      have bound : index.val < NDIRECT + 1 := index.isLt
      simp only [rank] at same
      omega
    | entry entry =>
      intro same
      exact congrArg Place.entry (Fin.ext (by
        simp only [rank] at same
        simp only
        omega))
  · intro other otherCount different otherFilled
    rw [same, held]
    exact otherFilled.update_other different _ _
  · rw [Fs.fileBlock_of_place place, block]

/-- The first block of a file with its number in the indirect block takes the
indirect block as well. -/
theorem needBlock_indirect
    (filled : Filled (heldAt state.disk dins) inum NDIRECT)
    (room : state.freeblock + 1 < sb.size) :
    ∃ x din final, needBlock (dins inum) NDIRECT state = .ok ((x, din), final) ∧
      Needed state final dins contents inum NDIRECT (NDIRECT + 1) x din ∧
      final.freeblock = state.freeblock + 2 := by
  have place : placeOf NDIRECT = some (.entry ⟨0, by decide⟩) := rfl
  have roomFirst : state.freeblock < sb.size := by omega
  have positive : state.freeblock ≠ 0 :=
    Nat.pos_iff_ne_zero.mp (lt_of_lt_of_le usedblocks_pos layout.start)
  have empty : (dins inum).addrs Fs.indirect = 0 := by
    by_contra used
    exact absurd (filled.indirect_ne_zero_iff.mp used) (Nat.lt_irrefl _)
  have first := layout.takeAddr roomFirst empty
  have firstHeld := layout.heldAt_takeAddr roomFirst empty
  generalize dinEq : withAddr (dins inum) Fs.indirect
    (UInt32.ofNat state.freeblock) = din at first firstHeld
  have addr : din.addrs Fs.indirect = UInt32.ofNat state.freeblock := by
    rw [← dinEq]
    simp [withAddr]
  have here : update dins inum din inum = din := update_self ..
  have table : (update dins inum din inum).addrs Fs.indirect ≠ 0 := by
    rw [here, addr]
    exact ofNat_block_ne_zero layout.start roomFirst
  have noEntry : blockAt state.take.disk (update dins inum din inum)
      (.entry ⟨0, by decide⟩) = 0 := by
    rw [blockAt, if_neg table, here, addr, toNat_ofNat_block roomFirst]
    change (state.disk state.freeblock).word _ = 0
    rw [layout.blank _ (le_refl _), Cell.word_zero]
  obtain ⟨final, ran, newLayout, held, block, extends_, freeblock⟩ :=
    needEntry_step state.take first room table ⟨0, by decide⟩ noEntry
  rw [here] at ran block
  refine ⟨UInt32.ofNat (state.freeblock + 1), din, final, ?_, ⟨newLayout, ?_, ?_, ?_,
    ofNat_block_ne_zero (Nat.le_succ_of_le layout.start) room,
    state.extends_take.trans extends_, by rw [← dinEq]; rfl⟩, freeblock⟩
  · unfold needBlock
    rw [dif_neg (Nat.lt_irrefl _), Run.bind_of_ok (needAddr_empty empty state), dinEq,
      Nat.sub_self, Run.bind_of_ok ran]
    rfl
  · apply filled.succ
    intro other
    rw [held, Filled.update_ne_zero_iff _ _ (by simp [State.take])]
    change (heldAt state.disk _ _ ≠ 0 ∨ _) ↔ _
    rw [firstHeld, Filled.update_ne_zero_iff _ _ positive, or_assoc]
    refine or_congr_right ⟨?_, ?_⟩
    · rintro (rfl | rfl)
      · rfl
      · rfl
    cases other with
    | addr index =>
      intro same
      exact Or.inl (congrArg Place.addr (Fin.ext same))
    | entry entry =>
      intro same
      refine Or.inr (congrArg Place.entry (Fin.ext ?_))
      simp only [rank] at same
      simp only
      omega
  · intro other otherCount different otherFilled
    rw [held]
    apply Filled.update_other _ different
    change Filled (heldAt state.disk _) _ _
    rw [firstHeld]
    exact otherFilled.update_other different _ _
  · rw [Fs.fileBlock_of_place place, block]
    rfl

/-- `mkfs` makes a block of a file available, at most the one behind the last. -/
theorem needBlock_spec
    (filled : Filled (heldAt state.disk dins) inum count)
    (inside : fbn < MAXFILE)
    (next : fbn ≤ count)
    (room : state.freeblock + taken (max count (fbn + 1)) ≤ sb.size + taken count) :
    ∃ x din final, needBlock (dins inum) fbn state = .ok ((x, din), final) ∧
      Needed state final dins contents inum fbn (max count (fbn + 1)) x din ∧
      final.freeblock + taken count = state.freeblock + taken (max count (fbn + 1)) := by
  by_cases mapped : fbn < count
  · have top : max count (fbn + 1) = count := by omega
    obtain ⟨x, ran, needed⟩ := needBlock_mapped layout filled inside mapped
    rw [top]
    exact ⟨x, dins inum, state, ran, needed, rfl⟩
  obtain rfl : fbn = count := by omega
  have top : max fbn (fbn + 1) = fbn + 1 := by omega
  rw [top] at room ⊢
  by_cases direct : fbn < NDIRECT
  · have counts : taken (fbn + 1) = taken fbn + 1 := by
      unfold taken
      split_ifs <;> omega
    obtain ⟨x, din, ran, needed⟩ :=
      needBlock_direct layout filled direct (by omega)
    refine ⟨x, din, state.take, ran, needed, ?_⟩
    simp only [State.take]
    omega
  · by_cases last : fbn = NDIRECT
    · subst last
      have counts : taken (NDIRECT + 1) = taken NDIRECT + 2 := rfl
      obtain ⟨x, din, final, ran, needed, freeblock⟩ :=
        needBlock_indirect layout filled (by omega)
      exact ⟨x, din, final, ran, needed, by omega⟩
    · have counts : taken (fbn + 1) = taken fbn + 1 := by
        unfold taken
        split_ifs <;> omega
      obtain ⟨x, final, ran, needed, freeblock⟩ :=
        needBlock_entry layout filled inside (by omega) (by omega)
      exact ⟨x, dins inum, final, ran, needed, by omega⟩

end NeedBlock

/-! ## The loop -/

/-- How many blocks hold the bytes of a file. -/
def blocksOf (length : Nat) : Nat := (length + BSIZE - 1) / BSIZE

theorem taken_mono (le : count ≤ more) :
    taken count ≤ taken more := by
  unfold taken
  split_ifs <;> omega

theorem blocksOf_mono (le : length ≤ more) :
    blocksOf length ≤ blocksOf more := by
  unfold blocksOf
  exact Nat.div_le_div_right (by omega)

/-- Bytes that go into the block behind the last full one. -/
theorem blocksOf_add
    (positive : 0 < n)
    (fits : off + n ≤ (off / BSIZE + 1) * BSIZE) :
    max (blocksOf off) (off / BSIZE + 1) = blocksOf (off + n) ∧ off / BSIZE ≤ blocksOf off := by
  unfold blocksOf BSIZE at *
  omega

/-- The blocks of every inode hold its contents. -/
structure Laid (state : State) (dins : Nat → Dinode)
    (contents : Nat → List UInt8) : Prop where
  layout : Layout state.disk dins state.freeblock contents
  /-- There are as many as the contents need. -/
  filled : ∀ inum, Filled (heldAt state.disk dins) inum (blocksOf (contents inum).length)
  /-- No file is larger than a file can be. -/
  small : ∀ inum, (contents inum).length ≤ MAXFILE * BSIZE

/-- The contents after a piece has been appended. -/
theorem getD_append_take
    (old src : List UInt8)
    (within : m ≤ src.length)
    (index : Nat) :
    (old ++ src.take m).getD index 0 = if old.length ≤ index ∧ index < old.length + m then
        src.getD (index - old.length) 0
      else old.getD index 0 := by
  by_cases before : index < old.length
  · rw [if_neg (by omega), List.getD_append _ _ _ _ before]
  rw [List.getD_append_right _ _ _ _ (by omega)]
  by_cases inside : index < old.length + m
  · rw [if_pos ⟨by omega, inside⟩, List.getD_eq_getElem?_getD,
      List.getD_eq_getElem?_getD, List.getElem?_take_of_lt (by omega)]
  · rw [if_neg (by omega), List.getD_eq_default, List.getD_eq_default]
    · omega
    · rw [List.length_take]
      omega

/-- A piece is copied into the block of a file in which the file ends. -/
theorem Layout.append {freeblock inum m : Nat} {src : List UInt8}
    (layout : Layout disk dins freeblock contents)
    (mapped : fileBlock disk (dins inum) ((contents inum).length / BSIZE) ≠ 0)
    (within : m ≤ src.length)
    (fits : (contents inum).length + m ≤ ((contents inum).length / BSIZE + 1) * BSIZE) :
    Layout (update disk (fileBlock disk (dins inum) ((contents inum).length / BSIZE)).toNat
        ((disk (fileBlock disk (dins inum) ((contents inum).length / BSIZE)).toNat).splice
            ((contents inum).length % BSIZE) (src.take m)))
      dins freeblock
      (update contents inum (contents inum ++ src.take m)) := by
  refine layout.write mapped _ ?_
  intro index
  rw [getD_append_take _ _ within]
  by_cases sameBlock : index / BSIZE = (contents inum).length / BSIZE
  · rw [if_pos sameBlock, Fs.byte_splice_piece _ within sameBlock]
    split
    · rfl
    · rw [← layout.bytes inum index, fileByte, sameBlock, if_neg mapped]
  · rw [if_neg sameBlock, if_neg]
    unfold BSIZE at *
    omega

/-- What the loop of `iappend` comes to. -/
structure Appended (state final : State) (dins : Nat → Dinode)
    (contents : Nat → List UInt8) (inum : Nat) (p : List UInt8) (din : Dinode) :
    Prop where
  /-- The bytes are appended to the contents of the inode. -/
  laid : Laid final (update dins inum din) (update contents inum (contents inum ++ p))
  /-- The blocks that takes. -/
  freeblock : final.freeblock + taken (blocksOf (contents inum).length) =
    state.freeblock + taken (blocksOf ((contents inum).length + p.length))
  extends_ : state.Extends final
  /-- The inode differs in its addresses only. -/
  fields : fieldsOf din = fieldsOf (dins inum)

/-- Nothing is appended. -/
theorem Appended.nil
    (laid : Laid state dins contents)
    (inum : Nat) :
    Appended state state dins contents inum [] (dins inum) := by
  refine ⟨?_, rfl, State.Extends.refl state, rfl⟩
  rw [update_eq_self, List.append_nil, update_eq_self]
  exact laid

/-- A piece has been appended, then the rest. -/
theorem Appended.trans {state middle final : State}
    (first : Appended state middle dins contents inum (p.take m) din)
    (second : Appended middle final (update dins inum din)
      (update contents inum (contents inum ++ p.take m)) inum
      (p.drop m) last) :
    Appended state final dins contents inum p last := by
  have laid := second.laid
  have freeblock := second.freeblock
  have fields := second.fields
  rw [update_idem, update_idem, update_self, List.append_assoc, List.take_append_drop] at laid
  have whole : (p.take m).length + (p.drop m).length = p.length := by
    rw [← List.length_append, List.take_append_drop]
  rw [update_self, List.length_append, Nat.add_assoc, whole] at freeblock
  rw [update_self] at fields
  have firstFreeblock := first.freeblock
  exact ⟨laid, by omega, first.extends_.trans second.extends_, fields.trans first.fields⟩

/-- One round of the loop. -/
theorem append_round
    (laid : Laid state dins contents)
    (inside : (contents inum).length / BSIZE < MAXFILE)
    (positive : 0 < m)
    (within : m ≤ p.length)
    (fits : (contents inum).length + m ≤ ((contents inum).length / BSIZE + 1) * BSIZE)
    (room : state.freeblock + taken (blocksOf ((contents inum).length + m)) ≤
      sb.size + taken (blocksOf (contents inum).length)) :
    ∃ x din middle, needBlock (dins inum) ((contents inum).length / BSIZE) state =
        .ok ((x, din), middle) ∧
      x.toNat < sb.size ∧ Appended state (middle.put x.toNat ((middle.disk x.toNat).splice
        ((contents inum).length % BSIZE) (p.take m)))
        dins contents inum (p.take m) din := by
  obtain ⟨top, next⟩ := blocksOf_add positive fits
  have length : (p.take m).length = m := by
    rw [List.length_take]
    omega
  obtain ⟨x, din, middle, ran, needed, freeblock⟩ :=
    needBlock_spec laid.layout (laid.filled inum) inside next (by rwa [top])
  rw [top] at freeblock needed
  obtain rfl := needed.block
  have here : update dins inum din inum = din := update_self ..
  have mapped : fileBlock middle.disk (update dins inum din inum)
      ((contents inum).length / BSIZE) ≠ 0 := by
    rw [here]
    exact needed.nonzero
  obtain ⟨place, _, heldEq, holds⟩ := Layout.place_of_mapped _ _ mapped
  have bounds := needed.layout.held_bounds _ holds
  have held := needed.layout.heldAt_write mapped
  have layout := needed.layout.append mapped within fits
  rw [here] at heldEq held layout
  rw [heldEq] at bounds
  refine ⟨_, din, middle, ran, lt_of_lt_of_le bounds.2 needed.layout.bound,
    ⟨layout, ?_, ?_⟩, ?_, ?_, needed.fields⟩
  · intro other
    change Filled (heldAt (update middle.disk _ _) _) other _
    rw [held]
    by_cases same : other = inum
    · subst same
      rw [update_self, List.length_append, length]
      exact needed.filled
    · rw [update_of_ne same]
      exact needed.others other _ same (laid.filled other)
  · intro other
    by_cases same : other = inum
    · subst same
      rw [update_self, List.length_append, length]
      exact fits.trans (Nat.mul_le_mul_right BSIZE inside)
    · rw [update_of_ne same]
      exact laid.small other
  · rw [length]
    exact freeblock
  · exact needed.extends_.trans (middle.extends_put bounds.1 _)

theorem iappendLoop_spec
    (fuel : Nat)
    (laid : Laid state dins contents)
    (dinEq : dins inum = din)
    (offEq : (contents inum).length = off)
    (enough : p.length ≤ fuel)
    (room : state.freeblock + taken (blocksOf (off + p.length)) ≤ sb.size + taken (blocksOf off)) :
    Run.Spec (iappendLoop fuel din off p) state (fun result final =>
        Appended state final dins contents inum p result.1 ∧ result.2 = off + p.length)
      (fun _ => MAXFILE * BSIZE < off + p.length) := by
  subst dinEq offEq
  induction fuel generalizing state dins contents p with
  | zero =>
    obtain rfl : p = [] := List.length_eq_zero_iff.mp (by omega)
    exact ⟨Appended.nil laid inum, rfl⟩
  | succ fuel ih =>
    unfold iappendLoop
    by_cases empty : p = []
    · subst empty
      rw [if_pos rfl]
      exact ⟨Appended.nil laid inum, rfl⟩
    rw [if_neg empty]
    have positive : 0 < p.length := List.length_pos_iff.mpr empty
    by_cases inside : (contents inum).length / BSIZE < MAXFILE
    · have advances : 0 < min p.length (((contents inum).length / BSIZE + 1) * BSIZE -
            (contents inum).length) := by
        unfold BSIZE at *
        omega
      have within : min p.length (((contents inum).length / BSIZE + 1) * BSIZE -
            (contents inum).length) ≤ p.length := Nat.min_le_left _ _
      have fits : (contents inum).length + min p.length
          (((contents inum).length / BSIZE + 1) * BSIZE - (contents inum).length) ≤
          ((contents inum).length / BSIZE + 1) * BSIZE := by
        unfold BSIZE at *
        omega
      have position : (contents inum).length - (contents inum).length / BSIZE * BSIZE =
          (contents inum).length % BSIZE := by
        unfold BSIZE
        omega
      simp only [position]
      generalize min p.length (((contents inum).length / BSIZE + 1) * BSIZE -
        (contents inum).length) = m at *
      have checked : assert "fbn < MAXFILE" ((contents inum).length / BSIZE < MAXFILE) state =
          .ok ((), state) := by
        rw [assert, if_pos inside]
        rfl
      have grows := taken_mono (blocksOf_mono (show (contents inum).length + m ≤
        (contents inum).length + p.length by omega))
      obtain ⟨x, din, middle, ran, bound, appended⟩ :=
        append_round laid inside advances within fits (by omega)
      have length : (update contents inum (contents inum ++ p.take m) inum).length =
          (contents inum).length + m := by
        rw [update_self, List.length_append, List.length_take]
        omega
      have rest : (p.drop m).length = p.length - m := List.length_drop
      have whole : (contents inum).length + m + (p.length - m) =
          (contents inum).length + p.length := by omega
      have freeblock := appended.freeblock
      rw [List.length_take, Nat.min_eq_left within] at freeblock
      have later := ih appended.laid (p := p.drop m) (by rw [rest]; omega) (by
          rw [length, rest, whole]
          omega)
      rw [length, rest, whole, update_self] at later
      apply Run.Spec.bind_ok checked
      apply Run.Spec.bind_ok ran
      apply Run.Spec.bind_ok (rsect_eq bound)
      apply Run.Spec.bind_ok (wsect_eq _ _ _)
      refine later.mono ?_ fun _ big => big
      rintro result final ⟨second, ending⟩
      exact ⟨appended.trans second, ending⟩
    · have checked : assert "fbn < MAXFILE" ((contents inum).length / BSIZE < MAXFILE) state =
          .error (.assertion "fbn < MAXFILE") := by
        rw [assert, if_neg inside]
        rfl
      unfold Run.Spec
      simp only
      rw [Run.bind_of_error checked]
      simp only
      unfold MAXFILE NDIRECT NINDIRECT BSIZE at *
      omega

end Mkfs
end Xv6
