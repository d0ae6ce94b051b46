import Mathlib.Data.List.Nodup
import Xv6.Log.Basic

/-!
# Crash atomicity of the log

A disk represents logical contents when installing the transaction its log
header lists, if any, produces them.  Every prefix of the writes of recovery
keeps what the disk represents, and the writes of a transaction switch it
from the old contents to the new ones at exactly one write, that of the
header.  Crash atomicity of whole lifetimes follows by induction.
-/

namespace Xv6
namespace Log

open Function
open Cells
open DeferredWrites

/-! ## The header sector -/

theorem asInt_ofNat_of_small (small : count ≤ LOGSIZE) :
    asInt (UInt32.ofNat count) = count := by
  unfold LOGSIZE at small
  have bound : count < 2 ^ 32 := by omega
  have value : (UInt32.ofNat count).toNat = count :=
    UInt32.toNat_ofNat_of_lt bound
  rw [asInt, value, if_pos (by omega)]

variable {area : Area} {lh : List UInt32} {index : Nat} {disk contents : Disk} {bufs : List Buf}
  {log : State}

/-- Only the header sector matters for the header. -/
theorem readHead_congr (agree : left area.start = right area.start) :
    readHead area left = readHead area right := by
  unfold readHead
  rw [agree]

/-- A header just written is read back. -/
theorem readHead_writeHead
    (area : Area)
    (disk : Disk)
    (small : lh.length ≤ LOGSIZE) :
    readHead area (perform (writeHead area lh) disk) = some lh := by
  have fits : 4 + 4 * lh.length ≤ BSIZE := by
    unfold LOGSIZE at small
    unfold BSIZE
    omega
  have written : perform (writeHead area lh) disk area.start = headBlock (disk area.start) lh := by
    simp [perform, writeHead]
  have count : (headBlock (disk area.start) lh).word 0 = UInt32.ofNat lh.length := by
    rw [headBlock, Cell.word_putWords_before _ lh (by omega), Cell.word_putWord_same _ (by omega)]
  unfold readHead
  rw [written, count, asInt_ofNat_of_small small]
  rw [if_neg (by omega), Int.toNat_natCast]
  congr 1
  apply List.ext_getElem
  · simp
  · intro index indexBound inside
    rw [List.getElem_map, List.getElem_range, headBlock, Cell.word_putWords _ fits inside]

/-! ## Installing -/

theorem installPlan_mem (present : entry ∈ installPlan area first lh) :
    ∃ index, ∃ inside : index < lh.length,
      entry = (lh[index].toNat, area.slot (first + index)) := by
  induction lh generalizing first with
  | nil => simp [installPlan] at present
  | cons sector lh ih =>
    rcases List.mem_cons.mp present with here | later
    · exact ⟨0, by simp, by simpa using here⟩
    · obtain ⟨index, inside, equal⟩ := ih later
      refine ⟨index + 1, by simpa using inside, ?_⟩
      rw [equal]
      simp only [List.getElem_cons_succ]
      congr 2
      omega

theorem mem_installPlan
    (area : Area)
    (first : Nat)
    (inside : index < lh.length) :
    (lh[index].toNat, area.slot (first + index)) ∈
      installPlan area first lh := by
  induction lh generalizing first index with
  | nil => simp at inside
  | cons sector lh ih =>
    cases index with
    | zero => simp [installPlan]
    | succ index =>
      have later := ih (first + 1) (by simpa using inside)
      have position : first + (index + 1) = first + 1 + index := by omega
      rw [position]
      exact List.mem_cons_of_mem _ later

theorem installPlan_homes
    (area : Area)
    (first : Nat)
    (lh : List UInt32) :
    (installPlan area first lh).map Prod.fst = lh.map UInt32.toNat := by
  induction lh generalizing first with
  | nil => rfl
  | cons sector lh ih =>
    simp [installPlan, ih]

@[simp] theorem length_installTrans (area : Area) (lh : List UInt32) :
    (installTrans area lh).length = lh.length := by
  have homes := congrArg List.length (installPlan_homes area 0 lh)
  simpa [installTrans, redo] using homes

/-- A logged header whose homes avoid the log and whose slots lie in it. -/
structure Placed (area : Area) (lh : List UInt32) : Prop where
  /-- The header has room for the sectors. -/
  small : lh.length ≤ LOGSIZE
  /-- Every slot lies in the log. -/
  room : lh.length < area.size
  /-- Homes are outside the log. -/
  outside : ∀ sector ∈ lh, ¬area.Contains sector.toNat

theorem Placed.nil (area : Area) : Placed area [] where
  small := by simp
  room := by simpa using area.size_pos
  outside := by simp

theorem slot_contained
    (placed : Placed area lh)
    (inside : index < lh.length) :
    area.Contains (area.slot index) := by
  have room := placed.room
  constructor <;> simp only [Area.slot] <;> omega

theorem start_contained (area : Area) : area.Contains area.start := by
  have positive := area.size_pos
  constructor <;> omega

theorem installPlan_separated (placed : Placed area lh) :
    Separated (installPlan area 0 lh) := by
  intro home homePresent slot slotPresent equal
  obtain ⟨homeIndex, homeInside, rfl⟩ := installPlan_mem homePresent
  obtain ⟨slotIndex, slotInside, rfl⟩ := installPlan_mem slotPresent
  apply placed.outside _ (List.getElem_mem homeInside)
  simp only [Nat.zero_add] at equal
  rw [equal]
  exact slot_contained placed slotInside

/-- Installing some of the sectors leaves the log area alone. -/
theorem performAll_install_take_log
    (placed : Placed area lh)
    (count : Nat)
    (disk : Disk)
    (contained : area.Contains sector) :
    performAll ((installTrans area lh).take count) disk sector =
      disk sector := by
  apply performAll_of_avoids
  intro write present current equal
  obtain ⟨entry, entryPresent, rfl⟩ :=
    List.mem_map.mp (List.mem_of_mem_take present)
  obtain ⟨index, inside, rfl⟩ := installPlan_mem entryPresent
  apply placed.outside _ (List.getElem_mem inside)
  change lh[index].toNat = sector at equal
  rw [equal]
  exact contained

/-! ## What a disk represents -/

/-- The log header is clear and the home sectors hold the contents. -/
structure Clean (area : Area) (disk contents : Disk) : Prop where
  /-- No transaction is committed and not installed. -/
  head : readHead area disk = some []
  /-- Home sectors agree. -/
  home : ∀ sector, ¬area.Contains sector → disk sector = contents sector

/-- Installing what the header lists produces the contents. -/
def Represents (area : Area) (disk contents : Disk) : Prop :=
  ∃ lh, readHead area disk = some lh ∧ Placed area lh ∧ ∀ sector, ¬area.Contains sector →
      performAll (installTrans area lh) disk sector = contents sector

theorem Clean.represents (clean : Clean area disk contents) :
    Represents area disk contents :=
  ⟨[], clean.head, Placed.nil area, clean.home⟩

theorem perform_writeHead_home (outside : ¬area.Contains sector) :
    perform (writeHead area lh) disk sector = disk sector := by
  apply perform_of_ne
  rintro rfl
  exact outside (start_contained area)

/-- Cutting recovery off after any number of writes keeps what the disk
represents. -/
theorem Represents.recover_take
    (head : readHead area disk = some lh)
    (represents : Represents area disk contents)
    (count : Nat) :
    Represents area (performAll ((installTrans area lh ++ [writeHead area []]).take count)
        disk) contents := by
  obtain ⟨lh', head', placed, home⟩ := represents
  obtain rfl : lh = lh' := by simpa [head] using head'
  by_cases partly : count ≤ lh.length
  · -- the header is not cleared yet, so recovery starts over
    rw [List.take_append_of_le_length (by simpa using partly)]
    refine ⟨lh, ?_, placed, ?_⟩
    · rw [← head]
      exact readHead_congr (performAll_install_take_log placed count disk (start_contained area))
    · intro sector outside
      rw [← home sector outside]
      unfold installTrans redo
      rw [← List.map_take]
      exact congrFun (performAll_redo_take (installPlan_separated placed) count disk) sector
  · rw [List.take_of_length_le (by simp; omega), performAll_append]
    apply Clean.represents
    constructor
    · exact readHead_writeHead area _ (by simp)
    · intro sector outside
      rw [performAll_cons, performAll_nil, perform_writeHead_home outside, home sector outside]

/-- Recovery that completes leaves a clean log. -/
theorem Represents.recover
    (head : readHead area disk = some lh)
    (represents : Represents area disk contents) :
    Clean area (performAll (installTrans area lh ++ [writeHead area []]) disk)
      contents := by
  obtain ⟨lh', head', _, home⟩ := represents
  obtain rfl : lh = lh' := by simpa [head] using head'
  rw [performAll_append]
  constructor
  · exact readHead_writeHead area _ (by simp)
  · intro sector outside
    rw [performAll_cons, performAll_nil, perform_writeHead_home outside, home sector outside]

/-- Rounds of recovery end in a clean log with the contents represented at
the start. -/
theorem Represents.reboot
    (represents : Represents area disk contents)
    (rounds : List Nat) :
    ∃ result, reboot area rounds disk = some result ∧
      Clean area result contents := by
  induction rounds generalizing disk with
  | nil =>
    obtain ⟨lh, head, _⟩ := id represents
    refine ⟨_, ?_, represents.recover head⟩
    simp [Log.reboot, recoverFromLog, head]
  | cons count rounds ih =>
    obtain ⟨lh, head, _⟩ := id represents
    obtain ⟨result, rebooted, clean⟩ :=
      ih (represents.recover_take head count)
    refine ⟨result, ?_, clean⟩
    simpa [Log.reboot, recoverFromLog, head] using rebooted

/-- Whatever disk recovery completed on, it leaves a clear header. -/
theorem reboot_clean (rebooted : reboot area rounds disk = some result) :
    Clean area result result := by
  induction rounds generalizing disk with
  | nil =>
    simp only [reboot, recoverFromLog, Option.map_map, Option.map_eq_some_iff] at rebooted
    obtain ⟨lh, _, rfl⟩ := rebooted
    refine ⟨?_, fun _ _ => rfl⟩
    simp only [comp_apply, performAll_append]
    exact readHead_writeHead area _ (by simp)
  | cons count rounds ih =>
    unfold reboot at rebooted
    split at rebooted
    · contradiction
    · exact ih rebooted

/-! ## Logging the blocks of a transaction -/

theorem toNat_getElem_ne
    (nodup : lh.Nodup)
    (leftInside : left < lh.length)
    (rightInside : right < lh.length)
    (different : left ≠ right) :
    lh[left].toNat ≠ lh[right].toNat := by
  intro equal
  exact different ((nodup.getElem_inj_iff).mp (UInt32.toNat.inj equal))

/-- State after some `log_write` calls of a transaction that started on a
clean disk: the slots hold the last image of each logged sector. -/
structure Logged (area : Area) (contents : Disk) (bufs : List Buf)
    (log : State) (disk : Disk) : Prop where
  /-- The transaction is still open. -/
  busy : log.busy = true
  placed : Placed area log.lh
  nodup : log.lh.Nodup
  /-- Exactly the sectors written so far are listed. -/
  members : ∀ sector, sector ∈ log.lh ↔ ∃ buf ∈ bufs, buf.sector = sector
  /-- A slot holds the last data of its sector. -/
  last : ∀ index, ∀ inside : index < log.lh.length, disk (area.slot index) =
      assign (updates bufs) contents log.lh[index].toNat
  clean : Clean area disk contents

theorem updates_append (first second : List Buf) :
    updates (first ++ second) = updates first ++ updates second := by
  simp [updates]

theorem assign_updates_snoc
    (bufs : List Buf)
    (buf : Buf)
    (contents : Disk) :
    assign (updates (bufs ++ [buf])) contents = update (assign (updates bufs) contents)
        buf.sector.toNat buf.data := by
  rw [updates_append, assign_append]
  rfl

/-- Writing a slot keeps the log clean. -/
theorem Clean.put_slot
    (clean : Clean area disk contents)
    (room : index + 1 < area.size)
    (data : Block) :
    Clean area (perform (put (area.slot index) data) disk) contents := by
  constructor
  · rw [← clean.head]
    apply readHead_congr
    apply perform_of_ne
    simp only [put, Area.slot]
    omega
  · intro sector outside
    rw [← clean.home sector outside]
    apply perform_of_ne
    rintro rfl
    apply outside
    constructor <;> simp only [put, Area.slot] <;> omega

/-- One `log_write` keeps the logging invariant. -/
theorem Logged.step
    (logged : Logged area contents bufs log disk)
    (outside : ¬area.Contains buf.sector.toNat)
    (wrote : logWrite area log buf = .ok (next, write)) :
    Logged area contents (bufs ++ [buf]) next (perform write disk) := by
  have nodup := logged.nodup
  unfold logWrite at wrote
  split at wrote
  · contradiction
  rename_i fits
  push Not at fits
  split at wrote
  · contradiction
  obtain ⟨rfl, rfl⟩ := Prod.mk.inj (Except.ok.inj wrote)
  have indexBound : log.lh.idxOf buf.sector ≤ log.lh.length :=
    List.idxOf_le_length
  have room : log.lh.idxOf buf.sector + 1 < area.size := by omega
  have cleanNext := logged.clean.put_slot room buf.data
  have otherSlot : ∀ index, index ≠ log.lh.idxOf buf.sector →
      perform (put (area.slot (log.lh.idxOf buf.sector)) buf.data) disk
        (area.slot index) = disk (area.slot index) := by
    intro index different
    apply perform_of_ne
    simp only [put, Area.slot]
    omega
  by_cases fresh : log.lh.idxOf buf.sector = log.lh.length
  · -- the sector gets a slot of its own
    have absent : buf.sector ∉ log.lh := List.idxOf_eq_length_iff.mp fresh
    simp only [if_pos fresh]
    refine ⟨logged.busy, ⟨?_, ?_, ?_⟩, ?_, ?_, ?_, cleanNext⟩
    · simp only [List.length_append, List.length_singleton]
      omega
    · simp only [List.length_append, List.length_singleton]
      omega
    · intro sector present
      rcases List.mem_append.mp present with old | new
      · exact logged.placed.outside sector old
      · rw [List.mem_singleton.mp new]
        exact outside
    · rw [List.nodup_append]
      refine ⟨nodup, List.nodup_singleton _, ?_⟩
      intro left leftPresent right rightPresent equal
      rw [List.mem_singleton.mp rightPresent] at equal
      exact absent (equal ▸ leftPresent)
    · intro sector
      rw [List.mem_append, logged.members]
      constructor
      · rintro (⟨old, present, rfl⟩ | new)
        · exact ⟨old, List.mem_append_left _ present, rfl⟩
        · exact ⟨buf, by simp, (List.mem_singleton.mp new).symm⟩
      · rintro ⟨found, present, rfl⟩
        rcases List.mem_append.mp present with old | new
        · exact Or.inl ⟨found, old, rfl⟩
        · exact Or.inr (by simp [List.mem_singleton.mp new])
    · intro index inside
      rw [assign_updates_snoc]
      by_cases newest : index = log.lh.length
      · subst newest
        rw [fresh]
        simp [perform, put]
      have older : index < log.lh.length := by
        simp only [List.length_append, List.length_singleton] at inside
        omega
      rw [otherSlot index (by omega), logged.last index older, List.getElem_append_left older]
      have different : log.lh[index].toNat ≠ buf.sector.toNat := by
        intro equal
        exact absent (UInt32.toNat.inj equal ▸ List.getElem_mem older)
      rw [update_of_ne different]
  · -- absorption: the sector keeps its slot
    have inside : log.lh.idxOf buf.sector < log.lh.length := by omega
    have here : log.lh[log.lh.idxOf buf.sector] = buf.sector :=
      List.getElem_idxOf inside
    simp only [if_neg fresh]
    refine ⟨logged.busy, logged.placed, nodup, ?_, ?_, cleanNext⟩
    · intro sector
      rw [logged.members]
      constructor
      · rintro ⟨old, present, rfl⟩
        exact ⟨old, List.mem_append_left _ present, rfl⟩
      · rintro ⟨found, present, rfl⟩
        rcases List.mem_append.mp present with old | new
        · exact ⟨found, old, rfl⟩
        · rw [List.mem_singleton.mp new]
          exact (logged.members buf.sector).mp (here ▸ List.getElem_mem inside)
    · intro index indexInside
      rw [assign_updates_snoc]
      by_cases same : index = log.lh.idxOf buf.sector
      · subst same
        rw [here]
        simp [perform, put]
      · have different : log.lh[index].toNat ≠ buf.sector.toNat := by
          rw [← here]
          exact toNat_getElem_ne nodup indexInside inside same
        rw [otherSlot index same, logged.last index indexInside, update_of_ne different]

/-- All `log_write` calls of a transaction: every prefix of their writes
keeps the log clean, and if none panics the invariant holds at the end. -/
theorem Logged.writes
    (logged : Logged area contents done log disk)
    (outside : ∀ buf ∈ bufs, ¬area.Contains buf.sector.toNat) :
    (∀ count, Clean area (performAll ((logWrites area log bufs).1.take count) disk) contents) ∧
    ∀ final, (logWrites area log bufs).2 = some final → Logged area contents (done ++ bufs) final
        (performAll (logWrites area log bufs).1 disk) := by
  induction bufs generalizing done log disk with
  | nil =>
    refine ⟨fun count => by simpa [logWrites] using logged.clean, ?_⟩
    intro final finished
    obtain rfl : log = final := by simpa [logWrites] using finished
    simpa [logWrites] using logged
  | cons buf bufs ih =>
    cases wrote : logWrite area log buf with
    | error message =>
      simp only [logWrites, wrote]
      exact ⟨fun count => by simpa using logged.clean, by simp⟩
    | ok result =>
      obtain ⟨next, write⟩ := result
      have stepped := logged.step (outside buf List.mem_cons_self) wrote
      obtain ⟨prefixes, whole⟩ := ih stepped
        fun later present => outside later (List.mem_cons_of_mem _ present)
      simp only [logWrites, wrote]
      constructor
      · intro count
        cases count with
        | zero => simpa using logged.clean
        | succ count => simpa using prefixes count
      · intro final finished
        simpa using whole final finished

/-- Writing the header of a completely logged transaction commits it. -/
theorem Logged.commit (logged : Logged area contents bufs log disk) :
    Represents area (perform (writeHead area log.lh) disk) (assign (updates bufs) contents) := by
  have placed := logged.placed
  refine ⟨log.lh, readHead_writeHead area disk placed.small, placed, ?_⟩
  intro sector outside
  unfold installTrans
  rw [performAll_redo (installPlan_separated placed)]
  by_cases listed : ∃ home ∈ log.lh, home.toNat = sector
  · obtain ⟨home, present, rfl⟩ := listed
    obtain ⟨index, inside, rfl⟩ := List.getElem_of_mem present
    have slotKept : perform (writeHead area log.lh) disk (area.slot index) =
        disk (area.slot index) := by
      apply perform_of_ne
      simp only [writeHead, Area.slot]
      omega
    have entry := mem_installPlan area 0 inside
    rw [Nat.zero_add] at entry
    rw [← logged.last index inside, ← slotKept]
    apply assign_of_mem_nodup
    · have homes : (redoEntries (installPlan area 0 log.lh)
            (perform (writeHead area log.lh) disk)).map Prod.fst =
          log.lh.map UInt32.toNat := by
        rw [← installPlan_homes area 0]
        simp [redoEntries]
      rw [homes]
      exact logged.nodup.map fun left right equal => UInt32.toNat.inj equal
    · exact List.mem_map_of_mem
        (f := fun e => (e.1, perform (writeHead area log.lh) disk e.2)) entry
  · rw [assign_of_avoids, assign_of_avoids, perform_writeHead_home outside,
      logged.clean.home sector outside]
    · intro entry present equal
      obtain ⟨buf, bufPresent, rfl⟩ := List.mem_map.mp present
      exact listed ⟨buf.sector, (logged.members _).mpr ⟨buf, bufPresent, rfl⟩, equal⟩
    · intro entry present equal
      obtain ⟨planned, plannedPresent, rfl⟩ := List.mem_map.mp present
      obtain ⟨index, inside, rfl⟩ := installPlan_mem plannedPresent
      exact listed ⟨_, List.getElem_mem inside, equal⟩

/-! ## Whole transactions -/

/-- The logging invariant at the start of a transaction. -/
theorem Clean.logged (clean : Clean area disk contents) :
    Logged area contents [] { busy := true, lh := [] } disk where
  busy := rfl
  placed := Placed.nil area
  nodup := List.nodup_nil
  members := by simp
  last := by simp
  clean := clean

/-- The commit writes of a transaction with nothing logged are empty, and the
others are the header followed by what recovery would do. -/
theorem commitWrites_eq (nonempty : log.lh ≠ []) :
    commitWrites area log = writeHead area log.lh ::
        (installTrans area log.lh ++ [writeHead area []]) := by
  rw [commitWrites, if_pos (List.length_pos_iff.mpr nonempty)]

/-- A transaction that logged nothing changes nothing. -/
theorem Logged.contents_of_nil
    (logged : Logged area contents bufs log disk)
    (empty : log.lh = []) :
    assign (updates bufs) contents = contents := by
  have noBufs : bufs = [] := by
    apply List.eq_nil_iff_forall_not_mem.mpr
    intro buf present
    have listed := (logged.members buf.sector).mpr ⟨buf, present, rfl⟩
    simp [empty] at listed
  simp [noBufs, updates]

/-- Cutting `commit_trans` off after any number of writes leaves a disk that
represents the contents before the transaction or after it. -/
theorem Logged.commit_take
    (logged : Logged area contents bufs log disk)
    (count : Nat) :
    Represents area (performAll ((commitWrites area log).take count) disk) contents ∨
      Represents area (performAll ((commitWrites area log).take count) disk)
        (assign (updates bufs) contents) := by
  by_cases empty : log.lh = []
  · left
    simpa [commitWrites, empty] using logged.clean.represents
  rw [commitWrites_eq empty]
  cases count with
  | zero => exact Or.inl (by simpa using logged.clean.represents)
  | succ count =>
    right
    rw [List.take_succ_cons, performAll_cons]
    exact logged.commit.recover_take (readHead_writeHead area disk logged.placed.small) count

/-- The whole of `commit_trans` installs the transaction. -/
theorem Logged.commit_all (logged : Logged area contents bufs log disk) :
    Clean area (performAll (commitWrites area log) disk) (assign (updates bufs) contents) := by
  by_cases empty : log.lh = []
  · rw [logged.contents_of_nil empty]
    simpa [commitWrites, empty] using logged.clean
  · rw [commitWrites_eq empty, performAll_cons]
    exact logged.commit.recover (readHead_writeHead area disk logged.placed.small)

theorem transaction_idle (area : Area) (bufs : List Buf) :
    transaction area State.idle bufs = match logWrites area { busy := true, lh := [] } bufs with
      | (writes, none) => (writes, none)
      | (writes, some log) =>
        (writes ++ commitWrites area log, some (commitTrans log)) := rfl

/-- A transaction cut off after any number of writes took effect as a whole
or not at all, and the former only if none of its calls panicked. -/
theorem Clean.transaction_take
    (clean : Clean area disk contents)
    (outside : ∀ buf ∈ bufs, ¬area.Contains buf.sector.toNat)
    (count : Nat) :
    Represents area (performAll ((transaction area State.idle bufs).1.take count) disk) contents ∨
      (Fits area bufs ∧ Represents area
        (performAll ((transaction area State.idle bufs).1.take count) disk)
        (assign (updates bufs) contents)) := by
  obtain ⟨prefixes, whole⟩ := clean.logged.writes outside
  rw [Fits, transaction_idle]
  generalize logWrites area { busy := true, lh := [] } bufs = issued
    at prefixes whole
  obtain ⟨writes, final⟩ := issued
  cases final with
  | none => exact Or.inl (prefixes count).represents
  | some log =>
    by_cases early : count ≤ writes.length
    · left
      rw [List.take_append_of_le_length early]
      exact (prefixes count).represents
    · have late : writes.length ≤ count := by omega
      rw [List.take_append, List.take_of_length_le late, performAll_append]
      have logged := whole log rfl
      rw [List.nil_append] at logged
      rcases logged.commit_take (count - writes.length) with old | new
      · exact Or.inl old
      · exact Or.inr ⟨rfl, new⟩

/-- A transaction that runs to its end takes effect. -/
theorem Clean.transaction_all
    (clean : Clean area disk contents)
    (outside : ∀ buf ∈ bufs, ¬area.Contains buf.sector.toNat)
    (fits : Fits area bufs) :
    ∃ result, (Epoch.committed bufs).run area disk = some result ∧
      Clean area result (assign (updates bufs) contents) := by
  obtain ⟨_, whole⟩ := clean.logged.writes outside
  rw [Fits, transaction_idle] at fits
  simp only [Epoch.run, transaction_idle]
  generalize logWrites area { busy := true, lh := [] } bufs = issued
    at whole fits
  obtain ⟨writes, final⟩ := issued
  cases final with
  | none => simp at fits
  | some log =>
    refine ⟨_, rfl, ?_⟩
    have logged := whole log rfl
    rw [List.nil_append] at logged
    rw [performAll_append]
    exact logged.commit_all

/-! ## Lifetimes -/

/-- Replaying transactions only reads the home sectors. -/
theorem Clean.lifetime
    (clean : Clean area disk contents)
    (outside : ∀ epoch ∈ epochs, ∀ buf ∈ epoch.bufs, ¬area.Contains buf.sector.toNat)
    (fits : ∀ bufs, Epoch.committed bufs ∈ epochs → Fits area bufs) :
    ∃ result done, lifetime area epochs disk = some result ∧
      Effective area epochs done ∧ Clean area result (replay done contents) := by
  induction epochs generalizing disk contents with
  | nil => exact ⟨disk, [], rfl, .nil, clean⟩
  | cons epoch epochs ih =>
    have laterOutside : ∀ later ∈ epochs, ∀ buf ∈ later.bufs,
        ¬area.Contains buf.sector.toNat := fun later present =>
      outside later (List.mem_cons_of_mem _ present)
    have laterFits : ∀ bufs, Epoch.committed bufs ∈ epochs →
        Fits area bufs := fun bufs present =>
      fits bufs (List.mem_cons_of_mem _ present)
    cases epoch with
    | committed bufs =>
      have here : ∀ buf ∈ bufs, ¬area.Contains buf.sector.toNat :=
        outside _ List.mem_cons_self
      obtain ⟨next, ran, nextClean⟩ := clean.transaction_all here (fits bufs List.mem_cons_self)
      obtain ⟨result, done, finished, effective, final⟩ :=
        ih nextClean laterOutside laterFits
      exact ⟨result, bufs :: done, by simp [Log.lifetime, ran, finished],
        .committed bufs effective, final⟩
    | interrupted bufs count rounds =>
      have here : ∀ buf ∈ bufs, ¬area.Contains buf.sector.toNat :=
        outside _ List.mem_cons_self
      rcases clean.transaction_take here count with old | ⟨whole, new⟩
      · obtain ⟨next, ran, nextClean⟩ := old.reboot rounds
        obtain ⟨result, done, finished, effective, final⟩ :=
          ih nextClean laterOutside laterFits
        exact ⟨result, done, by simp [Log.lifetime, Epoch.run, ran, finished],
          .lost bufs effective, final⟩
      · obtain ⟨next, ran, nextClean⟩ := new.reboot rounds
        obtain ⟨result, done, finished, effective, final⟩ :=
          ih nextClean laterOutside laterFits
        exact ⟨result, bufs :: done, by simp [Log.lifetime, Epoch.run, ran, finished],
          .kept bufs whole effective, final⟩

/-- Crash atomicity.  On any disk on which recovery has completed at boot,
after any sequence of transactions outside the log, each of which commits or
is cut off by a crash after any of its writes and followed by any number of
interrupted recoveries, the last recovery completes and every home sector
holds what the effective transactions left in it: all committed ones, and
each interrupted one as a whole or not at all. -/
theorem lifetime_crash_atomic
    (area : Area)
    (bootRounds : List Nat)
    (image disk : Disk)
    (epochs : List Epoch)
    (booted : reboot area bootRounds image = some disk)
    (outside : ∀ epoch ∈ epochs, ∀ buf ∈ epoch.bufs, ¬area.Contains buf.sector.toNat)
    (fits : ∀ bufs, Epoch.committed bufs ∈ epochs → Fits area bufs) :
    ∃ result done, lifetime area epochs disk = some result ∧ Effective area epochs done ∧
      ∀ sector, ¬area.Contains sector → result sector = replay done disk sector := by
  obtain ⟨result, done, finished, effective, clean⟩ :=
    (reboot_clean booted).lifetime outside fits
  exact ⟨result, done, finished, effective, clean.home⟩

/-- The log of an image made by `mkfs`. -/
def mkfsArea : Area :=
  initlog { size := 1024, nblocks := 985, ninodes := 200, nlog := 10 } (by decide)

/-- A committed transaction that writes one sector twice, then one that is
cut off right after its header reached the disk and recovered from in three
rounds. -/
def sampleEpochs : List Epoch :=
  [.committed [⟨30, Cell.zero⟩, ⟨31, Cell.zero.splice 0 [1]⟩, ⟨30, Cell.zero.splice 0 [2]⟩],
    .interrupted [⟨31, Cell.zero.splice 0 [3]⟩, ⟨30, Cell.zero.splice 0 [4]⟩] 3 [1, 0]]

theorem lifetime_crash_atomic_sample :
    ∃ disk result done,
      reboot mkfsArea [0] (fun _ => Cell.zero) = some disk ∧
      lifetime mkfsArea sampleEpochs disk = some result ∧
      Effective mkfsArea sampleEpochs done ∧
      ∀ sector, ¬mkfsArea.Contains sector →
        result sector = replay done disk sector := by
  have blank : Clean mkfsArea (fun _ => Cell.zero) (fun _ => Cell.zero) :=
    ⟨by decide +kernel, fun _ _ => rfl⟩
  obtain ⟨disk, booted, _⟩ := blank.represents.reboot [0]
  obtain ⟨result, done, finished, effective, home⟩ :=
    lifetime_crash_atomic mkfsArea [0] _ disk sampleEpochs booted
      (by simp [sampleEpochs, Epoch.bufs, Area.Contains, mkfsArea, initlog])
      (by
        intro bufs present
        obtain rfl : bufs =
            [⟨30, Cell.zero⟩, ⟨31, Cell.zero.splice 0 [1]⟩, ⟨30, Cell.zero.splice 0 [2]⟩] := by
          simpa [sampleEpochs] using present
        decide)
  exact ⟨disk, result, done, booted, finished, effective, home⟩

end Log
end Xv6
