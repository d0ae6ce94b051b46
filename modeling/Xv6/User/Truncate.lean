import Xv6.Sys.Replace

/-!
# truncate

The function `truncate` of truncate.c: it opens the file, removes its name, makes a
new file of that name, and copies or pads as many bytes as the size asks for.
-/

namespace Xv6
namespace Truncate

open Function
open Faulting
open Store

/-! ## The program -/

/-- How `truncate` ends. -/
inductive Ending where
  | done
  | exits (text : String)
  deriving DecidableEq

/-- The loop that copies, with what is left of the size; each round but the last one makes
it smaller. -/
def copyLoop (fd0 fd1 : Fd) : (fuel : Nat) → (nowsize : Int) → Run Crash Store Int
  | 0, nowsize => pure nowsize
  | fuel + 1, nowsize => do
      let buf := (← Store.sysRead fd0 512).getD []
      if buf ≠ [] ∧ 0 < nowsize then do
        let n : Int := if nowsize < buf.length then nowsize else buf.length
        let _ ← sysWrite fd1 (buf.take n.toNat)
        copyLoop fd0 fd1 fuel (nowsize - n)
      else pure nowsize

/-- The loop that pads with zeros. -/
def padLoop (fd1 : Fd) : (nowsize : Nat) → Run Crash Store Unit
  | 0 => pure ()
  | nowsize + 1 => do
      let _ ← sysWrite fd1 [0]
      padLoop fd1 nowsize

/-- `truncate` once both files are open. -/
def fill (fd0 fd1 : Fd) (size : Int) : Run Crash Store Ending := do
  let nowsize ← copyLoop fd0 fd1 (size.toNat + 1) size
  padLoop fd1 (if 0 < nowsize then nowsize.toNat else 0)
  let _ ← sysClose fd0
  let _ ← sysClose fd1
  pure .done

/-- `truncate` once the name has been removed. -/
def reopen (name : Path) (size : Int) (fd0 : Fd) : Run Crash Store Ending := do
  match ← sysOpen name (O_CREATE ||| O_RDWR) with
  | none => pure (.exits "cannot open file %s\n")
  | some fd1 => fill fd0 fd1 size

/-- `truncate`; the size is an int. -/
def truncate (name : Path) (size : Int) : Run Crash Store Ending := do
  match ← sysOpen name O_RDONLY with
  | none => pure (.exits "cannot open file %s\n")
  | some fd0 => do
      if (← sysUnlink name) < 0 then pure (.exits "error unlinking %s\n")
      else reopen name size fd0

/-- The store that `truncate` leaves: when it ends, or when the kernel stops. -/
def after (name : Path) (size : Int) (s : Store) : Store :=
  match truncate name size s with
  | .ok (_, t) => t
  | .error crash => crash.disk

/-! ## Copying -/

/-- Contents cut or padded to a size. -/
def resize (old : List UInt8) (size : Nat) : List UInt8 :=
  old.take size ++ List.replicate (size - old.length) 0

theorem length_resize (old : List UInt8) (size : Nat) : (resize old size).length = size := by
  rw [resize, List.length_append, List.length_take, List.length_replicate]
  omega

theorem resize_zero (old : List UInt8) : resize old 0 = [] := by
  rw [resize, List.take_zero, Nat.zero_sub, List.replicate_zero, List.append_nil]

theorem resize_eq_self_iff (old : List UInt8) (size : Nat) :
    resize old size = old ↔ size = old.length := by
  constructor
  · intro same
    rw [← length_resize old size, same]
  · rintro rfl
    simp [resize]

/-- A session that copies a regular file to a new one. -/
structure Copies (w : Session) (old : List UInt8) : Prop where
  /-- The new file was empty. -/
  origin : w.origin = []
  /-- The old one is read from the beginning. -/
  source : ∃ inum ip, w.source.inum = some inum ∧ inum ≠ w.inum ∧
    w.base.inodes inum = some ip ∧ ip.node = .file old
  /-- It may be read. -/
  readable : w.source.readable = true
  /-- It is no larger than the largest file. -/
  bounded : old.length ≤ MAXFILE * BSIZE

namespace Copies

variable {w : Session} {old : List UInt8}

theorem contents
    (copies : Copies w old)
    (written : List UInt8) :
    w.contents written = written := by
  rw [Session.contents, copies.origin, List.drop_nil, List.append_nil]

/-- A round of the loop reads what follows. -/
theorem sysRead_eq
    (copies : Copies w old)
    (within : place ≤ old.length)
    (input : List (Option (List UInt8)))
    (written : List UInt8) :
    Store.sysRead w.fd0 512 (w.during (UInt32.ofNat place) input written) =
      .ok (some ((old.drop place).take 512),
        w.during (UInt32.ofNat (place + ((old.drop place).take 512).length)) input written) := by
  obtain ⟨inum, ip, refers, different, used, regular⟩ := copies.source
  have bounded := copies.bounded
  have offset : (UInt32.ofNat place).toNat = place := by
    unfold MAXFILE NDIRECT NINDIRECT BSIZE at bounded
    rw [UInt32.toNat_ofNat', Nat.mod_eq_of_lt (by omega)]
  have present : (w.during (UInt32.ofNat place) input written).inodes inum = some ip :=
    (update_of_ne different _ _).trans used
  have read := sysRead_file (s := w.during (UInt32.ofNat place) input written) w.first
    (w.during_source _ input written) refers copies.readable present regular
    (by rw [offset]; exact within) bounded
  rw [read]
  dsimp only
  rw [offset, ← UInt32.ofNat_add]
  refine congrArg (fun t => Except.ok (_, t)) ?_
  exact w.seek_during (UInt32.ofNat place) input written _ input

/-- The blocks suffice for what is written. -/
theorem fits_iff
    (copies : Copies w old)
    (small : written.length ≤ MAXFILE * BSIZE) :
    blocks (w.contents written).length ≤ w.base.free ↔ written.length ≤ capacity w.base.free := by
  rw [copies.contents, blocks_le_iff small]

end Copies

/-- Once nothing is left of the size, the loop ends. -/
theorem copyLoop_spent
    (w : Session)
    (spent : nowsize ≤ 0)
    (fuel : Nat)
    (off : UInt32)
    (input : List (Option (List UInt8)))
    (written : List UInt8) :
    ∃ later left, copyLoop w.fd0 w.fd1 (fuel + 1) nowsize (w.during off input written) =
      .ok (nowsize, w.during later left written) := by
  obtain ⟨result, later, left, read⟩ := w.sysRead_during off input written 512
  refine ⟨later, left, ?_⟩
  rw [copyLoop, Run.bind_of_ok read, if_neg (fun both => by omega)]
  rfl

namespace Copies

variable {w : Session} {old : List UInt8}

/-- One round of the loop that copies. -/
theorem copyLoop_step
    (copies : Copies w old)
    {place left : Nat}
    (inside : place < old.length)
    (more : 0 < left)
    (fits : place ≤ capacity w.base.free)
    (fuel : Nat)
    (input : List (Option (List UInt8))) :
    copyLoop w.fd0 w.fd1 (fuel + 1) left (w.during (UInt32.ofNat place) input (old.take place)) =
      let n := min left (min 512 (old.length - place))
      let off := UInt32.ofNat (place + min 512 (old.length - place))
      if capacity w.base.free < place + n then
        .error ⟨"balloc: out of blocks", w.during off input (old.take place)⟩
      else
        copyLoop w.fd0 w.fd1 fuel (left - n : Nat) (w.during off input (old.take (place + n))) := by
  have bounded := copies.bounded
  have length : ((old.drop place).take 512).length = min 512 (old.length - place) := by
    rw [List.length_take, List.length_drop]
  have nonempty : (old.drop place).take 512 ≠ [] := by
    rw [← List.length_pos_iff, length]
    omega
  dsimp only
  generalize count : min left (min 512 (old.length - place)) = n
  have range : 0 < n ∧ n ≤ 512 ∧ place + n ≤ old.length := by omega
  have chunk : ((old.drop place).take 512).take n = (old.drop place).take n := by
    rw [List.take_take, min_eq_left range.2.1]
  have chunkLength : ((old.drop place).take n).length = n := by
    rw [List.length_take, List.length_drop]
    omega
  have counted : (if (left : Int) < ((old.drop place).take 512).length then (left : Int)
      else ((old.drop place).take 512).length) = n := by
    rw [length]
    split <;> omega
  have taken : old.take place ++ (old.drop place).take n = old.take (place + n) := List.take_add.symm
  have takenLength : (old.take place).length = place := by
    rw [List.length_take]
    omega
  have enough : blocks (w.contents (old.take place)).length ≤ w.base.free := by
    rw [copies.fits_iff (by omega), takenLength]
    exact fits
  have wrote := w.sysWrite_during
    (UInt32.ofNat (place + ((old.drop place).take 512).length)) input (old.take place)
    ((old.drop place).take n)
    (by rw [chunkLength]; exact range.2.1.trans (by decide)) enough
    (by rw [takenLength, chunkLength]; omega)
  have grown : w.base.free < blocks (w.contents (old.take (place + n))).length ↔
      capacity w.base.free < place + n := by
    rw [← not_le, copies.fits_iff (by rw [List.length_take]; omega), not_le, List.length_take,
      min_eq_left range.2.2]
  rw [copyLoop, Run.bind_of_ok (copies.sysRead_eq inside.le input (old.take place))]
  simp only [Option.getD_some]
  rw [if_pos ⟨nonempty, by omega⟩, counted, Int.toNat_natCast, chunk]
  rw [taken] at wrote
  simp only [grown, length] at wrote
  rw [length]
  split
  · rename_i full
    rw [if_pos full] at wrote
    exact Run.bind_of_error wrote
  · rename_i room
    rw [if_neg room] at wrote
    rw [Run.bind_of_ok wrote, Nat.cast_sub (by omega)]

/-- The loop copies what the file has and the size asks for, unless the disk is full
before. -/
theorem copyLoop_eq
    (copies : Copies w old)
    {size : Nat}
    (fuel place : Nat)
    (input : List (Option (List UInt8)))
    (aligned : place % 512 = 0 ∨ place = old.length)
    (within : place ≤ old.length)
    (below : place < size)
    (fits : place ≤ capacity w.base.free)
    (enough : size < place + fuel) :
    ∃ off left, (min size old.length ≤ capacity w.base.free ∧
        copyLoop w.fd0 w.fd1 fuel (size - place : Nat)
            (w.during (UInt32.ofNat place) input (old.take place)) =
          .ok ((size - min size old.length : Nat),
            w.during off left (old.take (min size old.length)))) ∨
      (capacity w.base.free < min size old.length ∧ copyLoop w.fd0 w.fd1 fuel (size - place : Nat)
            (w.during (UInt32.ofNat place) input (old.take place)) =
          .error ⟨"balloc: out of blocks",
            w.during off left (old.take (capacity w.base.free))⟩) := by
  induction fuel generalizing place with
  | zero => omega
  | succ fuel ih =>
    rcases Nat.lt_or_eq_of_le within with inside | ended
    · have step := copies.copyLoop_step inside (by omega : 0 < size - place) fits fuel input
      dsimp only at step
      generalize count : min (size - place) (min 512 (old.length - place)) = n at step
      rw [step]
      have capacityAligned : capacity w.base.free % 512 = 0 := Nat.mul_mod_right _ _
      have begins := aligned.resolve_right inside.ne
      split
      · rename_i full
        have stops : capacity w.base.free = place := by omega
        exact ⟨_, input, .inr ⟨by omega, by rw [stops]⟩⟩
      rename_i room
      have left : size - place - n = size - (place + n) := by omega
      rw [left]
      by_cases spent : size ≤ place + n
      · -- the size is used up, and the next round is the last one
        obtain ⟨more, rfl⟩ : ∃ more, fuel = more + 1 := ⟨fuel - 1, by omega⟩
        obtain ⟨later, rest, last⟩ := copyLoop_spent w
          (by omega : ((size - (place + n) : Nat) : Int) ≤ 0) more
          (UInt32.ofNat (place + min 512 (old.length - place))) input (old.take (place + n))
        have all : min size old.length = place + n := by omega
        exact ⟨later, rest, .inl ⟨by omega, by rw [all, last]⟩⟩
      · have whole : min 512 (old.length - place) = n := by omega
        rw [whole]
        exact ih (place + n) (by omega) (by omega) (by omega) (by omega) (by omega)
    · -- the file has ended
      have read := copies.sysRead_eq within input (old.take place)
      have nothing : (old.drop place).take 512 = [] := by
        rw [ended, List.drop_length, List.take_nil]
      rw [nothing] at read
      have all : min size old.length = place := by omega
      refine ⟨UInt32.ofNat place, input, .inl ⟨by omega, ?_⟩⟩
      rw [copyLoop, Run.bind_of_ok read, if_neg (fun both => both.1 rfl), all]
      rfl

/-- The loop that pads fills the file up, until the size or the largest file is reached,
unless the disk is full before. -/
theorem padLoop_eq
    (copies : Copies w old)
    (nowsize : Nat)
    (off : UInt32)
    (input : List (Option (List UInt8)))
    (written : List UInt8)
    (fits : written.length ≤ capacity w.base.free) :
    ((written.length + nowsize ≤ capacity w.base.free ∨ capacity w.base.free = MAXFILE * BSIZE) ∧
        padLoop w.fd1 nowsize (w.during off input written) = .ok ((), w.during off input (written ++
            List.replicate (min nowsize (capacity w.base.free - written.length)) 0))) ∨
      ((capacity w.base.free < written.length + nowsize ∧ capacity w.base.free ≠ MAXFILE * BSIZE) ∧
        padLoop w.fd1 nowsize (w.during off input written) =
          .error ⟨"balloc: out of blocks", w.during off input (written ++
            List.replicate (capacity w.base.free - written.length) 0)⟩) := by
  have limit := capacity_le w.base.free
  induction nowsize generalizing written with
  | zero =>
    refine .inl ⟨.inl fits, ?_⟩
    rw [Nat.zero_min, List.replicate_zero, List.append_nil]
    rfl
  | succ nowsize ih =>
    have enough : blocks (w.contents written).length ≤ w.base.free :=
      (copies.fits_iff (fits.trans limit)).mpr fits
    rcases Nat.lt_or_eq_of_le (fits.trans limit) with room | full
    · have wrote := w.sysWrite_during off input written [0] (by decide) enough room
      have grown : w.base.free < blocks (w.contents (written ++ [0])).length ↔
          capacity w.base.free < written.length + 1 := by
        rw [← not_le, copies.fits_iff (by rw [List.length_append]; exact room), not_le,
          List.length_append]
        rfl
      simp only [grown] at wrote
      by_cases stops : capacity w.base.free < written.length + 1
      · rw [if_pos stops] at wrote
        have none : capacity w.base.free - written.length = 0 := by omega
        refine .inr ⟨by omega, ?_⟩
        rw [padLoop, Run.bind_of_error wrote, none, List.replicate_zero, List.append_nil]
      rw [if_neg stops] at wrote
      have length : (written ++ [0]).length = written.length + 1 := List.length_append
      have next := ih (written ++ [0]) (by omega)
      rw [length] at next
      have more : ∀ count, written ++ [0] ++ List.replicate count 0 =
          written ++ List.replicate (count + 1) 0 := by
        intro count
        rw [List.append_assoc, List.replicate_succ]
        rfl
      rw [padLoop, Run.bind_of_ok wrote]
      rcases next with ⟨reached, ended⟩ | ⟨beyond, ended⟩
      · refine .inl ⟨by omega, ?_⟩
        rw [ended, more]
        congr 5
        omega
      · refine .inr ⟨by omega, ?_⟩
        rw [ended, more]
        congr 5
        omega
    · -- the largest file is reached, and the remaining writes fail
      have refused := w.sysWrite_refused off input written [0] (by decide) ⟨enough, full.le⟩
        (by rw [full]; exact Nat.lt_succ_self _)
      rw [padLoop, Run.bind_of_ok refused]
      have next := ih written fits
      have none : capacity w.base.free - written.length = 0 := by omega
      rw [none, Nat.min_zero] at next ⊢
      rcases next with ⟨_, ended⟩ | ⟨⟨_, different⟩, _⟩
      · exact .inl ⟨.inr (by omega), ended⟩
      · exact absurd (by omega) different

end Copies

/-! ## Any source -/

/-- The loop that copies adds to what is written, whatever it reads. -/
theorem copyLoop_spec
    (w : Session)
    (fuel : Nat)
    (nowsize : Int)
    (off : UInt32)
    (input : List (Option (List UInt8)))
    (fits : w.Fits written) :
    Run.Spec (copyLoop w.fd0 w.fd1 fuel nowsize) (w.during off input written)
      (fun _ t => ∃ later left next, w.Fits next ∧ t = w.during later left next)
      (fun crash => ∃ later left next, crash.disk = w.during later left next) := by
  induction fuel generalizing nowsize off input written with
  | zero => exact ⟨off, input, written, fits, rfl⟩
  | succ fuel ih =>
    obtain ⟨result, later, left, read⟩ := w.sysRead_during off input written 512
    refine .bind_ok read ?_
    dsimp only
    split
    · refine .bind ((w.sysWrite_spec later left written _ fits).mono ?_ ?_)
      · rintro _ _ ⟨next, nextFits, rfl⟩
        exact ih _ later left nextFits
      · rintro crash ⟨next, disk⟩
        exact ⟨later, left, next, disk⟩
    · exact ⟨later, left, written, fits, rfl⟩

theorem padLoop_spec
    (w : Session)
    (nowsize : Nat)
    (off : UInt32)
    (input : List (Option (List UInt8)))
    (fits : w.Fits written) :
    Run.Spec (padLoop w.fd1 nowsize) (w.during off input written)
      (fun _ t => ∃ next, w.Fits next ∧ t = w.during off input next)
      (fun crash => ∃ next, crash.disk = w.during off input next) := by
  induction nowsize generalizing written with
  | zero => exact ⟨written, fits, rfl⟩
  | succ nowsize ih =>
    refine .bind ((w.sysWrite_spec off input written [0] fits).mono ?_ fun _ => id)
    rintro _ _ ⟨next, nextFits, rfl⟩
    exact ih nextFits

/-! ## Closing -/

/-- A session of `truncate`: an old inode is read, and a new file with one link is
written. -/
structure Opened (w : Session) (old : Nat) : Prop where
  /-- The new file was empty. -/
  origin : w.origin = []
  /-- It has one link. -/
  nlink : w.nlink = 1
  /-- The old inode is read. -/
  source : w.source.inum = some old
  different : old ≠ w.inum
  /-- No other descriptor shares the first open file. -/
  alone : w.source.ref = 1
  /-- Nor the second one. -/
  single : w.target.ref = 1

/-- What is left of a session: the new file has some contents, and the old inode may have
been freed. -/
structure Leaves (w : Session) (old : Nat) (contents : List UInt8) (t : Store) : Prop where
  /-- The current directory is the same. -/
  cwd : t.cwd = w.base.cwd
  /-- The new file. -/
  file : t.inodes w.inum = some ⟨.file contents, 1⟩
  /-- The old inode. -/
  source : t.inodes old = w.base.inodes old ∨ t.inodes old = none
  /-- All others. -/
  others : ∀ inum, inum ≠ w.inum → inum ≠ old → t.inodes inum = w.base.inodes inum

namespace Opened

variable {w : Session} {old : Nat}

variable (opened : Opened w old)

include opened

theorem contents (written : List UInt8) :
    w.contents written = written := by
  rw [Session.contents, opened.origin, List.drop_nil, List.append_nil]

theorem leaves_during
    (off : UInt32)
    (input : List (Option (List UInt8)))
    (written : List UInt8) :
    Leaves w old written (w.during off input written) where
  cwd := rfl
  file := by
    have file : (w.during off input written).inodes w.inum =
        some ⟨.file (w.contents written), w.nlink⟩ := update_self _ _ _
    rw [file, opened.contents, opened.nlink]
  source := .inl (update_of_ne opened.different _ _)
  others := fun inum other _ => update_of_ne other _ _

/-- Closing both files keeps the new one. -/
theorem close
    (off : UInt32)
    (input : List (Option (List UInt8)))
    (written : List UInt8) :
    ∃ t, (do
        let _ ← sysClose w.fd0
        let _ ← sysClose w.fd1
        pure .done : Run Crash Store Ending) (w.during off input written) = .ok (.done, t) ∧
      Leaves w old written t := by
  have leaves := opened.leaves_during off input written
  have apart : w.fd1 ≠ w.fd0 := by
    intro same
    have files := w.second
    rw [same, w.first] at files
    exact w.apart (Option.some.inj files)
  have first := sysClose_eq (s := w.during off input written) w.first
    (w.during_source off input written) opened.alone opened.source
  generalize middle : iput old
    { w.during off input written with
      ofile := update (w.during off input written).ofile w.fd0 none
      ftable := update (w.during off input written).ftable w.f0 none } = u at first
  have descriptor : u.ofile w.fd1 = some w.f1 := by
    rw [← middle, iput_ofile]
    exact (update_of_ne apart _ _).trans w.second
  have entry : u.ftable w.f1 = some { w.target with off := UInt32.ofNat written.length } := by
    rw [← middle, iput_ftable]
    exact (update_of_ne w.apart.symm _ _).trans (w.during_target off input written)
  -- only the old inode can have been freed
  have between : Leaves w old written u := by
    have kept : u.inodes = (w.during off input written).inodes ∨
        u.inodes = update (w.during off input written).inodes old none := by
      rw [← middle]
      exact iput_inodes old _
    refine ⟨by rw [← middle, iput_cwd]; rfl, ?_, ?_, fun inum notNew notOld => ?_⟩
    · rcases kept with same | freed
      · rw [same]
        exact leaves.file
      · rw [freed, update_of_ne opened.different.symm]
        exact leaves.file
    · rcases kept with same | freed
      · rw [same]
        exact leaves.source
      · rw [freed, update_self]
        exact .inr rfl
    · rcases kept with same | freed
      · rw [same]
        exact leaves.others inum notNew notOld
      · rw [freed, update_of_ne notOld]
        exact leaves.others inum notNew notOld
  have linked : (1 : Int16) ≠ 0 := by decide
  have second := sysClose_alive descriptor entry opened.single w.refers between.file (.inl linked)
  exact ⟨_, (Run.bind_of_ok first).trans (Run.bind_of_ok second), between.cwd, between.file,
    between.source, between.others⟩

/-- Whatever is read, a new file is left. -/
theorem fill_spec
    (size : Int)
    (off : UInt32)
    (input : List (Option (List UInt8)))
    (fits : w.Fits []) :
    Run.Spec (fill w.fd0 w.fd1 size) (w.during off input [])
      (fun ending t => ending = .done ∧ ∃ contents, Leaves w old contents t)
      (fun crash => ∃ contents, Leaves w old contents crash.disk) := by
  refine .bind ((copyLoop_spec w _ size off input fits).mono ?_ ?_)
  · rintro nowsize _ ⟨later, left, copied, copiedFits, rfl⟩
    refine .bind ((padLoop_spec w _ later left copiedFits).mono ?_ ?_)
    · rintro _ _ ⟨padded, _, rfl⟩
      obtain ⟨t, closed, leaves⟩ := opened.close later left padded
      exact .returns closed ⟨rfl, padded, leaves⟩
    · rintro crash ⟨padded, disk⟩
      exact ⟨padded, disk ▸ opened.leaves_during later left padded⟩
  · rintro crash ⟨later, left, copied, disk⟩
    exact ⟨copied, disk ▸ opened.leaves_during later left copied⟩

end Opened

/-! ## A regular file -/

/-- What has been copied and padded. -/
theorem take_append_zeros
    (old : List UInt8)
    (fits : min size old.length ≤ limit) :
    old.take (min size old.length) ++
        List.replicate (min (size - min size old.length) (limit - min size old.length)) 0 =
      resize old (min size limit) := by
  rcases Nat.le_total size old.length with short | long
  · rw [min_eq_left short] at *
    rw [min_eq_left fits, resize]
    congr 2
    omega
  · rw [min_eq_right long] at *
    rw [resize, List.take_length, List.take_of_length_le (le_min long fits)]
    congr 2
    omega

/-- A regular file is cut or padded, up to what the disk and the largest file allow. -/
theorem fill_regular
    (opened : Opened w inum)
    (copies : Copies w old)
    (size : Int)
    (input : List (Option (List UInt8))) :
    ((size.toNat ≤ capacity w.base.free ∨ capacity w.base.free = MAXFILE * BSIZE) ∧
        ∃ t, fill w.fd0 w.fd1 size (w.during 0 input []) = .ok (.done, t) ∧
          Leaves w inum (resize old (min size.toNat (capacity w.base.free))) t) ∨
      ((capacity w.base.free < size.toNat ∧ capacity w.base.free ≠ MAXFILE * BSIZE) ∧
        ∃ crash, fill w.fd0 w.fd1 size (w.during 0 input []) = .error crash ∧
          Leaves w inum (resize old (min size.toNat (capacity w.base.free))) crash.disk) := by
  have limit := capacity_le w.base.free
  rcases le_or_gt size 0 with nonpositive | positive
  · -- nothing is copied
    have zero : size.toNat = 0 := Int.toNat_of_nonpos nonpositive
    obtain ⟨later, left, copied⟩ := copyLoop_spent w nonpositive size.toNat 0 input []
    obtain ⟨t, closed, leaves⟩ := opened.close later left []
    refine .inl ⟨.inl (by omega), t, ?_, ?_⟩
    · rw [fill, Run.bind_of_ok copied, if_neg (by omega)]
      exact closed
    · rw [zero, Nat.zero_min, resize_zero]
      exact leaves
  obtain ⟨k, rfl⟩ := Int.eq_ofNat_of_zero_le positive.le
  rw [Int.toNat_natCast]
  have more : 0 < k := Int.natCast_pos.mp positive
  obtain ⟨off, left, ⟨fits, copied⟩ | ⟨full, stopped⟩⟩ :=
    copies.copyLoop_eq (k + 1) 0 input (.inl rfl) (Nat.zero_le _) more (Nat.zero_le _) (by omega)
  · have length : (old.take (min k old.length)).length = min k old.length := by
      rw [List.length_take]
      omega
    have count : (if (0 : Int) < ((k - min k old.length : Nat) : Int) then
        ((k - min k old.length : Nat) : Int).toNat else 0) = k - min k old.length := by
      split <;> omega
    have filled : fill w.fd0 w.fd1 k (w.during 0 input []) = (do
          padLoop w.fd1 (k - min k old.length)
          let _ ← sysClose w.fd0
          let _ ← sysClose w.fd1
          pure .done : Run Crash Store Ending)
          (w.during off left (old.take (min k old.length))) := by
      rw [← count]
      exact Run.bind_of_ok copied
    rw [filled]
    rcases copies.padLoop_eq (k - min k old.length) off left (old.take (min k old.length))
      (by rw [length]; exact fits) with ⟨reached, padded⟩ | ⟨beyond, stopped⟩
    · rw [length, take_append_zeros old fits] at padded
      obtain ⟨t, closed, leaves⟩ :=
        opened.close off left (resize old (min k (capacity w.base.free)))
      exact .inl ⟨by omega, t, (Run.bind_of_ok padded).trans closed, leaves⟩
    · rw [length] at beyond stopped
      have spare : capacity w.base.free - min k old.length =
          min (k - min k old.length) (capacity w.base.free - min k old.length) := by
        omega
      rw [spare, take_append_zeros old fits] at stopped
      exact .inr ⟨by omega, _, Run.bind_of_error stopped, opened.leaves_during off left _⟩
  · have bounded := copies.bounded
    have cut : resize old (min k (capacity w.base.free)) =
        old.take (capacity w.base.free) := by
      rw [min_eq_right (by omega), resize, Nat.sub_eq_zero_of_le (by omega),
        List.replicate_zero, List.append_nil]
    refine .inr ⟨by omega, _, Run.bind_of_error stopped, ?_⟩
    rw [cut]
    exact opened.leaves_during off left _

end Truncate
end Xv6
