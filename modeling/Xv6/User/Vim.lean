import Xv6.User.TruncateEffects

/-!
# vim

The function `overwrite` of vim.c: it reads the file to find its length, opens it a
second time, writes the message from the beginning and pads with zeros up to the old
length.
-/

namespace Xv6
namespace Vim

open Function
open Faulting
open Store
open Truncate (padLoop)

/-! ## The program -/

/-- How `overwrite` ends. -/
inductive Ending where
  | done
  | exits (text : String)
  | reading
  deriving DecidableEq

/-- The loop that reads, with the length so far; nothing if the rounds do not suffice. -/
def readLoop (fd0 : Fd) : (rounds len : Nat) → Run Crash Store (Option Nat)
  | 0, _ => pure none
  | rounds + 1, len => do
      let buf := (← Store.sysRead fd0 512).getD []
      if buf ≠ [] then readLoop fd0 rounds (len + buf.length)
      else pure (some len)

/-- Rounds that suffice for a regular file. -/
def rounds : Nat := MAXFILE + 1

/-- `overwrite` once both files are open. -/
def refill (fd0 fd1 : Fd) (message : List UInt8) (len : Nat) : Run Crash Store Ending := do
  let _ ← sysWrite fd1 message
  padLoop fd1 (if message.length < len then len - message.length else 0)
  let _ ← sysClose fd0
  let _ ← sysClose fd1
  pure .done

/-- `overwrite`, for a message without its terminating zero. -/
def overwrite (name : Path) (message : List UInt8) : Run Crash Store Ending := do
  match ← sysOpen name O_RDWR with
  | none => pure (.exits "cannot open file %s\n")
  | some fd0 => do
      match ← readLoop fd0 rounds 0 with
      | none => pure .reading
      | some len => do
          match ← sysOpen name (O_CREATE ||| O_RDWR) with
          | none => pure (.exits "cannot open file %s\n")
          | some fd1 => refill fd0 fd1 message len

/-! ## Reading -/

/-- The loop reads up to the end of the file. -/
theorem readLoop_eq {s : Store}
    {fd : Fd} {f : FileId} {file : OpenFile} {inum : Nat} {ip : Store.Inode} {old : List UInt8}
    (descriptor : s.ofile fd = some f)
    (target : file.inum = some inum)
    (readable : file.readable = true)
    (used : s.inodes inum = some ip)
    (regular : ip.node = .file old)
    (largest : old.length ≤ MAXFILE * BSIZE)
    (rounds place : Nat)
    (within : place ≤ old.length)
    (enough : old.length + 512 ≤ place + 512 * rounds) :
    readLoop fd rounds place (s.seek f file (UInt32.ofNat place)) =
      .ok (some old.length, s.seek f file (UInt32.ofNat old.length)) := by
  induction rounds generalizing place with
  | zero => omega
  | succ rounds ih =>
    have offset : (UInt32.ofNat place).toNat = place := by
      unfold MAXFILE NDIRECT NINDIRECT BSIZE at largest
      rw [UInt32.toNat_ofNat', Nat.mod_eq_of_lt (by omega)]
    have entry : (s.seek f file (UInt32.ofNat place)).ftable f =
        some { file with off := UInt32.ofNat place } := update_self _ _ _
    have read := sysRead_file (s := s.seek f file (UInt32.ofNat place)) descriptor entry target
      readable used regular (by rw [offset]; exact within) largest
    dsimp only at read
    rw [offset, ← UInt32.ofNat_add] at read
    have moved : ∀ off, seek f { file with off := UInt32.ofNat place } off
        (s.seek f file (UInt32.ofNat place)) = s.seek f file off := by
      intro off
      unfold seek
      dsimp only
      rw [update_idem]
    rw [moved] at read
    have length : ((old.drop place).take 512).length = min 512 (old.length - place) := by
      rw [List.length_take, List.length_drop]
    rw [readLoop, Run.bind_of_ok read]
    simp only [Option.getD_some]
    split
    · rename_i nonempty
      have positive := List.length_pos_of_ne_nil nonempty
      rw [length] at positive ⊢
      exact ih (place + min 512 (old.length - place)) (by omega) (by omega)
    rename_i empty
    have none := congrArg List.length (not_not.mp empty)
    rw [length] at none
    have ended : place = old.length := by
      rw [List.length_nil] at none
      omega
    rw [not_not.mp empty, ended]
    rfl

/-! ## Writing -/

/-- What `overwrite` makes of the contents. -/
def overwritten (old message : List UInt8) : List UInt8 :=
  message ++ List.replicate (old.length - message.length) 0

theorem length_overwritten (old message : List UInt8) :
    (overwritten old message).length = max old.length message.length := by
  rw [overwritten, List.length_append, List.length_replicate]
  omega

/-- Writing the same message again changes nothing. -/
theorem overwritten_overwritten (old message : List UInt8) :
    overwritten (overwritten old message) message = overwritten old message := by
  rw [overwritten, length_overwritten, overwritten]
  congr 2
  omega

/-- The loop that pads, within a file that is large enough. -/
theorem padLoop_within
    (w : Session)
    (off : UInt32)
    (input : List (Option (List UInt8)))
    (largest : w.origin.length ≤ MAXFILE * BSIZE)
    (fits : blocks w.origin.length ≤ w.base.free)
    (left : Nat)
    (written : List UInt8)
    (within : written.length + left ≤ w.origin.length) :
    padLoop w.fd1 left (w.during off input written) =
      .ok ((), w.during off input (written ++ List.replicate left 0)) := by
  induction left generalizing written with
  | zero =>
    rw [List.replicate_zero, List.append_nil]
    rfl
  | succ left ih =>
    have same : ∀ bytes : List UInt8, bytes.length ≤ w.origin.length →
        (w.contents bytes).length = w.origin.length := by
      intro bytes short
      rw [w.length_contents, max_eq_right short]
    have wrote := w.sysWrite_during off input written [0] (by decide)
      (by rw [same written (by omega)]; exact fits)
      (by rw [List.length_singleton]; omega)
    rw [same _ (by rw [List.length_append, List.length_singleton]; omega),
      if_neg (Nat.not_lt.mpr fits)] at wrote
    rw [padLoop, Run.bind_of_ok wrote, ih (written ++ [0])
      (by rw [List.length_append, List.length_singleton]; omega), List.append_assoc,
      List.replicate_succ]
    rfl

/-- A session of `overwrite`: both files are open on one inode. -/
structure Opened (w : Session) : Prop where
  /-- The first one is on the inode too. -/
  source : w.source.inum = some w.inum
  /-- No other descriptor shares the first open file. -/
  alone : w.source.ref = 1
  /-- Nor the second one. -/
  single : w.target.ref = 1
  /-- Both are references to the inode. -/
  references : 2 ≤ w.base.refs w.inum
  /-- The inode has a link or another reference. -/
  alive : w.nlink ≠ 0 ∨ 2 < w.base.refs w.inum

/-- The store after both files have been closed. -/
def closed (w : Session) (input : List (Option (List UInt8))) (contents : List UInt8) : Store :=
  { w.base with
    inodes := update w.base.inodes w.inum (some ⟨.file contents, w.nlink⟩)
    free := w.base.free - blocks contents.length
    refs := update w.base.refs w.inum (w.base.refs w.inum - 2)
    ftable := update (update w.base.ftable w.f0 none) w.f1 none
    ofile := update (update w.base.ofile w.fd0 none) w.fd1 none
    input := input }

/-- Closing both files. -/
theorem close_eq
    (opened : Opened w)
    (off : UInt32)
    (input : List (Option (List UInt8)))
    (written : List UInt8) :
    (do
      let _ ← sysClose w.fd0
      let _ ← sysClose w.fd1
      pure .done : Run Crash Store Ending) (w.during off input written) =
        .ok (.done, closed w input (w.contents written)) := by
  have apart : w.fd1 ≠ w.fd0 := by
    intro same
    have files := w.second
    rw [same, w.first] at files
    exact w.apart (Option.some.inj files)
  have references := opened.references
  have used : (w.during off input written).inodes w.inum =
      some ⟨.file (w.contents written), w.nlink⟩ := update_self _ _ _
  -- the first close leaves the reference of the second file
  have first := sysClose_alive (s := w.during off input written) w.first
    (w.during_source off input written) opened.alone opened.source used (.inr references)
  generalize middle : ({ w.during off input written with
      refs := update (w.during off input written).refs w.inum
        ((w.during off input written).refs w.inum - 1)
      ofile := update (w.during off input written).ofile w.fd0 none
      ftable := update (w.during off input written).ftable w.f0 none } : Store) = u at first
  have descriptor : u.ofile w.fd1 = some w.f1 := by
    rw [← middle]
    exact (update_of_ne apart _ _).trans w.second
  have entry : u.ftable w.f1 = some { w.target with off := UInt32.ofNat written.length } := by
    rw [← middle]
    exact (update_of_ne w.apart.symm _ _).trans (w.during_target off input written)
  have present : u.inodes w.inum = some ⟨.file (w.contents written), w.nlink⟩ := by
    rw [← middle]
    exact used
  have count : u.refs w.inum = w.base.refs w.inum - 1 := by
    rw [← middle]
    exact update_self _ _ _
  have second := sysClose_alive descriptor entry opened.single w.refers present
    (opened.alive.imp_right fun more => by omega)
  refine (Run.bind_of_ok first).trans ((Run.bind_of_ok second).trans ?_)
  refine congrArg (fun t => Except.ok (Ending.done, t)) ?_
  rw [count, ← middle]
  unfold closed Session.during
  dsimp only
  rw [update_idem, Nat.sub_sub, update_comm w.apart, update_idem,
    update_comm w.apart, update_idem, update_comm w.apart.symm]

/-- Both files are open: the message is written and the rest is padded, unless the disk is
full before. -/
theorem refill_eq
    (opened : Opened w)
    (largest : w.origin.length ≤ MAXFILE * BSIZE)
    (fits : blocks w.origin.length ≤ w.base.free)
    (short : message.length ≤ MAXFILE * BSIZE)
    (off : UInt32)
    (input : List (Option (List UInt8))) :
    (blocks (max w.origin.length message.length) ≤ w.base.free ∧
        refill w.fd0 w.fd1 message w.origin.length (w.during off input []) =
          .ok (.done, closed w input (overwritten w.origin message))) ∨
      (w.base.free < blocks (max w.origin.length message.length) ∧
        ∃ crash, refill w.fd0 w.fd1 message w.origin.length (w.during off input []) =
          .error crash) := by
  have length : (w.contents ([] ++ message)).length = max w.origin.length message.length := by
    rw [w.length_contents, List.nil_append, max_comm]
  have wrote := w.sysWrite_long off input [] message fits (by rw [List.length_nil]; omega)
  rw [length, List.nil_append] at wrote
  rcases wrote with ⟨enough, wrote⟩ | ⟨full, _, _, _, stopped⟩
  · refine .inl ⟨enough, ?_⟩
    have final : ∀ left, left = w.origin.length - message.length →
        w.contents (message ++ List.replicate left 0) = overwritten w.origin message := by
      rintro _ rfl
      rw [Session.contents, List.drop_eq_nil_of_le, List.append_nil]
      · rfl
      · rw [List.length_append, List.length_replicate]
        omega
    rw [refill, Run.bind_of_ok wrote]
    split
    · rename_i longer
      rw [Run.bind_of_ok (padLoop_within w off input largest fits _ message (by omega)),
        close_eq opened, final _ rfl]
    · rename_i shorter
      have nothing : padLoop w.fd1 0 (w.during off input message) =
          .ok ((), w.during off input message) := rfl
      rw [Run.bind_of_ok nothing, close_eq opened]
      have whole := final 0 (by omega)
      rw [List.replicate_zero, List.append_nil] at whole
      rw [whole]
  · exact .inr ⟨full, _, Run.bind_of_error stopped⟩

/-! ## Runs -/

/-- The store after `overwrite`. -/
def result (s : Store) (inum : Nat) (nlink : Int16) (old message : List UInt8) : Store :=
  { s with
    inodes := update s.inodes inum (some ⟨.file (overwritten old message), nlink⟩)
    free := s.free + blocks old.length - blocks (overwritten old message).length }

/-- When `overwrite` succeeds on a regular file. -/
structure Ready (s : Store) (name : Path) (old message : List UInt8) : Prop where
  spare : Spare s
  elements : pathElements name ≠ []
  /-- The blocks suffice. -/
  fits : blocks (max old.length message.length) ≤ s.free + blocks old.length

/-- The first part of `overwrite`: the file is open, and its length is known. -/
theorem overwrite_reads
    (found : s.namei name = .ok (some inum))
    (used : s.inodes inum = some ⟨.file old, nlink⟩)
    (largest : old.length ≤ MAXFILE * BSIZE)
    (file : s.filealloc = some f0)
    (descriptor : s.fdalloc = some fd0)
    (message : List UInt8) :
    overwrite name message s = (do match ← sysOpen name (O_CREATE ||| O_RDWR) with
        | none => pure (.exits "cannot open file %s\n")
        | some fd1 => refill fd0 fd1 message old.length : Run Crash Store Ending)
        ((s.install inum O_RDWR f0 fd0).seek f0 (.new inum O_RDWR) (UInt32.ofNat old.length)) := by
  have first : sysOpen name O_RDWR s = .ok (some fd0, s.install inum O_RDWR f0 fd0) :=
    (sysOpen_existing rfl found used nofun).trans (openInode_some file descriptor inum O_RDWR)
  have begins : (s.install inum O_RDWR f0 fd0).seek f0 (.new inum O_RDWR) (UInt32.ofNat 0) =
      s.install inum O_RDWR f0 fd0 := by
    unfold seek install
    dsimp only
    rw [update_idem]
    rfl
  have read := @readLoop_eq (s.install inum O_RDWR f0 fd0) fd0 f0 (.new inum O_RDWR) inum
    ⟨.file old, nlink⟩ old (update_self _ _ _) rfl rfl used rfl largest rounds 0
    (Nat.zero_le _)
    (by unfold rounds MAXFILE NDIRECT NINDIRECT BSIZE at *; omega)
  rw [begins] at read
  rw [overwrite, Run.bind_of_ok first]
  dsimp only
  rw [Run.bind_of_ok read]

/-- A table after two entries have been made in free places and cleared again. -/
theorem update_update_none {ι α : Type}
    [DecidableEq ι] {table later : ι → Option α} {one other : ι}
    (free : table one = none)
    (otherFree : table other = none)
    (same : ∀ place, place ≠ one → place ≠ other → later place = table place) :
    update (update later one none) other none = table := by
  funext place
  by_cases isOther : place = other
  · rw [isOther, update_self, otherFree]
  · rw [update_of_ne isOther]
    by_cases isOne : place = one
    · rw [isOne, update_self, free]
    · rw [update_of_ne isOne, same place isOne isOther]

/-- The second part of `overwrite`: the file is open twice. -/
theorem refill_opened
    (used : s.inodes inum = some ⟨.file old, nlink⟩)
    (largest : old.length ≤ MAXFILE * BSIZE)
    (alive : nlink ≠ 0 ∨ 0 < s.refs inum)
    (short : message.length ≤ MAXFILE * BSIZE)
    (file : s.filealloc = some f0)
    (descriptor : s.fdalloc = some fd0)
    (reads : t = (s.install inum O_RDWR f0 fd0).seek f0 (.new inum O_RDWR)
      (UInt32.ofNat old.length))
    (file1 : t.filealloc = some f1)
    (descriptor1 : t.fdalloc = some fd1) :
    (blocks (max old.length message.length) ≤ s.free + blocks old.length ∧
        refill fd0 fd1 message old.length (t.install inum (O_CREATE ||| O_RDWR) f1 fd1) =
          .ok (.done, result s inum nlink old message)) ∨
      (s.free + blocks old.length < blocks (max old.length message.length) ∧
        ∃ crash, refill fd0 fd1 message old.length
          (t.install inum (O_CREATE ||| O_RDWR) f1 fd1) = .error crash) := by
  have entry : t.ftable f0 = some { OpenFile.new inum O_RDWR with off := UInt32.ofNat old.length } := by
    rw [reads]
    exact update_self _ _ _
  have ofile : t.ofile fd0 = some f0 := by
    rw [reads]
    exact update_self _ _ _
  have apart : f0 ≠ f1 := by
    rintro rfl
    rw [ftable_of_filealloc file1] at entry
    nomatch entry
  have fdApart : fd0 ≠ fd1 := by
    rintro rfl
    rw [ofile_of_fdalloc descriptor1] at ofile
    nomatch ofile
  let w : Session :=
    { base := { t.install inum (O_CREATE ||| O_RDWR) f1 fd1 with free := s.free + blocks old.length }
      fd0 := fd0
      fd1 := fd1
      f0 := f0
      f1 := f1
      source := { OpenFile.new inum O_RDWR with off := UInt32.ofNat old.length }
      target := .new inum (O_CREATE ||| O_RDWR)
      inum := inum
      nlink := nlink
      origin := old
      apart := apart
      first := (update_of_ne fdApart _ _).trans ofile
      second := update_self _ _ _
      refers := rfl
      writable := rfl }
  have references : w.base.refs inum = s.refs inum + 2 := by
    show update t.refs inum (t.refs inum + 1) inum = _
    rw [update_self, reads]
    exact congrArg (· + 1) (update_self _ _ _)
  have opened : Opened w :=
    ⟨rfl, rfl, rfl, by rw [references]; omega, alive.imp_right fun more => by rw [references]; omega⟩
  have free : s.free + blocks old.length - blocks old.length = t.free := by
    rw [Nat.add_sub_cancel, reads]
    rfl
  have present : w.base.inodes inum = some ⟨.file old, nlink⟩ := by
    show t.inodes inum = _
    rw [reads]
    exact used
  have starts : w.during w.source.off w.base.input [] =
      t.install inum (O_CREATE ||| O_RDWR) f1 fd1 := by
    rw [w.during_nil present ((update_of_ne apart _ _).trans entry) (update_self _ _ _) rfl]
    show ({ t.install inum (O_CREATE ||| O_RDWR) f1 fd1 with
      free := s.free + blocks old.length - blocks old.length } : Store) = _
    rw [free]
    rfl
  have files : ∀ place, place ≠ f0 → t.ftable place = s.ftable place := by
    intro place other
    rw [reads]
    exact (update_of_ne other _ _).trans (update_of_ne other _ _)
  have fds : ∀ place, place ≠ fd0 → t.ofile place = s.ofile place := by
    intro place other
    rw [reads]
    exact update_of_ne other _ _
  have ends : closed w w.base.input (overwritten old message) = result s inum nlink old message := by
    refine Store.ext ?_ ?_ ?_ ?_ ?_ ?_ ?_ ?_
    · show t.ninodes = s.ninodes
      rw [reads]
      rfl
    · show update t.inodes inum _ = _
      rw [reads]
      rfl
    · rfl
    · show update w.base.refs inum (w.base.refs inum - 2) = s.refs
      rw [references, Nat.add_sub_cancel]
      show update (update t.refs inum _) inum (s.refs inum) = s.refs
      rw [update_idem, reads]
      show update (update s.refs inum _) inum (s.refs inum) = s.refs
      rw [update_idem, update_eq_self]
    · refine update_update_none (ftable_of_filealloc file) ?_ ?_
      · exact (files f1 apart.symm).symm.trans (ftable_of_filealloc file1)
      · intro place notFirst notSecond
        exact (update_of_ne notSecond _ _).trans (files place notFirst)
    · refine update_update_none (ofile_of_fdalloc descriptor) ?_ ?_
      · exact (fds fd1 fdApart.symm).symm.trans (ofile_of_fdalloc descriptor1)
      · intro place notFirst notSecond
        exact (update_of_ne notSecond _ _).trans (fds place notFirst)
    · show t.cwd = s.cwd
      rw [reads]
      rfl
    · show t.input = s.input
      rw [reads]
      rfl
  have refilled := refill_eq opened largest (Nat.le_add_left _ _) short w.source.off w.base.input
  rw [starts, show w.origin = old from rfl, ends] at refilled
  exact refilled

/-- `overwrite` on a regular file succeeds exactly if it is ready to. -/
theorem overwrite_cases
    (sound : s.Sound)
    (found : s.namei name = .ok (some inum))
    (used : s.inodes inum = some ⟨.file old, nlink⟩)
    (short : message.length ≤ MAXFILE * BSIZE) :
    (Ready s name old message ∧
        overwrite name message s = .ok (.done, result s inum nlink old message)) ∨
      (¬Ready s name old message ∧ ∀ t, overwrite name message s ≠ .ok (.done, t)) := by
  have largest : old.length ≤ MAXFILE * BSIZE := sound.bounded used
  have existing : sysOpen name O_RDWR s = openInode inum O_RDWR s :=
    sysOpen_existing rfl found used nofun
  have unopened : s.filealloc = none ∨ s.fdalloc = none →
      ∀ t, overwrite name message s ≠ .ok (.done, t) := by
    intro full t done
    have refused := existing.trans (openInode_none full inum O_RDWR)
    rw [overwrite, Run.bind_of_ok refused] at done
    cases done
  cases file : s.filealloc with
  | none =>
    exact .inr ⟨fun ready => ready.spare.filealloc file, unopened (.inl file)⟩
  | some f0 =>
    cases descriptor : s.fdalloc with
    | none =>
      exact .inr ⟨fun ready => ready.spare.fdalloc descriptor, unopened (.inr descriptor)⟩
    | some fd0 =>
      have run := overwrite_reads found used largest file descriptor message
      generalize reads : (s.install inum O_RDWR f0 fd0).seek f0 (.new inum O_RDWR)
        (UInt32.ofNat old.length) = t at run
      have inodes : t.inodes = s.inodes := by rw [← reads]; rfl
      have cwd : t.cwd = s.cwd := by rw [← reads]; rfl
      have refused : ∀ u, sysOpen name (O_CREATE ||| O_RDWR) t = .ok (none, u) →
          ∀ v, overwrite name message s ≠ .ok (.done, v) := by
        intro u none v done
        rw [run, Run.bind_of_ok none] at done
        cases done
      by_cases elements : pathElements name = []
      · have nowhere : look (·.nameiparent name) t = .ok (none, t) :=
          look_ok (by rw [nameiparent, elements]; rfl)
        have uncreated : create name t = .ok (none, t) := Run.bind_of_ok nowhere
        exact .inr ⟨fun ready => ready.elements elements, refused t (Run.bind_of_ok uncreated)⟩
      obtain ⟨dp, last, entries, reached, here, looked⟩ := (namei_eq_iff elements).mp found
      have created : create name t = .ok (some inum, t) :=
        create_existing ((nameiparent_congr inodes cwd name).trans reached)
          ((dirAt_congr (congrFun inodes dp)).trans here) looked
          ((congrFun inodes inum).trans used) rfl
      have opened : sysOpen name (O_CREATE ||| O_RDWR) t =
          openInode inum (O_CREATE ||| O_RDWR) t := Run.bind_of_ok created
      have spareIff := spare_iff (t := t) file descriptor
        (by rw [← reads]; exact update_idem _ _ _) (by rw [← reads]; rfl)
      by_cases spare : Spare s
      · obtain ⟨moreFiles, moreFds⟩ := spareIff.mp spare
        obtain ⟨f1, file1⟩ := Option.ne_none_iff_exists'.mp moreFiles
        obtain ⟨fd1, descriptor1⟩ := Option.ne_none_iff_exists'.mp moreFds
        have filling : overwrite name message s = refill fd0 fd1 message old.length
            (t.install inum (O_CREATE ||| O_RDWR) f1 fd1) := by
          rw [run, Run.bind_of_ok (opened.trans (openInode_some file1 descriptor1 _ _))]
        rcases refill_opened used largest (sound.alive here looked used) short file descriptor reads.symm file1
          descriptor1 with ⟨fits, refilled⟩ | ⟨full, crash, stopped⟩
        · exact .inl ⟨⟨spare, elements, fits⟩, filling.trans refilled⟩
        · refine .inr ⟨fun ready => ?_, fun u done => ?_⟩
          · have fits := ready.fits
            omega
          · rw [filling, stopped] at done
            cases done
      · have busy : t.filealloc = none ∨ t.fdalloc = none := by
          by_contra free
          rw [not_or] at free
          exact spare (spareIff.mpr free)
        exact .inr ⟨fun ready => spare ready.spare,
          refused t (opened.trans (openInode_none busy _ _))⟩

/-! ## The file afterwards -/

section Result

variable {s : Store} {inum : Nat} {nlink : Int16} {old : List UInt8}

/-- An inode afterwards. -/
theorem inodes_result (present : (result s inum nlink old message).inodes place = some ip) :
    place = inum ∧ ip = ⟨.file (overwritten old message), nlink⟩ ∨ s.inodes place = some ip := by
  by_cases same : place = inum
  · rw [same] at present
    exact .inl ⟨same, Option.some.inj (present.symm.trans (update_self _ _ _))⟩
  · exact .inr ((update_of_ne same _ _).symm.trans present)

theorem dirAt_result
    (used : s.inodes inum = some ⟨.file old, nlink⟩)
    (message : List UInt8)
    (place : Nat) :
    (result s inum nlink old message).dirAt place = s.dirAt place := by
  by_cases same : place = inum
  · have written : (result s inum nlink old message).inodes inum =
        some ⟨.file (overwritten old message), nlink⟩ := update_self _ _ _
    rw [same, dirAt, dirAt, written, used]
  · exact dirAt_congr (update_of_ne same _ _)

/-- All directories are as they were, so the name still leads to the file. -/
theorem namei_result {name : Path}
    (used : s.inodes inum = some ⟨.file old, nlink⟩)
    (elements : pathElements name ≠ [])
    (found : s.namei name = .ok (some inum))
    (message : List UInt8) :
    (result s inum nlink old message).namei name = .ok (some inum) := by
  obtain ⟨dp, last, entries, reached, here, looked⟩ := (namei_eq_iff elements).mp found
  have offers : Offers s (result s inum nlink old message) := fun place entries here =>
    ⟨entries, (dirAt_result used message place).trans here, fun _ _ looked _ => looked⟩
  exact (namei_eq_iff elements).mpr ⟨dp, last, entries, offers.nameiparent rfl reached,
    (dirAt_result used message dp).trans here, looked⟩

theorem result_sound
    (sound : s.Sound)
    (used : s.inodes inum = some ⟨.file old, nlink⟩)
    (short : message.length ≤ MAXFILE * BSIZE) :
    (result s inum nlink old message).Sound where
  distinct := by
    intro place entries here
    rw [dirAt_result used] at here
    exact sound.distinct here
  proper := by
    intro place entries name here looked
    rw [dirAt_result used] at here
    exact sound.proper here looked
  bounded := by
    intro place ip present
    rcases inodes_result present with ⟨_, rfl⟩ | before
    · have largest : old.length ≤ MAXFILE * BSIZE := sound.bounded used
      show (overwritten old message).length ≤ _
      rw [length_overwritten]
      exact max_le largest short
    · exact sound.bounded before
  alive := by
    intro place entries name next ip here looked present
    rw [dirAt_result used] at here
    rcases inodes_result present with ⟨rfl, rfl⟩ | before
    · have linked := sound.alive here looked used
      exact linked
    · exact sound.alive here looked before

/-- Overwriting the overwritten file with the same message. -/
theorem result_result
    (s : Store)
    (inum : Nat)
    (nlink : Int16)
    (fits : blocks (max old.length message.length) ≤ s.free + blocks old.length) :
    result (result s inum nlink old message) inum nlink (overwritten old message) message =
      result s inum nlink old message := by
  rw [← length_overwritten] at fits
  unfold result
  rw [overwritten_overwritten, update_idem]
  congr 1
  show s.free + blocks old.length - _ + _ - _ = _
  omega

theorem Ready.again (ready : Ready s name old message) :
    Ready (result s inum nlink old message) name (overwritten old message) message where
  spare := ready.spare
  elements := ready.elements
  fits := by
    rw [length_overwritten, max_assoc, max_self]
    exact Nat.le_add_left _ _

end Result

end Vim
end Xv6
