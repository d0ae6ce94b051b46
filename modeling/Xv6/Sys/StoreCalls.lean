import Xv6.Sys.StorePaths

/-!
# What the calls of a store do

One description for each call: `open`, `unlink`, `close`, and `read` and `write` of a
process that reads from one open file and writes to another one.
-/

namespace Xv6
namespace Store

open Function
open Faulting
open Call (maxWrite)

/-! ## Blocks -/

/-- The size of the largest file that a number of free blocks suffices for. -/
def capacity (free : Nat) : Nat :=
  BSIZE * min MAXFILE (if free ≤ NDIRECT then free else free - 1)

theorem blocks_le_iff {size free : Nat}
    (largest : size ≤ MAXFILE * BSIZE) :
    blocks size ≤ free ↔ size ≤ capacity free := by
  unfold blocks capacity MAXFILE NDIRECT NINDIRECT BSIZE at *
  split <;> split <;> omega

theorem capacity_le (free : Nat) : capacity free ≤ MAXFILE * BSIZE := by
  rw [capacity, Nat.mul_comm]
  exact Nat.mul_le_mul_right _ (min_le_left _ _)

theorem blocks_mono (le : size ≤ larger) :
    blocks size ≤ blocks larger := by
  unfold blocks NDIRECT BSIZE
  split <;> split <;> omega

/-! ## Stores in order -/

/-- What the kernel keeps of the directories and inodes. -/
structure Sound (s : Store) : Prop where
  /-- The names of a directory are distinct. -/
  distinct : ∀ {inum entries}, s.dirAt inum = some entries → Distinct entries
  /-- No name leads from a directory to itself. -/
  proper : ∀ {inum entries name}, s.dirAt inum = some entries →
    dirlookup entries name = some inum → namecmp name dot = 0 ∨ namecmp name dotdot = 0
  /-- No file is larger than the largest one. -/
  bounded : ∀ {inum ip}, s.inodes inum = some ip → ip.node.size ≤ MAXFILE * BSIZE
  /-- What a name leads to has a link or is in use. -/
  alive : ∀ {inum entries name next ip}, s.dirAt inum = some entries →
    dirlookup entries name = some next → s.inodes next = some ip → ip.nlink ≠ 0 ∨ 0 < s.refs next

/-! ## Opening -/

variable {s : Store} {f : FileId} {fd : Fd} {path : Path} {inum : Nat} {ip : Inode}
  {file : OpenFile}

theorem look_ok {value : α}
    (ok : part s = .ok value) :
    look part s = .ok (value, s) := by
  rw [look, ok]

theorem look_error {part : Store → Except String α}
    (error : part s = .error text) :
    look part s = .error ⟨text, s⟩ := by
  rw [look, error]

theorem ftable_of_filealloc (allocated : s.filealloc = some f) :
    s.ftable f = none := by
  have free := List.find?_some allocated
  exact Option.isNone_iff_eq_none.mp free

theorem ofile_of_fdalloc (allocated : s.fdalloc = some fd) :
    s.ofile fd = none := by
  have free := List.find?_some allocated
  exact Option.isNone_iff_eq_none.mp free

theorem filealloc_eq_none_iff :
    s.filealloc = none ↔ ∀ f, s.ftable f ≠ none := by
  simp [filealloc]

theorem fdalloc_eq_none_iff :
    s.fdalloc = none ↔ ∀ fd, s.ofile fd ≠ none := by
  simp [fdalloc]

theorem openInode_some
    (file : s.filealloc = some f)
    (descriptor : s.fdalloc = some fd)
    (inum : Nat)
    (omode : UInt32) :
    openInode inum omode s = .ok (some fd, s.install inum omode f fd) := by
  rw [openInode, file, descriptor]

theorem openInode_none
    (full : s.filealloc = none ∨ s.fdalloc = none)
    (inum : Nat)
    (omode : UInt32) :
    openInode inum omode s = .ok (none, s) := by
  unfold openInode
  rcases full with full | full
  · rw [full]
  · rw [full]
    cases s.filealloc <;> rfl

/-- There are two free descriptors and two free entries of the open-file table. -/
def Spare (s : Store) : Prop :=
  (∃ f other : FileId, f ≠ other ∧ s.ftable f = none ∧ s.ftable other = none) ∧
    ∃ fd other : Fd, fd ≠ other ∧ s.ofile fd = none ∧ s.ofile other = none

theorem Spare.filealloc (spare : Spare s) :
    s.filealloc ≠ none := by
  obtain ⟨⟨f, _, _, free, _⟩, _⟩ := spare
  exact fun none => filealloc_eq_none_iff.mp none f free

theorem Spare.fdalloc (spare : Spare s) :
    s.fdalloc ≠ none := by
  obtain ⟨_, fd, _, _, free, _⟩ := spare
  exact fun none => fdalloc_eq_none_iff.mp none fd free

/-- A table has two free places exactly if one is left when the first is taken. -/
theorem two_free_iff {ι α : Type}
    [DecidableEq ι] {table : ι → Option α} {first : ι}
    (free : table first = none)
    (value : α) :
    (∃ one other, one ≠ other ∧ table one = none ∧ table other = none) ↔
      ∃ other, update table first (some value) other = none := by
  constructor
  · rintro ⟨one, other, different, oneFree, otherFree⟩
    by_cases same : one = first
    · exact ⟨other, (update_of_ne (same ▸ Ne.symm different) _ _).trans otherFree⟩
    · exact ⟨one, (update_of_ne same _ _).trans oneFree⟩
  · rintro ⟨other, left⟩
    have different : other ≠ first := by
      rintro rfl
      exact absurd ((update_self _ _ _).symm.trans left) nofun
    exact ⟨first, other, different.symm, free, (update_of_ne different _ _).symm.trans left⟩

/-- After the first `open`, a second one finds a descriptor exactly if there were two. -/
theorem spare_iff {s t : Store} {fd0 : Fd}
    (file : s.filealloc = some f0)
    (descriptor : s.fdalloc = some fd0)
    (ftable : t.ftable = update s.ftable f0 (some entry))
    (ofile : t.ofile = update s.ofile fd0 (some f)) :
    Spare s ↔ t.filealloc ≠ none ∧ t.fdalloc ≠ none := by
  rw [Ne, filealloc_eq_none_iff, Ne, fdalloc_eq_none_iff, ftable, ofile]
  simp only [ne_eq, not_forall, not_not]
  exact and_congr (two_free_iff (ftable_of_filealloc file) _)
    (two_free_iff (ofile_of_fdalloc descriptor) _)

/-- Opening an inode that exists. -/
theorem sysOpen_existing
    (plain : omode &&& O_CREATE = 0)
    (found : s.namei path = .ok (some inum))
    (used : s.inodes inum = some ip)
    (allowed : ip.node.type = T_DIR → omode = O_RDONLY) :
    sysOpen path omode s = openInode inum omode s := by
  have looked : look (·.namei path) s = .ok (some inum, s) := look_ok found
  have locked : look (·.ilock inum) s = .ok (ip, s) := look_ok (by rw [ilock, used])
  rw [sysOpen, if_neg (not_not.mpr plain), Run.bind_of_ok looked]
  dsimp only
  rw [Run.bind_of_ok locked, if_neg]
  rintro ⟨directory, other⟩
  exact other (allowed directory)

/-- `create` finds a regular file that exists. -/
theorem create_existing
    (reached : s.nameiparent path = .ok (some (dp, name)))
    (here : s.dirAt dp = some entries)
    (found : dirlookup entries name = some inum)
    (used : s.inodes inum = some ip)
    (regular : ip.node.type = T_FILE) :
    create path s = .ok (some inum, s) := by
  obtain ⟨parent, held, directory⟩ := dirAt_eq_some_iff.mp here
  have looked : look (·.nameiparent path) s = .ok (some (dp, name), s) := look_ok reached
  have locked : look (·.ilock dp) s = .ok (parent, s) := look_ok (by rw [ilock, held])
  have lockedFile : look (·.ilock inum) s = .ok (ip, s) := look_ok (by rw [ilock, used])
  rw [create, Run.bind_of_ok looked]
  dsimp only
  rw [Run.bind_of_ok locked, directory]
  dsimp only
  rw [found]
  dsimp only
  rw [Run.bind_of_ok lockedFile, if_pos regular]
  rfl

/-- An `open` without `O_CREATE` that fails changes nothing. -/
theorem sysOpen_rdonly_cases
    (s : Store)
    (path : Path) :
    (∃ inum ip f fd, s.namei path = .ok (some inum) ∧ s.inodes inum = some ip ∧
        s.filealloc = some f ∧ s.fdalloc = some fd ∧
        sysOpen path O_RDONLY s = .ok (some fd, s.install inum O_RDONLY f fd)) ∨
      sysOpen path O_RDONLY s = .ok (none, s) ∨
      ∃ text, sysOpen path O_RDONLY s = .error ⟨text, s⟩ := by
  cases found : s.namei path with
  | error text =>
    have looked : look (·.namei path) s = .error ⟨text, s⟩ := look_error found
    exact .inr (.inr ⟨text, Run.bind_of_error looked⟩)
  | ok result =>
    have looked : look (·.namei path) s = .ok (result, s) := look_ok found
    cases result with
    | none => exact .inr (.inl (Run.bind_of_ok looked))
    | some inum =>
      cases used : s.inodes inum with
      | none =>
        have locked : look (·.ilock inum) s = .error ⟨"ilock: no type", s⟩ :=
          look_error (by rw [ilock, used])
        exact .inr (.inr ⟨_, (Run.bind_of_ok looked).trans (Run.bind_of_error locked)⟩)
      | some ip =>
        have opened : sysOpen path O_RDONLY s = openInode inum O_RDONLY s :=
          sysOpen_existing rfl found used fun _ => rfl
        cases file : s.filealloc with
        | none =>
          exact .inr (.inl (opened.trans (openInode_none (.inl file) inum O_RDONLY)))
        | some f =>
          cases descriptor : s.fdalloc with
          | none =>
            exact .inr (.inl (opened.trans (openInode_none (.inr descriptor) inum O_RDONLY)))
          | some fd =>
            exact .inl ⟨inum, ip, f, fd, rfl, used, rfl, rfl,
              opened.trans (openInode_some file descriptor inum O_RDONLY)⟩

/-! ## Removing a name -/

/-- What can be removed under a path. -/
structure Removes (s : Store) (path : Path) (r : Removal) : Prop where
  /-- The path leads to the directory. -/
  reached : s.nameiparent path = .ok (some (r.dp, r.name))
  /-- Its inode. -/
  parent : s.inodes r.dp = some r.parent
  /-- Its entries. -/
  directory : r.parent.node = .dir r.entries
  /-- The name is neither `.` nor `..`. -/
  plain : ¬(namecmp r.name dot = 0 ∨ namecmp r.name dotdot = 0)
  /-- The name leads to the inode. -/
  found : dirlookup r.entries r.name = some r.inum
  /-- The inode is in use. -/
  used : s.inodes r.inum = some r.ip

theorem removes_of_removal (removed : s.removal path = .ok (some r)) :
    Removes s path r := by
  unfold removal at removed
  cases reached : s.nameiparent path with
  | error text =>
    rw [reached] at removed
    cases removed
  | ok result =>
    rw [reached] at removed
    cases result with
    | none => cases removed
    | some place =>
      obtain ⟨dp, name⟩ := place
      cases parent : s.inodes dp with
      | none => simp [bind, Except.bind, ilock, parent] at removed
      | some dir =>
        simp only [bind, Except.bind, ilock, parent] at removed
        split at removed
        · cases removed
        rename_i plain
        split at removed
        · rename_i entries directory
          split at removed
          · cases removed
          rename_i inum found
          cases used : s.inodes inum with
          | none => simp [used] at removed
          | some ip =>
            simp only [used] at removed
            have same : (⟨dp, dir, entries, name, inum, ip⟩ : Removal) = r := by
              split at removed
              · cases removed
              · split at removed
                · split at removed
                  · exact Option.some.inj (Except.ok.inj removed)
                  · cases removed
                · exact Option.some.inj (Except.ok.inj removed)
            subst same
            exact ⟨reached, parent, directory, plain, found, used⟩
        · cases removed

theorem removal_congr {s t : Store}
    (same : t.inodes = s.inodes)
    (cwd : t.cwd = s.cwd)
    (path : Path) :
    t.removal path = s.removal path := by
  simp only [removal, nameiparent, start, ilock, cwd, same, namexLoop_congr same]

/-- What `unlink` does. -/
theorem sysUnlink_eq
    (s : Store)
    (path : Path) :
    sysUnlink path s = match s.removal path with
      | .error text => .error ⟨text, s⟩
      | .ok none => .ok (-1, s)
      | .ok (some r) => .ok (0, s.remove r) := by
  unfold sysUnlink
  cases removed : s.removal path with
  | error text => exact Run.bind_of_error (look_error removed)
  | ok result =>
    rw [Run.bind_of_ok (look_ok removed)]
    cases result <;> rfl

namespace Removes

variable {s : Store} {path : Path} {r : Removal}

theorem dirAt_parent (removes : Removes s path r) : s.dirAt r.dp = some r.entries :=
  dirAt_eq_some_iff.mpr ⟨r.parent, removes.parent, removes.directory⟩

theorem namei (removes : Removes s path r) : s.namei path = .ok (some r.inum) :=
  (namei_eq_iff (pathElements_ne_nil_of_nameiparent removes.reached)).mpr
    ⟨r.dp, r.name, r.entries, removes.reached, removes.dirAt_parent, removes.found⟩

theorem named (removes : Removes s path r) : s.named path = some r.ip.node :=
  named_eq_some_iff.mpr ⟨r.inum, r.ip, removes.namei, removes.used, rfl⟩

theorem dp_ne_inum
    (removes : Removes s path r)
    (sound : s.Sound) :
    r.dp ≠ r.inum := by
  intro same
  refine removes.plain (sound.proper removes.dirAt_parent ?_)
  rw [removes.found, same]

end Removes

/-! ## Freeing inodes -/

@[simp] theorem reap_ofile (inum : Nat) (s : Store) : (reap inum s).ofile = s.ofile := by
  unfold reap
  split
  · split <;> rfl
  · rfl

@[simp] theorem reap_ftable (inum : Nat) (s : Store) : (reap inum s).ftable = s.ftable := by
  unfold reap
  split
  · split <;> rfl
  · rfl

@[simp] theorem reap_cwd (inum : Nat) (s : Store) : (reap inum s).cwd = s.cwd := by
  unfold reap
  split
  · split <;> rfl
  · rfl

@[simp] theorem iput_ofile (inum : Nat) (s : Store) : (iput inum s).ofile = s.ofile :=
  reap_ofile inum _

@[simp] theorem iput_ftable (inum : Nat) (s : Store) : (iput inum s).ftable = s.ftable :=
  reap_ftable inum _

@[simp] theorem iput_cwd (inum : Nat) (s : Store) : (iput inum s).cwd = s.cwd :=
  reap_cwd inum _

/-- At most the inode itself is freed. -/
theorem iput_inodes (inum : Nat) (s : Store) :
    (iput inum s).inodes = s.inodes ∨ (iput inum s).inodes = update s.inodes inum none := by
  unfold iput reap
  split
  · split
    · exact .inr rfl
    · exact .inl rfl
  · exact .inl rfl

/-- An inode with a link or a reference is not freed. -/
theorem reap_eq_self
    (used : s.inodes inum = some ip)
    (alive : ip.nlink ≠ 0 ∨ 0 < s.refs inum) :
    reap inum s = s := by
  unfold reap
  rw [used]
  dsimp only
  rw [if_neg]
  rintro ⟨unreferenced, unlinked⟩
  rcases alive with linked | referenced
  · exact linked unlinked
  · omega

/-- Giving back an inode that has a link or another reference frees nothing. -/
theorem iput_eq
    (used : s.inodes inum = some ip)
    (alive : ip.nlink ≠ 0 ∨ 1 < s.refs inum) :
    iput inum s = { s with refs := update s.refs inum (s.refs inum - 1) } := by
  refine reap_eq_self used (alive.imp_right fun more => ?_)
  dsimp only
  rw [update_self]
  omega

/-! ## Closing -/

section

variable (descriptor : s.ofile fd = some f) (entry : s.ftable f = some file)

include descriptor entry

/-- Closing the only descriptor of an open file. -/
theorem sysClose_eq
    (last : file.ref = 1)
    (target : file.inum = some inum) :
    sysClose fd s = .ok (0, iput inum { s with
        ofile := update s.ofile fd none
        ftable := update s.ftable f none }) := by
  have closed : fileclose f { s with ofile := update s.ofile fd none } = .ok ((), iput inum
      { s with
        ofile := update s.ofile fd none
        ftable := update s.ftable f none }) := by
    simp only [fileclose, entry, last, target, Nat.lt_irrefl, if_false]
  rw [sysClose, descriptor]
  exact (Run.bind_of_ok (Run.modify_apply _ s)).trans (Run.bind_of_ok closed)

/-- Closing it when the inode has a link or another reference. -/
theorem sysClose_alive
    (last : file.ref = 1)
    (target : file.inum = some inum)
    (used : s.inodes inum = some ip)
    (alive : ip.nlink ≠ 0 ∨ 1 < s.refs inum) :
    sysClose fd s = .ok (0, { s with
        refs := update s.refs inum (s.refs inum - 1)
        ofile := update s.ofile fd none
        ftable := update s.ftable f none }) := by
  refine (sysClose_eq descriptor entry last target).trans ?_
  exact congrArg (fun t => Except.ok (0, t)) (iput_eq used alive)

/-! ## Reading -/

/-- Reading from a regular file. -/
theorem sysRead_file
    (target : file.inum = some inum)
    (readable : file.readable = true)
    (used : s.inodes inum = some ip)
    (regular : ip.node = .file contents)
    (within : file.off.toNat ≤ contents.length)
    (largest : contents.length ≤ MAXFILE * BSIZE) :
    sysRead fd 512 s = .ok (some ((contents.drop file.off.toNat).take 512), s.seek f file
          (file.off + UInt32.ofNat ((contents.drop file.off.toNat).take 512).length)) := by
  have behind : s.behind f = some (file, inum, ip) := by
    simp [Store.behind, entry, target, used]
  have read : readBytes contents file.off 512 = some ((contents.drop file.off.toNat).take 512) := by
    unfold readBytes
    rw [if_neg]
    · rfl
    · rw [not_or, UInt32.lt_iff_toNat_lt, UInt32.toNat_add]
      simp only [UInt32.reduceToNat]
      unfold MAXFILE NDIRECT NINDIRECT BSIZE at largest
      omega
  simp only [sysRead, descriptor, fileread, behind, readable, Bool.true_eq_false, if_false,
    regular, read]

/-- A read moves the offset and takes what a device has. -/
theorem sysRead_any (n : UInt32) :
    ∃ result off input, sysRead fd n s =
      .ok (result, seek f file off { s with input := input }) := by
  have still : ∀ input, seek f file file.off { s with input := input } =
      { s with input := input } := by
    intro input
    unfold seek
    dsimp only
    rw [show some { file with off := file.off } = s.ftable f from entry.symm, update_eq_self]
  have unchanged : ∃ result off input,
      (.ok (none, s) : Except Crash (Option (List UInt8) × Store)) =
      .ok (result, seek f file off { s with input := input }) :=
    ⟨none, file.off, s.input, by rw [still]⟩
  simp only [sysRead, descriptor, fileread]
  cases target : file.inum with
  | none =>
    have behind : s.behind f = none := by simp [Store.behind, entry, target]
    rw [behind]
    exact unchanged
  | some inum =>
    cases used : s.inodes inum with
    | none =>
      have behind : s.behind f = none := by simp [Store.behind, entry, target, used]
      rw [behind]
      exact unchanged
    | some ip =>
      have behind : s.behind f = some (file, inum, ip) := by
        simp [Store.behind, entry, target, used]
      rw [behind]
      dsimp only
      split
      · exact unchanged
      split
      · split
        · exact ⟨some [], file.off, s.input, by rw [still]⟩
        · rename_i rest _
          exact ⟨none, file.off, rest, by rw [still]⟩
        · exact ⟨_, _, _, rfl⟩
      · split
        · exact ⟨_, _, s.input, rfl⟩
        · exact unchanged
      · split
        · exact ⟨_, _, s.input, rfl⟩
        · exact unchanged

end

/-! ## Writing -/

/-- How many bytes a write behind an offset takes: all of them, or the whole transactions
that the largest file has room for. -/
def reach (off n : Nat) : Nat :=
  if off + n ≤ MAXFILE * BSIZE then n else maxWrite * ((MAXFILE * BSIZE - off) / maxWrite)

theorem reach_le (off n : Nat) : reach off n ≤ n := by
  unfold reach
  split
  · exact le_rfl
  · have whole := Nat.mul_div_le (MAXFILE * BSIZE - off) maxWrite
    omega

theorem add_reach_le
    (small : off ≤ MAXFILE * BSIZE)
    (n : Nat) :
    off + reach off n ≤ MAXFILE * BSIZE := by
  unfold reach
  split
  · assumption
  · have whole := Nat.mul_div_le (MAXFILE * BSIZE - off) maxWrite
    omega

/-- The first transaction of a write. -/
theorem reach_eq_add (room : off + min n maxWrite ≤ MAXFILE * BSIZE) :
    reach off n = min n maxWrite + reach (off + min n maxWrite) (n - min n maxWrite) := by
  unfold reach MAXFILE NDIRECT NINDIRECT BSIZE maxWrite LOGSIZE at *
  split <;> split <;> omega

theorem reach_eq_zero (full : MAXFILE * BSIZE < off + min n maxWrite) :
    reach off n = 0 := by
  unfold reach MAXFILE NDIRECT NINDIRECT BSIZE maxWrite LOGSIZE at *
  split <;> omega

/-- An open file that is written. -/
structure Writer where
  /-- The store, without the blocks of the file taken off. -/
  base : Store
  f : FileId
  file : OpenFile
  inum : Nat
  nlink : Int16
  origin : List UInt8
  /-- The open file refers to the inode. -/
  refers : file.inum = some inum

namespace Writer

/-- The contents of the file with some bytes in place of its first ones. -/
def contents (w : Writer) (written : List UInt8) : List UInt8 :=
  written ++ w.origin.drop written.length

/-- The store when the file has been written up to an offset. -/
def during (w : Writer) (written : List UInt8) : Store :=
  { w.base with
    inodes := update w.base.inodes w.inum (some ⟨.file (w.contents written), w.nlink⟩)
    free := w.base.free - blocks (w.contents written).length
    ftable := update w.base.ftable w.f (some { w.file with off := UInt32.ofNat written.length }) }

variable (w : Writer) (written : List UInt8)

theorem length_contents :
    (w.contents written).length = max written.length w.origin.length := by
  rw [contents, List.length_append, List.length_drop]
  omega

/-- Bytes are written behind those that have been written, up to the largest file. -/
theorem writeBytes_contents
    (src : List UInt8)
    (word : written.length < 2 ^ 32) :
    writeBytes (w.contents written) src (UInt32.ofNat written.length) =
      if MAXFILE * BSIZE < written.length + src.length then none
      else some (w.contents (written ++ src)) := by
  have offset : (UInt32.ofNat written.length).toNat = written.length := by
    rw [UInt32.toNat_ofNat', Nat.mod_eq_of_lt word]
  have inside : ¬ (w.contents written).length < written.length := by
    rw [length_contents]
    omega
  have wraps : 2 ^ 32 ≤ written.length + src.length →
      MAXFILE * BSIZE < written.length + src.length := by
    unfold MAXFILE NDIRECT NINDIRECT BSIZE
    omega
  unfold writeBytes
  rw [offset]
  simp only [inside, false_or, or_iff_right_of_imp wraps]
  split
  · rfl
  · unfold contents
    rw [List.take_left, List.drop_append, List.drop_drop, List.drop_eq_nil_of_le (by omega),
      List.nil_append, List.length_append]
    congr 3
    omega

theorem behind_during :
    (w.during written).behind w.f =
      some ({ w.file with off := UInt32.ofNat written.length }, w.inum,
        ⟨.file (w.contents written), w.nlink⟩) := by
  have opened : (w.during written).ftable w.f =
      some { w.file with off := UInt32.ofNat written.length } := update_self _ _ _
  have used : (w.during written).inodes w.inum =
      some ⟨.file (w.contents written), w.nlink⟩ := update_self _ _ _
  simp [Store.behind, opened, w.refers, used]

/-- The store after more bytes have been written. -/
theorem put_during
    (src : List UInt8)
    (fits : blocks (w.contents written).length ≤ w.base.free) :
    (w.during written).put w.inum ⟨.file (w.contents written), w.nlink⟩
        (w.contents (written ++ src)) w.f
        { w.file with off := UInt32.ofNat written.length }
        (UInt32.ofNat written.length + UInt32.ofNat src.length) =
      w.during (written ++ src) := by
  have free : w.base.free - blocks (w.contents written).length +
      blocks (w.contents written).length = w.base.free := Nat.sub_add_cancel fits
  have sum : UInt32.ofNat written.length + UInt32.ofNat src.length =
      UInt32.ofNat (written ++ src).length := by
    rw [List.length_append, UInt32.ofNat_add]
  unfold put during Node.size
  dsimp only
  rw [update_idem, update_idem, sum, free]

/-- One transaction of a write. -/
theorem fileWritei_during
    (src : List UInt8)
    (word : written.length < 2 ^ 32)
    (fits : blocks (w.contents written).length ≤ w.base.free) :
    fileWritei w.f src (w.during written) =
      if MAXFILE * BSIZE < written.length + src.length then .ok (false, w.during written)
      else if w.base.free < blocks (w.contents (written ++ src)).length then
        .error ⟨"balloc: out of blocks", w.during written⟩
      else .ok (true, w.during (written ++ src)) := by
  have free : blocks (w.contents written).length + (w.during written).free = w.base.free :=
    Nat.add_sub_cancel' fits
  by_cases full : MAXFILE * BSIZE < written.length + src.length
  · simp only [fileWritei, w.behind_during, w.writeBytes_contents written src word, if_pos full]
  · simp only [fileWritei, w.behind_during, w.writeBytes_contents written src word, if_neg full,
      free, w.put_during written src fits]

/-- What becomes of a write: as many bytes are written as the largest file has room for, or
the disk is full behind some of the transactions. -/
inductive Outcome (w : Writer) (written src : List UInt8) (value : Bool → α) :
    Except Crash (α × Store) → Prop
  | ok
      (enough : blocks (w.contents
        (written ++ src.take (reach written.length src.length))).length ≤ w.base.free) :
      Outcome w written src value (.ok
        (value (decide (written.length + src.length ≤ MAXFILE * BSIZE)),
          w.during (written ++ src.take (reach written.length src.length))))
  | full (count : Nat)
      (before : count < reach written.length src.length)
      (whole : maxWrite ∣ count)
      (fits : blocks (w.contents (written ++ src.take count)).length ≤ w.base.free)
      (past : w.base.free < blocks (w.contents
        (written ++ src.take (reach written.length src.length))).length) :
      Outcome w written src value (.error
        ⟨"balloc: out of blocks", w.during (written ++ src.take count)⟩)

variable {w written} {src : List UInt8}

/-- A write that goes on behind its first transaction. -/
theorem Outcome.later {result : Except Crash (Bool × Store)}
    (room : written.length + min src.length maxWrite ≤ MAXFILE * BSIZE)
    (outcome : w.Outcome (written ++ src.take (min src.length maxWrite))
      (src.drop (min src.length maxWrite)) id result) :
    w.Outcome written src id result := by
  have reached := reach_eq_add room
  generalize count : min src.length maxWrite = n1 at *
  have start : (written ++ src.take n1).length = written.length + n1 := by
    rw [List.length_append, List.length_take]
    omega
  have rest : (src.drop n1).length = src.length - n1 := List.length_drop
  have joined : ∀ more, written ++ src.take n1 ++ (src.drop n1).take more =
      written ++ src.take (n1 + more) := by
    intro more
    rw [List.take_add, List.append_assoc]
  cases outcome with
  | ok enough =>
    have same : (written.length + n1 + (src.length - n1) ≤ MAXFILE * BSIZE) =
        (written.length + src.length ≤ MAXFILE * BSIZE) := by
      rw [Nat.add_assoc, Nat.add_sub_cancel' (by omega)]
    simp only [start, rest, joined, ← reached, same] at enough ⊢
    exact .ok enough
  | full more before whole fits past =>
    have behind := reach_le (written.length + n1) (src.length - n1)
    simp only [start, rest, joined, ← reached] at before fits past ⊢
    refine .full (n1 + more) (by omega) (Nat.dvd_add ?_ whole) fits past
    rw [← count, min_eq_right (by omega)]

theorem Outcome.refused
    (full : MAXFILE * BSIZE < written.length + min src.length maxWrite)
    (fits : blocks (w.contents written).length ≤ w.base.free) :
    w.Outcome written src id (.ok (false, w.during written)) := by
  have none : written ++ src.take (reach written.length src.length) = written := by
    rw [reach_eq_zero full, List.take_zero, List.append_nil]
  have stopped : decide (written.length + src.length ≤ MAXFILE * BSIZE) = false :=
    decide_eq_false (by omega)
  have outcome : w.Outcome written src id _ := .ok (by rwa [none])
  rwa [none, stopped] at outcome

theorem Outcome.nil
    (small : written.length ≤ MAXFILE * BSIZE)
    (fits : blocks (w.contents written).length ≤ w.base.free) :
    w.Outcome written [] id (.ok (true, w.during written)) := by
  have none : written ++ ([] : List UInt8).take (reach written.length 0) = written := by
    rw [List.take_nil, List.append_nil]
  have outcome : w.Outcome written [] id _ := .ok (by rwa [List.length_nil, none])
  rwa [List.length_nil, none, decide_eq_true (by exact small)] at outcome

/-- The loop of a write. -/
theorem filewriteLoop_during
    (enough : src.length ≤ fuel)
    (word : written.length < 2 ^ 32)
    (small : src = [] → written.length ≤ MAXFILE * BSIZE)
    (fits : blocks (w.contents written).length ≤ w.base.free) :
    w.Outcome written src id (filewriteLoop w.f fuel src (w.during written)) := by
  induction fuel generalizing src written with
  | zero =>
    obtain rfl := List.length_eq_zero_iff.mp (Nat.le_zero.mp enough)
    exact .nil (small rfl) fits
  | succ fuel ih =>
    unfold filewriteLoop
    split
    · rename_i empty
      subst empty
      exact .nil (small rfl) fits
    rename_i nonempty
    dsimp only
    have positive := List.length_pos_of_ne_nil nonempty
    have large : 0 < maxWrite := by decide
    have limit : MAXFILE * BSIZE < 2 ^ 32 := by decide
    have wrote := w.fileWritei_during written (src.take (min src.length maxWrite)) word fits
    have length : (src.take (min src.length maxWrite)).length = min src.length maxWrite :=
      List.length_take_of_le (min_le_left _ _)
    have start : (written ++ src.take (min src.length maxWrite)).length =
        written.length + min src.length maxWrite := by rw [List.length_append, length]
    rw [length] at wrote
    split at wrote
    · rename_i full
      exact Run.bind_of_ok wrote ▸ .refused full fits
    rename_i room
    replace room := Nat.le_of_not_lt room
    split at wrote
    · rename_i past
      rw [Run.bind_of_error wrote]
      have reached := reach_eq_add room
      have more : (src.take (reach written.length src.length)).length =
        reach written.length src.length := List.length_take_of_le (reach_le _ _)
      have outcome : w.Outcome written src id _ := .full 0 (by omega) (Nat.dvd_zero _)
        (by simpa using fits) (lt_of_lt_of_le past (blocks_mono (by
          rw [length_contents, length_contents, start, List.length_append, more]
          omega)))
      rwa [List.take_zero, List.append_nil] at outcome
    · rename_i left
      rw [Run.bind_of_ok wrote]
      refine (ih ?_ ?_ ?_ (Nat.le_of_not_lt left)).later room
      · rw [List.length_drop]
        omega
      · omega
      · omega

/-- `filewrite` of a file that is open for writing. -/
theorem filewrite_during
    (writable : w.file.writable = true)
    (word : written.length < 2 ^ 32)
    (small : src = [] → written.length ≤ MAXFILE * BSIZE)
    (fits : blocks (w.contents written).length ≤ w.base.free) :
    w.Outcome written src (fun all => if all then (src.length : Int) else -1)
      (filewrite w.f src (w.during written)) := by
  have loop := filewriteLoop_during le_rfl word small fits
  simp only [filewrite, w.behind_during, writable, Bool.true_eq_false, if_false]
  rw [Run.bind_apply]
  revert loop
  generalize filewriteLoop w.f src.length src (w.during written) = result
  rintro (⟨enough⟩ | ⟨count, before, whole, fits, past⟩)
  · have outcome : w.Outcome written src
      (fun all => if all then (src.length : Int) else -1) _ := .ok enough
    by_cases room : written.length + src.length ≤ MAXFILE * BSIZE
    · rw [decide_eq_true room] at outcome ⊢
      exact outcome
    · rw [decide_eq_false room] at outcome ⊢
      exact outcome
  · exact .full count before whole fits past

end Writer

/-! ## Writing beside reading -/

/-- A process that reads from one open file and writes to another one. -/
structure Session where
  /-- The store, without the blocks of the file that is written taken off. -/
  base : Store
  fd0 : Fd
  fd1 : Fd
  f0 : FileId
  f1 : FileId
  source : OpenFile
  target : OpenFile
  inum : Nat
  nlink : Int16
  origin : List UInt8
  apart : f0 ≠ f1
  /-- The first descriptor. -/
  first : base.ofile fd0 = some f0
  /-- The second descriptor. -/
  second : base.ofile fd1 = some f1
  /-- The second open file refers to the inode. -/
  refers : target.inum = some inum
  /-- It may be written. -/
  writable : target.writable = true

namespace Session

/-- The contents of the file after some bytes have been written. -/
def contents (w : Session) (written : List UInt8) : List UInt8 :=
  written ++ w.origin.drop written.length

/-- The store after some bytes have been written. -/
def during (w : Session) (off : UInt32) (input : List (Option (List UInt8)))
    (written : List UInt8) : Store :=
  { w.base with
    inodes := update w.base.inodes w.inum (some ⟨.file (w.contents written), w.nlink⟩)
    free := w.base.free - blocks (w.contents written).length
    ftable := update (update w.base.ftable w.f0 (some { w.source with off := off }))
      w.f1 (some { w.target with off := UInt32.ofNat written.length })
    input := input }

variable (w : Session) (off : UInt32) (input : List (Option (List UInt8))) (written : List UInt8)

theorem during_ofile : (w.during off input written).ofile = w.base.ofile := rfl

theorem during_source :
    (w.during off input written).ftable w.f0 = some { w.source with off := off } :=
  (update_of_ne w.apart _ _).trans (update_self _ _ _)

theorem during_target :
    (w.during off input written).ftable w.f1 =
      some { w.target with off := UInt32.ofNat written.length } :=
  update_self _ _ _

/-- The store before anything is written. -/
theorem during_nil
    (file : w.base.inodes w.inum = some ⟨.file w.origin, w.nlink⟩)
    (source : w.base.ftable w.f0 = some w.source)
    (target : w.base.ftable w.f1 = some w.target)
    (begins : w.target.off = 0) :
    w.during w.source.off w.base.input [] =
      { w.base with free := w.base.free - blocks w.origin.length } := by
  have contents : w.contents [] = w.origin := rfl
  have same : some { w.target with off := UInt32.ofNat ([] : List UInt8).length } =
      w.base.ftable w.f1 := by
    rw [target, show UInt32.ofNat ([] : List UInt8).length = w.target.off from begins.symm]
  unfold during
  rw [contents, ← file, update_eq_self, same,
    show some { w.source with off := w.source.off } = w.base.ftable w.f0 from source.symm,
    update_eq_self, update_eq_self]

/-- A read moves the first offset. -/
theorem seek_during (later : UInt32) (left : List (Option (List UInt8))) :
    seek w.f0 { w.source with off := off } later
        { w.during off input written with input := left } =
      w.during later left written := by
  unfold seek during
  dsimp only
  rw [update_comm w.apart.symm, update_idem]

/-- A read leaves what is written. -/
theorem sysRead_during (n : UInt32) :
    ∃ result later left, sysRead w.fd0 n (w.during off input written) =
      .ok (result, w.during later left written) := by
  obtain ⟨result, later, left, read⟩ :=
    sysRead_any (s := w.during off input written) w.first (w.during_source off input written) n
  refine ⟨result, later, left, ?_⟩
  rw [read, seek_during]

/-- The blocks suffice for what is written, and it is no larger than the largest file. -/
def Fits (w : Session) (written : List UInt8) : Prop :=
  blocks (w.contents written).length ≤ w.base.free ∧ written.length ≤ MAXFILE * BSIZE

/-- The open file that the process writes to. -/
def writer (w : Session) (off : UInt32) (input : List (Option (List UInt8))) : Writer where
  base := { w.base with
    ftable := update w.base.ftable w.f0 (some { w.source with off := off })
    input := input }
  f := w.f1
  file := w.target
  inum := w.inum
  nlink := w.nlink
  origin := w.origin
  refers := w.refers

theorem length_contents :
    (w.contents written).length = max written.length w.origin.length :=
  (w.writer 0 []).length_contents written

/-- What becomes of a write. -/
theorem sysWrite_outcome
    (src : List UInt8)
    (fits : w.Fits written) :
    (w.writer off input).Outcome written src (fun all => if all then (src.length : Int) else -1)
      (sysWrite w.fd1 src (w.during off input written)) := by
  have limit : MAXFILE * BSIZE < 2 ^ 32 := by decide
  simp only [sysWrite, w.during_ofile, w.second]
  exact Writer.filewrite_during w.writable (by have := fits.2; omega) (fun _ => fits.2) fits.1

/-- A write of any length, up to the largest file. -/
theorem sysWrite_long
    (src : List UInt8)
    (fits : blocks (w.contents written).length ≤ w.base.free)
    (room : written.length + src.length ≤ MAXFILE * BSIZE) :
    (blocks (w.contents (written ++ src)).length ≤ w.base.free ∧
        sysWrite w.fd1 src (w.during off input written) =
          .ok (src.length, w.during off input (written ++ src))) ∨
      (w.base.free < blocks (w.contents (written ++ src)).length ∧
        ∃ count < src.length, maxWrite ∣ count ∧
          sysWrite w.fd1 src (w.during off input written) = .error
            ⟨"balloc: out of blocks", w.during off input (written ++ src.take count)⟩) := by
  have outcome := w.sysWrite_outcome off input written src ⟨fits, by omega⟩
  have all : reach written.length src.length = src.length := if_pos room
  revert outcome
  generalize sysWrite w.fd1 src (w.during off input written) = result
  rintro (⟨enough⟩ | ⟨count, before, whole, _, past⟩)
  · rw [all, List.take_length] at enough ⊢
    rw [decide_eq_true room]
    exact .inl ⟨enough, rfl⟩
  · rw [all] at before
    rw [all, List.take_length] at past
    exact .inr ⟨past, count, before, whole, rfl⟩

section

variable (src : List UInt8) (short : src.length ≤ maxWrite)

include short

/-- A write of at most one transaction either takes place or finds the disk full. -/
theorem sysWrite_during
    (fits : blocks (w.contents written).length ≤ w.base.free)
    (room : written.length + src.length ≤ MAXFILE * BSIZE) :
    sysWrite w.fd1 src (w.during off input written) =
      if w.base.free < blocks (w.contents (written ++ src)).length then
        .error ⟨"balloc: out of blocks", w.during off input written⟩
      else .ok (src.length, w.during off input (written ++ src)) := by
  rcases w.sysWrite_long off input written src fits room with
    ⟨enough, wrote⟩ | ⟨past, count, before, whole, stopped⟩
  · rw [if_neg (Nat.not_lt.mpr enough), wrote]
  · obtain rfl := Nat.eq_zero_of_dvd_of_lt whole (by omega)
    rw [if_pos past, stopped, List.take_zero, List.append_nil]

/-- A write beyond the largest file changes nothing. -/
theorem sysWrite_refused
    (fits : w.Fits written)
    (full : MAXFILE * BSIZE < written.length + src.length) :
    sysWrite w.fd1 src (w.during off input written) = .ok (-1, w.during off input written) := by
  have outcome := w.sysWrite_outcome off input written src fits
  have none : reach written.length src.length = 0 :=
    reach_eq_zero (by rwa [min_eq_left short])
  revert outcome
  generalize sysWrite w.fd1 src (w.during off input written) = result
  rintro (⟨_⟩ | ⟨count, before, _, _, _⟩)
  · rw [none, List.take_zero, List.append_nil, decide_eq_false (Nat.not_le.mpr full)]
    rfl
  · omega

end

/-- Whatever a write does, it adds to what is written. -/
theorem sysWrite_spec
    (src : List UInt8)
    (fits : w.Fits written) :
    Run.Spec (sysWrite w.fd1 src) (w.during off input written)
      (fun _ t => ∃ later, w.Fits later ∧ t = w.during off input later)
      (fun crash => ∃ later, crash.disk = w.during off input later) := by
  have outcome := w.sysWrite_outcome off input written src fits
  unfold Run.Spec
  revert outcome
  generalize sysWrite w.fd1 src (w.during off input written) = result
  rintro (⟨enough⟩ | ⟨count, _, _, _, _⟩)
  · refine ⟨_, ⟨enough, ?_⟩, rfl⟩
    rw [List.length_append, List.length_take_of_le (reach_le _ _)]
    exact add_reach_le fits.2 _
  · exact ⟨_, rfl⟩

end Session

end Store
end Xv6
