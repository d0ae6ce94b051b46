import Xv6.User.Truncate

/-!
# Runs of truncate

What `truncate` leaves of a name and of the file behind it, in every store: which of its
calls fail, what the new file contains, and what the name refers to in the end.
-/

namespace Xv6
namespace Truncate

open Function
open Faulting
open Store

variable {s t : Store} {name : Path} {size : Int} {inum : Nat} {ip : Store.Inode} {r : Removal}
  {old : List UInt8}

theorem ialloc_congr
    (ninodes : t.ninodes = s.ninodes)
    (free : ∀ inum, t.inodes inum = none ↔ s.inodes inum = none) :
    t.ialloc = s.ialloc := by
  have same : (fun inum => (t.inodes inum).isNone) = fun inum => (s.inodes inum).isNone := by
    funext inum
    rw [Bool.eq_iff_iff, Option.isNone_iff_eq_none, Option.isNone_iff_eq_none, free]
  rw [ialloc, ialloc, ninodes, same]

/-! ## The calls -/

/-- The ways `truncate` can go once it has removed the name. -/
inductive Goes (s : Store) (name : Path) (size : Int) (r : Removal) : Prop where
  | unnamed {t : Store}
      (cause : s.dirAt r.inum ≠ none ∨ s.ialloc = none)
      (ends : (∃ text, truncate name size s = .ok (.exits text, t)) ∨
        ∃ text, truncate name size s = .error ⟨text, t⟩)
      (relinked : Relinked s t r none)
  | unopened {inum : Nat} {t : Store}
      (allocated : s.ialloc = some inum)
      (busy : ¬Spare s)
      (ends : truncate name size s = .ok (.exits "cannot open file %s\n", t))
      (empty : t.inodes inum = some ⟨.file [], 1⟩)
      (relinked : Relinked s t r (some inum))
  | filled {inum : Nat} {t : Store} {contents : List UInt8}
      (allocated : s.ialloc = some inum)
      (spare : Spare s)
      (ends : truncate name size s = .ok (.done, t) ∨
        ∃ text, truncate name size s = .error ⟨text, t⟩)
      (file : t.inodes inum = some ⟨.file contents, 1⟩)
      (relinked : Relinked s t r (some inum))
      (regular : ∀ old, r.ip.node = .file old →
        contents = resize old (min size.toNat (capacity s.free)) ∧
          (truncate name size s = .ok (.done, t) ↔
            size.toNat ≤ capacity s.free ∨ capacity s.free = MAXFILE * BSIZE))

section Removed

variable {s : Store} {name : Path} {r : Removal} {f0 : FileId} {fd0 : Fd}

/-- The store after the first `open`. -/
def opens (s : Store) (r : Removal) (f0 : FileId) (fd0 : Fd) : Store :=
  s.install r.inum O_RDONLY f0 fd0

theorem opens_referenced (s : Store) (r : Removal) (f0 : FileId) (fd0 : Fd) :
    0 < (opens s r f0 fd0).refs r.inum := by
  have count : (opens s r f0 fd0).refs r.inum = s.refs r.inum + 1 := update_self _ _ _
  omega

/-- `truncate` after `open` and `unlink`. -/
theorem truncate_eq_reopen
    (removed : s.removal name = .ok (some r))
    (file : s.filealloc = some f0)
    (descriptor : s.fdalloc = some fd0)
    (size : Int) :
    truncate name size s = reopen name size fd0 ((opens s r f0 fd0).remove r) := by
  have removes := removes_of_removal removed
  have first : sysOpen name O_RDONLY s = .ok (some fd0, opens s r f0 fd0) :=
    (sysOpen_existing rfl removes.namei removes.used fun _ => rfl).trans
      (openInode_some file descriptor r.inum O_RDONLY)
  have same : (opens s r f0 fd0).removal name = .ok (some r) :=
    (removal_congr (s := s) (t := opens s r f0 fd0) rfl rfl name).trans removed
  have second : sysUnlink name (opens s r f0 fd0) = .ok (0, (opens s r f0 fd0).remove r) := by
    rw [sysUnlink_eq, same]
  rw [truncate, Run.bind_of_ok first]
  exact Run.bind_of_ok second

/-- What `unlink` leaves of the first `open`. -/
theorem remove_opens (s : Store) (r : Removal) (f0 : FileId) (fd0 : Fd) :
    (opens s r f0 fd0).remove r =
      { opens s r f0 fd0 with inodes := ((opens s r f0 fd0).remove r).inodes } := by
  rw [remove_eq (opens_referenced s r f0 fd0)]

/-- The inodes that are free after `unlink` were free before. -/
theorem ialloc_remove
    (removes : Removes s name r)
    (f0 : FileId)
    (fd0 : Fd) :
    ((opens s r f0 fd0).remove r).ialloc = s.ialloc := by
  rw [remove_eq (opens_referenced s r f0 fd0)]
  refine ialloc_congr rfl fun inum => ?_
  dsimp only
  by_cases isOld : inum = r.inum
  · rw [isOld, update_self, removes.used]
    exact iff_of_false nofun nofun
  · rw [update_of_ne isOld]
    by_cases isParent : inum = r.dp
    · rw [isParent, update_self, removes.parent]
      exact iff_of_false nofun nofun
    · rw [update_of_ne isParent]
      rfl

variable {u t : Store}

/-- The session after the second `open`. -/
theorem exists_session
    (removes : Removes s name r)
    (memory : u = { opens s r f0 fd0 with inodes := u.inodes })
    (empty : u.inodes inum = some ⟨.file [], 1⟩)
    (fresh : s.inodes inum = none)
    (file : u.filealloc = some f1)
    (descriptor : u.fdalloc = some fd1) :
    ∃ w : Session,
      (w.base = u.install inum (O_CREATE ||| O_RDWR) f1 fd1 ∧ w.fd0 = fd0 ∧ w.fd1 = fd1 ∧
        w.inum = inum) ∧
      Opened w r.inum ∧ w.during 0 w.base.input [] = w.base ∧
      (w.source = .new r.inum O_RDONLY) := by
  have ofile : u.ofile fd0 = some f0 := by
    rw [memory]
    exact update_self _ _ _
  have ftable : u.ftable f0 = some (.new r.inum O_RDONLY) := by
    rw [memory]
    exact update_self _ _ _
  have apart : f0 ≠ f1 := by
    rintro rfl
    rw [ftable_of_filealloc file] at ftable
    nomatch ftable
  have fdApart : fd0 ≠ fd1 := by
    rintro rfl
    rw [ofile_of_fdalloc descriptor] at ofile
    nomatch ofile
  let w : Session :=
    { base := u.install inum (O_CREATE ||| O_RDWR) f1 fd1
      fd0 := fd0
      fd1 := fd1
      f0 := f0
      f1 := f1
      source := .new r.inum O_RDONLY
      target := .new inum (O_CREATE ||| O_RDWR)
      inum := inum
      nlink := 1
      origin := []
      apart := apart
      first := (update_of_ne fdApart _ _).trans ofile
      second := update_self _ _ _
      refers := rfl
      writable := rfl }
  have different : r.inum ≠ inum := by
    rintro rfl
    rw [removes.used] at fresh
    nomatch fresh
  refine ⟨w, ⟨rfl, rfl, rfl, rfl⟩, ⟨rfl, rfl, rfl, different, rfl, rfl⟩, ?_, rfl⟩
  have starts := w.during_nil empty ((update_of_ne apart _ _).trans ftable) (update_self _ _ _) rfl
  have none : blocks w.origin.length = 0 := (by decide : blocks 0 = 0)
  rw [none, Nat.sub_zero] at starts
  exact starts

/-- The second `open` fails. -/
theorem reopen_refused
    (refused : sysOpen name (O_CREATE ||| O_RDWR) t = .ok (none, u))
    (size : Int)
    (fd0 : Fd) :
    reopen name size fd0 t = .ok (.exits "cannot open file %s\n", u) := by
  rw [reopen, Run.bind_of_ok refused]
  rfl

/-- The second `open` stops the kernel. -/
theorem reopen_error
    (stopped : create name t = .error crash)
    (size : Int)
    (fd0 : Fd) :
    reopen name size fd0 t = .error crash :=
  Run.bind_of_error (Run.bind_of_error stopped)

/-- The inodes after a session. -/
theorem relinked_of_leaves
    (sound : s.Sound)
    (removes : Removes s name r)
    (relinked : Relinked s u r (some w.inum))
    (inodes : w.base.inodes = u.inodes)
    (cwd : w.base.cwd = u.cwd)
    (leaves : Leaves w r.inum contents t) :
    Relinked s t r (some w.inum) := by
  refine relinked.congr removes (leaves.cwd.trans cwd) ?_ ?_ (removes.dp_ne_inum sound) ?_
  · rw [← inodes]
    exact leaves.source
  · intro inum target
    obtain rfl := Option.some.inj target
    exact ⟨contents, leaves.file⟩
  · intro inum notOld notNew
    rw [← inodes]
    exact leaves.others inum (fun same => notNew (congrArg some same.symm)) notOld

/-- `truncate` writes the new file. -/
theorem goes_filled {size : Int} {input : List (Option (List UInt8))}
    (sound : s.Sound)
    (removes : Removes s name r)
    (relinked : Relinked s u r (some w.inum))
    (held : Opened w r.inum)
    (source : w.source = .new r.inum O_RDONLY)
    (inodes : w.base.inodes = u.inodes)
    (cwd : w.base.cwd = u.cwd)
    (free : w.base.free = s.free)
    (present : u.inodes r.inum ≠ none)
    (allocated : s.ialloc = some w.inum)
    (spare : Spare s)
    (filling : truncate name size s = fill w.fd0 w.fd1 size (w.during 0 input [])) :
    Goes s name size r := by
  by_cases regular : ∃ old, r.ip.node = .file old
  · obtain ⟨old, node⟩ := regular
    obtain ⟨ip, used⟩ := Option.ne_none_iff_exists'.mp present
    have bounded := sound.bounded removes.used
    rw [node] at bounded
    have copies : Copies w old :=
      { origin := held.origin
        source := ⟨r.inum, ip, held.source, held.different, by rw [inodes, used],
          (relinked.old ip used).trans node⟩
        readable := by rw [source]; rfl
        bounded := bounded }
    have same : ∀ other, r.ip.node = .file other → other = old := by
      intro other equal
      rw [node] at equal
      exact (Node.file.inj equal).symm
    have filled := fill_regular held copies size input
    rw [← filling, free] at filled
    rcases filled with ⟨reached, t, ended, leaves⟩ | ⟨beyond, crash, stopped, leaves⟩
    · refine .filled allocated spare (.inl ended) leaves.file
        (relinked_of_leaves sound removes relinked inodes cwd leaves) fun other equal => ?_
      rw [same other equal]
      exact ⟨rfl, iff_of_true ended reached⟩
    · refine .filled allocated spare (.inr ⟨crash.text, stopped⟩) leaves.file
        (relinked_of_leaves sound removes relinked inodes cwd leaves) fun other equal => ?_
      rw [same other equal]
      refine ⟨rfl, iff_of_false (fun ended => ?_) (fun reached => ?_)⟩
      · rw [stopped] at ended
        nomatch ended
      · omega
  · have fits : w.Fits [] := by
      refine ⟨?_, Nat.zero_le _⟩
      rw [held.contents]
      exact (by decide : blocks 0 = 0) ▸ Nat.zero_le _
    have filled := held.fill_spec size 0 input fits
    unfold Run.Spec at filled
    rw [← filling] at filled
    cases ended : truncate name size s with
    | ok pair =>
      obtain ⟨ending, t⟩ := pair
      rw [ended] at filled
      obtain ⟨rfl, contents, leaves⟩ := filled
      exact .filled allocated spare (.inl ended) leaves.file
        (relinked_of_leaves sound removes relinked inodes cwd leaves)
        fun other equal => absurd ⟨other, equal⟩ regular
    | error crash =>
      rw [ended] at filled
      obtain ⟨contents, leaves⟩ := filled
      exact .filled allocated spare (.inr ⟨crash.text, ended⟩) leaves.file
        (relinked_of_leaves sound removes relinked inodes cwd leaves)
        fun other equal => absurd ⟨other, equal⟩ regular

/-- What `truncate` does once it has removed the name. -/
theorem goes
    (sound : s.Sound)
    (removed : s.removal name = .ok (some r))
    (file : s.filealloc = some f0)
    (descriptor : s.fdalloc = some fd0)
    (size : Int) :
    Goes s name size r := by
  have removes := removes_of_removal removed
  have run := truncate_eq_reopen removed file descriptor size
  have referenced := opens_referenced s r f0 fd0
  have gone := relinked_remove (t := opens s r f0 fd0) sound removes rfl rfl referenced
  have allocates := ialloc_remove removes f0 fd0
  have memory := remove_opens s r f0 fd0
  have again := recreates (t := opens s r f0 fd0) sound removes rfl rfl referenced
  generalize (opens s r f0 fd0).remove r = t at run gone allocates memory again
  cases again with
  | lost directory stuck =>
    refine .unnamed (.inl directory) ?_ gone
    rcases stuck with refused | ⟨text, stopped⟩
    · exact .inl ⟨_, run.trans (reopen_refused (Run.bind_of_ok refused) size fd0)⟩
    · exact .inr ⟨text, run.trans (reopen_error stopped size fd0)⟩
  | full none stopped =>
    exact .unnamed (.inr (allocates.symm.trans none))
      (.inr ⟨_, run.trans (reopen_error stopped size fd0)⟩) gone
  | @created inum u allocated created kept empty present relinked =>
    have allocatedBefore := allocates.symm.trans allocated
    have same : u = { opens s r f0 fd0 with inodes := u.inodes } := by
      rw [kept, memory]
    have tables : u.filealloc = (opens s r f0 fd0).filealloc ∧
        u.fdalloc = (opens s r f0 fd0).fdalloc ∧ u.free = s.free := by
      rw [same]
      exact ⟨rfl, rfl, rfl⟩
    have opened : sysOpen name (O_CREATE ||| O_RDWR) t =
        openInode inum (O_CREATE ||| O_RDWR) u := Run.bind_of_ok created
    have spareIff := spare_iff file descriptor (t := opens s r f0 fd0) rfl rfl
    by_cases spare : Spare s
    · obtain ⟨moreFiles, moreFds⟩ := spareIff.mp spare
      obtain ⟨f1, file1⟩ := Option.ne_none_iff_exists'.mp moreFiles
      obtain ⟨fd1, descriptor1⟩ := Option.ne_none_iff_exists'.mp moreFds
      have file1' := tables.1.trans file1
      have descriptor1' := tables.2.1.trans descriptor1
      obtain ⟨w, ⟨base, rfl, rfl, rfl⟩, held, starts, source⟩ := exists_session removes same empty
        (relinked.new inum rfl).1 file1' descriptor1'
      have filling : truncate name size s = fill w.fd0 w.fd1 size (w.during 0 w.base.input []) := by
        rw [run, reopen, Run.bind_of_ok (opened.trans (openInode_some file1' descriptor1' _ _)),
          starts, base]
      exact goes_filled sound removes relinked held source (by rw [base]; rfl) (by rw [base]; rfl)
        (by rw [base]; exact tables.2.2) present allocatedBefore spare filling
    · have busy : u.filealloc = none ∨ u.fdalloc = none := by
        rw [tables.1, tables.2.1]
        by_contra free
        rw [not_or] at free
        exact spare (spareIff.mpr free)
      exact .unopened allocatedBefore spare
        (run.trans (reopen_refused (opened.trans (openInode_none busy _ _)) size fd0)) empty relinked

end Removed

/-! ## What is left -/

/-- If a call fails before the name has been removed, nothing happens. -/
theorem after_unremoved
    (size : Int)
    (kept : s.filealloc = none ∨ s.fdalloc = none ∨ ∀ r, s.removal name ≠ .ok (some r)) :
    (after name size s).inodes = s.inodes ∧ (after name size s).cwd = s.cwd ∧
      ∀ t, truncate name size s ≠ .ok (.done, t) := by
  rcases sysOpen_rdonly_cases s name with
    ⟨inum, ip, f, fd, found, used, file, descriptor, opened⟩ | refused | ⟨text, stopped⟩
  · have stays : ∀ r, s.removal name ≠ .ok (some r) := by
      rcases kept with none | none | stays
      · rw [none] at file
        nomatch file
      · rw [none] at descriptor
        nomatch descriptor
      · exact stays
    have removal : (s.install inum O_RDONLY f fd).removal name = s.removal name :=
      removal_congr (s := s) (t := s.install inum O_RDONLY f fd) rfl rfl name
    have unlink := sysUnlink_eq (s.install inum O_RDONLY f fd) name
    rw [removal] at unlink
    cases removed : s.removal name with
    | error text =>
      rw [removed] at unlink
      have run : truncate name size s = .error ⟨text, s.install inum O_RDONLY f fd⟩ :=
        (Run.bind_of_ok opened).trans (Run.bind_of_error unlink)
      rw [after, run]
      exact ⟨rfl, rfl, fun _ => nofun⟩
    | ok result =>
      cases result with
      | some r => exact absurd removed (stays r)
      | none =>
        rw [removed] at unlink
        have run : truncate name size s =
            .ok (.exits "error unlinking %s\n", s.install inum O_RDONLY f fd) :=
          (Run.bind_of_ok opened).trans (Run.bind_of_ok unlink)
        rw [after, run]
        refine ⟨rfl, rfl, fun t ended => ?_⟩
        nomatch ended
  · have run : truncate name size s = .ok (.exits "cannot open file %s\n", s) :=
      Run.bind_of_ok refused
    rw [after, run]
    refine ⟨rfl, rfl, fun t ended => ?_⟩
    nomatch ended
  · have run : truncate name size s = .error ⟨text, s⟩ := Run.bind_of_error stopped
    rw [after, run]
    exact ⟨rfl, rfl, fun _ => nofun⟩

/-- If `truncate` succeeds, it has removed the name. -/
theorem removal_of_done (done : truncate name size s = .ok (.done, t)) :
    ∃ r f0 fd0, s.removal name = .ok (some r) ∧ s.filealloc = some f0 ∧ s.fdalloc = some fd0 := by
  by_contra kept
  refine (after_unremoved size ?_).2.2 t done
  by_contra each
  rw [not_or, not_or] at each
  obtain ⟨files, fds, removed⟩ := each
  obtain ⟨f0, file⟩ := Option.ne_none_iff_exists'.mp files
  obtain ⟨fd0, descriptor⟩ := Option.ne_none_iff_exists'.mp fds
  push Not at removed
  obtain ⟨r, removal⟩ := removed
  exact kept ⟨r, f0, fd0, removal, file, descriptor⟩

/-- A regular file is not a directory. -/
theorem dirAt_eq_none
    (used : s.inodes inum = some ip)
    (regular : ip.node = .file contents) :
    s.dirAt inum = none := by
  obtain ⟨_, nlink⟩ := ip
  subst regular
  rw [dirAt, used]

/-- What the name refers to after it has been made again. -/
theorem named_relinked
    (removes : Removes s name r)
    (regular : r.ip.node = .file old)
    (relinked : Relinked s t r (some inum))
    (file : t.inodes inum = some ⟨.file contents, 1⟩) :
    t.namei name = .ok (some inum) ∧ t.named name = some (.file contents) := by
  have found := relinked.namei removes (dirAt_eq_none removes.used regular)
  exact ⟨found, named_eq_some_iff.mpr ⟨inum, _, found, file, rfl⟩⟩

/-- Where the inode of a path and the inode that is removed are the same. -/
theorem inum_of_removes
    (removes : Removes s name r)
    (found : s.namei name = .ok (some inum))
    (used : s.inodes inum = some ip) :
    r.inum = inum ∧ r.ip = ip := by
  obtain rfl := Option.some.inj (Except.ok.inj (removes.namei.symm.trans found))
  exact ⟨rfl, Option.some.inj (removes.used.symm.trans used)⟩

/-- A run that succeeds. -/
theorem goes_done
    (goes : Goes s name size r)
    (regular : r.ip.node = .file old)
    (done : truncate name size s = .ok (.done, t)) :
    ∃ inum, s.ialloc = some inum ∧ Spare s ∧ Relinked s t r (some inum) ∧
      (size.toNat ≤ capacity s.free ∨ capacity s.free = MAXFILE * BSIZE) ∧
      t.inodes inum = some ⟨.file (resize old (min size.toNat (capacity s.free))), 1⟩ := by
  cases goes with
  | unnamed cause ends relinked =>
    rcases ends with ⟨text, ended⟩ | ⟨text, stopped⟩
    · rw [done] at ended
      nomatch ended
    · rw [done] at stopped
      nomatch stopped
  | unopened allocated busy ended empty relinked =>
    rw [done] at ended
    nomatch ended
  | @filled inum u contents allocated spare ends file relinked filled =>
    obtain ⟨rfl, iff⟩ := filled old regular
    rcases ends with ended | ⟨text, stopped⟩
    · obtain ⟨_, rfl⟩ := Prod.mk.inj (Except.ok.inj (done.symm.trans ended))
      exact ⟨inum, allocated, spare, relinked, iff.mp ended, file⟩
    · rw [done] at stopped
      nomatch stopped

theorem resize_eq_min (old : List UInt8) (size : Nat) :
    resize old size = old.take (min size old.length) ++
      List.replicate (size - min size old.length) 0 := by
  rw [resize]
  rcases Nat.le_total size old.length with short | long
  · rw [min_eq_left short, Nat.sub_eq_zero_of_le short, Nat.sub_self]
  · rw [min_eq_right long, List.take_length, List.take_of_length_le long]

/-- When `truncate` succeeds on a regular file. -/
def Able (s : Store) (name : Path) (size : Int) : Prop :=
  (∃ r, s.removal name = .ok (some r)) ∧ Spare s ∧ s.ialloc ≠ none ∧ size.toNat ≤ capacity s.free

theorem done_of_able
    (sound : s.Sound)
    (found : s.namei name = .ok (some inum))
    (used : s.inodes inum = some ip)
    (regular : ip.node = .file old)
    (able : Able s name size) :
    ∃ t, truncate name size s = .ok (.done, t) := by
  obtain ⟨⟨r, removed⟩, spare, allocates, fits⟩ := able
  have removes := removes_of_removal removed
  obtain ⟨rfl, rfl⟩ := inum_of_removes removes found used
  obtain ⟨f0, file⟩ := Option.ne_none_iff_exists'.mp spare.filealloc
  obtain ⟨fd0, descriptor⟩ := Option.ne_none_iff_exists'.mp spare.fdalloc
  cases goes sound removed file descriptor size with
  | unnamed cause ends relinked =>
    rcases cause with directory | none
    · exact absurd (dirAt_eq_none removes.used regular) directory
    · exact absurd none allocates
  | unopened allocated busy ended empty relinked => exact absurd spare busy
  | @filled _ t _ allocated spare ends file relinked filled =>
    exact ⟨t, (filled old regular).2.mpr (.inl fits)⟩

end Truncate
end Xv6
