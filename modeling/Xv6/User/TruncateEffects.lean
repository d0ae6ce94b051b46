import Xv6.User.TruncateRuns

/-!
# What truncate does to a file

`truncate` makes a new file of the right bytes under the name.  It does not resize the
inode that had the name, and it does not keep the data when it cannot finish.
-/

namespace Xv6
namespace Truncate

open Store

/-! ## A small store -/

namespace Sample

/-- The root directory: `.`, `..`, the names `f` and `g` of one file, and `d`. -/
def root : List Dirent :=
  [⟨1, strncpy dot DIRSIZ⟩, ⟨1, strncpy dotdot DIRSIZ⟩, ⟨2, strncpy [102] DIRSIZ⟩,
    ⟨2, strncpy [103] DIRSIZ⟩, ⟨3, strncpy [100] DIRSIZ⟩]

/-- An empty directory below the root. -/
def below : List Dirent := [⟨3, strncpy dot DIRSIZ⟩, ⟨1, strncpy dotdot DIRSIZ⟩]

/-- A file of three bytes with two names, and the two directories. -/
def inodes : Nat → Option Store.Inode
  | 1 => some ⟨.dir root, 2⟩
  | 2 => some ⟨.file [10, 11, 12], 2⟩
  | 3 => some ⟨.dir below, 1⟩
  | _ => none

/-- A process in the root directory, with nothing open. -/
def store : Store where
  ninodes := 200
  inodes := inodes
  free := 100
  refs := fun inum => if inum = 1 then 1 else 0
  ftable := fun _ => none
  ofile := fun _ => none
  cwd := 1
  input := []

/-- The same with a single descriptor left. -/
def crowded : Store :=
  { store with
    refs := fun inum => if inum = 1 then 2 else 0
    ftable := fun f => if f = 0 then some ⟨15, some 1, 0, true, false⟩ else none
    ofile := fun fd => if fd = 0 then none else some 0 }

/-- All inodes in use. -/
theorem inodes_cases (used : store.inodes inum = some ip) :
    inum = 1 ∧ ip = ⟨.dir root, 2⟩ ∨ inum = 2 ∧ ip = ⟨.file [10, 11, 12], 2⟩ ∨
      inum = 3 ∧ ip = ⟨.dir below, 1⟩ := by
  change inodes inum = some ip at used
  unfold inodes at used
  split at used
  · exact .inl ⟨rfl, (Option.some.inj used).symm⟩
  · exact .inr (.inl ⟨rfl, (Option.some.inj used).symm⟩)
  · exact .inr (.inr ⟨rfl, (Option.some.inj used).symm⟩)
  · nomatch used

/-- The directories. -/
theorem dirAt_cases (here : store.dirAt inum = some entries) :
    inum = 1 ∧ entries = root ∨ inum = 3 ∧ entries = below := by
  obtain ⟨ip, used, node⟩ := dirAt_eq_some_iff.mp here
  rcases inodes_cases used with ⟨rfl, rfl⟩ | ⟨rfl, rfl⟩ | ⟨rfl, rfl⟩
  · exact .inl ⟨rfl, (Node.dir.inj node).symm⟩
  · nomatch node
  · exact .inr ⟨rfl, (Node.dir.inj node).symm⟩

theorem sound : store.Sound where
  distinct := by
    intro inum entries here
    unfold Distinct
    rcases dirAt_cases here with ⟨_, rfl⟩ | ⟨_, rfl⟩ <;> decide
  proper := by
    intro inum entries name here looked
    rw [namecmp_eq_zero_iff, namecmp_eq_zero_iff]
    obtain ⟨de, member, number, same⟩ := exists_of_dirlookup looked
    rw [same]
    rcases dirAt_cases here with ⟨rfl, rfl⟩ | ⟨rfl, rfl⟩
    · exact (by decide : ∀ de ∈ root, de.inum = 1 → strncpy de.name DIRSIZ = strncpy dot DIRSIZ ∨
        strncpy de.name DIRSIZ = strncpy dotdot DIRSIZ) de member number
    · exact (by decide : ∀ de ∈ below, de.inum = 3 → strncpy de.name DIRSIZ = strncpy dot DIRSIZ ∨
        strncpy de.name DIRSIZ = strncpy dotdot DIRSIZ) de member number
  bounded := by
    intro inum ip used
    rcases inodes_cases used with ⟨_, rfl⟩ | ⟨_, rfl⟩ | ⟨_, rfl⟩ <;> decide
  alive := by
    intro inum entries name next ip _ _ used
    refine .inl ?_
    rcases inodes_cases used with ⟨_, rfl⟩ | ⟨_, rfl⟩ | ⟨_, rfl⟩ <;> decide

theorem found : store.namei [102] = .ok (some 2) := rfl

theorem used : store.inodes 2 = some ⟨.file [10, 11, 12], 2⟩ := rfl

theorem removal : store.removal [102] =
    .ok (some ⟨1, ⟨.dir root, 2⟩, root, [102], 2, ⟨.file [10, 11, 12], 2⟩⟩) := rfl

theorem removal_below : store.removal [100] =
    .ok (some ⟨1, ⟨.dir root, 2⟩, root, [100], 3, ⟨.dir below, 1⟩⟩) := rfl

theorem spare : Spare store :=
  ⟨⟨0, 1, by decide, rfl, rfl⟩, 0, 1, by decide, rfl, rfl⟩

theorem able : Able store [102] 2 := ⟨⟨_, rfl⟩, spare, nofun, by decide⟩

theorem crowded_sound : crowded.Sound where
  distinct := sound.distinct
  proper := sound.proper
  bounded := sound.bounded
  alive := by
    intro inum entries name next ip here looked used
    refine .inl ?_
    rcases inodes_cases used with ⟨_, rfl⟩ | ⟨_, rfl⟩ | ⟨_, rfl⟩ <;> decide

theorem not_spare_crowded : ¬Spare crowded := by
  rintro ⟨_, fd, other, different, free, otherFree⟩
  have only : ∀ fd : Fd, crowded.ofile fd = none → fd = 0 := by decide
  exact different ((only fd free).trans (only other otherFree).symm)

end Sample

/-! ## The bytes -/

/-! ## The inode -/

/-- After `truncate` has succeeded, the name refers to the same inode, which has the same
number of links and the new contents.  Other names of the inode and open files see the
change exactly because it is the same. -/
def ResizesInode (s : Store) (name : Path) (size : Int) (inum : Nat) (old : List UInt8)
    (nlink : Int16) : Prop :=
  ∀ t, truncate name size s = .ok (.done, t) → t.namei name = .ok (some inum) ∧
      t.inodes inum = some ⟨.file (resize old size.toNat), nlink⟩

variable {s : Store} {name : Path} {size : Int}

/-- After a success the name refers to an inode that was free. -/
theorem namei_ne_of_done
    (sound : s.Sound)
    (found : s.namei name = .ok (some inum))
    (used : s.inodes inum = some ip)
    (regular : ip.node = .file old)
    (done : truncate name size s = .ok (.done, t)) :
    t.namei name ≠ .ok (some inum) := by
  obtain ⟨r, f0, fd0, removed, file, descriptor⟩ := removal_of_done done
  have removes := removes_of_removal removed
  obtain ⟨rfl, rfl⟩ := inum_of_removes removes found used
  obtain ⟨new, _, _, relinked, _, contents⟩ :=
    goes_done (goes sound removed file descriptor size) regular done
  intro same
  obtain rfl := Option.some.inj (relinked.next_of_namei removes same)
  have free := (relinked.new r.inum rfl).1
  rw [used] at free
  nomatch free

/-! ## The data -/

/-- Whatever the name referred to, in the end it refers to an inode of the same type with
the same contents, or `truncate` has succeeded and the inode has the size asked for. -/
def KeepsData (s : Store) (name : Path) (size : Int) : Prop :=
  ∀ node, s.named name = some node → ∃ later, (after name size s).named name = some later ∧
      (later = node ∨ (∃ t, truncate name size s = .ok (.done, t)) ∧ later.type = node.type ∧
          (later.size : Int) = size)

/-- How far the new file is filled. -/
def reach (s : Store) (size : Int) : Nat := min size.toNat (capacity s.free)

/-- When no data is lost: `truncate` does not remove the name; or the name belongs to a
regular file, there is an inode for the new one, and either both files can be opened and
the new one reaches the size asked for or that of the old one, or the second one cannot be
opened and the old one is empty. -/
def Spares (s : Store) (name : Path) (size : Int) : Prop :=
  ∀ r, s.removal name = .ok (some r) → s.filealloc ≠ none → s.fdalloc ≠ none →
    ∃ old, r.ip.node = .file old ∧ s.ialloc ≠ none ∧
      (Spare s → (reach s size : Int) = size ∨ reach s size = old.length) ∧ (¬Spare s → old = [])

theorem after_of_ok (ended : truncate name size s = .ok (ending, t)) :
    after name size s = t := by
  rw [after, ended]

theorem after_of_error (stopped : truncate name size s = .error crash) :
    after name size s = crash.disk := by
  rw [after, stopped]

/-- A new file that keeps the data. -/
theorem spares_of_keepsData
    (sound : s.Sound)
    (keeps : KeepsData s name size) :
    Spares s name size := by
  intro r removed files fds
  obtain ⟨f0, file⟩ := Option.ne_none_iff_exists'.mp files
  obtain ⟨fd0, descriptor⟩ := Option.ne_none_iff_exists'.mp fds
  have removes := removes_of_removal removed
  obtain ⟨later, named, outcome⟩ := keeps r.ip.node removes.named
  cases goes sound removed file descriptor size with
  | @unnamed t cause ends relinked =>
    have final : after name size s = t := by
      rcases ends with ⟨text, ended⟩ | ⟨text, stopped⟩
      · exact after_of_ok ended
      · exact after_of_error stopped
    rw [final] at named
    obtain ⟨inum, _, impossible, _⟩ := relinked.named_cases removes named
    nomatch impossible
  | @unopened inum t allocated busy ended empty relinked =>
    rw [after_of_ok ended] at named
    obtain ⟨other, contents, target, file, rfl⟩ := relinked.named_cases removes named
    obtain rfl := Option.some.inj target
    obtain rfl : contents = [] := by
      have same := Option.some.inj (file.symm.trans empty)
      exact Node.file.inj (Store.Inode.mk.inj same).1
    refine ⟨[], ?_, by rw [allocated]; nofun, fun spare => absurd spare busy, fun _ => rfl⟩
    rcases outcome with same | ⟨⟨u, done⟩, _⟩
    · exact same.symm
    · rw [ended] at done
      nomatch done
  | @filled inum t contents allocated spare ends filled relinked regular =>
    have final : after name size s = t := by
      rcases ends with ended | ⟨text, stopped⟩
      · exact after_of_ok ended
      · exact after_of_error stopped
    rw [final] at named
    obtain ⟨other, contents', target, file, rfl⟩ := relinked.named_cases removes named
    obtain rfl := Option.some.inj target
    obtain rfl : contents = contents' := by
      have same := Option.some.inj (filled.symm.trans file)
      exact Node.file.inj (Store.Inode.mk.inj same).1
    rcases outcome with same | ⟨_, type, reached⟩
    · obtain ⟨resized, _⟩ := regular contents same.symm
      refine ⟨contents, same.symm, by rw [allocated]; nofun, fun _ => .inr ?_,
        fun busy => absurd spare busy⟩
      exact (resize_eq_self_iff contents (reach s size)).mp resized.symm
    cases node : r.ip.node with
    | dir entries =>
      rw [node] at type
      nomatch type
    | dev major minor =>
      rw [node] at type
      nomatch type
    | file old =>
      obtain ⟨resized, _⟩ := regular old node
      refine ⟨old, rfl, by rw [allocated]; nofun, fun _ => .inl ?_, fun busy => absurd spare busy⟩
      have length : contents.length = reach s size := by
        rw [resized, length_resize]
        rfl
      rw [← length]
      exact reached

theorem keepsData_of_spares
    (sound : s.Sound)
    (spares : Spares s name size) :
    KeepsData s name size := by
  intro node named
  by_cases kept : s.filealloc = none ∨ s.fdalloc = none ∨ ∀ r, s.removal name ≠ .ok (some r)
  · obtain ⟨inodes, cwd, _⟩ := after_unremoved size kept
    exact ⟨node, (named_congr inodes cwd name).trans named, .inl rfl⟩
  rw [not_or, not_or, not_forall] at kept
  obtain ⟨files, fds, r, removal⟩ := kept
  have removed := not_not.mp removal
  obtain ⟨f0, file⟩ := Option.ne_none_iff_exists'.mp files
  obtain ⟨fd0, descriptor⟩ := Option.ne_none_iff_exists'.mp fds
  have removes := removes_of_removal removed
  obtain rfl := Option.some.inj (removes.named.symm.trans named)
  obtain ⟨old, regular, allocates, both, one⟩ := spares r removed files fds
  rw [regular]
  cases goes sound removed file descriptor size with
  | unnamed cause ends relinked =>
    rcases cause with directory | none
    · exact absurd (dirAt_eq_none removes.used regular) directory
    · exact absurd none allocates
  | unopened allocated busy ended empty relinked =>
    obtain ⟨_, later⟩ := named_relinked removes regular relinked empty
    rw [after_of_ok ended, one busy]
    exact ⟨.file [], later, .inl rfl⟩
  | @filled inum t contents allocated spare ends filled relinked bytes =>
    obtain ⟨_, later⟩ := named_relinked removes regular relinked filled
    obtain ⟨resized, iff⟩ := bytes old regular
    have final : after name size s = t := by
      rcases ends with ended | ⟨text, stopped⟩
      · exact after_of_ok ended
      · exact after_of_error stopped
    rw [final]
    refine ⟨.file contents, later, ?_⟩
    rcases both spare with reached | same
    · have fits : size.toNat ≤ capacity s.free := by
        unfold reach at reached
        omega
      refine .inr ⟨⟨t, iff.mpr (.inl fits)⟩, rfl, ?_⟩
      rw [← reached, resized]
      exact congrArg Nat.cast (length_resize old (reach s size))
    · refine .inl (congrArg Node.file ?_)
      rw [resized]
      exact (resize_eq_self_iff old (reach s size)).mpr same

end Truncate
end Xv6
