import Xv6.Sys.StoreCalls

/-!
# A name that is removed and made again

What a path names after `unlink` has removed it, and after `open` has then created a
regular file of that name.
-/

namespace Xv6
namespace Store

open Function
open Faulting

/-! ## The name -/

/-- A store in which the name of a removal leads somewhere else, or nowhere. -/
structure Relinked (s t : Store) (r : Removal) (next : Option Nat) : Prop where
  /-- The current directory is the same. -/
  cwd : t.cwd = s.cwd
  /-- In the directory, only that name has changed. -/
  parent : ∃ entries, t.dirAt r.dp = some entries ∧ ∀ name, dirlookup entries name =
    if namecmp name r.name = 0 then next else dirlookup r.entries name
  /-- The inode it led to is as it was, or free. -/
  old : ∀ ip, t.inodes r.inum = some ip → ip.node = r.ip.node
  /-- The inode it leads to was free, and is a regular file with one link. -/
  new : ∀ inum, next = some inum → s.inodes inum = none ∧
    ∃ contents, t.inodes inum = some ⟨.file contents, 1⟩
  /-- All other inodes are as they were. -/
  others : ∀ inum, inum ≠ r.dp → inum ≠ r.inum → next ≠ some inum → t.inodes inum = s.inodes inum

theorem dirlookup_congr {name other : Name}
    (same : namecmp name other = 0)
    (entries : List Dirent) :
    dirlookup entries name = dirlookup entries other := by
  rw [namecmp_eq_zero_iff] at same
  have alike : Dirent.hasName name = Dirent.hasName other := by
    funext de
    rw [Bool.eq_iff_iff, Dirent.hasName_iff, Dirent.hasName_iff, same]
  rw [dirlookup, dirlookup, alike]

namespace Relinked

variable {s t : Store} {path : Path} {r : Removal} {next : Option Nat}

section

variable (relinked : Relinked s t r next)

include relinked

/-- No directory is new. -/
theorem offers_back (removes : Removes s path r) :
    Offers t s := by
  intro inum entries here
  obtain ⟨changed, parent, looks⟩ := relinked.parent
  by_cases isParent : inum = r.dp
  · subst isParent
    obtain rfl := Option.some.inj (parent.symm.trans here)
    refine ⟨r.entries, removes.dirAt_parent, fun name target looked directory => ?_⟩
    rw [looks] at looked
    split at looked
    · -- the name leads to a regular file
      obtain ⟨_, contents, file⟩ := relinked.new target looked
      simp [dirAt, file] at directory
    · exact looked
  · have same : s.dirAt inum = some entries := by
      by_cases isOld : inum = r.inum
      · obtain ⟨ip, used, node⟩ := dirAt_eq_some_iff.mp here
        have kept := relinked.old ip (isOld ▸ used)
        exact dirAt_eq_some_iff.mpr ⟨r.ip, isOld ▸ removes.used, kept ▸ node⟩
      · by_cases isNew : next = some inum
        · obtain ⟨_, contents, file⟩ := relinked.new inum isNew
          simp [dirAt, file] at here
        · rw [← dirAt_congr (relinked.others inum isParent isOld isNew)]
          exact here
    exact ⟨entries, same, fun _ _ looked _ => looked⟩

/-- If the name did not lead to a directory, paths lead through all directories as
before. -/
theorem offers
    (removes : Removes s path r)
    (plain : s.dirAt r.inum = none) :
    Offers s t := by
  intro inum entries here
  obtain ⟨changed, parent, looks⟩ := relinked.parent
  by_cases isParent : inum = r.dp
  · subst isParent
    obtain rfl := Option.some.inj (removes.dirAt_parent.symm.trans here)
    refine ⟨changed, parent, fun name target looked directory => ?_⟩
    rw [looks, if_neg]
    · exact looked
    · intro same
      rw [dirlookup_congr same, removes.found] at looked
      obtain rfl := Option.some.inj looked
      rw [plain] at directory
      nomatch directory
  · have same : t.dirAt inum = some entries := by
      have notOld : inum ≠ r.inum := by
        rintro rfl
        rw [plain] at here
        nomatch here
      have notNew : next ≠ some inum := by
        intro isNew
        obtain ⟨ip, used, _⟩ := dirAt_eq_some_iff.mp here
        rw [(relinked.new inum isNew).1] at used
        nomatch used
      rw [dirAt_congr (relinked.others inum isParent notOld notNew)]
      exact here
    exact ⟨entries, same, fun _ _ looked _ => looked⟩

/-- What the path leads to, if to anything. -/
theorem next_of_namei
    (removes : Removes s path r)
    (found : t.namei path = .ok (some inum)) :
    next = some inum := by
  have elements := pathElements_ne_nil_of_nameiparent removes.reached
  obtain ⟨dp, name, entries, reached, here, looked⟩ := (namei_eq_iff elements).mp found
  have before := (relinked.offers_back removes).nameiparent relinked.cwd.symm reached
  obtain ⟨rfl, rfl⟩ := Prod.mk.inj (Option.some.inj (Except.ok.inj (before.symm.trans removes.reached)))
  obtain ⟨changed, parent, looks⟩ := relinked.parent
  obtain rfl := Option.some.inj (parent.symm.trans here)
  rw [looks, if_pos ((namecmp_eq_zero_iff _ _).mpr rfl)] at looked
  exact looked

/-- What the path names is a new regular file, if it is anything. -/
theorem named_cases
    (removes : Removes s path r)
    (named : t.named path = some node) :
    ∃ inum contents, next = some inum ∧ t.inodes inum = some ⟨.file contents, 1⟩ ∧
      node = .file contents := by
  obtain ⟨inum, ip, found, used, rfl⟩ := named_eq_some_iff.mp named
  have target := relinked.next_of_namei removes found
  obtain ⟨_, contents, file⟩ := relinked.new inum target
  obtain rfl := Option.some.inj (file.symm.trans used)
  exact ⟨inum, contents, target, file, rfl⟩

end

/-- If the path named a regular file or a device, it leads to the new file. -/
theorem namei
    (relinked : Relinked s t r (some inum))
    (removes : Removes s path r)
    (plain : s.dirAt r.inum = none) :
    t.namei path = .ok (some inum) := by
  have elements := pathElements_ne_nil_of_nameiparent removes.reached
  obtain ⟨changed, parent, looks⟩ := relinked.parent
  refine (namei_eq_iff elements).mpr ⟨r.dp, r.name, changed,
    (relinked.offers removes plain).nameiparent relinked.cwd removes.reached, parent, ?_⟩
  rw [looks, if_pos ((namecmp_eq_zero_iff _ _).mpr rfl)]

/-- The relation depends on few inodes. -/
theorem congr
    (relinked : Relinked s t r next)
    (removes : Removes s path r)
    (cwd : u.cwd = t.cwd)
    (old : u.inodes r.inum = t.inodes r.inum ∨ u.inodes r.inum = none)
    (new : ∀ inum, next = some inum → ∃ contents, u.inodes inum = some ⟨.file contents, 1⟩)
    (distinct : r.dp ≠ r.inum)
    (others : ∀ inum, inum ≠ r.inum → next ≠ some inum → u.inodes inum = t.inodes inum) :
    Relinked s u r next where
  cwd := cwd.trans relinked.cwd
  parent := by
    obtain ⟨entries, parent, looks⟩ := relinked.parent
    refine ⟨entries, ?_, looks⟩
    rw [dirAt_congr (others r.dp distinct fun same => ?_)]
    · exact parent
    · have unused := (relinked.new r.dp same).1
      rw [removes.parent] at unused
      nomatch unused
  old := by
    intro ip used
    rcases old with same | freed
    · exact relinked.old ip (same ▸ used)
    · rw [freed] at used
      nomatch used
  new := fun inum target => ⟨(relinked.new inum target).1, new inum target⟩
  others := fun inum notParent notOld notNew =>
    (others inum notOld notNew).trans (relinked.others inum notParent notOld notNew)

end Relinked

/-! ## Removing -/

variable {s : Store} {r : Removal} {t : Store}

/-- The store after `unlink`, if the inode is still referenced. -/
theorem remove_eq (referenced : 0 < s.refs r.inum) :
    s.remove r = { s with
        inodes := update (update s.inodes r.dp (some ⟨.dir r.cleared,
            if r.ip.node.type = T_DIR then r.parent.nlink - 1 else r.parent.nlink⟩))
          r.inum (some { r.ip with nlink := r.ip.nlink - 1 }) } :=
  reap_eq_self (update_self _ _ _) (.inr referenced)

/-- `unlink` removes the name. -/
theorem relinked_remove
    (sound : s.Sound)
    (removes : Removes s path r)
    (inodes : t.inodes = s.inodes)
    (cwd : t.cwd = s.cwd)
    (referenced : 0 < t.refs r.inum) :
    Relinked s (t.remove r) r none := by
  have distinct := removes.dp_ne_inum sound
  rw [remove_eq referenced, inodes]
  refine ⟨cwd, ⟨r.cleared, ?_, ?_⟩, ?_, nofun, ?_⟩
  · exact dirAt_eq_some_iff.mpr ⟨⟨.dir r.cleared, _⟩,
      (update_of_ne distinct _ _).trans (update_self _ _ _), rfl⟩
  · exact dirlookup_cleared (sound.distinct removes.dirAt_parent) r.name
  · intro ip used
    dsimp only at used
    rw [update_self] at used
    obtain rfl := Option.some.inj used
    rfl
  · intro inum notParent notOld _
    exact (update_of_ne notOld _ _).trans (update_of_ne notParent _ _)

/-! ## Creating -/

theorem free_of_ialloc (allocated : s.ialloc = some inum) :
    s.inodes inum = none ∧ inum ≠ 0 := by
  have free := List.find?_some allocated
  have member := List.mem_range'_1.mp (List.mem_of_find?_eq_some allocated)
  exact ⟨Option.isNone_iff_eq_none.mp free, by omega⟩

theorem Removal.exists_empty (found : dirlookup r.entries r.name = some r.inum) :
    ∃ de ∈ r.cleared, de.inum = 0 := by
  refine ⟨.empty, ?_, rfl⟩
  rw [Removal.cleared]
  exact List.mem_set (dirIndex_lt found) _

/-- The directory of a removed name takes a new entry without growing. -/
theorem createFile_removed
    (found : dirlookup r.entries r.name = some r.inum)
    (bounded : direntSize * r.entries.length ≤ MAXFILE * BSIZE) :
    createFile r.dp parent r.cleared r.name s = match s.ialloc with
      | none => .error ⟨"ialloc: no inodes", s⟩
      | some inum =>
        .ok (some inum, { s with
            inodes := update (update s.inodes inum (some ⟨.file [], 1⟩))
              r.dp (some { parent with node := .dir (dirlink r.cleared r.name inum) }) }) := by
  unfold createFile
  cases s.ialloc with
  | none => rfl
  | some inum =>
    have length := length_dirlink (Removal.exists_empty found) r.name inum
    have same : r.cleared.length = r.entries.length := List.length_set
    dsimp only
    rw [length, if_neg (by rw [same]; omega), if_neg (by omega), Nat.add_sub_cancel]

/-- `open` with `O_CREATE` after the name has been removed: the ways it can go. -/
inductive Recreates (s t : Store) (path : Path) (r : Removal) : Prop where
  /-- The path does not lead there any more: it led through the directory that has been
  removed. -/
  | lost
      (directory : s.dirAt r.inum ≠ none)
      (stuck : create path t = .ok (none, t) ∨ ∃ text, create path t = .error ⟨text, t⟩)
  | full
      (none : t.ialloc = none)
      (stuck : create path t = .error ⟨"ialloc: no inodes", t⟩)
  | created {inum : Nat} {u : Store}
      (allocated : t.ialloc = some inum)
      (created : create path t = .ok (some inum, u))
      (memory : u = { t with inodes := u.inodes })
      (empty : u.inodes inum = some ⟨.file [], 1⟩)
      (present : u.inodes r.inum ≠ none)
      (relinked : Relinked s u r (some inum))

/-- The new name after `create`. -/
theorem Relinked.create
    (relinked : Relinked s t r none)
    (parent : t.inodes r.dp = some ⟨.dir r.cleared, nlink⟩)
    (absent : dirlookup r.cleared r.name = none)
    (used : t.inodes r.inum ≠ none)
    (distinct : r.dp ≠ r.inum)
    (allocated : t.ialloc = some inum) :
    Relinked s
      { t with
        inodes := update (update t.inodes inum (some ⟨.file [], 1⟩))
          r.dp (some ⟨.dir (dirlink r.cleared r.name inum), nlink⟩) }
      r (some inum) := by
  obtain ⟨free, nonzero⟩ := free_of_ialloc allocated
  have notParent : inum ≠ r.dp := by
    rintro rfl
    rw [parent] at free
    nomatch free
  have notOld : inum ≠ r.inum := by
    rintro rfl
    exact used free
  have looks : ∀ name, dirlookup r.cleared name =
      if namecmp name r.name = 0 then none else dirlookup r.entries name := by
    obtain ⟨entries, here, looks⟩ := relinked.parent
    have same : t.dirAt r.dp = some r.cleared := dirAt_eq_some_iff.mpr ⟨_, parent, rfl⟩
    obtain rfl := Option.some.inj (here.symm.trans same)
    exact looks
  refine ⟨relinked.cwd, ⟨dirlink r.cleared r.name inum, ?_, fun name => ?_⟩, ?_, ?_, ?_⟩
  · exact dirAt_eq_some_iff.mpr ⟨⟨.dir (dirlink r.cleared r.name inum), nlink⟩,
      update_self _ _ _, rfl⟩
  · rw [dirlookup_dirlink absent nonzero, looks]
    split <;> rfl
  · intro ip before
    dsimp only at before
    rw [update_of_ne distinct.symm, update_of_ne notOld.symm] at before
    exact relinked.old ip before
  · intro other target
    obtain rfl := Option.some.inj target
    refine ⟨?_, [], ?_⟩
    · rw [← relinked.others inum notParent notOld nofun]
      exact free
    · exact (update_of_ne notParent _ _).trans (update_self _ _ _)
  · intro other parentOther oldOther newOther
    have different : other ≠ inum := fun same => newOther (congrArg some same.symm)
    dsimp only
    rw [update_of_ne parentOther, update_of_ne different]
    exact relinked.others other parentOther oldOther nofun

/-- What `create` does after the name has been removed. -/
theorem recreates
    (sound : s.Sound)
    (removes : Removes s path r)
    (inodes : t.inodes = s.inodes)
    (cwd : t.cwd = s.cwd)
    (referenced : 0 < t.refs r.inum) :
    Recreates s (t.remove r) path r := by
  have relinked := relinked_remove sound removes inodes cwd referenced
  have distinct := removes.dp_ne_inum sound
  obtain ⟨nlink, parent⟩ : ∃ nlink, (t.remove r).inodes r.dp = some ⟨.dir r.cleared, nlink⟩ := by
    rw [remove_eq referenced]
    exact ⟨_, (update_of_ne distinct _ _).trans (update_self _ _ _)⟩
  have used : (t.remove r).inodes r.inum ≠ none := by
    rw [remove_eq referenced]
    dsimp only
    rw [update_self]
    simp
  have absent : dirlookup r.cleared r.name = none := by
    rw [Removal.cleared, dirlookup_cleared (sound.distinct removes.dirAt_parent),
      if_pos ((namecmp_eq_zero_iff _ _).mpr rfl)]
  have survives : s.dirAt r.inum = none →
      (t.remove r).nameiparent path = .ok (some (r.dp, r.name)) := fun plain =>
    (relinked.offers removes plain).nameiparent relinked.cwd removes.reached
  generalize t.remove r = u at relinked parent used survives
  cases reached : u.nameiparent path with
  | error text =>
    refine .lost (fun plain => ?_) (.inr ⟨text, Run.bind_of_error (look_error reached)⟩)
    rw [survives plain] at reached
    cases reached
  | ok result =>
    have looked : look (·.nameiparent path) u = .ok (result, u) := look_ok reached
    cases result with
    | none =>
      refine .lost (fun plain => ?_) (.inl (Run.bind_of_ok looked))
      rw [survives plain] at reached
      cases reached
    | some place =>
      have before := (relinked.offers_back removes).nameiparent relinked.cwd.symm reached
      obtain rfl := Option.some.inj (Except.ok.inj (before.symm.trans removes.reached))
      have locked : look (·.ilock r.dp) u = .ok (⟨.dir r.cleared, nlink⟩, u) :=
        look_ok (by rw [ilock, parent])
      have made : create path u = createFile r.dp ⟨.dir r.cleared, nlink⟩ r.cleared r.name u := by
        rw [create, Run.bind_of_ok looked]
        dsimp only
        rw [Run.bind_of_ok locked]
        dsimp only
        rw [absent]
      have bounded := sound.bounded removes.parent
      rw [removes.directory] at bounded
      rw [createFile_removed removes.found bounded] at made
      cases allocated : u.ialloc with
      | none =>
        rw [allocated] at made
        exact .full allocated made
      | some inum =>
        rw [allocated] at made
        have free := (free_of_ialloc allocated).1
        have notParent : inum ≠ r.dp := by
          rintro rfl
          rw [parent] at free
          cases free
        have notOld : r.inum ≠ inum := by
          rintro rfl
          exact used free
        refine .created allocated made rfl ?_ ?_
          (relinked.create parent absent used distinct allocated)
        · exact (update_of_ne notParent _ _).trans (update_self _ _ _)
        · dsimp only
          rw [update_of_ne distinct.symm, update_of_ne notOld]
          exact used

end Store
end Xv6
