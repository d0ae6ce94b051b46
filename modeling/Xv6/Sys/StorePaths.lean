import Xv6.Sys.Store

/-!
# Names and paths of a store

What `dirlookup` finds after an entry has been cleared or written, and how far the
result of a path depends on the directories it leads through.
-/

namespace Xv6
namespace Store

/-! ## Entries -/

theorem namecmp_eq_zero_iff (name other : Name) :
    namecmp name other = 0 ↔ strncpy name DIRSIZ = strncpy other DIRSIZ :=
  strncmp_eq_zero_iff DIRSIZ name other

theorem Dirent.hasName_iff (name : Name) (de : Dirent) :
    de.hasName name = true ↔ de.inum ≠ 0 ∧ strncpy name DIRSIZ = strncpy de.name DIRSIZ := by
  rw [Dirent.hasName, Bool.and_eq_true, bne_iff_ne, beq_iff_eq, namecmp_eq_zero_iff]

@[simp] theorem Dirent.hasName_empty (name : Name) : Dirent.empty.hasName name = false := rfl

/-- The names of a directory are distinct. -/
def Distinct (entries : List Dirent) : Prop :=
  entries.Pairwise fun de other =>
    de.inum ≠ 0 → other.inum ≠ 0 → strncpy de.name DIRSIZ ≠ strncpy other.name DIRSIZ

@[simp] theorem dirlookup_nil (name : Name) : dirlookup [] name = none := rfl

theorem dirlookup_cons
    (de : Dirent)
    (entries : List Dirent)
    (name : Name) :
    dirlookup (de :: entries) name =
      if de.hasName name = true then some de.inum else dirlookup entries name := by
  unfold dirlookup
  rw [List.find?_cons]
  cases de.hasName name <;> rfl

variable {entries : List Dirent} {name : Name} {inum : Nat} {s t : Store} {previous : Name}
  {path : Path} {found : Nat × Name}

/-- What is found is the inode of an entry with the name. -/
theorem exists_of_dirlookup (found : dirlookup entries name = some inum) :
    ∃ de ∈ entries, de.inum = inum ∧ strncpy name DIRSIZ = strncpy de.name DIRSIZ := by
  obtain ⟨de, first, number⟩ := Option.map_eq_some_iff.mp found
  exact ⟨de, List.mem_of_find?_eq_some first, number,
    ((Dirent.hasName_iff name de).mp (List.find?_some first)).2⟩

/-- A name that no entry has is not found. -/
theorem dirlookup_eq_none_iff :
    dirlookup entries name = none ↔ ∀ de ∈ entries, de.hasName name = false := by
  rw [dirlookup, Option.map_eq_none_iff, List.find?_eq_none]
  simp only [Bool.not_eq_true]

/-- After an entry has been cleared, its name is not found, and every other name is. -/
theorem dirlookup_cleared
    (distinct : Distinct entries)
    (name other : Name) :
    dirlookup (entries.set (dirIndex entries name) .empty) other =
      if namecmp other name = 0 then none else dirlookup entries other := by
  simp only [namecmp_eq_zero_iff]
  induction entries with
  | nil => simp
  | cons de entries ih =>
    obtain ⟨apart, rest⟩ := List.pairwise_cons.mp distinct
    by_cases here : de.hasName name = true
    · have index : dirIndex (de :: entries) name = 0 := by
        rw [dirIndex, List.findIdx_cons, here, cond_true]
      obtain ⟨used, same⟩ := (Dirent.hasName_iff name de).mp here
      rw [index, List.set_cons_zero, dirlookup_cons, dirlookup_cons, Dirent.hasName_empty,
        if_neg Bool.false_ne_true]
      split
      · rename_i equal
        -- the other entries have other names
        refine dirlookup_eq_none_iff.mpr fun another member => ?_
        rw [← Bool.not_eq_true, Dirent.hasName_iff]
        rintro ⟨usedToo, sameToo⟩
        exact apart another member used usedToo (by rw [← same, ← equal, sameToo])
      · rename_i different
        rw [if_neg]
        rw [Dirent.hasName_iff]
        rintro ⟨_, equal⟩
        exact different (by rw [equal, same])
    · have index : dirIndex (de :: entries) name = dirIndex entries name + 1 := by
        rw [dirIndex, List.findIdx_cons, (Bool.not_eq_true _).mp here, cond_false]
        rfl
      rw [index, List.set_cons_succ, dirlookup_cons, dirlookup_cons, ih rest]
      by_cases match_ : de.hasName other = true
      · rw [if_pos match_, if_pos match_, if_neg]
        intro equal
        rw [Dirent.hasName_iff] at here match_
        exact here ⟨match_.1, by rw [← equal, match_.2]⟩
      · rw [if_neg match_, if_neg match_]

theorem dirlink_cons
    (de : Dirent)
    (entries : List Dirent)
    (name : Name)
    (inum : Nat) :
    dirlink (de :: entries) name inum = if de.inum = 0 then ⟨inum, strncpy name DIRSIZ⟩ :: entries
      else de :: dirlink entries name inum := by
  unfold dirlink
  by_cases free : de.inum = 0
  · simp [List.findIdx_cons, free]
  · have used : (de.inum == 0) = false := by simpa using free
    simp only [List.findIdx_cons, used, cond_false, List.length_cons, Nat.add_lt_add_iff_right,
      List.set_cons_succ, List.cons_append, if_neg free]
    split <;> rfl

/-- After an entry has been written, its name leads to the new inode, and every other name
where it led before. -/
theorem dirlookup_dirlink
    (absent : dirlookup entries name = none)
    (used : inum ≠ 0)
    (other : Name) :
    dirlookup (dirlink entries name inum) other =
      if namecmp other name = 0 then some inum else dirlookup entries other := by
  have new : Dirent.hasName other ⟨inum, strncpy name DIRSIZ⟩ = true ↔
      strncpy other DIRSIZ = strncpy name DIRSIZ := by
    rw [Dirent.hasName_iff, strncpy_strncpy]
    exact and_iff_right used
  simp only [namecmp_eq_zero_iff]
  induction entries with
  | nil =>
    rw [show dirlink [] name inum = [⟨inum, strncpy name DIRSIZ⟩] from rfl, dirlookup_cons]
    simp only [new]
  | cons de entries ih =>
    rw [dirlookup_cons] at absent
    have hidden : ¬de.hasName name = true := by
      intro here
      rw [if_pos here] at absent
      nomatch absent
    rw [if_neg hidden] at absent
    rw [dirlink_cons]
    split
    · rename_i free
      have unused : ¬de.hasName other = true := by
        rw [Dirent.hasName_iff]
        exact fun both => both.1 free
      rw [dirlookup_cons, dirlookup_cons, if_neg unused]
      simp only [new]
    · rw [dirlookup_cons, dirlookup_cons, ih absent]
      by_cases match_ : de.hasName other = true
      · rw [if_pos match_, if_pos match_, if_neg]
        intro equal
        rw [Dirent.hasName_iff] at hidden match_
        exact hidden ⟨match_.1, by rw [← equal, match_.2]⟩
      · rw [if_neg match_, if_neg match_]

/-- A directory with an empty entry does not grow. -/
theorem length_dirlink
    (spare : ∃ de ∈ entries, de.inum = 0)
    (name : Name)
    (inum : Nat) :
    (dirlink entries name inum).length = entries.length := by
  have inside : (entries.findIdx fun de => de.inum == 0) < entries.length :=
    List.findIdx_lt_length.mpr (by simpa using spare)
  simp only [dirlink, if_pos inside, List.length_set]

theorem dirIndex_lt (found : dirlookup entries name = some inum) :
    dirIndex entries name < entries.length := by
  obtain ⟨de, first, _⟩ := Option.map_eq_some_iff.mp found
  exact List.findIdx_lt_length.mpr ⟨de, List.mem_of_find?_eq_some first, List.find?_some first⟩

/-! ## Paths -/

/-- The entries of a directory. -/
def dirAt (s : Store) (inum : Nat) : Option (List Dirent) :=
  match s.inodes inum with
  | some ⟨.dir entries, _⟩ => some entries
  | _ => none

theorem dirAt_eq_some_iff :
    s.dirAt inum = some entries ↔ ∃ ip, s.inodes inum = some ip ∧ ip.node = .dir entries := by
  unfold dirAt
  split
  · rename_i found nlink used
    simp [used]
  · rename_i other
    refine iff_of_false nofun ?_
    rintro ⟨⟨_, nlink⟩, used, rfl⟩
    exact other entries nlink used

theorem dirAt_congr (same : t.inodes inum = s.inodes inum) :
    t.dirAt inum = s.dirAt inum := by
  unfold dirAt
  rw [same]

/-- What a lookup depends on. -/
theorem namexLoop_congr
    (same : t.inodes = s.inodes)
    (parent : Bool)
    (elements : List Name)
    (inum : Nat)
    (name : Name) :
    t.namexLoop parent elements inum name = s.namexLoop parent elements inum name := by
  induction elements generalizing inum name with
  | nil => rfl
  | cons element rest ih =>
    simp only [namexLoop, ilock, same, ih]

theorem nameiparent_congr
    (same : t.inodes = s.inodes)
    (cwd : t.cwd = s.cwd)
    (path : Path) :
    t.nameiparent path = s.nameiparent path := by
  rw [nameiparent, nameiparent, start, start, cwd, namexLoop_congr same]

/-- One step of a lookup that succeeds. -/
theorem namexLoop_cons_iff :
    s.namexLoop parent (name :: rest) inum previous = .ok (some found) ↔
      ∃ entries, s.dirAt inum = some entries ∧ ((parent = true ∧ rest = []) ∧ found = (inum, name) ∨
          ¬(parent = true ∧ rest = []) ∧ ∃ next, dirlookup entries name = some next ∧
            s.namexLoop parent rest next name = .ok (some found)) := by
  cases used : s.inodes inum with
  | none =>
    refine iff_of_false ?_ ?_
    · simp [namexLoop, ilock, used, bind, Except.bind]
    · simp [dirAt, used]
  | some ip =>
    obtain ⟨node, nlink⟩ := ip
    cases node with
    | dir entries =>
      have here : s.dirAt inum = some entries := by simp [dirAt, used]
      by_cases last : parent = true ∧ rest = []
      · simp [namexLoop, ilock, used, bind, Except.bind, here, last, pure, Except.pure, eq_comm]
      · have more : (parent && rest.isEmpty) = false := by
          rw [← Bool.not_eq_true, Bool.and_eq_true, List.isEmpty_iff]
          exact last
        cases next : dirlookup entries name <;>
          simp [namexLoop, ilock, used, bind, Except.bind, here, next, last, more, pure,
            Except.pure]
    | file contents =>
      refine iff_of_false ?_ ?_
      · simp [namexLoop, ilock, used, bind, Except.bind, pure, Except.pure]
      · simp [dirAt, used]
    | dev major minor =>
      refine iff_of_false ?_ ?_
      · simp [namexLoop, ilock, used, bind, Except.bind, pure, Except.pure]
      · simp [dirAt, used]

/-- A lookup finds an inode in the parent that it would find. -/
theorem namexLoop_found_iff :
    s.namexLoop false (name :: rest) inum previous = .ok (some found) ↔
      ∃ dp entries, s.namexLoop true (name :: rest) inum previous = .ok (some (dp, found.2)) ∧
        s.dirAt dp = some entries ∧ dirlookup entries found.2 = some found.1 := by
  induction rest generalizing name previous inum with
  | nil =>
    rw [namexLoop_cons_iff]
    constructor
    · rintro ⟨entries, here, ⟨⟨impossible, _⟩, _⟩ | ⟨_, next, looked, equal⟩⟩
      · nomatch impossible
      · obtain rfl : (next, name) = found := Option.some.inj (Except.ok.inj equal)
        exact ⟨inum, entries, namexLoop_cons_iff.mpr ⟨entries, here, .inl ⟨⟨rfl, rfl⟩, rfl⟩⟩,
          here, looked⟩
    · rintro ⟨dp, entries, reached, here, looked⟩
      obtain ⟨_, _, ⟨_, equal⟩ | ⟨more, _⟩⟩ := namexLoop_cons_iff.mp reached
      · obtain ⟨rfl, same⟩ := Prod.mk.inj equal
        refine ⟨entries, here, .inr ⟨by simp, found.1, same ▸ looked, ?_⟩⟩
        rw [← same]
        rfl
      · exact absurd ⟨rfl, rfl⟩ more
  | cons second rest ih =>
    rw [namexLoop_cons_iff]
    simp only [ih]
    constructor
    · rintro ⟨entries, here, ⟨⟨absurd, _⟩, _⟩ | ⟨_, next, looked, dp, below, reached, held, final⟩⟩
      · nomatch absurd
      · exact ⟨dp, below, namexLoop_cons_iff.mpr
          ⟨entries, here, .inr ⟨by simp, next, looked, reached⟩⟩, held, final⟩
    · rintro ⟨dp, below, reached, held, final⟩
      obtain ⟨entries, here, ⟨⟨_, impossible⟩, _⟩ | ⟨_, next, looked, reached⟩⟩ :=
        namexLoop_cons_iff.mp reached
      · nomatch impossible
      · exact ⟨entries, here, .inr ⟨by simp, next, looked, dp, below, reached, held, final⟩⟩

theorem pathElements_ne_nil_of_nameiparent (reached : s.nameiparent path = .ok (some found)) :
    pathElements path ≠ [] := by
  intro empty
  rw [nameiparent, empty] at reached
  nomatch reached

/-- `namei` finds what the parent has under the last element. -/
theorem namei_eq_iff (elements : pathElements path ≠ []) :
    s.namei path = .ok (some inum) ↔ ∃ dp name entries, s.nameiparent path = .ok (some (dp, name)) ∧
        s.dirAt dp = some entries ∧ dirlookup entries name = some inum := by
  obtain ⟨name, rest, equal⟩ := List.exists_cons_of_ne_nil elements
  rw [namei, nameiparent, equal]
  constructor
  · intro found
    cases looked : s.namexLoop false (name :: rest) (s.start path) [] with
    | error text =>
      rw [looked] at found
      nomatch found
    | ok result =>
      rw [looked] at found
      obtain ⟨⟨_, last⟩, rfl, rfl⟩ := Option.map_eq_some_iff.mp (Except.ok.inj found)
      obtain ⟨dp, entries, reached, held, final⟩ := namexLoop_found_iff.mp looked
      exact ⟨dp, last, entries, reached, held, final⟩
  · rintro ⟨dp, last, entries, reached, held, final⟩
    have looked : s.namexLoop false (name :: rest) (s.start path) [] = .ok (some (inum, last)) :=
      namexLoop_found_iff.mpr ⟨dp, entries, reached, held, final⟩
    rw [looked]
    rfl

/-- Every directory is there, and lets lookups through to directories as before. -/
def Offers (s t : Store) : Prop :=
  ∀ inum entries, s.dirAt inum = some entries → ∃ later, t.dirAt inum = some later ∧
      ∀ name next, dirlookup entries name = some next → (s.dirAt next).isSome = true →
        dirlookup later name = some next

/-- A parent that is found is found where directories offer what they did. -/
theorem Offers.namexLoop
    (offers : Offers s t)
    {elements : List Name}
    (reached : s.namexLoop true elements inum previous = .ok (some found)) :
    t.namexLoop true elements inum previous = .ok (some found) := by
  induction elements generalizing inum previous with
  | nil => nomatch reached
  | cons name rest ih =>
    obtain ⟨entries, here, step⟩ := namexLoop_cons_iff.mp reached
    obtain ⟨later, there, through⟩ := offers inum entries here
    refine namexLoop_cons_iff.mpr ⟨later, there, ?_⟩
    rcases step with last | ⟨more, next, looked, onward⟩
    · exact .inl last
    · refine .inr ⟨more, next, through name next looked ?_, ih onward⟩
      -- the next inode is looked into, so it is a directory
      obtain ⟨second, others, rfl⟩ :=
        List.exists_cons_of_ne_nil (fun empty => more ⟨rfl, empty⟩)
      obtain ⟨below, directory, _⟩ := namexLoop_cons_iff.mp onward
      rw [directory]
      rfl

theorem Offers.nameiparent
    (offers : Offers s t)
    (cwd : t.cwd = s.cwd)
    (reached : s.nameiparent path = .ok (some found)) :
    t.nameiparent path = .ok (some found) := by
  have start : t.start path = s.start path := by rw [start, start, cwd]
  rw [Store.nameiparent, start]
  exact offers.namexLoop reached

/-! ## What a path names -/

/-- The inode that a path names. -/
def named (s : Store) (path : Path) : Option Node :=
  match s.namei path with
  | .ok (some inum) => (s.inodes inum).map Inode.node
  | _ => none

theorem named_congr
    (same : t.inodes = s.inodes)
    (cwd : t.cwd = s.cwd)
    (path : Path) :
    t.named path = s.named path := by
  simp only [named, namei, start, cwd, same, namexLoop_congr same]

theorem named_eq_some_iff :
    s.named path = some node ↔
      ∃ inum ip, s.namei path = .ok (some inum) ∧ s.inodes inum = some ip ∧ ip.node = node := by
  unfold named
  split
  · rename_i inum found
    rw [Option.map_eq_some_iff]
    constructor
    · rintro ⟨ip, used, rfl⟩
      exact ⟨inum, ip, found, used, rfl⟩
    · rintro ⟨other, ip, same, used, rfl⟩
      obtain rfl := Option.some.inj (Except.ok.inj (found.symm.trans same))
      exact ⟨ip, used, rfl⟩
  · rename_i other
    refine iff_of_false nofun ?_
    rintro ⟨inum, ip, found, _⟩
    exact other inum found

end Store
end Xv6
