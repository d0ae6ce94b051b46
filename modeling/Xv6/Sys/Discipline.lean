import Xv6.Sys.Calls

/-!
# What calls hold

The discipline of the file system calls: which references, locks and open files
a call in progress holds, what each operation requires of them and how its
result changes them.  Every call follows the discipline, whatever its
operations return, and holds nothing when it returns.
-/

namespace Xv6

open Function
open Interleaving
open Interleaving.Program (perform)

/-! ## Views -/

/-- A process that `fork` is making. -/
structure Child where
  pid : Pid
  copied : Finset Fd
  /-- Whether the current directory has been copied. -/
  cwd : Bool

/-- What a call in progress holds. -/
@[ext] structure View where
  trans : Bool
  /-- References to inodes, by entries of the cache. -/
  refs : Slot → Nat
  locks : Slot → Nat
  freeing : Option Slot
  files : FileId → Nat
  /-- Files that the call has allocated and not filled in yet. -/
  fresh : FileId → Bool
  /-- The file of a descriptor that the call is about. -/
  pinned : Option FileId
  pinnedIp : Option Slot
  /-- The end of a pipe that `fileclose` is closing. -/
  closing : Option (Nat × Bool)
  /-- The descriptor whose reference the call has taken to close it. -/
  taken : Option Fd
  /-- The descriptor to which the call has last handed a reference. -/
  placed : Option (Fd × FileId)
  /-- The descriptor for which `dup` still has to take a reference. -/
  owed : Option (Fd × FileId)
  /-- Descriptors that the call has seen or made empty. -/
  closed : Finset Fd
  /-- The call has taken the reference of the current directory to put it. -/
  cwdTaken : Bool
  child : Option Child

namespace View

/-- Between calls. -/
def idle : View where
  trans := false
  refs := 0
  locks := 0
  freeing := none
  files := 0
  fresh := fun _ => false
  pinned := none
  pinnedIp := none
  closing := none
  taken := none
  placed := none
  owed := none
  closed := ∅
  cwdTaken := false
  child := none

/-- A call holds nothing that it would have to give back. -/
structure Settled (own : View) : Prop where
  /-- No transaction. -/
  trans : own.trans = false
  /-- No reference to an inode. -/
  refs : own.refs = 0
  /-- No lock. -/
  locks : own.locks = 0
  /-- No inode is being freed. -/
  freeing : own.freeing = none
  /-- No reference to a file. -/
  files : own.files = 0
  /-- No file is half made. -/
  fresh : own.fresh = fun _ => false
  /-- No pipe is being closed. -/
  closing : own.closing = none
  /-- No descriptor is being closed. -/
  taken : own.taken = none
  /-- No descriptor lacks its reference. -/
  owed : own.owed = none
  /-- The current directory has its reference. -/
  cwdTaken : own.cwdTaken = false
  /-- No process is being made. -/
  child : own.child = none

/-- One more reference to an inode. -/
def addRef (own : View) (ip : Slot) : View :=
  { own with refs := own.refs + Pi.single ip 1 }

/-- One reference to an inode less. -/
def dropRef (own : View) (ip : Slot) : View :=
  { own with refs := own.refs - Pi.single ip 1 }

/-- One more lock. -/
def lock (own : View) (ip : Slot) : View :=
  { own with locks := own.locks + Pi.single ip 1 }

/-- One lock less. -/
def unlock (own : View) (ip : Slot) : View :=
  { own with locks := own.locks - Pi.single ip 1 }

/-- One more reference to a file. -/
def addFile (own : View) (f : FileId) : View :=
  { own with files := own.files + Pi.single f 1 }

/-- One reference to a file less. -/
def dropFile (own : View) (f : FileId) : View :=
  { own with files := own.files - Pi.single f 1 }

/-- A file is no longer half made. -/
def unfresh (own : View) (f : FileId) : View :=
  { own with fresh := update own.fresh f false }

/-- References that the file of a descriptor has for the call. -/
def pins (own : View) (ip : Slot) : Nat := if own.pinnedIp = some ip then 1 else 0

/-- The call can put a reference to an inode and keep its locks covered. -/
def Spare (own : View) (ip : Slot) : Prop := own.locks ip < own.refs ip

/-- What closing a file leaves to the call. -/
def closes (own : View) : Closing → View
  | .nothing => own
  | .inode ip => own.addRef ip
  | .pipe p writable => { own with closing := some (p, writable) }

/-- A descriptor has got a file: with the reference of the call, or on credit. -/
def place (own : View) (f : FileId) (fd : Fd) : View :=
  if 0 < own.files f then
    { own.dropFile f with placed := some (fd, f), closed := own.closed.erase fd }
  else { own with owed := some (fd, f), closed := own.closed.erase fd }

/-- A descriptor has been cleared: one that the call has taken, or one to which
it has just handed a reference, which is the call's again. -/
def clear (own : View) (fd : Fd) : View :=
  if own.taken = some fd then
    { own with taken := none, closed := insert fd own.closed }
  else
    match own.placed with
    | some (_, f) =>
      { own.addFile f with placed := none, closed := insert fd own.closed }
    | none => own

end View

/-! ## The discipline -/

/-- What an operation requires of the view. -/
def Op.Requires (own : View) : {β : Type} → Op β → Prop
  | _, .beginTrans => own.trans = false
  | _, .commitTrans => own.trans = true
  | _, .igetRoot => True
  | _, .idupCwd => own.cwdTaken = false
  | _, .ilock ip => own.locks ip < own.refs ip + own.pins ip
  | _, .iunlock ip => 0 < own.locks ip
  | _, .iputBegin ip => own.Spare ip ∧ own.freeing = none
  | _, .iputFree ip => own.freeing = some ip ∧ 0 < own.locks ip ∧ 0 < own.refs ip
  | _, .stat ip => 0 < own.locks ip
  | _, .dirlookup dp _ => 0 < own.locks dp
  | _, .dirlinkWrite dp _ ip =>
    own.trans = true ∧ 0 < own.locks dp ∧ 0 < own.refs ip
  | _, .isdirempty dp => 0 < own.locks dp
  | _, .clearEntry dp _ => own.trans = true ∧ 0 < own.locks dp
  | _, .ialloc _ => own.trans = true
  | _, .setNew ip _ _ => own.trans = true ∧ 0 < own.locks ip
  | _, .incNlink ip => own.trans = true ∧ 0 < own.locks ip
  | _, .decNlink ip => own.trans = true ∧ 0 < own.locks ip
  | _, .readi ip _ _ => 0 < own.locks ip
  | _, .filealloc => True
  | _, .fdalloc f =>
    (0 < own.files f ∨ own.pinned = some f) ∧ own.owed = none ∧ own.taken = none
  | _, .filedup f => own.fresh f = false ∧ ∃ fd, own.owed = some (fd, f)
  | _, .fdFile _ =>
    own.taken = none ∧ own.owed = none ∧ ∀ ip, own.locks ip ≤ own.refs ip
  | _, .fdTake _ =>
    own.taken = none ∧ own.owed = none ∧ own.pinned = none ∧ own.placed = none
  | _, .fdClear fd =>
    own.owed = none ∧ own.pinned = none ∧
      (own.taken = some fd ∨ own.taken = none ∧ ∃ f, own.placed = some (fd, f))
  | _, .file f => own.pinned = some f ∧ ∀ ip, own.locks ip ≤ own.refs ip
  | _, .fileInit f ip _ _ => own.fresh f = true ∧ own.Spare ip
  | _, .pipeInit rf wf =>
    own.fresh rf = true ∧ own.fresh wf = true ∧ 0 < own.files rf ∧ 0 < (own.dropFile rf).files wf
  | _, .pipeclose p writable => own.closing = some (p, writable)
  | _, .fileDrop f => 0 < own.files f ∧ own.closing = none
  | _, .fileReadi f _ =>
    own.pinned = some f ∧ ∃ ip, own.pinnedIp = some ip ∧ 0 < own.locks ip
  | _, .fileWritei f _ =>
    own.trans = true ∧ own.pinned = some f ∧ ∃ ip, own.pinnedIp = some ip ∧ 0 < own.locks ip
  | _, .fileAdvance f _ => own.pinned = some f
  | _, .cwd => own.cwdTaken = false
  | _, .setCwd ip => own.cwdTaken = true ∧ own.Spare ip
  | _, .allocproc _ => own.child = none
  | _, .forkAbort child => own.child = some ⟨child, ∅, false⟩
  | _, .forkFile child fd =>
    own.taken = none ∧ own.owed = none ∧ own.fresh = (fun _ => false) ∧
      ∃ np, own.child = some np ∧ np.pid = child ∧ fd ∉ np.copied
  | _, .forkCwd child =>
    own.cwdTaken = false ∧ ∃ np, own.child = some np ∧ np.pid = child ∧ np.cwd = false
  | _, .forkEnd child => ∃ np, own.child = some np ∧ np.pid = child
  | _, .gone =>
    own.cwdTaken = true ∧ own.closed = Finset.univ ∧ ({ own with cwdTaken := false } : View).Settled
  | _, .panic text => text ≠ "iput busy"

/-- The view after an operation with a result. -/
def Op.after (own : View) : {β : Type} → Op β → β → View
  | _, .beginTrans, _ => { own with trans := true }
  | _, .commitTrans, _ => { own with trans := false }
  | _, .igetRoot, ip => own.addRef ip
  | _, .idupCwd, ip => own.addRef ip
  | _, .ilock ip, _ => own.lock ip
  | _, .iunlock ip, _ => own.unlock ip
  | _, .iputBegin ip, freed =>
    if freed then { own.lock ip with freeing := some ip } else own.dropRef ip
  | _, .iputFree ip, _ => { (own.unlock ip).dropRef ip with freeing := none }
  | _, .dirlookup _ _, found =>
    match found with
    | some (ip, _) => own.addRef ip
    | none => own
  | _, .ialloc _, ip => own.addRef ip
  | _, .filealloc, found =>
    match found with
    | some f => { own.addFile f with fresh := update own.fresh f true }
    | none => own
  | _, .fdalloc f, found =>
    match found with
    | some fd => own.place f fd
    | none => own
  | _, .filedup _, _ => { own with owed := none }
  | _, .fdFile _, found => { own with pinned := found, pinnedIp := none }
  | _, .fdTake fd, found =>
    match found with
    | some f => { own.addFile f with taken := some fd }
    | none => { own with closed := insert fd own.closed }
  | _, .fdClear fd, _ => own.clear fd
  | _, .file _, entry =>
    { own with pinnedIp := if entry.type = .inode then some entry.ip else none }
  | _, .fileInit f ip _ _, _ => (own.dropRef ip).unfresh f
  | _, .pipeInit rf wf, _ => (own.unfresh rf).unfresh wf
  | _, .pipeclose _ _, _ => { own with closing := none }
  | _, .fileDrop f, left => ((own.dropFile f).unfresh f).closes left
  | _, .cwd, found =>
    match found with
    | some ip => { own.addRef ip with cwdTaken := true }
    | none => { own with cwdTaken := true }
  | _, .setCwd ip, _ => { own.dropRef ip with cwdTaken := false }
  | _, .allocproc child, made =>
    if made then { own with child := some ⟨child, ∅, false⟩ } else own
  | _, .forkAbort _, _ => { own with child := none }
  | _, .forkFile _ fd, _ =>
    { own with child := own.child.map fun np =>
        { np with copied := insert fd np.copied } }
  | _, .forkCwd _, _ =>
    { own with child := own.child.map fun np => { np with cwd := true } }
  | _, .forkEnd _, _ => { own with child := none }
  | _, .gone, _ => View.idle
  | _, _, _ => own

/-- The discipline of the file system calls. -/
def discipline : Discipline Op View where
  requires operation own := operation.Requires own
  after operation own result := operation.after own result

/-! ## Views that calls go through -/

namespace View

/-- A reference to an inode, and its lock. -/
def hold (own : View) (ip : Slot) : View := (own.addRef ip).lock ip

/-- Locks are covered by references, and nothing is half done. -/
structure Calm (own : View) : Prop where
  /-- The call has a reference to each inode that it has locked. -/
  covered : ∀ ip, own.locks ip ≤ own.refs ip
  /-- No inode is being freed. -/
  freeing : own.freeing = none
  /-- No pipe is being closed. -/
  closing : own.closing = none

theorem calm_idle : idle.Calm where
  covered _ := Nat.le_refl _
  freeing := rfl
  closing := rfl

section

variable (own : View)

include own

@[simp] theorem dropRef_addRef (ip : Slot) :
    (own.addRef ip).dropRef ip = own := by
  ext slot <;> simp [addRef, dropRef]

@[simp] theorem unlock_lock (ip : Slot) :
    (own.lock ip).unlock ip = own := by
  ext slot <;> simp [lock, unlock]

@[simp] theorem unlock_hold (ip : Slot) :
    (own.hold ip).unlock ip = own.addRef ip :=
  unlock_lock _ ip

@[simp] theorem dropFile_addFile (f : FileId) :
    (own.addFile f).dropFile f = own := by
  ext slot <;> simp [addFile, dropFile]

theorem addRef_comm (ip other : Slot) :
    (own.addRef ip).addRef other = (own.addRef other).addRef ip := by
  ext slot <;> simp [addRef, Nat.add_right_comm]

theorem hold_addRef (ip other : Slot) :
    (own.hold ip).addRef other = (own.addRef other).hold ip :=
  congrArg (fun view => lock view ip) (addRef_comm own ip other)

theorem hold_comm (ip other : Slot) :
    (own.hold ip).hold other = (own.hold other).hold ip := by
  ext slot <;> simp [hold, addRef, lock, Nat.add_right_comm]

theorem addFile_comm (f other : FileId) :
    (own.addFile f).addFile other = (own.addFile other).addFile f := by
  ext slot <;> simp [addFile, Nat.add_right_comm]

end

variable {own : View}

theorem Calm.addRef
    (calm : own.Calm)
    (ip : Slot) :
    (own.addRef ip).Calm where
  covered slot := Nat.le_add_right_of_le (calm.covered slot)
  freeing := calm.freeing
  closing := calm.closing

theorem Calm.hold
    (calm : own.Calm)
    (ip : Slot) :
    (own.hold ip).Calm where
  covered slot := Nat.add_le_add_right (calm.covered slot) _
  freeing := calm.freeing
  closing := calm.closing

theorem Calm.spare
    (calm : own.Calm)
    (ip : Slot) :
    (own.addRef ip).Spare ip := by
  have covered := calm.covered ip
  simp only [Spare, View.addRef, Pi.add_apply, Pi.single_eq_same]
  omega

theorem locks_hold_pos
    (own : View)
    (ip : Slot) :
    0 < (own.hold ip).locks ip := by
  simp [View.hold, lock]

theorem refs_addRef_pos
    (own : View)
    (ip : Slot) :
    0 < (own.addRef ip).refs ip := by
  simp [View.addRef]

/-- The view with a transaction. -/
def inTrans (own : View) : View := { own with trans := true }

theorem Calm.inTrans (calm : own.Calm) :
    own.inTrans.Calm :=
  ⟨calm.covered, calm.freeing, calm.closing⟩

/-- Nothing changes if no file was half made. -/
theorem unfresh_eq
    (none : own.fresh = fun _ => false)
    (f : FileId) :
    own.unfresh f = own := by
  have same : update own.fresh f false = own.fresh := by
    rw [none]
    exact update_eq_self f _
  rw [unfresh, same]

theorem Calm.unfresh
    (calm : own.Calm)
    (f : FileId) :
    (own.unfresh f).Calm :=
  ⟨calm.covered, calm.freeing, calm.closing⟩

theorem clear_placed
    (untaken : own.taken ≠ some fd)
    (placed : own.placed = some (given, f)) :
    own.clear fd = { own.addFile f with placed := none, closed := insert fd own.closed } := by
  rw [clear, if_neg untaken, placed]

theorem Calm.addFile
    (calm : own.Calm)
    (f : FileId) :
    (own.addFile f).Calm :=
  ⟨calm.covered, calm.freeing, calm.closing⟩

theorem Calm.pin
    (calm : own.Calm)
    (ip : Option Slot) :
    ({ own with pinnedIp := ip } : View).Calm :=
  ⟨calm.covered, calm.freeing, calm.closing⟩

end View

/-! ## Functions that follow the discipline -/

namespace Call

variable {own : View}

theorem panic_follows
    (other : text ≠ "iput busy")
    (post : α → View → Prop) :
    (panic text : Call α).Follows discipline own post :=
  ⟨other, fun never => never.elim⟩

theorem ilock_requires
    (calm : own.Calm)
    (ip : Slot) :
    discipline.requires (.ilock ip) (own.addRef ip) :=
  Nat.lt_add_right _ (calm.spare ip)

variable {ip : Slot} {post : Unit → View → Prop} {f : FileId}

theorem iput_follows
    (calm : own.Calm)
    (holds : post () own) :
    (iput ip).Follows discipline (own.addRef ip) post := by
  refine .perform_bind ⟨calm.spare ip, calm.freeing⟩ ?_
  rintro (_ | _)
  · have dropped : discipline.after (.iputBegin ip) (own.addRef ip) false = own :=
      View.dropRef_addRef own ip
    rw [dropped]
    exact holds
  refine .perform ⟨rfl, View.locks_hold_pos own ip, View.refs_addRef_pos own ip⟩ ?_
  intro _
  have freed : discipline.after (.iputFree ip)
      (discipline.after (.iputBegin ip) (own.addRef ip) true) () = own := by
    have quiet := calm.freeing
    ext slot <;> simp [discipline, Op.after, View.addRef, View.lock, View.unlock,
      View.dropRef, quiet]
  rw [freed]
  exact holds

theorem iunlockput_follows
    (calm : own.Calm)
    (holds : post () own) :
    (iunlockput ip).Follows discipline (own.hold ip) post := by
  refine .perform_bind (View.locks_hold_pos own ip) ?_
  intro _
  have unlocked : discipline.after (.iunlock ip) (own.hold ip) () = own.addRef ip :=
    View.unlock_hold own ip
  rw [unlocked]
  exact iput_follows calm holds

theorem dirlink_follows
    (calm : own.Calm)
    (trans : own.trans = true)
    (locked : 0 < own.locks dp)
    (held : 0 < own.refs ip)
    (name : Name)
    {post : Bool → View → Prop}
    (holds : ∀ linked, post linked own) :
    (dirlink dp name ip).Follows discipline own post := by
  refine .perform_bind locked ?_
  rintro (_ | ⟨old, off⟩)
  · exact .perform_bind ⟨trans, locked, held⟩ fun _ => holds true
  · exact .bind (iput_follows calm (holds false))

/-- The loop of `namex` gives back the reference that it starts with and takes
the one that it returns. -/
theorem namexLoop_follows
    (nameiparent : Bool)
    (names : List Name)
    (calm : own.Calm)
    (ip : Slot)
    {post : Option (Slot × Name) → View → Prop}
    (none : post none own)
    (some : ∀ found name, post (some (found, name)) (own.addRef found)) :
    (namexLoop nameiparent ip names).Follows discipline (own.addRef ip) post := by
  induction names generalizing ip with
  | nil =>
    unfold namexLoop
    split
    · exact .bind (iput_follows calm none)
    · exact some ip []
  | cons name rest ih =>
    refine .perform_bind (ilock_requires calm ip) fun _ => ?_
    refine .perform_bind (View.locks_hold_pos own ip) fun din => ?_
    change Program.Follows discipline _ (own.hold ip) post
    split
    · exact .bind (iunlockput_follows calm none)
    split
    · refine .perform_bind (View.locks_hold_pos own ip) fun _ => ?_
      have unlocked : discipline.after (.iunlock ip) (own.hold ip) () = own.addRef ip :=
        View.unlock_hold own ip
      rw [unlocked]
      exact some ip name
    · refine .perform_bind (View.locks_hold_pos own ip) ?_
      rintro (_ | ⟨next, off⟩)
      · exact .bind (iunlockput_follows calm none)
      · have looked : discipline.after (.dirlookup ip name) (own.hold ip)
            (Option.some (next, off)) = (own.addRef next).hold ip :=
          View.hold_addRef own ip next
        rw [looked]
        exact .bind (iunlockput_follows (calm.addRef next) (ih next))

theorem namex_follows
    (path : Path)
    (nameiparent : Bool)
    (calm : own.Calm)
    (cwd : own.cwdTaken = false)
    {post : Option (Slot × Name) → View → Prop}
    (none : post none own)
    (some : ∀ found name, post (some (found, name)) (own.addRef found)) :
    (namex path nameiparent).Follows discipline own post := by
  unfold namex
  split
  · refine .perform_bind True.intro fun ip => ?_
    exact namexLoop_follows nameiparent _ calm ip none some
  · refine .perform_bind cwd fun ip => ?_
    exact namexLoop_follows nameiparent _ calm ip none some

theorem namei_follows
    (path : Path)
    (calm : own.Calm)
    (cwd : own.cwdTaken = false)
    {post : Option Slot → View → Prop}
    (none : post none own)
    (some : ∀ found, post (some found) (own.addRef found)) :
    (namei path).Follows discipline own post :=
  Program.Follows.bind (namex_follows path false calm cwd none fun found _ => some found)

theorem nameiparent_follows
    (path : Path)
    (calm : own.Calm)
    (cwd : own.cwdTaken = false)
    {post : Option (Slot × Name) → View → Prop}
    (none : post none own)
    (some : ∀ found name, post (some (found, name)) (own.addRef found)) :
    (nameiparent path).Follows discipline own post :=
  namex_follows path true calm cwd none some

/-! ### Open files -/

/-- Closing a file gives back the reference, in a transaction of its own. -/
theorem fileclose_follows
    (calm : own.Calm)
    (trans : own.trans = false)
    (holds : post () (own.unfresh f)) :
    (fileclose f).Follows discipline (own.addFile f) post := by
  have held : 0 < (own.addFile f).files f := by simp [View.addFile]
  refine .perform_bind ⟨held, calm.closing⟩ fun left => ?_
  have dropped : discipline.after (.fileDrop f) (own.addFile f) left =
      (own.unfresh f).closes left :=
    congrArg (fun view : View => (view.unfresh f).closes left) (View.dropFile_addFile own f)
  rw [dropped]
  match left with
  | .nothing => exact holds
  | .inode ip =>
    refine .perform_bind trans fun _ => ?_
    refine .bind (iput_follows (calm.unfresh f).inTrans ?_)
    refine .perform rfl fun _ => ?_
    have closed : ({ (own.unfresh f).inTrans with trans := false } : View) = own.unfresh f := by
      change ({ own.unfresh f with trans := false } : View) = own.unfresh f
      rw [← trans]
      rfl
    exact closed ▸ holds
  | .pipe p writable =>
    refine .perform rfl fun _ => ?_
    have closed : ({ own.unfresh f with closing := none } : View) = own.unfresh f := by
      rw [← calm.closing]
      rfl
    exact closed ▸ holds

/-- The file of a descriptor has been looked at. -/
theorem file_follows
    (calm : own.Calm)
    (pinned : own.pinned = some f)
    {next : File → Call α} {post : α → View → Prop}
    (inode : ∀ entry, entry.type = .inode →
      (next entry).Follows discipline { own with pinnedIp := some entry.ip } post)
    (other : ∀ entry, entry.type ≠ .inode →
      (next entry).Follows discipline { own with pinnedIp := none } post) :
    (perform (.file f) >>= next).Follows discipline own post := by
  refine .perform_bind ⟨pinned, calm.covered⟩ fun entry => ?_
  by_cases type : entry.type = .inode
  · have view : discipline.after (.file f) own entry = { own with pinnedIp := some entry.ip } := by
      simp [discipline, Op.after, type]
    rw [view]
    exact inode entry type
  · have view : discipline.after (.file f) own entry = { own with pinnedIp := none } := by
      simp [discipline, Op.after, type]
    rw [view]
    exact other entry type

theorem ilock_pinned_requires
    (calm : own.Calm)
    (pinned : own.pinnedIp = some ip) :
    discipline.requires (.ilock ip) own := by
  have covered := calm.covered ip
  have pins : own.pins ip = 1 := if_pos pinned
  change own.locks ip < own.refs ip + own.pins ip
  omega

theorem locks_lock_pos
    (own : View)
    (ip : Slot) :
    0 < (own.lock ip).locks ip := by
  simp [View.lock]

/-- Unlocking leads back to the view before the lock. -/
theorem iunlock_follows (holds : post () own) :
    (perform (.iunlock ip)).Follows discipline (own.lock ip) post := by
  refine .perform (locks_lock_pos own ip) fun _ => ?_
  have unlocked : discipline.after (.iunlock ip) (own.lock ip) () = own :=
    View.unlock_lock own ip
  rw [unlocked]
  exact holds

theorem deviceTransfer_follows
    (lockable : own.locks ip < own.refs ip + own.pins ip)
    (holds : post () (own.lock ip)) :
    (deviceTransfer ip).Follows discipline (own.lock ip) post :=
  Program.Follows.bind (iunlock_follows (Program.Follows.perform lockable fun _ => holds))

theorem filestat_follows
    (calm : own.Calm)
    (pinned : own.pinned = some f)
    {post : Int → View → Prop}
    (holds : ∀ result ip, post result { own with pinnedIp := ip }) :
    (filestat f).Follows discipline own post := by
  refine file_follows calm pinned ?_ ?_
  · intro entry type
    rw [type]
    refine .perform_bind (ilock_pinned_requires (calm.pin (some entry.ip)) rfl) fun _ => ?_
    refine .perform_bind (locks_lock_pos _ _) fun _ => ?_
    exact .bind (iunlock_follows (holds 0 _))
  · intro entry type
    match found : entry.type with
    | .none => exact holds (-1) _
    | .pipe => exact holds (-1) _
    | .inode => exact absurd found type

theorem fileread_follows
    (calm : own.Calm)
    (pinned : own.pinned = some f)
    (n : UInt32)
    (device : Int)
    {post : Int → View → Prop}
    (holds : ∀ result ip, post result { own with pinnedIp := ip }) :
    (fileread f n device).Follows discipline own post := by
  refine file_follows calm pinned ?_ ?_
  · intro entry type
    have lockable := ilock_pinned_requires (calm.pin (some entry.ip)) rfl
    split
    · exact holds (-1) _
    rw [type]
    refine .perform_bind lockable fun _ => ?_
    refine .perform_bind ⟨pinned, entry.ip, rfl, locks_lock_pos _ _⟩ fun transfer => ?_
    match transfer with
    | .done bytes => exact .bind (iunlock_follows (holds _ _))
    | .refused => exact .bind (iunlock_follows (holds _ _))
    | .device =>
      refine .bind (deviceTransfer_follows lockable ?_)
      dsimp only
      split
      · refine .perform_bind pinned fun _ => ?_
        exact .bind (iunlock_follows (holds _ _))
      · exact .bind (iunlock_follows (holds _ _))
  · intro entry type
    split
    · exact holds (-1) _
    · match found : entry.type with
      | .none => exact panic_follows (by decide) _
      | .pipe => exact holds device _
      | .inode => exact absurd found type

theorem filewriteLoop_follows
    (calm : own.Calm)
    (trans : own.trans = false)
    (pinned : own.pinned = some f)
    (pinnedIp : own.pinnedIp = some ip)
    (fuel : Nat)
    (src : List UInt8)
    {post : Bool → View → Prop}
    (holds : ∀ result, post result own) :
    (filewriteLoop f ip fuel src).Follows discipline own post := by
  have lockable : discipline.requires (.ilock ip) own.inTrans :=
    ilock_pinned_requires calm.inTrans pinnedIp
  have committed : ({ own.inTrans with trans := false } : View) = own := by
    ext <;> simp [View.inTrans, trans]
  induction fuel generalizing src with
  | zero => exact holds true
  | succ fuel ih =>
    unfold filewriteLoop
    split
    · exact holds true
    refine .perform_bind trans fun _ => ?_
    refine .perform_bind lockable fun _ => ?_
    refine .perform_bind ⟨rfl, pinned, ip, pinnedIp, locks_lock_pos _ _⟩ fun transfer => ?_
    change Program.Follows discipline _ (own.inTrans.lock ip) post
    match transfer with
    | .done n =>
      refine .bind (iunlock_follows ?_)
      refine .perform_bind rfl fun _ => ?_
      change Program.Follows discipline _ { own.inTrans with trans := false } post
      rw [committed]
      split
      · exact panic_follows (by decide) _
      · exact ih _
    | .refused =>
      refine .bind (iunlock_follows ?_)
      refine .perform_bind rfl fun _ => ?_
      change post false { own.inTrans with trans := false }
      rw [committed]
      exact holds false
    | .device =>
      refine .bind (deviceTransfer_follows lockable ?_)
      refine .perform_bind pinned fun _ => ?_
      refine .bind (iunlock_follows ?_)
      refine .perform_bind rfl fun _ => ?_
      change Program.Follows discipline _ { own.inTrans with trans := false } post
      rw [committed]
      exact ih _

theorem filewrite_follows
    (calm : own.Calm)
    (trans : own.trans = false)
    (pinned : own.pinned = some f)
    (src : Option (List UInt8))
    (device : Int)
    {post : Int → View → Prop}
    (holds : ∀ result ip, post result { own with pinnedIp := ip }) :
    (filewrite f src device).Follows discipline own post := by
  refine file_follows calm pinned ?_ ?_
  · intro entry type
    split
    · exact holds (-1) _
    rw [type]
    match src with
    | none => exact holds (-1) _
    | some src =>
      refine .bind (filewriteLoop_follows (calm.pin (some entry.ip)) trans pinned rfl _ _ ?_)
      rintro (_ | _)
      · exact holds _ _
      · exact holds _ _
  · intro entry type
    split
    · exact holds (-1) _
    · match found : entry.type with
      | .none => exact panic_follows (by decide) _
      | .pipe => exact holds device _
      | .inode => exact absurd found type

/-! ### System calls -/

/-- What the calls leave of the view: the last descriptor they looked at, filled
or saw empty. -/
theorem settled_idle
    (pinned : Option FileId)
    (pinnedIp : Option Slot)
    (placed : Option (Fd × FileId))
    (closed : Finset Fd) :
    ({ View.idle with
        pinned := pinned, pinnedIp := pinnedIp, placed := placed
        closed := closed } : View).Settled :=
  ⟨rfl, rfl, rfl, rfl, rfl, rfl, rfl, rfl, rfl, rfl, rfl⟩

theorem withFile_follows
    (fd : Int)
    (uses : ∀ f, (use f).Follows discipline { View.idle with pinned := some f }
      fun _ own => own.Settled) :
    (withFile fd use).Follows discipline View.idle fun _ own => own.Settled := by
  unfold withFile
  split
  · refine .perform_bind ⟨rfl, rfl, fun _ => Nat.le_refl _⟩ ?_
    rintro (_ | f)
    · exact settled_idle _ _ _ _
    · exact uses f
  · exact settled_idle _ _ _ _

theorem calm_pinned (f : FileId) : ({ View.idle with pinned := some f } : View).Calm :=
  ⟨fun _ => Nat.le_refl _, rfl, rfl⟩

theorem sysDup_follows (fd : Int) :
    (sysDup fd).Follows discipline View.idle fun _ own => own.Settled := by
  refine withFile_follows fd fun f => ?_
  refine .perform_bind ⟨Or.inr rfl, rfl, rfl⟩ ?_
  rintro (_ | fd)
  · exact settled_idle _ _ _ _
  · exact .perform_bind ⟨rfl, fd, rfl⟩ fun _ => settled_idle _ _ _ _

theorem sysRead_follows (fd : Int) (n : UInt32) (device : Int) :
    (sysRead fd n device).Follows discipline View.idle fun _ own => own.Settled :=
  withFile_follows fd fun f => fileread_follows (calm_pinned f) rfl n device
    fun _ _ => settled_idle _ _ _ _

theorem sysWrite_follows (fd : Int) (src : Option (List UInt8)) (device : Int) :
    (sysWrite fd src device).Follows discipline View.idle
      fun _ own => own.Settled :=
  withFile_follows fd fun f => filewrite_follows (calm_pinned f) rfl rfl src device
    fun _ _ => settled_idle _ _ _ _

theorem sysFstat_follows (fd : Int) :
    (sysFstat fd).Follows discipline View.idle fun _ own => own.Settled :=
  withFile_follows fd fun f => filestat_follows (calm_pinned f) rfl
    fun _ _ => settled_idle _ _ _ _

/-- Clearing a descriptor whose file the call has taken. -/
theorem clear_taken
    (own : View)
    (f : FileId)
    (fd : Fd)
    (cleared : Unit) :
    discipline.after (.fdClear fd) (discipline.after (.fdTake fd) own (some f))
        cleared =
      ({ own with taken := none, closed := insert fd own.closed } : View).addFile f :=
  if_pos rfl

theorem sysClose_follows (fd : Int) :
    (sysClose fd).Follows discipline View.idle fun _ own => own.Settled := by
  unfold sysClose
  split
  · refine .perform_bind ⟨rfl, rfl, rfl, rfl⟩ ?_
    rintro (_ | f)
    · exact settled_idle _ _ _ _
    · refine .perform_bind ⟨rfl, rfl, Or.inl rfl⟩ fun _ => ?_
      rw [clear_taken]
      refine .bind (fileclose_follows ⟨fun _ => Nat.le_refl _, rfl, rfl⟩ rfl ?_)
      rw [View.unfresh_eq rfl]
      exact settled_idle _ _ _ _
  · exact settled_idle _ _ _ _

/-- Leaving a transaction that the call has opened. -/
theorem commitTrans_follows
    (trans : own.trans = false)
    (holds : post () own) :
    (perform .commitTrans).Follows discipline own.inTrans post := by
  refine .perform rfl fun _ => ?_
  have committed : discipline.after .commitTrans own.inTrans () = own := by
    change ({ own with trans := false } : View) = own
    rw [← trans]
  rw [committed]
  exact holds

theorem linkBad_follows
    (calm : own.Calm)
    (trans : own.trans = false)
    {post : Int → View → Prop}
    (holds : post (-1) own) :
    (linkBad ip).Follows discipline (own.inTrans.addRef ip) post := by
  refine .perform_bind (ilock_requires calm.inTrans ip) fun _ => ?_
  refine .perform_bind ⟨rfl, View.locks_hold_pos _ ip⟩ fun _ => ?_
  refine .bind (iunlockput_follows calm.inTrans ?_)
  exact .bind (commitTrans_follows trans holds)

theorem sysLink_follows (old new : Path) :
    (sysLink old new).Follows discipline View.idle fun _ own => own.Settled := by
  have settled : View.idle.Settled := settled_idle _ _ _ _
  have calm := View.calm_idle
  refine .bind (namei_follows old calm rfl settled fun ip => ?_)
  refine .perform_bind rfl fun _ => ?_
  refine .perform_bind (ilock_requires calm.inTrans ip) fun _ => ?_
  refine .perform_bind (View.locks_hold_pos _ ip) fun din => ?_
  change Program.Follows discipline _ (View.idle.inTrans.hold ip) _
  split
  · refine .bind (iunlockput_follows calm.inTrans ?_)
    exact .bind (commitTrans_follows rfl settled)
  refine .perform_bind ⟨rfl, View.locks_hold_pos _ ip⟩ fun _ => ?_
  refine .bind (iunlock_follows ?_)
  refine .bind (nameiparent_follows new (calm.inTrans.addRef ip) rfl
    (linkBad_follows calm rfl settled) fun dp name => ?_)
  refine .perform_bind (ilock_requires (calm.inTrans.addRef ip) dp) fun _ => ?_
  refine .bind (dirlink_follows ((calm.inTrans.addRef ip).hold dp) rfl (View.locks_hold_pos _ dp)
    (Nat.lt_of_lt_of_le (View.refs_addRef_pos View.idle.inTrans ip) (Nat.le_add_right _ _)) name ?_)
  rintro (_ | _)
  · exact .bind (iunlockput_follows (calm.inTrans.addRef ip) (linkBad_follows calm rfl settled))
  · refine .bind (iunlockput_follows (calm.inTrans.addRef ip) ?_)
    refine .bind (iput_follows calm.inTrans ?_)
    exact .bind (commitTrans_follows rfl settled)

theorem unlinkBad_follows
    (calm : own.Calm)
    (trans : own.trans = false)
    {post : Int → View → Prop}
    (holds : post (-1) own) :
    (unlinkBad dp).Follows discipline (own.inTrans.hold dp) post :=
  Program.Follows.bind (iunlockput_follows calm.inTrans
    (Program.Follows.bind (commitTrans_follows trans holds)))

theorem sysUnlink_follows (path : Path) :
    (sysUnlink path).Follows discipline View.idle fun _ own => own.Settled := by
  have settled : View.idle.Settled := settled_idle _ _ _ _
  have calm := View.calm_idle
  refine .bind
    (nameiparent_follows path calm rfl settled fun dp name => ?_)
  refine .perform_bind rfl fun _ => ?_
  refine .perform_bind (ilock_requires calm.inTrans dp) fun _ => ?_
  change Program.Follows discipline _ (View.idle.inTrans.hold dp) _
  split
  · exact unlinkBad_follows calm rfl settled
  refine .perform_bind (View.locks_hold_pos _ dp) ?_
  rintro (_ | ⟨ip, off⟩)
  · exact unlinkBad_follows calm rfl settled
  refine .perform_bind
    (ilock_requires (calm.inTrans.hold dp) ip) fun _ => ?_
  refine .perform_bind (View.locks_hold_pos _ ip) fun din => ?_
  change Program.Follows discipline _ ((View.idle.inTrans.hold dp).hold ip) _
  have dpLocked : 0 < ((View.idle.inTrans.hold dp).hold ip).locks dp :=
    Nat.lt_of_lt_of_le (View.locks_hold_pos View.idle.inTrans dp)
      (Nat.le_add_right _ _)
  have done : (do
      iunlockput dp
      perform (.decNlink ip)
      iunlockput ip
      perform .commitTrans
      pure 0 : Call Int).Follows discipline
        ((View.idle.inTrans.hold dp).hold ip) fun _ own => own.Settled := by
    rw [View.hold_comm]
    refine .bind (iunlockput_follows (calm.inTrans.hold ip) ?_)
    refine .perform_bind ⟨rfl, View.locks_hold_pos _ ip⟩
      fun _ => ?_
    refine .bind (iunlockput_follows calm.inTrans ?_)
    exact .bind (commitTrans_follows rfl settled)
  split
  · exact panic_follows (by decide) _
  split
  · refine .perform_bind (View.locks_hold_pos _ ip) ?_
    rintro (_ | _)
    · refine .bind (iunlockput_follows (calm.inTrans.hold dp) ?_)
      exact unlinkBad_follows calm rfl settled
    · refine .perform_bind ⟨rfl, dpLocked⟩ fun _ => ?_
      refine .perform_bind ⟨rfl, dpLocked⟩ fun _ => ?_
      exact done
  · refine .perform_bind ⟨rfl, dpLocked⟩ fun _ => ?_
    exact done

theorem createDots_follows
    (calm : own.Calm)
    (trans : own.trans = true)
    (ip dp : Slot)
    (holds : post () ((own.hold dp).hold ip)) :
    (createDots ip dp).Follows discipline ((own.hold dp).hold ip) post := by
  have held := (calm.hold dp).hold ip
  have dpLocked : 0 < ((own.hold dp).hold ip).locks dp :=
    Nat.lt_of_lt_of_le (View.locks_hold_pos own dp) (Nat.le_add_right _ _)
  have ipLocked : 0 < ((own.hold dp).hold ip).locks ip := View.locks_hold_pos _ ip
  refine .perform_bind ⟨trans, dpLocked⟩ fun _ => ?_
  refine .bind (dirlink_follows held trans ipLocked
    (Nat.lt_of_lt_of_le ipLocked (held.covered ip)) dot ?_)
  rintro (_ | _)
  · exact panic_follows (by decide) _
  · refine .bind (dirlink_follows held trans ipLocked
      (Nat.lt_of_lt_of_le dpLocked (held.covered dp)) dotdot ?_)
    rintro (_ | _)
    · exact panic_follows (by decide) _
    · exact holds

/-- The inode that `create` returns is referenced and locked. -/
theorem create_follows
    (calm : own.Calm)
    (trans : own.trans = true)
    (cwd : own.cwdTaken = false)
    (path : Path)
    (type major minor : Int16)
    {post : Option Slot → View → Prop}
    (none : post none own)
    (some : ∀ ip, post (some ip) (own.hold ip)) :
    (create path type major minor).Follows discipline own post := by
  refine .bind (nameiparent_follows path calm cwd none fun dp name => ?_)
  refine .perform_bind (ilock_requires calm dp) fun _ => ?_
  refine .perform_bind (View.locks_hold_pos own dp) ?_
  rintro (_ | ⟨ip, off⟩)
  · refine .perform_bind trans fun ip => ?_
    refine .perform_bind (ilock_requires (calm.hold dp) ip) fun _ => ?_
    refine .perform_bind ⟨trans, View.locks_hold_pos _ ip⟩ fun _ => ?_
    change Program.Follows discipline _ ((own.hold dp).hold ip) post
    have held := (calm.hold dp).hold ip
    have dpLocked : 0 < ((own.hold dp).hold ip).locks dp :=
      Nat.lt_of_lt_of_le (View.locks_hold_pos own dp) (Nat.le_add_right _ _)
    have linked : (do
        if ← dirlink dp name ip then
          iunlockput dp
          pure (Option.some ip)
        else panic "create: dirlink" : Call (Option Slot)).Follows discipline
          ((own.hold dp).hold ip) post := by
      refine .bind (dirlink_follows held trans dpLocked
        (Nat.lt_of_lt_of_le (View.locks_hold_pos _ ip) (held.covered ip)) name ?_)
      rintro (_ | _)
      · exact panic_follows (by decide) _
      · rw [View.hold_comm]
        exact .bind (iunlockput_follows (calm.hold ip) (some ip))
    split
    · exact .bind (createDots_follows calm trans ip dp linked)
    · exact linked
  · have looked : ∀ locked, discipline.after (.dirlookup dp name)
        (discipline.after (.ilock dp) (own.addRef dp) locked)
        (Option.some (ip, off)) = (own.addRef ip).hold dp :=
      fun _ => View.hold_addRef own dp ip
    rw [looked]
    refine .bind (iunlockput_follows (calm.addRef ip) ?_)
    refine .perform_bind (ilock_requires calm ip) fun _ => ?_
    refine .perform_bind (View.locks_hold_pos own ip) fun din => ?_
    change Program.Follows discipline _ (own.hold ip) post
    split
    · exact some ip
    · exact .bind (iunlockput_follows calm none)

/-- The file of an open call: filled in, or closed again. -/
theorem openFile_follows
    (ip : Slot)
    (omode : UInt32) :
    (openFile ip omode).Follows discipline (View.idle.hold ip)
      fun _ own => own.Settled := by
  have settled : View.idle.Settled := settled_idle _ _ _ _
  refine .perform_bind True.intro ?_
  rintro (_ | f)
  · exact .bind (iunlockput_follows View.calm_idle settled)
  let made : View :=
    { View.idle with fresh := update View.idle.fresh f true }
  have calm : made.Calm := ⟨fun _ => Nat.le_refl _, rfl, rfl⟩
  have unmade : update made.fresh f false = fun _ => false := by
    simp only [made, update_idem]
    exact update_eq_self f _
  have given : 0 < ((made.hold ip).addFile f).files f := by simp [View.addFile]
  refine .perform_bind ⟨Or.inl given, rfl, rfl⟩ ?_
  change ∀ found, Program.Follows discipline _
    (discipline.after (.fdalloc f) ((made.hold ip).addFile f) found) _
  rintro (_ | fd)
  · refine .bind (fileclose_follows (calm.hold ip) rfl ?_)
    have closed : (made.hold ip).unfresh f = View.idle.hold ip := by
      change ({ View.idle.hold ip with
        fresh := update made.fresh f false } : View) = _
      rw [unmade]
      rfl
    rw [closed]
    exact .bind (iunlockput_follows View.calm_idle settled)
  let placed : View :=
    { made with placed := some (fd, f), closed := (∅ : Finset Fd).erase fd }
  have given : discipline.after (.fdalloc f) ((made.hold ip).addFile f)
      (some fd) = placed.hold ip := by
    refine (if_pos given).trans ?_
    rw [View.dropFile_addFile]
    rfl
  rw [given]
  refine .bind (iunlock_follows ?_)
  have ready : made.fresh f = true := by simp [made]
  refine .perform_bind ⟨ready, calm.spare ip⟩ fun _ => ?_
  have filled : ((placed.addRef ip).dropRef ip).unfresh f = { View.idle with
        placed := some (fd, f), closed := (∅ : Finset Fd).erase fd } := by
    rw [View.dropRef_addRef]
    change ({ placed with fresh := update made.fresh f false } : View) = _
    rw [unmade]
    rfl
  change View.Settled (((placed.addRef ip).dropRef ip).unfresh f)
  rw [filled]
  exact settled_idle _ _ _ _

theorem sysOpen_follows (path : Path) (omode : UInt32) :
    (sysOpen path omode).Follows discipline View.idle fun _ own => own.Settled := by
  have settled : View.idle.Settled := settled_idle _ _ _ _
  have calm := View.calm_idle
  unfold sysOpen
  split
  · refine .perform_bind rfl fun _ => ?_
    refine .bind (create_follows calm.inTrans rfl rfl path T_FILE 0 0 ?_ fun ip => ?_)
    · exact .bind (commitTrans_follows rfl settled)
    · have committed : (perform .commitTrans).Follows discipline
          (View.idle.hold ip).inTrans fun _ own =>
            (openFile ip omode).Follows discipline own fun _ own => own.Settled :=
        commitTrans_follows rfl (openFile_follows ip omode)
      exact .bind committed
  · refine .bind (namei_follows path calm rfl settled fun ip => ?_)
    refine .perform_bind (ilock_requires calm ip) fun _ => ?_
    refine .perform_bind (View.locks_hold_pos _ ip) fun din => ?_
    change Program.Follows discipline _ (View.idle.hold ip) _
    split
    · exact .bind (iunlockput_follows calm settled)
    · exact openFile_follows ip omode

theorem sysMake_follows (path : Option Path) (type major minor : Int16) :
    (sysMake path type major minor).Follows discipline View.idle
      fun _ own => own.Settled := by
  have settled : View.idle.Settled := settled_idle _ _ _ _
  have calm := View.calm_idle
  refine .perform_bind rfl fun _ => ?_
  match path with
  | none => exact .bind (commitTrans_follows rfl settled)
  | some path =>
    refine .bind (create_follows calm.inTrans rfl rfl path type major minor ?_ fun ip => ?_)
    · exact .bind (commitTrans_follows rfl settled)
    · refine .bind (iunlockput_follows calm.inTrans ?_)
      exact .bind (commitTrans_follows rfl settled)

theorem putCwd_follows
    (calm : own.Calm)
    (cwd : own.cwdTaken = false)
    (holds : post () { own with cwdTaken := true }) :
    putCwd.Follows discipline own post := by
  refine .perform_bind cwd ?_
  rintro (_ | ip)
  · exact holds
  · have taken : ({ own with cwdTaken := true } : View).Calm :=
      ⟨calm.covered, calm.freeing, calm.closing⟩
    exact iput_follows taken holds

theorem sysChdir_follows (path : Path) :
    (sysChdir path).Follows discipline View.idle fun _ own => own.Settled := by
  have settled : View.idle.Settled := settled_idle _ _ _ _
  have calm := View.calm_idle
  refine .bind (namei_follows path calm rfl settled fun ip => ?_)
  refine .perform_bind (ilock_requires calm ip) fun _ => ?_
  refine .perform_bind (View.locks_hold_pos _ ip) fun din => ?_
  change Program.Follows discipline _ (View.idle.hold ip) _
  split
  · exact .bind (iunlockput_follows calm settled)
  · refine .bind (iunlock_follows ?_)
    refine .bind (putCwd_follows (calm.addRef ip) rfl ?_)
    refine .perform_bind ⟨rfl, calm.spare ip⟩ fun _ => ?_
    have stored : ((View.idle.addRef ip).dropRef ip).refs = 0 :=
      congrArg View.refs (View.dropRef_addRef View.idle ip)
    exact ⟨rfl, stored, rfl, rfl, rfl, rfl, rfl, rfl, rfl, rfl, rfl⟩

theorem execReads_follows
    (calm : own.Calm)
    (ip : Slot)
    (reads : List (UInt32 × UInt32))
    (holds : post () (own.hold ip)) :
    (execReads ip reads).Follows discipline (own.hold ip) post := by
  induction reads with
  | nil => exact holds
  | cons range rest ih =>
    refine .perform_bind (View.locks_hold_pos own ip) fun transfer => ?_
    change Program.Follows discipline _ (own.hold ip) post
    match transfer with
    | .done _ => exact ih
    | .refused => exact ih
    | .device =>
      exact .bind (deviceTransfer_follows (ilock_requires calm ip) ih)

theorem sysExec_follows (path : Path) (reads : List (UInt32 × UInt32)) :
    (sysExec path reads).Follows discipline View.idle fun _ own => own.Settled := by
  have settled : View.idle.Settled := settled_idle _ _ _ _
  have calm := View.calm_idle
  refine .bind (namei_follows path calm rfl settled fun ip => ?_)
  refine .perform_bind (ilock_requires calm ip) fun _ => ?_
  refine .bind (execReads_follows calm ip reads ?_)
  exact .bind (iunlockput_follows calm settled)

/-- The files of a new pipe, or none. -/
theorem pipealloc_follows
    (memory : Bool)
    {post : Option (FileId × FileId) → View → Prop}
    (none : post none View.idle)
    (some : ∀ rf wf, post (some (rf, wf)) ((View.idle.addFile rf).addFile wf)) :
    (pipealloc memory).Follows discipline View.idle post := by
  refine .perform_bind True.intro ?_
  rintro (_ | f0)
  · exact none
  let first : View :=
    { View.idle with fresh := update View.idle.fresh f0 true }
  have firstCalm : first.Calm := ⟨fun _ => Nat.le_refl _, rfl, rfl⟩
  refine .perform_bind True.intro ?_
  rintro (_ | f1)
  · refine .bind (fileclose_follows firstCalm rfl ?_)
    have closed : first.unfresh f0 = View.idle := by
      change ({ View.idle with
        fresh := update (update View.idle.fresh f0 true) f0 false
        } : View) = _
      rw [update_idem]
      have same : View.idle.unfresh f0 = View.idle := View.unfresh_eq rfl f0
      exact same
    rw [closed]
    exact none
  let second : View := { first with fresh := update first.fresh f1 true }
  have secondCalm : second.Calm := ⟨fun _ => Nat.le_refl _, rfl, rfl⟩
  have emptied : (second.unfresh f0).unfresh f1 = View.idle := by
    ext f <;> simp only [View.unfresh, second, first, update_apply]
    split_ifs <;> rfl
  change Program.Follows discipline _ ((second.addFile f0).addFile f1) post
  cases memory with
  | true =>
    refine .perform_bind ⟨?_, ?_, ?_, ?_⟩ fun _ => ?_
    · change second.fresh f0 = true
      by_cases same : f0 = f1 <;> simp [second, first, same]
    · change second.fresh f1 = true
      simp [second]
    · simp [View.addFile]
    · rw [View.addFile_comm, View.dropFile_addFile]
      simp [View.addFile]
    · change post (Option.some (f0, f1)) ((((second.unfresh f0).unfresh f1).addFile f0).addFile f1)
      rw [emptied]
      exact some f0 f1
  | false =>
    rw [View.addFile_comm]
    refine .bind (fileclose_follows (secondCalm.addFile f1) rfl ?_)
    refine .bind (fileclose_follows (secondCalm.unfresh f0) rfl ?_)
    rw [emptied]
    exact none

/-- Closing both files of a pipe when a descriptor is missing. -/
theorem closeBoth_follows
    (calm : own.Calm)
    (settled : own.Settled)
    (rf wf : FileId) :
    (do
      fileclose rf
      fileclose wf
      pure (-1) : Call Int).Follows discipline ((own.addFile rf).addFile wf)
        fun _ own => own.Settled := by
  rw [View.addFile_comm]
  refine .bind (fileclose_follows (calm.addFile wf) settled.trans ?_)
  refine .bind (fileclose_follows (calm.unfresh rf) settled.trans ?_)
  rw [View.unfresh_eq settled.fresh, View.unfresh_eq settled.fresh]
  exact settled

theorem sysPipe_follows (memory : Bool) :
    (sysPipe memory).Follows discipline View.idle fun _ own => own.Settled := by
  have settled : View.idle.Settled := settled_idle _ _ _ _
  refine .bind (pipealloc_follows memory settled fun rf wf => ?_)
  have rfHeld : 0 < ((View.idle.addFile rf).addFile wf).files rf := by
    simp [View.addFile]
  refine .perform_bind ⟨Or.inl rfHeld, rfl, rfl⟩ ?_
  rintro (_ | fd0)
  · exact closeBoth_follows View.calm_idle settled rf wf
  let placed : View :=
    { View.idle with
      placed := some (fd0, rf), closed := (∅ : Finset Fd).erase fd0 }
  have given : discipline.after (.fdalloc rf)
      ((View.idle.addFile rf).addFile wf) (some fd0) = placed.addFile wf := by
    refine (if_pos rfHeld).trans ?_
    rw [View.addFile_comm, View.dropFile_addFile]
    rfl
  rw [given]
  have wfHeld : 0 < (placed.addFile wf).files wf := by simp [View.addFile]
  refine .perform_bind ⟨Or.inl wfHeld, rfl, rfl⟩ ?_
  rintro (_ | fd1)
  · refine .perform_bind ⟨rfl, rfl, Or.inr ⟨rfl, rf, rfl⟩⟩ fun _ => ?_
    let cleared : View := { placed with
      placed := none, closed := insert fd0 ((∅ : Finset Fd).erase fd0) }
    have back : discipline.after (.fdClear fd0) (placed.addFile wf) () =
        (cleared.addFile rf).addFile wf := by
      have untaken : (placed.addFile wf).taken ≠ some fd0 := nofun
      exact (View.clear_placed untaken rfl).trans (View.addFile_comm cleared wf rf)
    change Program.Follows discipline _ (discipline.after (.fdClear fd0) (placed.addFile wf) ()) _
    rw [back]
    exact closeBoth_follows ⟨fun _ => Nat.le_refl _, rfl, rfl⟩ (settled_idle _ _ _ _) rf wf
  · have given : discipline.after (.fdalloc wf) (placed.addFile wf) (some fd1) = { placed with
          placed := some (fd1, wf), closed := placed.closed.erase fd1 } := by
      refine (if_pos wfHeld).trans ?_
      rw [View.dropFile_addFile]
      rfl
    change View.Settled (discipline.after (.fdalloc wf) (placed.addFile wf) (some fd1))
    rw [given]
    exact settled_idle _ _ _ _

/-- The descriptors of the parent are copied once each. -/
theorem forkFiles_follows
    (taken : own.taken = none)
    (owed : own.owed = none)
    (fresh : own.fresh = fun _ => false)
    (child : Pid)
    (fds : List Fd)
    (distinct : fds.Nodup)
    (copied : Finset Fd)
    (apart : ∀ fd ∈ fds, fd ∉ copied)
    (holds : ∀ copied, post () { own with child := some ⟨child, copied, false⟩ }) :
    (forkFiles child fds).Follows discipline
      { own with child := some ⟨child, copied, false⟩ } post := by
  induction fds generalizing copied with
  | nil => exact holds copied
  | cons fd rest ih =>
    obtain ⟨new, distinctRest⟩ := List.nodup_cons.mp distinct
    refine .perform_bind ⟨taken, owed, fresh, _, rfl, rfl, apart fd List.mem_cons_self⟩ fun _ => ?_
    refine ih distinctRest (insert fd copied) ?_
    intro other member inserted
    rcases Finset.mem_insert.mp inserted with rfl | old
    · exact new member
    · exact apart other (List.mem_cons_of_mem _ member) old

theorem sysFork_follows (child : Pid) (memory : Bool) :
    (sysFork child memory).Follows discipline View.idle
      fun _ own => own.Settled := by
  have settled : View.idle.Settled := settled_idle _ _ _ _
  refine .perform_bind rfl ?_
  rintro (_ | _)
  · exact settled
  cases memory with
  | true =>
    refine .bind (forkFiles_follows rfl rfl rfl child _
      (List.nodup_finRange NOFILE) ∅ (fun _ _ => Finset.notMem_empty _)
      fun copied => ?_)
    refine .perform_bind ⟨rfl, _, rfl, rfl, rfl⟩ fun _ => ?_
    exact .perform_bind ⟨_, rfl, rfl⟩ fun _ => settled
  | false => exact .perform_bind rfl fun _ => settled

/-- Closing descriptors leaves them empty. -/
theorem closeAll_follows
    (fds : List Fd)
    (closed : Finset Fd)
    (holds : post () { View.idle with closed := closed ∪ fds.toFinset }) :
    (closeAll fds).Follows discipline { View.idle with closed := closed } post := by
  induction fds generalizing closed with
  | nil =>
    rw [List.toFinset_nil, Finset.union_empty] at holds
    exact holds
  | cons fd rest ih =>
    have later : (closeAll rest).Follows discipline
        { View.idle with closed := insert fd closed } post := by
      refine ih (insert fd closed) ?_
      simpa [Finset.insert_union, Finset.union_insert] using holds
    refine .perform_bind ⟨rfl, rfl, rfl, rfl⟩ ?_
    rintro (_ | f)
    · exact later
    let taking : View := { View.idle with closed := closed, taken := some fd }
    have calm : taking.Calm := ⟨fun _ => Nat.le_refl _, rfl, rfl⟩
    refine .bind (fileclose_follows calm rfl ?_)
    rw [View.unfresh_eq rfl]
    refine .perform_bind ⟨rfl, rfl, Or.inl rfl⟩ fun _ => ?_
    have cleared : taking.clear fd = { View.idle with closed := insert fd closed } :=
      if_pos rfl
    change Program.Follows discipline _ (taking.clear fd) post
    rw [cleared]
    exact later

theorem sysExit_follows (isInit : Bool) :
    (sysExit isInit).Follows discipline View.idle fun _ own => own.Settled := by
  cases isInit with
  | true => exact panic_follows (by decide) _
  | false =>
    refine .bind (closeAll_follows (List.finRange NOFILE) ∅ ?_)
    refine .bind (putCwd_follows ⟨fun _ => Nat.le_refl _, rfl, rfl⟩ rfl ?_)
    refine .perform_bind ⟨rfl, ?_, settled_idle _ _ _ _⟩
      fun _ => settled_idle _ _ _ _
    ext fd
    simp

end Call

/-- Every call follows the discipline and holds nothing when it returns. -/
theorem SysCall.follows (pid : Pid) (call : SysCall) :
    (call.program pid).Follows discipline View.idle fun _ own => own.Settled := by
  refine .bind ?_
  cases call with
  | dup fd => exact Call.sysDup_follows fd
  | read fd n device => exact Call.sysRead_follows fd n device
  | write fd src device => exact Call.sysWrite_follows fd src device
  | close fd => exact Call.sysClose_follows fd
  | fstat fd => exact Call.sysFstat_follows fd
  | link old new => exact Call.sysLink_follows old new
  | unlink path => exact Call.sysUnlink_follows path
  | «open» path omode => exact Call.sysOpen_follows path omode
  | mkdir path => exact Call.sysMake_follows path _ _ _
  | mknod path major minor => exact Call.sysMake_follows path _ _ _
  | chdir path => exact Call.sysChdir_follows path
  | exec path reads => exact Call.sysExec_follows path reads
  | pipe memory => exact Call.sysPipe_follows memory
  | fork child memory => exact Call.sysFork_follows child memory
  | exit => exact Call.sysExit_follows _

end Xv6
