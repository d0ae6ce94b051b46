import Xv6.Sys.Accounts

/-!
# The accounts of open files

Who has the references that the open-file table counts: descriptors of
processes, and calls in progress.  A descriptor that a call is closing is the
call's, and one that `dup` has just filled has no reference yet.
-/

namespace Xv6

open Function
open Shares

/-- Who has references to open files. -/
inductive FileHolder where
  | slot (pid : Pid) (fd : Fd)
  | call (pid : Pid)
  deriving DecidableEq

/-- The process of a holder. -/
def FileHolder.pid : FileHolder → Pid
  | .slot pid _ => pid
  | .call pid => pid

/-- The descriptor has its own reference: no call is closing it, and `dup` has
taken the reference for it. -/
def View.Counts (own : View) (fd : Fd) : Prop :=
  own.taken ≠ some fd ∧ own.owed.map Prod.fst ≠ some fd

instance (own : View) (fd : Fd) : Decidable (own.Counts fd) :=
  inferInstanceAs (Decidable (_ ∧ _))

theorem View.counts_of_none {own : View}
    (taken : own.taken = none)
    (owed : own.owed = none)
    (fd : Fd) :
    own.Counts fd := by
  simp [Counts, taken, owed]

namespace Books

/-- The reference count of a file. -/
def fileRef (books : Books) (f : FileId) : Nat := (books.file f).ref

variable {books : Books} {pid : Pid} {f : FileId} {entry : File}

theorem ofile_setFd_self {proc : Proc}
    (found : books.proc pid = some proc)
    (fd : Fd)
    (value : Option FileId) :
    (books.setFd pid fd value).ofile pid = update (books.ofile pid) fd value := by
  funext other
  by_cases here : other = fd
  · simp [ofile, setFd, setProc, found, here]
  · simp [ofile, setFd, setProc, found, here]

theorem ofile_setProc_of_ne {proc : Option Proc}
    (different : other ≠ pid) :
    (books.setProc pid proc).ofile other = books.ofile other := by
  funext fd
  simp [ofile, setProc, different]

/-- The inodes of files. -/
def fileInode (books : Books) (f : FileId) : Option Slot := (books.file f).inode

theorem fileInode_congr {books final : Books}
    (file : final.file = books.file) :
    final.fileInode = books.fileInode := by
  funext f
  rw [fileInode, fileInode, file]

@[simp] theorem setFile_file_self
    (books : Books)
    (f : FileId)
    (entry : File) :
    (books.setFile f entry).file f = entry := by
  simp [setFile]

theorem setFile_file_of_ne (different : other ≠ f) :
    (books.setFile f entry).file other = books.file other := by
  simp [setFile, different]

/-- A part of the entries that the new entry does not change. -/
theorem setFile_part {γ : Type}
    (part : File → γ)
    (same : part entry = part (books.file f))
    (other : FileId) :
    part ((books.setFile f entry).file other) = part (books.file other) := by
  by_cases here : other = f
  · rw [here, setFile_file_self, same]
  · rw [setFile_file_of_ne here]

theorem fileRef_setFile
    (books : Books)
    (f : FileId)
    (entry : File) :
    (books.setFile f entry).fileRef = update books.fileRef f entry.ref := by
  funext other
  simp only [fileRef, setFile, update_apply]
  split <;> rfl

theorem fileInode_setFile (same : entry.inode = (books.file f).inode) :
    (books.setFile f entry).fileInode = books.fileInode := by
  funext other
  exact setFile_part File.inode same other

theorem fileInode_dup
    (books : Books)
    (f : FileId) :
    (books.setFile f (books.file f).dup).fileInode = books.fileInode :=
  fileInode_setFile rfl

/-- The file of a descriptor that has its own reference. -/
def heldFile (books : Books) (views : Pid → View) (pid : Pid) (fd : Fd) :
    Option FileId :=
  if (views pid).Counts fd then books.ofile pid fd else none

/-- The references that a holder has. -/
def fileShare (books : Books) (views : Pid → View) : FileHolder → FileId → Nat
  | .slot pid fd => single (books.heldFile views pid fd)
  | .call pid => (views pid).files

theorem heldFile_of_counts (counts : (views pid).Counts fd) :
    books.heldFile views pid fd = books.ofile pid fd :=
  if_pos counts

end Books

/-- What a call knows of the descriptors of its process. -/
structure Descriptors (inode : FileId → Option Slot) (ofile : Fd → Option FileId)
    (own : View) : Prop where
  /-- The file that the call is about is the file of a descriptor. -/
  pinned : ∀ f, own.pinned = some f → ∃ fd, own.Counts fd ∧ ofile fd = some f
  /-- Its inode is what the call says. -/
  pinnedIp : ∀ ip, own.pinnedIp = some ip → ∃ f, own.pinned = some f ∧ inode f = some ip
  /-- The descriptor that the call has last filled still has its file. -/
  placed : ∀ fd f, own.placed = some (fd, f) → own.taken = none ∧ own.Counts fd ∧ ofile fd = some f
  /-- So has one that lacks its reference, and another descriptor has it too. -/
  owed : ∀ fd f, own.owed = some (fd, f) →
    ofile fd = some f ∧ own.pinned = some f ∧ own.taken = none
  /-- Descriptors that the call has seen or made empty are empty. -/
  closed : ∀ fd, fd ∈ own.closed → ofile fd = none

/-- What a view says about descriptors. -/
def View.fdPart (own : View) :=
  (own.pinned, own.pinnedIp, own.placed, own.owed, own.taken, own.closed)

theorem View.owed_taken_of_fdPart {own other : View}
    (part : own.fdPart = other.fdPart) :
    own.owed = other.owed ∧ own.taken = other.taken := by
  simp only [View.fdPart, Prod.mk.injEq] at part
  exact ⟨part.2.2.2.1, part.2.2.2.2.1⟩

/-- What a view says about files. -/
def View.filePart (own : View) := (own.files, own.fresh, own.fdPart)

theorem Descriptors.idle
    (inode : FileId → Option Slot)
    (ofile : Fd → Option FileId) :
    Descriptors inode ofile View.idle where
  pinned _ held := by cases held
  pinnedIp _ held := by cases held
  placed _ _ held := by cases held
  owed _ _ held := by cases held
  closed _ member := absurd member (Finset.notMem_empty _)

/-- A call that is about no file. -/
theorem Descriptors.of_none
    (pinned : own.pinned = none)
    (pinnedIp : ∀ ip, own.pinnedIp = some ip → ∃ f, own.pinned = some f ∧ inode f = some ip)
    (placed : own.placed = none)
    (owed : own.owed = none)
    (closed : ∀ fd, fd ∈ own.closed → ofile fd = none) :
    Descriptors inode ofile own where
  pinned _ held := nomatch pinned.symm.trans held
  pinnedIp := pinnedIp
  placed _ _ held := nomatch placed.symm.trans held
  owed _ _ held := nomatch owed.symm.trans held
  closed := closed

/-- Only what the view says about descriptors matters. -/
theorem Descriptors.congr_view
    (descriptors : Descriptors inode ofile own)
    (part : other.fdPart = own.fdPart) :
    Descriptors inode ofile other := by
  simp only [View.fdPart, Prod.mk.injEq] at part
  obtain ⟨pinned, pinnedIp, placed, owed, taken, closed⟩ := part
  have counts : ∀ fd, other.Counts fd ↔ own.Counts fd := by
    intro fd
    unfold View.Counts
    rw [taken, owed]
  constructor
  · simp only [pinned, counts]
    exact descriptors.pinned
  · simp only [pinned, pinnedIp]
    exact descriptors.pinnedIp
  · simp only [placed, taken, counts]
    exact descriptors.placed
  · simp only [owed, pinned, taken]
    exact descriptors.owed
  · rw [closed]
    exact descriptors.closed

/-- Only the inode of the file that the call is about matters. -/
theorem Descriptors.congr_inode
    (descriptors : Descriptors inode ofile own)
    (same : ∀ f, own.pinned = some f → ∀ ip, inode f = some ip → other f = some ip) :
    Descriptors other ofile own :=
  { descriptors with
    pinnedIp := fun ip held => by
      obtain ⟨f, pinned, found⟩ := descriptors.pinnedIp ip held
      exact ⟨f, pinned, same f pinned ip found⟩ }

/-- The accounts of the open-file table. -/
structure FileAccounts (books : Books) (views : Pid → View) : Prop where
  /-- The references of a file are those that are held. -/
  balanced : Balanced books.fileRef (books.fileShare views)
  /-- A file without references has no type. -/
  unused : ∀ f, books.fileRef f = 0 → (books.file f).type = .none
  /-- Nor has one that a call is making, which has the only reference. -/
  fresh : ∀ pid f, (views pid).fresh f = true → (books.file f).type = .none ∧ books.fileRef f = 1 ∧
      ∃ holder : FileHolder, holder.pid = pid ∧ 0 < books.fileShare views holder f
  /-- Calls know the descriptors of their processes. -/
  descriptors : ∀ pid, Descriptors books.fileInode (books.ofile pid) (views pid)

namespace FileAccounts

variable {books final : Books} {views after : Pid → View} {pid : Pid} {own : View}

variable {f : FileId} {fd : Fd}

section

variable (accounts : FileAccounts books views)

include accounts

/-- A file with one reference has one holder. -/
theorem holder_unique
    (one : books.fileRef f = 1)
    (first second : FileHolder)
    (heldFirst : 0 < books.fileShare views first f)
    (heldSecond : 0 < books.fileShare views second f) :
    first = second := by
  by_contra different
  have both := accounts.balanced.share_add_le first second different f
  omega

/-- A file that a call is making is held by nobody else. -/
theorem pid_of_fresh
    (holder : FileHolder)
    (fresh : (views pid).fresh f = true)
    (held : 0 < books.fileShare views holder f) :
    holder.pid = pid := by
  obtain ⟨_, one, other, here, positive⟩ := accounts.fresh pid f fresh
  rw [accounts.holder_unique one holder other held positive]
  exact here

/-- The file that a call is about is held by a descriptor. -/
theorem exists_slot_of_pinned (pinned : (views pid).pinned = some f) :
    ∃ fd, 0 < books.fileShare views (.slot pid fd) f := by
  obtain ⟨fd, counts, found⟩ := (accounts.descriptors pid).pinned f pinned
  refine ⟨fd, single_pos_iff.mpr ?_⟩
  rw [Books.heldFile_of_counts counts, found]

/-- The inodes that calls use through open files belong to open files. -/
theorem exists_file_of_pinnedIp
    (pid : Pid)
    (ip : Slot)
    (pinned : (views pid).pinnedIp = some ip) :
    ∃ f, (books.file f).inode = some ip := by
  obtain ⟨f, _, found⟩ := (accounts.descriptors pid).pinnedIp ip pinned
  exact ⟨f, found⟩

/-- No reference changes hands. -/
theorem recast
    (ref : final.fileRef = books.fileRef)
    (shares : final.fileShare after = books.fileShare views)
    (unused : ∀ f, books.fileRef f = 0 → (final.file f).type = .none)
    (fresh : ∀ pid f, (after pid).fresh f = true →
      (views pid).fresh f = true ∧ (final.file f).type = (books.file f).type)
    (descriptors : ∀ pid, Descriptors final.fileInode (final.ofile pid) (after pid)) :
    FileAccounts final after where
  balanced := by
    rw [ref, shares]
    exact accounts.balanced
  unused := by
    rw [ref]
    exact unused
  fresh pid f new := by
    obtain ⟨old, type⟩ := fresh pid f new
    rw [type, ref, shares]
    exact accounts.fresh pid f old
  descriptors := descriptors

/-- The table and the shares stay as they are. -/
theorem recast_same
    (file : final.file = books.file)
    (shares : final.fileShare after = books.fileShare views)
    (fresh : ∀ pid f, (after pid).fresh f = true → (views pid).fresh f = true)
    (descriptors : ∀ pid, Descriptors final.fileInode (final.ofile pid) (after pid)) :
    FileAccounts final after := by
  refine accounts.recast ?_ shares ?_ ?_ descriptors
  · funext f
    rw [Books.fileRef, Books.fileRef, file]
  · rw [file]
    exact accounts.unused
  · rw [file]
    exact fun pid f new => ⟨fresh pid f new, rfl⟩

end

theorem heldFile_update
    (ofile : ∀ other, final.ofile other = books.ofile other)
    (taken : own.taken = (views pid).taken)
    (owed : own.owed = (views pid).owed)
    (other : Pid)
    (fd : Fd) :
    final.heldFile (update views pid own) other fd = books.heldFile views other fd := by
  have counts : (update views pid own other).Counts fd ↔ (views other).Counts fd := by
    unfold View.Counts
    rw [View.update_part View.taken taken, View.update_part View.owed owed]
  unfold Books.heldFile
  rw [ofile]
  simp only [counts]

/-- The shares of all holders but the call. -/
theorem share_of_ne_call
    (ofile : ∀ other, final.ofile other = books.ofile other)
    (taken : own.taken = (views pid).taken)
    (owed : own.owed = (views pid).owed)
    (holder : FileHolder)
    (different : holder ≠ .call pid) :
    final.fileShare (update views pid own) holder = books.fileShare views holder := by
  cases holder with
  | slot other fd => exact congrArg single (heldFile_update ofile taken owed other fd)
  | call other =>
    have elsewhere : other ≠ pid := fun same => different (by rw [same])
    exact congrArg View.files (update_of_ne elsewhere _ _)

/-- The shares when a call changes nothing about files. -/
theorem shares_update
    (ofile : ∀ other, final.ofile other = books.ofile other)
    (files : own.files = (views pid).files)
    (taken : own.taken = (views pid).taken)
    (owed : own.owed = (views pid).owed) :
    final.fileShare (update views pid own) = books.fileShare views := by
  funext holder
  by_cases here : holder = .call pid
  · rw [here]
    exact View.update_part View.files files pid
  · exact share_of_ne_call ofile taken owed holder here

/-- What all calls know after a change of one view. -/
theorem descriptors_update {ofile : Pid → Fd → Option FileId}
    (others : ∀ other, other ≠ pid → Descriptors inode (ofile other) (views other))
    (here : Descriptors inode (ofile pid) own)
    (other : Pid) :
    Descriptors inode (ofile other) (update views pid own other) := by
  by_cases same : other = pid
  · rw [same, update_self]
    exact here
  · rw [update_of_ne same]
    exact others other same

/-- What is fresh after a change of one view. -/
theorem fresh_update
    (fresh : own.fresh f = true → (views pid).fresh f = true)
    (other : Pid)
    (new : (update views pid own other).fresh f = true) :
    (views other).fresh f = true := by
  by_cases same : other = pid
  · rw [same, update_self] at new
    rw [same]
    exact fresh new
  · rw [update_of_ne same] at new
    exact new

section

variable (accounts : FileAccounts books views)

include accounts

/-- A call learns something about descriptors. -/
theorem recast_own
    (file : final.file = books.file)
    (ofile : ∀ other, final.ofile other = books.ofile other)
    (files : own.files = (views pid).files)
    (fresh : ∀ f, own.fresh f = true → (views pid).fresh f = true)
    (taken : own.taken = (views pid).taken)
    (owed : own.owed = (views pid).owed)
    (here : Descriptors books.fileInode (books.ofile pid) own) :
    FileAccounts final (update views pid own) := by
  refine accounts.recast_same file (shares_update ofile files taken owed) ?_ ?_
  · intro other f
    exact fresh_update (fresh f) other
  · rw [Books.fileInode_congr file]
    simp only [ofile]
    exact descriptors_update (fun other _ => accounts.descriptors other) here

/-- A change that concerns neither the table nor descriptors nor what the call
knows of them. -/
theorem congr
    (file : final.file = books.file)
    (ofile : ∀ other, final.ofile other = books.ofile other)
    (part : own.filePart = (views pid).filePart) :
    FileAccounts final (update views pid own) := by
  simp only [View.filePart, Prod.mk.injEq] at part
  obtain ⟨files, fresh, part⟩ := part
  obtain ⟨owed, taken⟩ := View.owed_taken_of_fdPart part
  exact accounts.recast_own file ofile files (fun _ new => fresh ▸ new) taken owed
    ((accounts.descriptors pid).congr_view part)

/-- The references that a call has to one file change, and with them the entry of
the file. -/
theorem callStep
    (f : FileId)
    (entry : File)
    (even : entry.ref + (views pid).files f = books.fileRef f + own.files f)
    (elsewhere : ∀ other, other ≠ f → own.files other = (views pid).files other)
    (part : own.fdPart = (views pid).fdPart)
    (unused : entry.ref = 0 → entry.type = .none)
    (fresh : ∀ holder, (update views pid own holder).fresh f = true →
      holder = pid ∧ 0 < own.files f ∧ entry.type = .none ∧ entry.ref = 1)
    (freshElsewhere : ∀ other, other ≠ f → own.fresh other = true → (views pid).fresh other = true)
    (inode : ∀ other ip, (views other).pinned = some f →
      (books.file f).inode = some ip → entry.inode = some ip) :
    FileAccounts (books.setFile f entry) (update views pid own) := by
  obtain ⟨owed, taken⟩ := View.owed_taken_of_fdPart part
  have others : ∀ holder, holder ≠ .call pid →
      (books.setFile f entry).fileShare (update views pid own) holder =
        books.fileShare views holder :=
    share_of_ne_call (fun _ => rfl) taken owed
  have mine : (books.setFile f entry).fileShare (update views pid own) (.call pid) = own.files := by
    simp only [Books.fileShare, update_self]
  constructor
  · refine accounts.balanced.exchangeOne (.call pid) others ?_
    intro other
    rw [Books.fileRef_setFile, mine]
    by_cases here : other = f
    · subst here
      rw [update_self]
      exact even
    · rw [update_of_ne here, elsewhere other here]
      rfl
  · intro other zero
    rw [Books.fileRef_setFile] at zero
    by_cases here : other = f
    · rw [here, update_self] at zero
      rw [here, Books.setFile_file_self]
      exact unused zero
    · rw [update_of_ne here] at zero
      rw [Books.setFile_file_of_ne here]
      exact accounts.unused other zero
  · intro holder other new
    rw [Books.fileRef_setFile]
    by_cases here : other = f
    · subst here
      obtain ⟨same, held, type, one⟩ := fresh holder new
      rw [Books.setFile_file_self, update_self]
      refine ⟨type, one, .call pid, same.symm, ?_⟩
      rw [mine]
      exact held
    · rw [Books.setFile_file_of_ne here, update_of_ne here]
      have old := fresh_update (freshElsewhere other here) holder new
      obtain ⟨type, one, owner, same, held⟩ := accounts.fresh holder other old
      refine ⟨type, one, owner, same, ?_⟩
      by_cases call : owner = .call pid
      · rw [call] at held ⊢
        rw [mine, elsewhere other here]
        exact held
      · rw [others owner call]
        exact held
  · refine descriptors_update (fun other _ => ?_) ?_
    · refine (accounts.descriptors other).congr_inode fun g pinned ip found => ?_
      by_cases here : g = f
      · subst here
        rw [Books.fileInode, Books.setFile_file_self]
        exact inode other ip pinned found
      · rw [Books.fileInode, Books.setFile_file_of_ne here]
        exact found
    · refine ((accounts.descriptors pid).congr_inode fun g pinned ip found => ?_).congr_view part
      by_cases here : g = f
      · subst here
        rw [Books.fileInode, Books.setFile_file_self]
        exact inode pid ip pinned found
      · rw [Books.fileInode, Books.setFile_file_of_ne here]
        exact found

/-- `filealloc`. -/
theorem alloc
    (free : (books.file f).ref = 0)
    (files : own.files = ((views pid).addFile f).files)
    (fresh : own.fresh = update (views pid).fresh f true)
    (part : own.fdPart = (views pid).fdPart) :
    FileAccounts (books.setFile f (books.file f).dup) (update views pid own) := by
  have mine : own.files f = (views pid).files f + 1 := by
    simp [files, View.addFile]
  have one : (books.file f).dup.ref = 1 := by rw [File.dup, free]
  refine accounts.callStep f _ ?_ ?_ part ?_ ?_ ?_ fun _ _ _ => id
  · rw [mine, one, Books.fileRef, free]
    omega
  · intro other different
    simp [files, View.addFile, different]
  · rw [one]
    exact fun zero => absurd zero Nat.one_ne_zero
  · intro holder new
    by_cases same : holder = pid
    · exact ⟨same, by omega, accounts.unused f free, one⟩
    · rw [update_of_ne same] at new
      have counted := (accounts.fresh holder f new).2.1
      rw [Books.fileRef, free] at counted
      cases counted
  · intro other different new
    rwa [fresh, update_of_ne different] at new

/-- `fileclose` up to the release of the spin lock. -/
theorem drops
    (held : 0 < (views pid).files f)
    (drops : books.Drops f left final)
    (files : own.files = ((views pid).dropFile f).files)
    (fresh : own.fresh = update (views pid).fresh f false)
    (part : own.fdPart = (views pid).fdPart) :
    FileAccounts final (update views pid own) := by
  have mine : own.files f = (views pid).files f - 1 := by
    simp [files, View.dropFile]
  have elsewhere : ∀ other, other ≠ f → own.files other = (views pid).files other := by
    intro other different
    simp [files, View.dropFile, different]
  have freshElsewhere : ∀ other, other ≠ f → own.fresh other = true →
      (views pid).fresh other = true := by
    intro other different new
    rwa [fresh, update_of_ne different] at new
  have notFresh : ∀ holder, ¬(update views pid own holder).fresh f = true := by
    intro holder new
    by_cases same : holder = pid
    · rw [same, update_self, fresh, update_self] at new
      cases new
    · rw [update_of_ne same] at new
      exact same (accounts.pid_of_fresh (.call pid) new held).symm
  have share := accounts.balanced.share_le (.call pid) f
  change (views pid).files f ≤ books.fileRef f at share
  rcases drops with ⟨several, _, rfl⟩ | ⟨last, _, rfl⟩
  · refine accounts.callStep f _ ?_ elsewhere part ?_
      (fun holder new => absurd new (notFresh holder)) freshElsewhere fun _ _ _ => id
    · rw [mine, File.drop]
      change (books.file f).ref - 1 + _ = (books.file f).ref + _
      omega
    · intro zero
      change (books.file f).ref - 1 = 0 at zero
      omega
  · refine accounts.callStep f _ ?_ elsewhere part (fun _ => rfl)
      (fun holder new => absurd new (notFresh holder)) freshElsewhere ?_
    · rw [mine, File.close]
      change 0 + _ = (books.file f).ref + _
      change _ ≤ (books.file f).ref at share
      omega
    · intro other ip pinned
      obtain ⟨fd, slot⟩ := accounts.exists_slot_of_pinned pinned
      cases accounts.holder_unique last (.slot other fd) (.call pid) slot held

/-- A reference goes between a call and a descriptor of its process. -/
theorem transfer
    (fd : Fd)
    (file : final.file = books.file)
    (others : ∀ holder, holder ≠ .slot pid fd → holder ≠ .call pid →
      final.fileShare (update views pid own) holder = books.fileShare views holder)
    (even : ∀ f, final.fileShare (update views pid own) (.slot pid fd) f + own.files f =
      books.fileShare views (.slot pid fd) f + (views pid).files f)
    (fresh : own.fresh = (views pid).fresh)
    (descriptors : ∀ other, Descriptors final.fileInode (final.ofile other)
      (update views pid own other)) :
    FileAccounts final (update views pid own) := by
  have ref : final.fileRef = books.fileRef := by
    funext f
    rw [Books.fileRef, Books.fileRef, file]
  have mine : final.fileShare (update views pid own) (.call pid) =
      own.files := by
    simp only [Books.fileShare, update_self]
  refine ⟨?_, ?_, ?_, descriptors⟩
  · refine accounts.balanced.exchangeTwo (.slot pid fd) (.call pid)
      (fun same => by cases same) others ?_
    intro f
    have evenly := even f
    rw [ref, mine]
    change _ + (_ + (views pid).files f) = _
    omega
  · intro f zero
    rw [ref] at zero
    rw [file]
    exact accounts.unused f zero
  intro holder f new
  have old := fresh_update (fun now => fresh ▸ now) holder new
  obtain ⟨type, one, owner, same, held⟩ := accounts.fresh holder f old
  rw [file, ref]
  refine ⟨type, one, ?_⟩
  by_cases concerned : owner = .slot pid fd ∨ owner = .call pid
  · have isPid : holder = pid := by
      rw [← same]
      rcases concerned with rfl | rfl <;> rfl
    have total : 0 < final.fileShare (update views pid own) (.slot pid fd) f + own.files f := by
      rw [even f]
      rcases concerned with rfl | rfl
      · exact Nat.add_pos_left held _
      · exact Nat.add_pos_right _ held
    by_cases slot : 0 < final.fileShare (update views pid own) (.slot pid fd) f
    · exact ⟨.slot pid fd, isPid.symm, slot⟩
    · refine ⟨.call pid, isPid.symm, ?_⟩
      rw [mine]
      omega
  · rw [not_or] at concerned
    refine ⟨owner, same, ?_⟩
    rw [others owner concerned.1 concerned.2]
    exact held

/-- A descriptor gets a reference of its own. -/
theorem dupSlot
    (f : FileId)
    (holder : Pid)
    (fd : Fd)
    (file : final.file = (books.setFile f (books.file f).dup).file)
    (others : ∀ other, other ≠ .slot holder fd →
      final.fileShare after other = books.fileShare views other)
    (here : final.fileShare after (.slot holder fd) =
      books.fileShare views (.slot holder fd) + Pi.single f 1)
    (fresh : ∀ other, (after other).fresh = (views other).fresh)
    (notFresh : ∀ other, (views other).fresh f = false)
    (descriptors : ∀ other, Descriptors books.fileInode (final.ofile other) (after other)) :
    FileAccounts final after := by
  have ref : final.fileRef = books.fileRef + Pi.single f 1 := by
    funext other
    by_cases same : other = f
    · subst same
      simp [Books.fileRef, file, File.dup]
    · simp [Books.fileRef, file, Books.setFile_file_of_ne same, same]
  refine ⟨?_, ?_, ?_, ?_⟩
  · refine accounts.balanced.exchangeOne (.slot holder fd) others ?_
    intro other
    rw [ref, here, Pi.add_apply, Pi.add_apply]
    omega
  · intro other zero
    by_cases same : other = f
    · subst same
      rw [ref, Pi.add_apply, Pi.single_eq_same] at zero
      omega
    · rw [ref, Pi.add_apply, Pi.single_eq_of_ne same] at zero
      rw [file, Books.setFile_file_of_ne same]
      exact accounts.unused other zero
  · intro pid other new
    rw [fresh pid] at new
    have same : other ≠ f := by
      rintro rfl
      rw [notFresh pid] at new
      cases new
    obtain ⟨type, one, owner, owns, held⟩ := accounts.fresh pid other new
    refine ⟨?_, ?_, owner, owns, ?_⟩
    · rw [file, Books.setFile_file_of_ne same]
      exact type
    · rw [ref, Pi.add_apply, Pi.single_eq_of_ne same]
      exact one
    · by_cases slot : owner = .slot holder fd
      · rw [slot] at held ⊢
        rw [here]
        exact held.trans_le (Nat.le_add_right _ _)
      · rw [others owner slot]
        exact held
  · rw [Books.fileInode_congr file, Books.fileInode_dup]
    exact descriptors

end

/-- The shares of all holders but one descriptor and the call. -/
theorem share_of_ne
    (fd : Fd)
    (ofile : ∀ other, other ≠ pid → final.ofile other = books.ofile other)
    (same : ∀ other, other ≠ fd → final.ofile pid other = books.ofile pid other)
    (counts : ∀ other, other ≠ fd → (own.Counts other ↔ (views pid).Counts other))
    (holder : FileHolder)
    (notSlot : holder ≠ .slot pid fd)
    (notCall : holder ≠ .call pid) :
    final.fileShare (update views pid own) holder = books.fileShare views holder := by
  cases holder with
  | slot other descriptor =>
    refine congrArg single ?_
    unfold Books.heldFile
    by_cases here : other = pid
    · subst here
      have different : descriptor ≠ fd := fun equal => notSlot (by rw [equal])
      rw [update_self, same descriptor different]
      simp only [counts descriptor different]
    · rw [update_of_ne here, ofile other here]
  | call other =>
    have elsewhere : other ≠ pid := fun equal => notCall (by rw [equal])
    exact congrArg View.files (update_of_ne elsewhere _ _)

/-- The shares of all holders but one descriptor, when the call keeps its references. -/
theorem share_of_ne_slot
    (fd : Fd)
    (ofile : ∀ other, other ≠ pid → final.ofile other = books.ofile other)
    (same : ∀ other, other ≠ fd → final.ofile pid other = books.ofile pid other)
    (counts : ∀ other, other ≠ fd → (own.Counts other ↔ (views pid).Counts other))
    (files : own.files = (views pid).files)
    (holder : FileHolder)
    (different : holder ≠ .slot pid fd) :
    final.fileShare (update views pid own) holder = books.fileShare views holder := by
  by_cases call : holder = .call pid
  · rw [call]
    exact View.update_part View.files files pid
  · exact share_of_ne fd ofile same counts holder different call

/-- The share of a descriptor that has its own reference. -/
theorem share_slot (counts : own.Counts fd) :
    final.fileShare (update views pid own) (.slot pid fd) = single (final.ofile pid fd) := by
  simp only [Books.fileShare, Books.heldFile, update_self, if_pos counts]

/-- The share of one that has not. -/
theorem share_slot_of_not (uncounted : ¬own.Counts fd) :
    final.fileShare (update views pid own) (.slot pid fd) = 0 := by
  simp only [Books.fileShare, Books.heldFile, update_self, if_neg uncounted, single_none]

/-! ## Descriptors -/

/-- The file of a descriptor, to use it. -/
theorem pin
    (accounts : FileAccounts books views)
    (taken : (views pid).taken = none)
    (owed : (views pid).owed = none) :
    FileAccounts books (update views pid
      { views pid with pinned := books.ofile pid fd, pinnedIp := none }) := by
  have before := accounts.descriptors pid
  refine accounts.recast_own rfl (fun _ => rfl) rfl (fun _ => id) rfl rfl ?_
  exact
    { pinned := fun f pinned => ⟨fd, View.counts_of_none taken owed fd, pinned⟩
      pinnedIp := fun _ held => by cases held
      placed := before.placed
      owed := fun _ _ held => nomatch owed.symm.trans held
      closed := before.closed }

/-- Look at the fields of the file. -/
theorem look
    (accounts : FileAccounts books views)
    (pinned : (views pid).pinned = some f)
    (found : ∀ slot, ip = some slot → (books.file f).inode = some slot) :
    FileAccounts books (update views pid { views pid with pinnedIp := ip }) := by
  have before := accounts.descriptors pid
  refine accounts.recast_own rfl (fun _ => rfl) rfl (fun _ => id) rfl rfl ?_
  exact
    { pinned := before.pinned
      pinnedIp := fun slot held => ⟨f, pinned, found slot held⟩
      placed := before.placed
      owed := before.owed
      closed := before.closed }

section Place

variable {proc : Proc} {f : FileId} {fd : Fd}

/-- The descriptors of a process after one of them has been filled. -/
theorem ofile_place
    (found : books.proc pid = some proc)
    (value : Option FileId)
    (other : Fd)
    (different : other ≠ fd) :
    (books.setFd pid fd value).ofile pid other = books.ofile pid other := by
  rw [Books.ofile_setFd_self found, update_of_ne different]

theorem closed_place
    (accounts : FileAccounts books views)
    (found : books.proc pid = some proc)
    (other : Fd)
    (member : other ∈ (views pid).closed.erase fd) :
    (books.setFd pid fd (some f)).ofile pid other = none := by
  obtain ⟨elsewhere, old⟩ := Finset.mem_erase.mp member
  rw [ofile_place found _ other elsewhere]
  exact (accounts.descriptors pid).closed other old

/-- Descriptors of other processes do not change. -/
theorem descriptors_setFd
    (accounts : FileAccounts books views)
    (here : Descriptors books.fileInode ((books.setFd pid fd value).ofile pid) own)
    (other : Pid) :
    Descriptors (books.setFd pid fd value).fileInode ((books.setFd pid fd value).ofile other)
      (update views pid own other) := by
  refine descriptors_update (fun other elsewhere => ?_) here other
  rw [show (books.setFd pid fd value).ofile other = books.ofile other from
    Books.ofile_setProc_of_ne elsewhere]
  exact accounts.descriptors other

theorem share_empty (free : books.ofile pid fd = none) :
    books.fileShare views (.slot pid fd) = 0 := by
  simp only [Books.fileShare, Books.heldFile, free, ite_self, single_none]

theorem ne_of_free
    (free : books.ofile pid fd = none)
    (held : books.ofile pid other = some g) :
    other ≠ fd := by
  rintro rfl
  rw [free] at held
  cases held

variable (accounts : FileAccounts books views)

include accounts

/-- `fdalloc` for a file that the call has a reference to. -/
theorem place
    (found : books.proc pid = some proc)
    (free : books.ofile pid fd = none)
    (positive : 0 < (views pid).files f)
    (owed : (views pid).owed = none)
    (taken : (views pid).taken = none) :
    FileAccounts (books.setFd pid fd (some f)) (update views pid { (views pid).dropFile f with
          placed := some (fd, f), closed := (views pid).closed.erase fd }) := by
  have before := accounts.descriptors pid
  have mine := Books.ofile_setFd_self found fd (some f)
  have counts : ∀ other, ({ (views pid).dropFile f with
      placed := some (fd, f), closed := (views pid).closed.erase fd } :
        View).Counts other :=
    fun other => View.counts_of_none taken owed other
  refine accounts.transfer fd rfl ?_ ?_ rfl (accounts.descriptors_setFd ?_)
  · refine share_of_ne fd (fun _ => Books.ofile_setProc_of_ne)
      (ofile_place found _) fun other _ => ?_
    exact iff_of_true (counts other) (View.counts_of_none taken owed other)
  · intro g
    rw [share_empty free, share_slot (counts fd), mine, update_self, single_some]
    simp only [View.dropFile, Pi.sub_apply, Pi.zero_apply]
    by_cases here : g = f
    · subst here
      rw [Pi.single_eq_same]
      omega
    · rw [Pi.single_eq_of_ne here]
      omega
  · exact
      { pinned := fun g pinned => by
          obtain ⟨other, _, held⟩ := before.pinned g pinned
          exact ⟨other, counts other, (ofile_place found _ other (ne_of_free free held)).trans held⟩
        pinnedIp := before.pinnedIp
        placed := fun other g placed => by
          obtain ⟨rfl, rfl⟩ := Prod.mk.inj (Option.some.inj placed)
          exact ⟨taken, counts fd, by rw [mine, update_self]⟩
        owed := fun _ _ held => by cases owed.symm.trans held
        closed := accounts.closed_place found }

/-- `fdalloc` of `dup`. -/
theorem placeOwed
    (found : books.proc pid = some proc)
    (free : books.ofile pid fd = none)
    (pinned : (views pid).pinned = some f)
    (owed : (views pid).owed = none)
    (taken : (views pid).taken = none) :
    FileAccounts (books.setFd pid fd (some f)) (update views pid { views pid with
          owed := some (fd, f), closed := (views pid).closed.erase fd }) := by
  have before := accounts.descriptors pid
  have counts : ∀ other, other ≠ fd → ({ views pid with
      owed := some (fd, f), closed := (views pid).closed.erase fd } :
        View).Counts other := by
    intro other different
    refine ⟨by simp [taken], ?_⟩
    simpa using fun same : fd = other => different same.symm
  refine accounts.recast_same rfl ?_ ?_ (accounts.descriptors_setFd ?_)
  · funext holder
    by_cases slot : holder = .slot pid fd
    · have uncounted : ¬({ views pid with
          owed := some (fd, f), closed := (views pid).closed.erase fd } :
            View).Counts fd := fun counted => counted.2 rfl
      rw [slot, share_empty free, share_slot_of_not uncounted]
    · refine share_of_ne_slot fd (fun _ => Books.ofile_setProc_of_ne) (ofile_place found _)
        (fun other different => ?_) (by rfl) holder slot
      exact iff_of_true (counts other different) (View.counts_of_none taken owed other)
  · exact fun other g => fresh_update (by exact id) other
  · exact
      { pinned := fun g held => by
          obtain ⟨other, _, held⟩ := before.pinned g held
          have different := ne_of_free free held
          exact ⟨other, counts other different, (ofile_place found _ other different).trans held⟩
        pinnedIp := before.pinnedIp
        placed := fun other g placed => by
          obtain ⟨_, _, held⟩ := before.placed other g placed
          have different := ne_of_free free held
          exact ⟨taken, counts other different, (ofile_place found _ other different).trans held⟩
        owed := fun other g held => by
          obtain ⟨rfl, rfl⟩ := Prod.mk.inj (Option.some.inj held)
          refine ⟨?_, pinned, taken⟩
          rw [Books.ofile_setFd_self found, update_self]
        closed := accounts.closed_place found }

/-- `filedup` of `dup`. -/
theorem dup
    (owed : (views pid).owed = some (fd, f))
    (notFresh : (views pid).fresh f = false) :
    FileAccounts (books.setFile f (books.file f).dup)
      (update views pid { views pid with owed := none }) := by
  have before := accounts.descriptors pid
  obtain ⟨held, pinned, taken⟩ := before.owed fd f owed
  have counts : ∀ other, ({ views pid with owed := none } : View).Counts other := by
    intro other
    refine View.counts_of_none ?_ rfl other
    exact taken
  have countsBefore : ∀ other, other ≠ fd → (views pid).Counts other := by
    intro other different
    refine ⟨by simp [taken], ?_⟩
    rw [owed]
    simpa using fun same : fd = other => different same.symm
  refine accounts.dupSlot f pid fd rfl ?_ ?_ ?_ ?_ ?_
  · refine share_of_ne_slot fd (fun _ _ => rfl) (fun _ _ => rfl) (fun other elsewhere => ?_)
      (by rfl)
    exact iff_of_true (counts other) (countsBefore other elsewhere)
  · have uncounted : ¬(views pid).Counts fd := by
      intro counted
      rw [View.Counts, owed] at counted
      exact counted.2 rfl
    have found : (books.setFile f (books.file f).dup).ofile pid fd = some f := held
    have before : books.fileShare views (.slot pid fd) = 0 := by
      simp only [Books.fileShare, Books.heldFile, if_neg uncounted, single_none]
    rw [share_slot (counts fd), found, single_some, before, zero_add]
  · exact View.update_part View.fresh (by rfl)
  · intro other
    by_cases same : other = pid
    · rw [same]
      exact notFresh
    · by_contra isFresh
      obtain ⟨slot, positive⟩ := accounts.exists_slot_of_pinned pinned
      exact same (accounts.pid_of_fresh (.slot pid slot)
        (Bool.not_eq_false _ ▸ isFresh) positive).symm
  · refine descriptors_update (fun other _ => accounts.descriptors other) ?_
    exact
      { pinned := fun g pinned => by
          obtain ⟨other, _, held⟩ := before.pinned g pinned
          exact ⟨other, counts other, held⟩
        pinnedIp := before.pinnedIp
        placed := fun other g placed => by
          obtain ⟨taken, _, held⟩ := before.placed other g placed
          exact ⟨taken, counts other, held⟩
        owed := fun _ _ held => by cases held
        closed := before.closed }

/-- The file of a descriptor, to close it. -/
theorem take
    (held : books.ofile pid fd = some f)
    (taken : (views pid).taken = none)
    (owed : (views pid).owed = none)
    (pinned : (views pid).pinned = none)
    (placed : (views pid).placed = none) :
    FileAccounts books (update views pid { (views pid).addFile f with taken := some fd }) := by
  have before := accounts.descriptors pid
  have countsBefore : ∀ other, (views pid).Counts other :=
    View.counts_of_none taken owed
  refine accounts.transfer fd rfl ?_ ?_ rfl
    (descriptors_update (fun other _ => accounts.descriptors other) ?_)
  · refine share_of_ne fd (fun _ _ => rfl) (fun _ _ => rfl) fun other different => ?_
    refine iff_of_true ⟨?_, ?_⟩ (countsBefore other)
    · simpa using fun same : fd = other => different same.symm
    · exact (countsBefore other).2
  · intro g
    have uncounted : ¬({ (views pid).addFile f with taken := some fd } :
        View).Counts fd := fun counted => counted.1 rfl
    have share : books.fileShare views (.slot pid fd) = Pi.single f 1 := by
      simp only [Books.fileShare, Books.heldFile_of_counts (countsBefore fd), held, single_some]
    rw [share_slot_of_not uncounted, share]
    simp only [View.addFile, Pi.add_apply, Pi.zero_apply]
    omega
  · exact .of_none pinned before.pinnedIp placed owed before.closed

/-- A descriptor that is to be closed and is empty. -/
theorem takeNone (empty : books.ofile pid fd = none) :
    FileAccounts books (update views pid
      { views pid with closed := insert fd (views pid).closed }) := by
  have before := accounts.descriptors pid
  refine accounts.recast_own rfl (fun _ => rfl) rfl (fun _ => id) rfl rfl ?_
  exact
    { before with
      closed := fun other member => by
        rcases Finset.mem_insert.mp member with rfl | old
        · exact empty
        · exact before.closed other old }

theorem closed_clear
    (found : books.proc pid = some proc)
    (other : Fd)
    (member : other ∈ insert fd (views pid).closed) :
    (books.setFd pid fd none).ofile pid other = none := by
  rw [Books.ofile_setFd_self found]
  by_cases here : other = fd
  · rw [here, update_self]
  · rw [update_of_ne here]
    exact (accounts.descriptors pid).closed other ((Finset.mem_insert.mp member).resolve_left here)

/-- `proc->ofile[fd] = 0` for a descriptor that the call has taken. -/
theorem clearTaken
    (found : books.proc pid = some proc)
    (taken : (views pid).taken = some fd)
    (owed : (views pid).owed = none)
    (pinned : (views pid).pinned = none) :
    FileAccounts (books.setFd pid fd none) (update views pid
        { views pid with taken := none, closed := insert fd (views pid).closed }) := by
  have before := accounts.descriptors pid
  refine accounts.recast_same rfl ?_ ?_ (accounts.descriptors_setFd ?_)
  · funext holder
    by_cases slot : holder = .slot pid fd
    · have uncounted : ¬(views pid).Counts fd := fun counted => counted.1 taken
      have empty : (books.setFd pid fd none).ofile pid fd = none := by
        rw [Books.ofile_setFd_self found, update_self]
      rw [slot, share_empty empty]
      simp only [Books.fileShare, Books.heldFile, if_neg uncounted, single_none]
    · refine share_of_ne_slot fd (fun _ => Books.ofile_setProc_of_ne) (ofile_place found _)
        (fun other different => ?_) (by rfl) holder slot
      refine iff_of_true ⟨by simp, by simp [owed]⟩ ⟨?_, by simp [owed]⟩
      rw [taken]
      simpa using fun same : fd = other => different same.symm
  · exact fun other g => fresh_update (by exact id) other
  · refine .of_none pinned before.pinnedIp ?_ owed (accounts.closed_clear found)
    refine Option.eq_none_iff_forall_ne_some.mpr fun placed held => ?_
    cases taken.symm.trans (before.placed placed.1 placed.2 held).1

/-- `proc->ofile[fd] = 0` for a descriptor that the call has just filled. -/
theorem clearPlaced
    (found : books.proc pid = some proc)
    (placed : (views pid).placed = some (fd, f))
    (owed : (views pid).owed = none)
    (pinned : (views pid).pinned = none) :
    FileAccounts (books.setFd pid fd none) (update views pid { (views pid).addFile f with
          placed := none, closed := insert fd (views pid).closed }) := by
  have before := accounts.descriptors pid
  obtain ⟨taken, countsFd, held⟩ := before.placed fd f placed
  have counts : ∀ other, ({ (views pid).addFile f with
      placed := none, closed := insert fd (views pid).closed } :
        View).Counts other :=
    fun other => View.counts_of_none taken owed other
  refine accounts.transfer fd rfl ?_ ?_ rfl (accounts.descriptors_setFd ?_)
  · refine share_of_ne fd (fun _ => Books.ofile_setProc_of_ne)
      (ofile_place found _) fun other _ => ?_
    exact iff_of_true (counts other) (View.counts_of_none taken owed other)
  · intro g
    have empty : (books.setFd pid fd none).ofile pid fd = none := by
      rw [Books.ofile_setFd_self found, update_self]
    have share : books.fileShare views (.slot pid fd) = Pi.single f 1 := by
      simp only [Books.fileShare, Books.heldFile_of_counts countsFd, held, single_some]
    rw [share_empty empty, share]
    simp only [View.addFile, Pi.add_apply, Pi.zero_apply]
    omega
  · exact .of_none pinned before.pinnedIp rfl owed (accounts.closed_clear found)

/-! ## Files that calls fill in -/

/-- A call fills in a file that it has made. -/
theorem fill
    (entry : File)
    (fresh : (views pid).fresh f = true)
    (ref : entry.ref = (books.file f).ref)
    (ofile : ∀ other, final.ofile other = books.ofile other)
    (file : final.file = update books.file f entry)
    (files : own.files = (views pid).files)
    (unfresh : own.fresh = update (views pid).fresh f false)
    (part : own.fdPart = (views pid).fdPart) :
    FileAccounts final (update views pid own) := by
  obtain ⟨owed, taken⟩ := View.owed_taken_of_fdPart part
  obtain ⟨type, one, _⟩ := accounts.fresh pid f fresh
  have elsewhere : ∀ other, other ≠ f → final.file other = books.file other := by
    intro other different
    rw [file, update_of_ne different]
  have here : final.file f = entry := by
    rw [file, update_self]
  have refs : final.fileRef = books.fileRef := by
    funext other
    by_cases same : other = f
    · rw [same, Books.fileRef, here, ref]
      rfl
    · rw [Books.fileRef, elsewhere other same]
      rfl
  -- a file without a type is nobody's open inode
  have inodes : ∀ g ip, books.fileInode g = some ip → final.fileInode g = some ip := by
    intro g ip found
    have different : g ≠ f := by
      rintro rfl
      simp [Books.fileInode, File.inode, type] at found
    rw [Books.fileInode, elsewhere g different]
    exact found
  refine accounts.recast refs (shares_update ofile files taken owed) ?_ ?_ ?_
  · intro other zero
    have different : other ≠ f := by
      rintro rfl
      omega
    rw [elsewhere other different]
    exact accounts.unused other zero
  · intro holder other new
    have different : other ≠ f := by
      rintro rfl
      by_cases same : holder = pid
      · rw [same, update_self, unfresh, update_self] at new
        cases new
      · rw [update_of_ne same] at new
        obtain ⟨_, _, owner, owns, held⟩ := accounts.fresh pid other fresh
        have theirs := accounts.pid_of_fresh owner new held
        exact same (theirs.symm.trans owns)
    refine ⟨fresh_update (fun now => ?_) holder new, ?_⟩
    · rwa [unfresh, update_of_ne different] at now
    · rw [elsewhere other different]
  · simp only [ofile]
    refine descriptors_update (fun other _ => ?_) ?_
    · exact (accounts.descriptors other).congr_inode fun g _ => inodes g
    · exact ((accounts.descriptors pid).congr_inode fun g _ => inodes g).congr_view part

/-- `fork` gives the child an open file of its parent. -/
theorem dupChild {child : Pid}
    (found : books.proc child = some np)
    (distinct : child ≠ pid)
    (idle : views child = View.idle)
    (held : books.ofile pid fd = some f)
    (free : books.ofile child fd = none)
    (taken : (views pid).taken = none)
    (owed : (views pid).owed = none)
    (fresh : (views pid).fresh = fun _ => false)
    (part : own.filePart = (views pid).filePart) :
    FileAccounts ((books.setFile f (books.file f).dup).setFd child fd (some f))
      (update views pid own) := by
  simp only [View.filePart, Prod.mk.injEq] at part
  obtain ⟨files, sameFresh, part⟩ := part
  obtain ⟨sameOwed, sameTaken⟩ := View.owed_taken_of_fdPart part
  have childView : update views pid own child = View.idle := by
    rw [update_of_ne distinct, idle]
  have there : (books.setFile f (books.file f).dup).proc child = some np := found
  have ofileChild := Books.ofile_setFd_self there fd (some f)
  have ofileOther : ∀ other, other ≠ child →
      ((books.setFile f (books.file f).dup).setFd child fd (some f)).ofile other =
        books.ofile other := fun other different => Books.ofile_setProc_of_ne different
  have held' : ∀ other descriptor, books.heldFile (update views pid own) other descriptor =
        books.heldFile views other descriptor :=
    heldFile_update (fun _ => rfl) sameTaken sameOwed
  refine accounts.dupSlot f child fd rfl ?_ ?_ ?_ ?_ ?_
  · intro holder different
    cases holder with
    | slot other descriptor =>
      refine congrArg single ((?_ : _ = _).trans (held' other descriptor))
      unfold Books.heldFile
      by_cases here : other = child
      · subst here
        have elsewhere : descriptor ≠ fd := fun same => different (by rw [same])
        rw [ofileChild, update_of_ne elsewhere]
        rfl
      · rw [ofileOther other here]
    | call other => exact View.update_part View.files files other
  · have counts : (update views pid own child).Counts fd := by
      rw [childView]
      exact View.counts_of_none rfl rfl fd
    have after : ((books.setFile f (books.file f).dup).setFd child fd (some f)).fileShare
        (update views pid own) (.slot child fd) = Pi.single f 1 := by
      simp only [Books.fileShare, Books.heldFile_of_counts counts, ofileChild,
        update_self, single_some]
    rw [after, share_empty free, zero_add]
  · exact View.update_part View.fresh sameFresh
  · intro other
    by_cases same : other = pid
    · rw [same, fresh]
    · by_contra isFresh
      have positive : 0 < books.fileShare views (.slot pid fd) f := by
        refine single_pos_iff.mpr ?_
        rw [Books.heldFile_of_counts (View.counts_of_none taken owed fd), held]
      exact same (accounts.pid_of_fresh (.slot pid fd)
        (Bool.not_eq_false _ ▸ isFresh) positive).symm
  · intro other
    by_cases here : other = child
    · rw [here, childView]
      exact Descriptors.idle _ _
    · rw [ofileOther other here]
      exact descriptors_update (fun other _ => accounts.descriptors other)
        ((accounts.descriptors pid).congr_view part) other

end Place

end FileAccounts
end Xv6
