import Xv6.Sys.FileAccounts
import Xv6.Sys.PipeAccounts

/-!
# The accounts of the kernel

The accounts of inodes, open files, pipes and processes together.  Every
operation that a call may perform keeps them, with the view that the discipline
gives to the call.
-/

namespace Xv6

open Function
open Shares

namespace Books

/-- The process exists and can run. -/
def Running (books : Books) (pid : Pid) : Prop :=
  ∃ proc, books.proc pid = some proc ∧ proc.embryo = false

/-- The child is as far as its parent says. -/
def Makes (books : Books) (child : Child) : Prop :=
  ∃ proc, books.proc child.pid = some proc ∧ proc.embryo = true ∧
    (child.cwd = false → proc.cwd = none) ∧ ∀ fd, fd ∉ child.copied → proc.ofile fd = none

variable {books : Books} {pid other : Pid} {proc : Proc}

theorem cwd_setProc_of_ne (different : other ≠ pid) :
    (books.setProc pid value).cwd other = books.cwd other := by
  simp [cwd, setProc, different]

theorem proc_setProc_of_ne (different : other ≠ pid) :
    (books.setProc pid value).proc other = books.proc other := by
  simp [setProc, different]

theorem cwd_setCwd_self
    (found : books.proc pid = some proc)
    (ip : Slot) :
    (books.setCwd pid ip).cwd pid = some ip := by
  simp [cwd, setCwd, setProc, found]

theorem cwd_setFd
    (found : books.proc pid = some proc)
    (fd : Fd)
    (value : Option FileId)
    (other : Pid) :
    (books.setFd pid fd value).cwd other = books.cwd other := by
  by_cases here : other = pid
  · simp [cwd, setFd, setProc, found, here]
  · exact cwd_setProc_of_ne here

theorem ofile_setCwd
    (found : books.proc pid = some proc)
    (ip : Slot)
    (other : Pid) :
    (books.setCwd pid ip).ofile other = books.ofile other := by
  by_cases here : other = pid
  · funext fd
    simp [ofile, setCwd, setProc, found, here]
  · exact ofile_setProc_of_ne here

theorem Running.setFd
    (running : books.Running pid)
    (fd : Fd)
    (value : Option FileId) :
    (books.setFd pid fd value).Running pid := by
  obtain ⟨proc, found, ready⟩ := running
  refine ⟨{ proc with ofile := update proc.ofile fd value }, ?_, ready⟩
  simp [Books.setFd, setProc, found]

theorem Running.setCwd
    (running : books.Running pid)
    (ip : Slot) :
    (books.setCwd pid ip).Running pid := by
  obtain ⟨proc, found, ready⟩ := running
  refine ⟨{ proc with cwd := some ip }, ?_, ready⟩
  simp [Books.setCwd, setProc, found]

end Books

/-- The accounts of processes. -/
structure ProcAccounts (books : Books) (views : Pid → View) : Prop where
  /-- A process that cannot run is in no call. -/
  resting : ∀ pid, ¬books.Running pid → views pid = View.idle
  /-- Calls of `fork` know how far they are. -/
  child : ∀ pid child, (views pid).child = some child → books.Makes child
  /-- They make different processes. -/
  parent : ∀ pid other child sibling, (views pid).child = some child →
    (views other).child = some sibling → child.pid = sibling.pid → pid = other

namespace ProcAccounts

variable {books final : Books} {views : Pid → View} {pid : Pid} {own : View} {child : Child}

theorem Running.congr
    (same : final.proc pid = books.proc pid)
    (running : books.Running pid) :
    final.Running pid := by
  obtain ⟨proc, found, ready⟩ := running
  exact ⟨proc, same.trans found, ready⟩

theorem Makes.congr
    (same : final.proc child.pid = books.proc child.pid)
    (makes : books.Makes child) :
    final.Makes child := by
  obtain ⟨proc, found, rest⟩ := makes
  exact ⟨proc, same.trans found, rest⟩

/-- A child does not run yet. -/
theorem ne_of_running
    (makes : books.Makes child)
    (running : books.Running pid) :
    child.pid ≠ pid := by
  rintro rfl
  obtain ⟨proc, found, embryo, _⟩ := makes
  obtain ⟨other, same, ready⟩ := running
  rw [found] at same
  obtain rfl := Option.some.inj same
  rw [embryo] at ready
  cases ready

section

variable (accounts : ProcAccounts books views)

include accounts

/-- A call goes on while the other processes run as before. -/
theorem evolve
    (stops : own = View.idle ∨ final.Running pid)
    (others : ∀ other, other ≠ pid → books.Running other → final.Running other)
    (kept : ∀ other np, other ≠ pid → (views other).child = some np → final.Makes np)
    (made : ∀ np, own.child = some np → final.Makes np ∧ ∀ other sibling, other ≠ pid →
      (views other).child = some sibling → np.pid ≠ sibling.pid) :
    ProcAccounts final (update views pid own) where
  resting other stopped := by
    by_cases here : other = pid
    · rw [here] at stopped ⊢
      rw [update_self]
      exact stops.resolve_right stopped
    · rw [update_of_ne here]
      exact accounts.resting other fun running => stopped (others other here running)
  child other np now := by
    by_cases here : other = pid
    · rw [here, update_self] at now
      exact (made np now).1
    · rw [update_of_ne here] at now
      exact kept other np here now
  parent first second np sibling nowFirst nowSecond same := by
    by_cases isFirst : first = pid
    · by_cases isSecond : second = pid
      · rw [isFirst, isSecond]
      · rw [isFirst, update_self] at nowFirst
        rw [update_of_ne isSecond] at nowSecond
        exact absurd same ((made np nowFirst).2 second sibling isSecond nowSecond)
    · rw [update_of_ne isFirst] at nowFirst
      by_cases isSecond : second = pid
      · rw [isSecond, update_self] at nowSecond
        exact absurd same.symm ((made sibling nowSecond).2 first np isFirst nowFirst)
      · rw [update_of_ne isSecond] at nowSecond
        exact accounts.parent first second np sibling nowFirst nowSecond same

theorem distinct
    (makes : (views pid).child = some child)
    (other : Pid)
    (sibling : Child)
    (different : other ≠ pid)
    (makesOther : (views other).child = some sibling) :
    child.pid ≠ sibling.pid := fun same =>
  different (accounts.parent pid other child sibling makes makesOther same).symm

variable (running : books.Running pid)

include running

/-- A process changes its own files or directory. -/
theorem congr
    (runs : final.Running pid)
    (others : ∀ other, other ≠ pid → final.proc other = books.proc other)
    (child : own.child = (views pid).child) :
    ProcAccounts final (update views pid own) := by
  have makes : ∀ other np, (views other).child = some np → final.Makes np := by
    intro other np now
    have known := accounts.child other np now
    exact Makes.congr (others _ (ne_of_running known running)) known
  refine accounts.evolve (.inr runs) (fun other different => Running.congr (others other different))
    (fun other np _ => makes other np) fun np now => ?_
  rw [child] at now
  exact ⟨makes pid np now, accounts.distinct now⟩

/-- The process that a call of `fork` makes changes. -/
theorem setChild
    (makes : (views pid).child = some np)
    (known : ∀ later, own.child = some later →
      later.pid = np.pid ∧ (books.setProc np.pid proc).Makes later) :
    ProcAccounts (books.setProc np.pid proc) (update views pid own) := by
  have before := accounts.child pid np makes
  have others : ∀ other, books.Running other → (books.setProc np.pid proc).Running other :=
    fun other runs => Running.congr (Books.proc_setProc_of_ne (ne_of_running before runs).symm) runs
  refine accounts.evolve (.inr (others pid running)) (fun other _ => others other)
    (fun other later different now => ?_) fun later now => ⟨(known later now).2, ?_⟩
  · exact Makes.congr (Books.proc_setProc_of_ne (accounts.distinct makes other later different
      now).symm) (accounts.child other later now)
  · rw [(known later now).1]
    exact accounts.distinct makes

/-- `allocproc`. -/
theorem alloc {child : Pid}
    (free : books.proc child = none)
    (makes : own.child = some ⟨child, ∅, false⟩) :
    ProcAccounts (books.setProc child (some Proc.new)) (update views pid own) := by
  have others : ∀ other, books.Running other →
      (books.setProc child (some Proc.new)).Running other := by
    intro other runs
    refine Running.congr (Books.proc_setProc_of_ne ?_) runs
    rintro rfl
    obtain ⟨proc, found, _⟩ := runs
    rw [free] at found
    cases found
  have elsewhere : ∀ np, books.Makes np → np.pid ≠ child := by
    rintro np ⟨proc, found, _⟩ rfl
    rw [free] at found
    cases found
  refine accounts.evolve (.inr (others pid running)) (fun other _ => others other)
    (fun other np _ now => ?_) fun np now => ?_
  · have known := accounts.child other np now
    exact Makes.congr (Books.proc_setProc_of_ne (elsewhere np known)) known
  · obtain rfl := Option.some.inj (makes.symm.trans now)
    refine ⟨⟨Proc.new, by simp [Books.setProc], rfl, fun _ => rfl, fun _ _ => rfl⟩, ?_⟩
    exact fun other sibling _ now => (elsewhere sibling (accounts.child other sibling now)).symm

/-- The end of `exit`. -/
theorem gone : ProcAccounts (books.setProc pid none) (update views pid View.idle) := by
  refine accounts.evolve (.inl rfl) (fun other different => Running.congr
    (Books.proc_setProc_of_ne different)) (fun other np _ now => ?_) fun np now => nomatch now
  have known := accounts.child other np now
  exact Makes.congr (Books.proc_setProc_of_ne (ne_of_running known running)) known

end

end ProcAccounts

/-! ## All accounts -/

/-- The accounts of the kernel. -/
structure Accounts (books : Books) (views : Pid → View) : Prop where
  inodes : InodeAccounts books views
  files : FileAccounts books views
  pipes : PipeAccounts books views
  procs : ProcAccounts books views

/-- What the accounts of inodes do not read of the books. -/
def Books.otherPart (books : Books) := (books.file, books.proc, books.pipes, books.npipes)

theorem Books.otherPart_eq {final books : Books} :
    final.otherPart = books.otherPart ↔ final.file = books.file ∧ final.proc = books.proc ∧
      final.pipes = books.pipes ∧ final.npipes = books.npipes := by
  simp only [otherPart, Prod.mk.injEq]

/-- What the accounts of inodes do not read of a view. -/
def View.otherPart (own : View) := (own.filePart, own.closing, own.child)

theorem View.otherPart_eq {own other : View} :
    own.otherPart = other.otherPart ↔
      own.filePart = other.filePart ∧ own.closing = other.closing ∧ own.child = other.child := by
  simp only [otherPart, Prod.mk.injEq]

/-- What the accounts of open files do not read of a view. -/
def View.inodePart (own : View) :=
  (own.refs, own.locks, own.cwdTaken, own.closing, own.child)

theorem View.inodePart_eq {own other : View} :
    own.inodePart = other.inodePart ↔ own.refs = other.refs ∧ own.locks = other.locks ∧
      own.cwdTaken = other.cwdTaken ∧ own.closing = other.closing ∧ own.child = other.child := by
  simp only [inodePart, Prod.mk.injEq]

/-- What an operation relies on: its file or inode is in use, and an inode whose
contents it uses is locked by its process. -/
def Op.Finds (pid : Pid) (books : Books) : {β : Type} → Op β → Prop
  | _, .ilock ip | _, .iputBegin ip => 0 < books.ref ip
  | _, .iunlock ip | _, .iputFree ip | _, .stat ip | _, .dirlookup ip _ | _, .isdirempty ip
  | _, .dirlinkWrite ip _ _ | _, .clearEntry ip _ | _, .setNew ip _ _ | _, .incNlink ip
  | _, .decNlink ip | _, .readi ip _ _ => books.busy ip = some pid ∧ 0 < books.ref ip
  | _, .filedup f | _, .file f | _, .fileDrop f | _, .fileAdvance f _ => 0 < books.fileRef f
  | _, .fileReadi f _ | _, .fileWritei f _ =>
    0 < books.fileRef f ∧ books.busy (books.file f).ip = some pid
  | _, .forkFile _ fd => ∀ f, books.ofile pid fd = some f → 0 < books.fileRef f
  | _, _ => True

namespace Accounts

variable {books final : Books} {views : Pid → View} {pid : Pid} {own : View}

/-- The shares of all but the call and the directory of a process. -/
theorem share_of_ne_cwd
    (file : final.file = books.file)
    (cwds : ∀ other, other ≠ pid → final.cwd other = books.cwd other)
    (holder : InodeHolder)
    (notCwd : holder ≠ .cwd pid)
    (notCall : holder ≠ .call pid) :
    final.inodeShare (update views pid own) holder = books.inodeShare views holder := by
  cases holder with
  | file f => exact congrArg (fun files => single (File.inode (files f))) file
  | cwd other =>
    have different : other ≠ pid := fun same => notCwd (by rw [same])
    refine congrArg single ?_
    rw [Books.heldCwd, Books.heldCwd, update_of_ne different, cwds other different]
  | call other =>
    have different : other ≠ pid := fun same => notCall (by rw [same])
    exact congrArg View.refs (update_of_ne different _ _)

/-- The shares of all but the call and an open file. -/
theorem share_of_ne_file
    (taken : own.cwdTaken = (views pid).cwdTaken)
    (holder : InodeHolder)
    (notFile : holder ≠ .file f)
    (notCall : holder ≠ .call pid) :
    (books.setFile f entry).inodeShare (update views pid own) holder =
      books.inodeShare views holder := by
  cases holder with
  | file other =>
    have different : other ≠ f := fun same => notFile (by rw [same])
    exact congrArg (fun entry => single (File.inode entry)) (Books.setFile_file_of_ne different)
  | cwd other => exact congrArg single (InodeAccounts.heldCwd_congr (fun _ => rfl) taken other)
  | call other =>
    have different : other ≠ pid := fun same => notCall (by rw [same])
    exact congrArg View.refs (update_of_ne different _ _)

section

variable (accounts : Accounts books views) (running : books.Running pid)

include accounts running

/-- Only the references and locks of inodes change. -/
theorem of_inodes
    (inodes : InodeAccounts final (update views pid own))
    (tables : final.otherPart = books.otherPart)
    (part : own.otherPart = (views pid).otherPart) :
    Accounts final (update views pid own) := by
  obtain ⟨file, proc, pipes, npipes⟩ := Books.otherPart_eq.mp tables
  obtain ⟨filePart, closing, child⟩ := View.otherPart_eq.mp part
  refine ⟨inodes, accounts.files.congr file (fun other => ?_) filePart,
    accounts.pipes.congr pipes npipes (fun f => by rw [file]) closing, ?_⟩
  · funext fd
    rw [Books.ofile, proc]
    rfl
  · exact accounts.procs.congr running (ProcAccounts.Running.congr (congrFun proc pid) running)
      (fun other _ => congrFun proc other) child

/-- Only the call changes, and no reference to an inode. -/
theorem of_view
    (files : FileAccounts books (update views pid own))
    (part : own.inodePart = (views pid).inodePart)
    (covered : ∀ ip, own.locks ip ≤ own.refs ip + own.pins ip) :
    Accounts books (update views pid own) := by
  obtain ⟨refs, locks, taken, closing, child⟩ := View.inodePart_eq.mp part
  exact ⟨accounts.inodes.congr rfl (fun _ => rfl)
      (InodeAccounts.heldCwd_congr (fun _ => rfl) taken) refs locks covered, files,
    accounts.pipes.congr rfl rfl (fun _ => rfl) closing,
    accounts.procs.congr running running (fun _ _ => rfl) child⟩

/-- An entry of the table of open files changes, but neither its inode nor its pipe. -/
theorem of_setFile {f : FileId}
    (files : FileAccounts (books.setFile f entry) (update views pid own))
    (part : own.inodePart = (views pid).inodePart)
    (pins : own.pins = (views pid).pins)
    (inode : entry.inode = (books.file f).inode)
    (pipeOf : entry.pipeOf = (books.file f).pipeOf) :
    Accounts (books.setFile f entry) (update views pid own) := by
  obtain ⟨refs, locks, taken, closing, child⟩ := View.inodePart_eq.mp part
  refine ⟨accounts.inodes.congr rfl (Books.setFile_part File.inode inode)
      (InodeAccounts.heldCwd_congr (fun _ => rfl) taken) refs locks fun ip => ?_, files,
    accounts.pipes.congr rfl rfl (Books.setFile_part File.pipeOf pipeOf) closing,
    accounts.procs.congr running running (fun _ _ => rfl) child⟩
  rw [refs, locks, pins]
  exact accounts.inodes.covered pid ip

/-- A descriptor of the process changes. -/
theorem of_setFd {fd : Fd}
    (files : FileAccounts (books.setFd pid fd value) (update views pid own))
    (part : own.inodePart = (views pid).inodePart)
    (pins : own.pins = (views pid).pins) :
    Accounts (books.setFd pid fd value) (update views pid own) := by
  obtain ⟨refs, locks, taken, closing, child⟩ := View.inodePart_eq.mp part
  obtain ⟨proc, found, _⟩ := id running
  refine ⟨accounts.inodes.congr rfl (fun _ => rfl)
      (InodeAccounts.heldCwd_congr (Books.cwd_setFd found fd value) taken) refs locks
      fun ip => ?_, files,
    accounts.pipes.congr rfl rfl (fun _ => rfl) closing, accounts.procs.congr running
      (running.setFd fd value) (fun _ => Books.proc_setProc_of_ne) child⟩
  rw [refs, locks, pins]
  exact accounts.inodes.covered pid ip

end

/-! ### Inodes -/

variable {ip : Slot} {f : FileId} {fd : Fd} {np : Child}

section

variable (accounts : Accounts books views) (running : books.Running pid)

include accounts running

theorem gets (gets : books.Gets inum ip final) :
    Accounts final (update views pid ((views pid).addRef ip)) := by
  have inodes : InodeAccounts final (update views pid ((views pid).addRef ip)) :=
    accounts.inodes.gets accounts.files.exists_file_of_pinnedIp gets
  rcases gets with ⟨_, _, rfl⟩ | ⟨_, _, rfl⟩
  · exact accounts.of_inodes running inodes rfl rfl
  · exact accounts.of_inodes running inodes rfl rfl

omit running in
/-- The current directory of a process is in use. -/
theorem ref_pos_of_cwd
    (cwd : books.cwd pid = some ip)
    (held : (views pid).cwdTaken = false) :
    0 < books.ref ip := by
  have positive : 0 < books.inodeShare views (.cwd pid) ip := by
    refine single_pos_iff.mpr ?_
    rw [Books.heldCwd, held]
    exact cwd
  exact positive.trans_le (accounts.inodes.balanced.share_le (.cwd pid) ip)

theorem idupCwd
    (cwd : books.cwd pid = some ip)
    (held : (views pid).cwdTaken = false) :
    Accounts (books.addRef ip) (update views pid ((views pid).addRef ip)) := by
  have used := accounts.ref_pos_of_cwd cwd held
  exact accounts.of_inodes running (accounts.inodes.addRef fun other usedOther same =>
      accounts.inodes.unique other ip usedOther used same) rfl rfl

theorem ilock
    (unlocked : books.busy ip = none)
    (spare : (views pid).locks ip < (views pid).refs ip + (views pid).pins ip) :
    Accounts (books.lock ip pid) (update views pid ((views pid).lock ip)) :=
  accounts.of_inodes running (accounts.inodes.lock unlocked spare) rfl rfl

theorem iunlock (held : 0 < (views pid).locks ip) :
    Accounts (books.unlock ip) (update views pid ((views pid).unlock ip)) :=
  accounts.of_inodes running (accounts.inodes.unlock held) rfl rfl

theorem iputBegin
    (required : (Op.iputBegin ip).Requires (views pid))
    (posted : (Op.iputBegin ip).Posts pid books final freed) :
    Accounts final (update views pid ((Op.iputBegin ip).after (views pid) freed)) := by
  obtain ⟨spare, _⟩ := required
  cases freed with
  | true =>
    obtain ⟨unlocked, rfl⟩ := posted
    have inodes : InodeAccounts (books.lock ip pid) (update views pid ((views pid).lock ip)) :=
      accounts.inodes.lock unlocked (Nat.lt_add_right _ spare)
    refine accounts.of_inodes running ?_ rfl rfl
    exact inodes.recast rfl rfl rfl rfl
  | false =>
    obtain rfl : final = books.dropRef ip := posted
    exact accounts.of_inodes running (accounts.inodes.dropRef spare) rfl rfl

theorem iputFree
    (held : 0 < (views pid).locks ip)
    (referenced : 0 < (views pid).refs ip) :
    Accounts ((books.unlock ip).dropRef ip) (update views pid
        { ((views pid).unlock ip).dropRef ip with freeing := none }) := by
  have unlocked : InodeAccounts (books.unlock ip) (update views pid ((views pid).unlock ip)) :=
    accounts.inodes.unlock held
  have spare : (update views pid ((views pid).unlock ip) pid).Spare ip := by
    have most := accounts.inodes.locked pid ip
    rw [update_self]
    simp only [View.Spare, View.unlock, Pi.sub_apply, Pi.single_eq_same]
    split at most <;> omega
  have put := unlocked.dropRef spare
  rw [update_self, update_idem] at put
  exact accounts.of_inodes running (put.recast rfl rfl rfl rfl) rfl rfl

/-! ### Current directories -/

theorem cwd (held : (views pid).cwdTaken = false) :
    Accounts books (update views pid (Op.cwd.after (views pid) (books.cwd pid))) := by
  have taken : ∀ own : View, own.cwdTaken = true →
      books.heldCwd (update views pid own) pid = none := by
    intro own taken
    rw [Books.heldCwd, update_self, taken]
    rfl
  have others : ∀ (own : View) other, other ≠ pid → books.heldCwd (update views pid own) other =
        books.heldCwd views other := by
    intro own other different
    rw [Books.heldCwd, Books.heldCwd, update_of_ne different]
  cases found : books.cwd pid with
  | none =>
    have before : books.heldCwd views pid = none := by
      rw [Books.heldCwd, held]
      exact found
    refine accounts.of_inodes running ?_ rfl rfl
    refine accounts.inodes.congr rfl (fun _ => rfl) ?_ rfl rfl (accounts.inodes.covered pid)
    intro other
    by_cases here : other = pid
    · rw [here, before]
      exact taken _ rfl
    · exact others _ other here
  | some ip =>
    have before : books.heldCwd views pid = some ip := by
      rw [Books.heldCwd, held]
      exact found
    refine accounts.of_inodes running ?_ rfl rfl
    exact accounts.inodes.receive (.cwd pid) nofun rfl rfl rfl
      (share_of_ne_cwd rfl fun _ _ => rfl) (congrArg single before)
      ((congrArg single (taken _ rfl)).trans single_none) rfl rfl rfl

theorem setCwd
    (taken : (views pid).cwdTaken = true)
    (spare : (views pid).Spare ip) :
    Accounts (books.setCwd pid ip) (update views pid
        { (views pid).dropRef ip with cwdTaken := false }) := by
  have runs := running.setCwd ip
  obtain ⟨proc, found, _⟩ := id running
  refine ⟨?_, ?_, ?_, ?_⟩
  · refine accounts.inodes.give (.cwd pid) nofun rfl rfl rfl
      (share_of_ne_cwd rfl fun _ => Books.cwd_setProc_of_ne) spare ?_ ?_ rfl rfl rfl
    · have before : books.heldCwd views pid = none := by
        rw [Books.heldCwd, taken]
        rfl
      exact (congrArg single before).trans single_none
    · refine congrArg single ?_
      rw [Books.heldCwd, update_self]
      exact Books.cwd_setCwd_self found ip
  · exact accounts.files.congr rfl (Books.ofile_setCwd found ip) rfl
  · exact accounts.pipes.congr rfl rfl (fun _ => rfl) rfl
  · exact accounts.procs.congr running runs (fun other => Books.proc_setProc_of_ne) rfl

/-! ### Open files -/

theorem filealloc (posted : Op.filealloc.Posts pid books final found) :
    Accounts final (update views pid (Op.filealloc.after (views pid) found)) := by
  cases found with
  | none =>
    obtain rfl : final = books := posted
    rw [show Op.filealloc.after (views pid) none = views pid from rfl, update_eq_self]
    exact accounts
  | some f =>
    obtain ⟨free, rfl⟩ := posted
    exact accounts.of_setFile running (accounts.files.alloc free rfl rfl rfl) rfl rfl rfl rfl

theorem fdalloc
    (required : (Op.fdalloc f).Requires (views pid))
    (posted : (Op.fdalloc f).Posts pid books final found) :
    Accounts final (update views pid ((Op.fdalloc f).after (views pid) found)) := by
  obtain ⟨right, owed, taken⟩ := required
  cases found with
  | none =>
    obtain rfl : final = books := posted
    rw [show (Op.fdalloc f).after (views pid) none = views pid from rfl, update_eq_self]
    exact accounts
  | some fd =>
    obtain ⟨free, rfl⟩ := posted
    obtain ⟨proc, found, _⟩ := id running
    change Accounts _ (update views pid ((views pid).place f fd))
    unfold View.place
    split
    · rename_i positive
      exact accounts.of_setFd running (accounts.files.place found free positive owed taken) rfl rfl
    · rename_i zero
      exact accounts.of_setFd running (accounts.files.placeOwed found free (right.resolve_left zero) owed taken) rfl rfl

theorem filedup (required : (Op.filedup f).Requires (views pid)) :
    Accounts (books.setFile f (books.file f).dup)
      (update views pid { views pid with owed := none }) := by
  obtain ⟨notFresh, fd, owed⟩ := required
  exact accounts.of_setFile running (accounts.files.dup owed notFresh) rfl rfl rfl rfl

theorem fdFile (required : (Op.fdFile fd).Requires (views pid)) :
    Accounts books (update views pid
      { views pid with pinned := books.ofile pid fd, pinnedIp := none }) := by
  obtain ⟨taken, owed, covered⟩ := required
  exact accounts.of_view running (accounts.files.pin taken owed) rfl (fun ip => Nat.le_add_right_of_le (covered ip))

theorem file {entry : File}
    (required : (Op.file f).Requires (views pid))
    (type : entry.type = (books.file f).type)
    (inode : entry.ip = (books.file f).ip) :
    Accounts books (update views pid { views pid with
        pinnedIp := if entry.type = .inode then some entry.ip else none }) := by
  obtain ⟨pinned, covered⟩ := required
  refine accounts.of_view running (accounts.files.look pinned ?_) rfl (fun ip => Nat.le_add_right_of_le (covered ip))
  intro slot found
  rw [File.inode, ← type, ← inode]
  exact found

theorem fdTake (required : (Op.fdTake fd).Requires (views pid)) :
    Accounts books (update views pid ((Op.fdTake fd).after (views pid) (books.ofile pid fd))) := by
  obtain ⟨taken, owed, pinned, placed⟩ := required
  cases held : books.ofile pid fd with
  | none =>
    exact accounts.of_view running (accounts.files.takeNone held) rfl (accounts.inodes.covered pid)
  | some f =>
    exact accounts.of_view running (accounts.files.take held taken owed pinned placed) rfl (accounts.inodes.covered pid)

theorem fdClear (required : (Op.fdClear fd).Requires (views pid)) :
    Accounts (books.setFd pid fd none) (update views pid ((views pid).clear fd)) := by
  obtain ⟨owed, pinned, which⟩ := required
  obtain ⟨proc, found, _⟩ := id running
  rcases which with taken | ⟨taken, f, placed⟩
  · rw [View.clear, if_pos taken]
    exact accounts.of_setFd running (accounts.files.clearTaken found taken owed pinned) rfl rfl
  · have notTaken : (views pid).taken ≠ some fd := by
      rw [taken]
      exact fun same => by cases same
    rw [View.clear, if_neg notTaken, placed]
    exact accounts.of_setFd running (accounts.files.clearPlaced found placed owed pinned) rfl rfl

omit running in
/-- A file that a call is making is neither an inode nor a pipe. -/
theorem blank_of_fresh (fresh : (views pid).fresh f = true) :
    (books.file f).inode = none ∧ (books.file f).pipeOf = none := by
  have type := (accounts.files.fresh pid f fresh).1
  simp [File.inode, File.pipeOf, type]

theorem fileInit
    (fresh : (views pid).fresh f = true)
    (spare : (views pid).Spare ip) :
    Accounts (books.setFile f ((books.file f).openInode ip readable writable))
      (update views pid (((views pid).dropRef ip).unfresh f)) := by
  obtain ⟨noInode, noPipe⟩ := accounts.blank_of_fresh fresh
  refine ⟨?_, ?_, ?_, ?_⟩
  · refine accounts.inodes.give (.file f) nofun rfl rfl rfl (share_of_ne_file rfl) spare
      ((congrArg single noInode).trans single_none) ?_ rfl rfl rfl
    exact congrArg (fun entry => single (File.inode entry)) (Books.setFile_file_self books f _)
  · exact accounts.files.fill ((books.file f).openInode ip readable writable) fresh rfl
      (fun _ => rfl) rfl rfl rfl rfl
  · exact accounts.pipes.congr rfl rfl (Books.setFile_part File.pipeOf (noPipe.symm : none = _)) rfl
  · exact accounts.procs.congr running running (fun _ _ => rfl) rfl

theorem pipeInit (required : (Op.pipeInit rf wf).Requires (views pid)) :
    Accounts (books.openPipe rf wf) (update views pid (((views pid).unfresh rf).unfresh wf)) := by
  obtain ⟨freshRead, freshWrite, heldRead, heldWrite⟩ := required
  have distinct : rf ≠ wf := by
    rintro rfl
    have one := (accounts.files.fresh pid rf freshRead).2.1
    have share := accounts.files.balanced.share_le (.call pid) rf
    change (views pid).files rf ≤ _ at share
    simp only [View.dropFile, Pi.sub_apply, Pi.single_eq_same] at heldWrite
    omega
  obtain ⟨noInodeRead, noPipeRead⟩ := accounts.blank_of_fresh freshRead
  obtain ⟨noInodeWrite, noPipeWrite⟩ := accounts.blank_of_fresh freshWrite
  let read := books.newPipe.setFile rf ((books.file rf).pipeEnd books.npipes false)
  have writeFile : read.file wf = books.file wf :=
    Books.setFile_file_of_ne distinct.symm
  refine ⟨?_, ?_, ?_, ?_⟩
  · refine accounts.inodes.same rfl (fun f => ?_) (fun _ => rfl) rfl
    have readPart : (read.file f).inode = (books.file f).inode := by
      refine Books.setFile_part File.inode ?_ f
      exact noInodeRead.symm
    refine (Books.setFile_part File.inode ?_ f).trans readPart
    rw [writeFile]
    exact noInodeWrite.symm
  · have first : FileAccounts read (update views pid ((views pid).unfresh rf)) :=
      accounts.files.fill ((books.file rf).pipeEnd books.npipes false) freshRead rfl
        (fun _ => rfl) rfl rfl rfl rfl
    have freshStill : (update views pid ((views pid).unfresh rf) pid).fresh wf =
        true := by
      rw [update_self]
      simpa [View.unfresh, distinct.symm] using freshWrite
    have second : FileAccounts (books.openPipe rf wf)
        (update (update views pid ((views pid).unfresh rf)) pid
          (((views pid).unfresh rf).unfresh wf)) := by
      refine first.fill ((read.file wf).pipeEnd books.npipes true) freshStill rfl
        (fun _ => rfl) rfl ?_ ?_ ?_
      · rw [update_self]
        rfl
      · rw [update_self]
        rfl
      · rw [update_self]
        rfl
    rw [update_idem] at second
    exact second
  · exact accounts.pipes.openPipe distinct noPipeRead noPipeWrite rfl
  · exact accounts.procs.congr running running (fun _ _ => rfl) rfl

theorem pipeclose (closing : (views pid).closing = some (p, writable)) :
    Accounts (books.closeEnd p writable) (update views pid { views pid with closing := none }) where
  inodes := accounts.inodes.same rfl (fun _ => rfl) (fun _ => rfl) rfl
  files := accounts.files.congr rfl (fun _ => rfl) rfl
  pipes := accounts.pipes.closeEnd closing rfl
  procs := accounts.procs.congr running running (fun _ _ => rfl) rfl

theorem fileDrop
    (required : (Op.fileDrop f).Requires (views pid))
    (drops : books.Drops f left final) :
    Accounts final (update views pid ((((views pid).dropFile f).unfresh f).closes left)) := by
  obtain ⟨held, closing⟩ := required
  have files : FileAccounts final
      (update views pid ((((views pid).dropFile f).unfresh f).closes left)) := by
    refine accounts.files.drops held drops ?_ ?_ ?_ <;> cases left <;> rfl
  rcases drops with ⟨_, rfl, rfl⟩ | ⟨_, leaves, rfl⟩
  · exact accounts.of_setFile running files rfl rfl rfl rfl
  cases type : (books.file f).type with
  | none =>
    obtain rfl : left = .nothing := by rw [leaves, File.leaves, type]
    refine accounts.of_setFile running files rfl rfl ?_ ?_
    · simp [File.inode, File.close, type]
    · simp [File.pipeOf, File.close, type]
  | pipe =>
    obtain rfl : left = .pipe (books.file f).pipe (books.file f).writable := by
      rw [leaves, File.leaves, type]
    refine ⟨?_, files, ?_, accounts.procs.congr running running (fun _ _ => rfl) rfl⟩
    · refine accounts.inodes.same rfl (Books.setFile_part File.inode ?_) (fun _ => rfl) rfl
      simp [File.inode, File.close, type]
    · refine accounts.pipes.dropEnd _ closing ?_ rfl
      rw [File.pipeOf, if_pos type]
      rfl
  | inode =>
    obtain rfl : left = .inode (books.file f).ip := by
      rw [leaves, File.leaves, type]
    refine ⟨?_, files, ?_, accounts.procs.congr running running (fun _ _ => rfl) rfl⟩
    · refine accounts.inodes.receive (.file f) (by intro same; cases same) rfl rfl rfl
        (share_of_ne_file rfl) ?_ ?_ rfl rfl rfl
      · refine congrArg single ?_
        rw [File.inode, if_pos type]
      · refine (congrArg (fun entry => single (File.inode entry))
          (Books.setFile_file_self books f _)).trans ?_
        simp [File.inode, File.close]
    · refine accounts.pipes.congr rfl rfl (Books.setFile_part File.pipeOf ?_) rfl
      simp [File.pipeOf, File.close, type]

/-! ### Processes -/

theorem allocproc (posted : (Op.allocproc child).Posts pid books final made) :
    Accounts final (update views pid ((Op.allocproc child).after (views pid) made)) := by
  cases made with
  | false =>
    obtain rfl : final = books := posted
    rw [show (Op.allocproc child).after (views pid) false = views pid from rfl, update_eq_self]
    exact accounts
  | true =>
    obtain ⟨free, rfl⟩ := posted
    have cwd : ∀ other, (books.setProc child (some Proc.new)).cwd other = books.cwd other := by
      intro other
      by_cases here : other = child
      · subst here
        simp [Books.cwd, Books.setProc, free, Proc.new]
      · exact Books.cwd_setProc_of_ne here
    have ofile : ∀ other, (books.setProc child (some Proc.new)).ofile other =
        books.ofile other := by
      intro other
      by_cases here : other = child
      · subst here
        funext fd
        simp [Books.ofile, Books.setProc, free, Proc.new]
      · exact Books.ofile_setProc_of_ne here
    refine ⟨?_, ?_, ?_, ?_⟩
    · exact accounts.inodes.same rfl (fun _ => rfl) cwd rfl
    · exact accounts.files.congr rfl ofile rfl
    · exact accounts.pipes.congr rfl rfl (fun _ => rfl) rfl
    · exact accounts.procs.alloc running free rfl

/-- The child of a call of `fork` changes, and neither its directory nor its files
do. -/
theorem recastChild
    (makes : (views pid).child = some np)
    (cwd : (books.setProc np.pid proc).cwd np.pid = books.cwd np.pid)
    (ofile : (books.setProc np.pid proc).ofile np.pid = books.ofile np.pid) :
    Accounts (books.setProc np.pid proc) (update views pid { views pid with child := none }) where
  inodes := by
    refine accounts.inodes.same rfl (fun _ => rfl) (fun other => ?_) rfl
    by_cases here : other = np.pid
    · rw [here, cwd]
    · exact Books.cwd_setProc_of_ne here
  files := by
    refine accounts.files.congr rfl (fun other => ?_) rfl
    by_cases here : other = np.pid
    · rw [here, ofile]
    · exact Books.ofile_setProc_of_ne here
  pipes := accounts.pipes.congr rfl rfl (fun _ => rfl) rfl
  procs := accounts.procs.setChild running makes fun later now => by cases now

theorem forkAbort (makes : (views pid).child = some ⟨child, ∅, false⟩) :
    Accounts (books.setProc child none) (update views pid { views pid with child := none }) := by
  obtain ⟨proc, found, _, noCwd, noFiles⟩ := accounts.procs.child pid _ makes
  refine accounts.recastChild running makes ?_ ?_
  · have before : books.cwd child = none := by
      rw [Books.cwd, found]
      exact noCwd rfl
    rw [before]
    simp [Books.cwd, Books.setProc]
  · funext fd
    have before : books.ofile child fd = none := by
      rw [Books.ofile, found]
      exact noFiles fd (Finset.notMem_empty fd)
    rw [before]
    simp [Books.ofile, Books.setProc]

theorem forkEnd (makes : (views pid).child = some np) :
    Accounts (books.setProc np.pid ((books.proc np.pid).map fun np => { np with embryo := false }))
      (update views pid { views pid with child := none }) := by
  obtain ⟨proc, found, _⟩ := accounts.procs.child pid _ makes
  refine accounts.recastChild running makes ?_ ?_
  · simp [Books.cwd, Books.setProc, found]
  · funext fd
    simp [Books.ofile, Books.setProc, found]

omit running in
/-- The process that a call of `fork` makes is in no call. -/
theorem idle_of_makes (makes : (views pid).child = some np) :
    views np.pid = View.idle := by
  have known := accounts.procs.child pid np makes
  exact accounts.procs.resting np.pid fun running =>
    ProcAccounts.ne_of_running known running rfl

end

/-- What `fork` knows after it has copied a descriptor. -/
theorem makes_copied
    (proc : Proc)
    (found : final.proc np.pid = some proc)
    (embryo : proc.embryo = true)
    (noCwd : np.cwd = false → proc.cwd = none)
    (noFiles : ∀ other, other ∉ insert fd np.copied → proc.ofile other = none) :
    final.Makes { np with copied := insert fd np.copied } :=
  ⟨proc, found, embryo, noCwd, noFiles⟩

variable (accounts : Accounts books views) (running : books.Running pid)

include accounts running

theorem forkFile
    (taken : (views pid).taken = none)
    (owed : (views pid).owed = none)
    (fresh : (views pid).fresh = fun _ => false)
    (makes : (views pid).child = some np)
    (new : fd ∉ np.copied)
    (posted : (Op.forkFile np.pid fd).Posts pid books final ()) :
    Accounts final (update views pid ((Op.forkFile np.pid fd).after (views pid) ())) := by
  have child : ((Op.forkFile np.pid fd).after (views pid) ()).child =
      some { np with copied := insert fd np.copied } := by
    change (views pid).child.map _ = _
    rw [makes]
    rfl
  have known := accounts.procs.child pid np makes
  obtain ⟨proc, found, embryo, noCwd, noFiles⟩ := id known
  have fewer : ∀ other, other ∉ insert fd np.copied → proc.ofile other = none :=
    fun other outside => noFiles other fun inside =>
      outside (Finset.mem_insert_of_mem inside)
  cases held : books.ofile pid fd with
  | none =>
    obtain rfl : final = books := by simpa only [Op.Posts, held] using posted
    have same : final.setProc np.pid (final.proc np.pid) = final := by
      simp [Books.setProc]
    refine ⟨?_, ?_, ?_, ?_⟩
    · exact accounts.inodes.same rfl (fun _ => rfl) (fun _ => rfl) rfl
    · exact accounts.files.congr rfl (fun _ => rfl) rfl
    · exact accounts.pipes.congr rfl rfl (fun _ => rfl) rfl
    · rw [← same]
      refine accounts.procs.setChild running makes fun later now => ?_
      rw [child] at now
      obtain rfl := Option.some.inj now
      rw [same]
      exact ⟨rfl, makes_copied proc found embryo noCwd fewer⟩
  | some f =>
    obtain rfl : final = (books.setFile f (books.file f).dup).setFd np.pid fd (some f) := by
      simpa only [Op.Posts, held] using posted
    have there : (books.setFile f (books.file f).dup).proc np.pid = some proc := found
    have free : books.ofile np.pid fd = none := by
      rw [Books.ofile, found]
      exact noFiles fd new
    refine ⟨?_, ?_, ?_, ?_⟩
    · exact accounts.inodes.same rfl (Books.setFile_part File.inode rfl) (Books.cwd_setFd there fd (some f)) rfl
    · exact accounts.files.dupChild found (ProcAccounts.ne_of_running known running)
        (accounts.idle_of_makes makes) held free taken owed fresh rfl
    · exact accounts.pipes.congr rfl rfl (Books.setFile_part File.pipeOf rfl) rfl
    have procs : ProcAccounts (books.setFile f (books.file f).dup) views :=
      ⟨accounts.procs.resting, accounts.procs.child, accounts.procs.parent⟩
    refine procs.setChild running makes fun later now => ?_
    rw [child] at now
    obtain rfl := Option.some.inj now
    refine ⟨rfl, ?_⟩
    refine makes_copied { proc with ofile := update proc.ofile fd (some f) }
      ?_ embryo noCwd fun other outside => ?_
    · simp [Books.setProc, there]
    · have different : other ≠ fd := by
        rintro rfl
        exact outside (Finset.mem_insert_self _ _)
      change update proc.ofile fd (some f) other = none
      rw [update_of_ne different]
      exact fewer other outside

theorem forkCwd
    (held : (views pid).cwdTaken = false)
    (makes : (views pid).child = some np)
    (new : np.cwd = false)
    (cwd : books.cwd pid = some ip) :
    Accounts ((books.addRef ip).setCwd np.pid ip) (update views pid
        ((Op.forkCwd np.pid).after (views pid) ())) := by
  have child : ((Op.forkCwd np.pid).after (views pid) ()).child = some { np with cwd := true } := by
    change (views pid).child.map _ = _
    rw [makes]
    rfl
  obtain ⟨proc, found, embryo, noCwd, noFiles⟩ := accounts.procs.child pid np makes
  have there : (books.addRef ip).proc np.pid = some proc := found
  have idle := accounts.idle_of_makes makes
  refine ⟨?_, ?_, ?_, ?_⟩
  · have inodes : InodeAccounts ((books.addRef ip).setCwd np.pid ip) views := by
      refine accounts.inodes.dupCwd np.pid (accounts.ref_pos_of_cwd cwd held) ?_ ?_ ?_
        rfl rfl rfl rfl
      · rw [Books.heldCwd, idle, Books.cwd, found]
        exact noCwd new
      · rw [Books.heldCwd, idle]
        exact Books.cwd_setCwd_self there ip
      · intro other different
        rw [Books.heldCwd, Books.heldCwd]
        rw [show ((books.addRef ip).setCwd np.pid ip).cwd other = books.cwd other from
          Books.cwd_setProc_of_ne different]
    exact inodes.same rfl (fun _ => rfl) (fun _ => rfl) rfl
  · exact accounts.files.congr rfl (Books.ofile_setCwd there ip) rfl
  · exact accounts.pipes.congr rfl rfl (fun _ => rfl) rfl
  · have procs : ProcAccounts (books.addRef ip) views :=
      ⟨accounts.procs.resting, accounts.procs.child, accounts.procs.parent⟩
    refine procs.setChild running makes fun later now => ?_
    rw [child] at now
    obtain rfl := Option.some.inj now
    refine ⟨rfl, { proc with cwd := some ip }, ?_, embryo, ?_, noFiles⟩
    · simp [Books.setProc, there]
    · intro isFalse
      cases isFalse

theorem gone (required : Op.gone.Requires (views pid)) :
    Accounts (books.setProc pid none) (update views pid View.idle) := by
  obtain ⟨taken, closed, settled⟩ := required
  refine ⟨?_, ?_, ?_, ?_⟩
  · refine accounts.inodes.congr rfl (fun _ => rfl) (fun other => ?_)
      settled.refs.symm settled.locks.symm fun _ => Nat.zero_le _
    by_cases here : other = pid
    · rw [here, Books.heldCwd, Books.heldCwd, taken, update_self]
      simp [View.idle, Books.cwd, Books.setProc]
    · rw [Books.heldCwd, Books.heldCwd, update_of_ne here, Books.cwd_setProc_of_ne here]
  · refine accounts.files.recast_own rfl (fun other => ?_) settled.files.symm
      (fun f new => by cases new) settled.taken.symm settled.owed.symm
      (Descriptors.idle _ _)
    by_cases here : other = pid
    · funext fd
      have empty := (accounts.files.descriptors pid).closed fd (closed ▸ Finset.mem_univ fd)
      rw [here, empty]
      simp [Books.ofile, Books.setProc]
    · exact Books.ofile_setProc_of_ne here
  · exact accounts.pipes.congr rfl rfl (fun _ => rfl) settled.closing.symm
  · exact accounts.procs.gone running

omit running in
/-- A call that has ended holds nothing. -/
theorem settle (settled : (views pid).Settled) :
    Accounts books (update views pid View.idle) where
  inodes := accounts.inodes.congr rfl (fun _ => rfl)
    (InodeAccounts.heldCwd_congr (fun _ => rfl) settled.cwdTaken.symm)
    settled.refs.symm settled.locks.symm fun _ => Nat.zero_le _
  files := accounts.files.recast_own rfl (fun _ => rfl) settled.files.symm
    (fun f new => by cases new) settled.taken.symm settled.owed.symm
    (Descriptors.idle _ _)
  pipes := accounts.pipes.congr rfl rfl (fun _ => rfl) settled.closing.symm
  procs := accounts.procs.evolve (.inl rfl) (fun _ _ => id)
    (fun other np _ => accounts.procs.child other np) fun np now => nomatch now

/-- Every operation of a call keeps the accounts. -/
theorem post {operation : Op β}
    (required : operation.Requires (views pid))
    (posted : operation.Posts pid books final result) :
    Accounts final (update views pid (operation.after (views pid) result)) := by
  have same : final = books → operation.after (views pid) result = views pid → Accounts final
        (update views pid (operation.after (views pid) result)) := by
    rintro rfl view
    rw [view, update_eq_self]
    exact accounts
  cases operation with
  | beginTrans =>
    obtain rfl : final = books := posted
    exact accounts.of_inodes running (accounts.inodes.same rfl (fun _ => rfl)
      (fun _ => rfl) rfl) rfl rfl
  | commitTrans =>
    obtain rfl : final = books := posted
    exact accounts.of_inodes running (accounts.inodes.same rfl (fun _ => rfl)
      (fun _ => rfl) rfl) rfl rfl
  | igetRoot => exact accounts.gets running posted
  | idupCwd =>
    obtain ⟨cwd, rfl⟩ := posted
    exact accounts.idupCwd running cwd required
  | ilock ip =>
    obtain ⟨unlocked, rfl⟩ := posted
    exact accounts.ilock running unlocked required
  | iunlock ip =>
    obtain rfl : final = books.unlock ip := posted
    exact accounts.iunlock running required
  | iputBegin ip => exact accounts.iputBegin running required posted
  | iputFree ip =>
    obtain rfl : final = (books.unlock ip).dropRef ip := posted
    exact accounts.iputFree running required.2.1 required.2.2
  | dirlookup dp name =>
    cases result with
    | none => exact same posted rfl
    | some found =>
      obtain ⟨inum, gets⟩ := posted
      exact accounts.gets running gets
  | ialloc type =>
    obtain ⟨inum, gets⟩ := posted
    exact accounts.gets running gets
  | filealloc => exact accounts.filealloc running posted
  | fdalloc f => exact accounts.fdalloc running required posted
  | filedup f =>
    obtain rfl : final = books.setFile f (books.file f).dup := posted
    exact accounts.filedup running required
  | fdFile fd =>
    obtain ⟨rfl, rfl⟩ := posted
    exact accounts.fdFile running required
  | fdTake fd =>
    obtain ⟨rfl, rfl⟩ := posted
    exact accounts.fdTake running required
  | fdClear fd =>
    obtain rfl : final = books.setFd pid fd none := posted
    exact accounts.fdClear running required
  | file f =>
    obtain ⟨type, inode, rfl⟩ := posted
    exact accounts.file running required type inode
  | fileInit f ip readable writable =>
    obtain rfl : final = books.setFile f ((books.file f).openInode ip readable writable) := posted
    exact accounts.fileInit running required.1 required.2
  | pipeInit rf wf =>
    obtain rfl : final = books.openPipe rf wf := posted
    exact accounts.pipeInit running required
  | pipeclose p writable =>
    obtain rfl : final = books.closeEnd p writable := posted
    exact accounts.pipeclose running required
  | fileDrop f => exact accounts.fileDrop running required posted
  | cwd =>
    obtain ⟨rfl, rfl⟩ := posted
    exact accounts.cwd running required
  | setCwd ip =>
    obtain rfl : final = books.setCwd pid ip := posted
    exact accounts.setCwd running required.1 required.2
  | allocproc child => exact accounts.allocproc running posted
  | forkAbort child =>
    obtain rfl : final = books.setProc child none := posted
    exact accounts.forkAbort running required
  | forkFile child fd =>
    obtain ⟨taken, owed, fresh, np, makes, rfl, new⟩ := required
    exact accounts.forkFile running taken owed fresh makes new posted
  | forkCwd child =>
    obtain ⟨held, np, makes, rfl, new⟩ := required
    obtain ⟨ip, cwd, rfl⟩ := posted
    exact accounts.forkCwd running held makes new cwd
  | forkEnd child =>
    obtain ⟨np, makes, rfl⟩ := required
    obtain rfl : final = books.setProc np.pid
      ((books.proc np.pid).map fun np => { np with embryo := false }) := posted
    exact accounts.forkEnd running makes
  | gone =>
    obtain rfl : final = books.setProc pid none := posted
    exact accounts.gone running required
  | panic text => exact result.elim
  | stat ip => exact same posted rfl
  | dirlinkWrite dp name ip => exact same posted rfl
  | isdirempty dp => exact same posted rfl
  | clearEntry dp off => exact same posted rfl
  | setNew ip major minor => exact same posted rfl
  | incNlink ip => exact same posted rfl
  | decNlink ip => exact same posted rfl
  | readi ip off n => exact same posted rfl
  | fileReadi f n => exact same posted rfl
  | fileWritei f src => exact same posted rfl
  | fileAdvance f n => exact same posted rfl

/-! ### What operations find -/

omit running

/-- A lock is on an inode that is in use. -/
theorem locked
    (held : 0 < (views pid).locks ip) :
    books.busy ip = some pid ∧ 0 < books.ref ip := by
  have busy : books.busy ip = some pid := by
    by_contra other
    rw [accounts.inodes.locked, if_neg other] at held
    exact Nat.lt_irrefl 0 held
  refine ⟨busy, Nat.pos_of_ne_zero fun free => ?_⟩
  rw [accounts.inodes.busy_eq_none accounts.files.exists_file_of_pinnedIp free] at busy
  cases busy

/-- So is a reference that a call has, itself or through its file. -/
theorem referenced
    (held : 0 < (views pid).refs ip + (views pid).pins ip) :
    0 < books.ref ip := by
  by_cases pins : (views pid).pinnedIp = some ip
  · obtain ⟨f, inode⟩ := accounts.files.exists_file_of_pinnedIp pid ip pins
    have positive : 0 < books.inodeShare views (.file f) ip := single_pos_iff.mpr inode
    exact positive.trans_le (accounts.inodes.balanced.share_le _ ip)
  · rw [View.pins, if_neg pins] at held
    exact Nat.lt_of_lt_of_le held (accounts.inodes.balanced.share_le (.call pid) ip)

/-- The file of a call is open. -/
theorem pinned
    (pinned : (views pid).pinned = some f) :
    0 < books.fileRef f := by
  obtain ⟨fd, held⟩ := accounts.files.exists_slot_of_pinned pinned
  exact held.trans_le (accounts.files.balanced.share_le _ f)

/-- Its inode is locked for a transfer. -/
theorem transfer
    (pinned : (views pid).pinned = some f)
    (locked : ∃ ip, (views pid).pinnedIp = some ip ∧ 0 < (views pid).locks ip) :
    0 < books.fileRef f ∧ books.busy (books.file f).ip = some pid := by
  obtain ⟨ip, pinnedIp, held⟩ := locked
  obtain ⟨g, same, inode⟩ := (accounts.files.descriptors pid).pinnedIp ip pinnedIp
  obtain rfl := Option.some.inj (pinned.symm.trans same)
  simp only [Books.fileInode, File.inode, Option.ite_none_right_eq_some,
    Option.some.injEq] at inode
  exact ⟨accounts.pinned pinned, inode.2 ▸ (accounts.locked held).1⟩

/-- A call that keeps to the discipline finds what its next operation relies on. -/
theorem finds {operation : Op β}
    (required : operation.Requires (views pid)) :
    operation.Finds pid books := by
  cases operation with
  | ilock => exact accounts.referenced (Nat.zero_lt_of_lt required)
  | iputBegin => exact accounts.referenced (Nat.add_pos_left (Nat.zero_lt_of_lt required.1) _)
  | iunlock | stat | dirlookup | isdirempty | readi => exact accounts.locked required
  | clearEntry | setNew | incNlink | decNlink => exact accounts.locked required.2
  | dirlinkWrite | iputFree => exact accounts.locked required.2.1
  | filedup f =>
    obtain ⟨_, fd, owed⟩ := required
    exact accounts.pinned ((accounts.files.descriptors pid).owed fd f owed).2.1
  | file => exact accounts.pinned required.1
  | fileAdvance => exact accounts.pinned required
  | fileDrop f =>
    exact Nat.lt_of_lt_of_le required.1 (accounts.files.balanced.share_le (.call pid) f)
  | fileReadi => exact accounts.transfer required.1 required.2
  | fileWritei => exact accounts.transfer required.2.1 required.2.2
  | forkFile child fd =>
    intro f found
    have held : 0 < books.fileShare views (.slot pid fd) f := single_pos_iff.mpr
      ((Books.heldFile_of_counts (View.counts_of_none required.1 required.2.1 fd)).trans found)
    exact held.trans_le (accounts.files.balanced.share_le _ f)
  | _ => trivial

end Accounts
end Xv6
