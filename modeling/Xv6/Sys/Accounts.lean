import Xv6.Foundation.Shares
import Xv6.Sys.Books
import Xv6.Sys.Discipline

/-!
# The accounts of inodes

Who has the references that the inode cache counts: open files, current
directories, and calls in progress.  The views of the discipline say what the
calls have.  Every posting of the books, together with the change of the view,
keeps the accounts balanced.
-/

namespace Xv6

open Function
open Shares

/-! ## Views of all processes -/

/-- A part of the views that the new view of a process does not change. -/
theorem View.update_part {γ : Type}
    (part : View → γ)
    (same : part own = part (views pid))
    (other : Pid) :
    part (update views pid own other) = part (views other) := by
  by_cases here : other = pid
  · rw [here, update_self, same]
  · rw [update_of_ne here]

@[simp] theorem View.pins_dropRef (own : View) (ip : Slot) :
    (own.dropRef ip).pins = own.pins :=
  rfl

@[simp] theorem View.pins_lock (own : View) (ip : Slot) :
    (own.lock ip).pins = own.pins :=
  rfl

/-! ## References to inodes -/

/-- Who has references to inodes. -/
inductive InodeHolder where
  | file (f : FileId)
  | cwd (pid : Pid)
  | call (pid : Pid)
  deriving DecidableEq

/-- The inode of an open file. -/
def File.inode (entry : File) : Option Slot :=
  if entry.type = .inode then some entry.ip else none

namespace Books

/-- The current directory of a process, as long as no call has begun to put
it. -/
def heldCwd (books : Books) (views : Pid → View) (pid : Pid) : Option Slot :=
  if (views pid).cwdTaken then none else books.cwd pid

/-- The references that a holder has. -/
def inodeShare (books : Books) (views : Pid → View) : InodeHolder → Slot → Nat
  | .file f => single (books.file f).inode
  | .cwd pid => single (books.heldCwd views pid)
  | .call pid => (views pid).refs

/-- The fields of the inode cache. -/
def inodePart (books : Books) := (books.inum, books.ref, books.busy)

theorem inodePart_eq {final books : Books} :
    final.inodePart = books.inodePart ↔
      final.inum = books.inum ∧ final.ref = books.ref ∧ final.busy = books.busy := by
  simp only [inodePart, Prod.mk.injEq]

end Books

/-- The accounts of the inode cache. -/
structure InodeAccounts (books : Books) (views : Pid → View) : Prop where
  /-- An inode has one entry. -/
  unique : ∀ ip other, 0 < books.ref ip → 0 < books.ref other →
    books.inum ip = books.inum other → ip = other
  /-- The references of an entry are those that are held. -/
  balanced : Balanced books.ref (books.inodeShare views)
  /-- A lock is held by the call that it is said to be held by. -/
  locked : ∀ pid ip, (views pid).locks ip = if books.busy ip = some pid then 1 else 0
  /-- A call that has a lock has a reference, or uses an open file that has
  one. -/
  covered : ∀ pid ip, (views pid).locks ip ≤ (views pid).refs ip + (views pid).pins ip

namespace InodeAccounts

variable {books final : Books} {views : Pid → View} {pid : Pid} {own : View}

/-- Other calls are covered as before. -/
theorem covered_update
    (accounts : InodeAccounts books views)
    (covered : ∀ ip, own.locks ip ≤ own.refs ip + own.pins ip)
    (other : Pid)
    (ip : Slot) :
    (update views pid own other).locks ip ≤ (update views pid own other).refs ip +
        (update views pid own other).pins ip := by
  by_cases here : other = pid
  · rw [here, update_self]
    exact covered ip
  · rw [update_of_ne here]
    exact accounts.covered other ip

/-- What the accounts depend on. -/
theorem congr
    (accounts : InodeAccounts books views)
    (tables : final.inodePart = books.inodePart)
    (files : ∀ f, (final.file f).inode = (books.file f).inode)
    (cwds : ∀ other, final.heldCwd (update views pid own) other = books.heldCwd views other)
    (refs : own.refs = (views pid).refs)
    (locks : own.locks = (views pid).locks)
    (covered : ∀ ip, own.locks ip ≤ own.refs ip + own.pins ip) :
    InodeAccounts final (update views pid own) where
  unique := by
    rw [(Books.inodePart_eq.mp tables).1, (Books.inodePart_eq.mp tables).2.1]
    exact accounts.unique
  balanced := by
    have shares : final.inodeShare (update views pid own) = books.inodeShare views := by
      funext holder
      cases holder with
      | file f => exact congrArg single (files f)
      | cwd other => exact congrArg single (cwds other)
      | call other => exact View.update_part View.refs refs other
    rw [(Books.inodePart_eq.mp tables).2.1, shares]
    exact accounts.balanced
  locked other ip := by
    rw [(Books.inodePart_eq.mp tables).2.2, congrFun (View.update_part View.locks locks other) ip]
    exact accounts.locked other ip
  covered := accounts.covered_update covered

/-- Only the references, the locks and the flag of the directory matter of a
view. -/
theorem recast
    (accounts : InodeAccounts books (update views pid own))
    (refs : other.refs = own.refs)
    (locks : other.locks = own.locks)
    (pins : other.pins = own.pins)
    (taken : other.cwdTaken = own.cwdTaken) :
    InodeAccounts books (update views pid other) := by
  have views : update views pid other = update (update views pid own) pid other :=
    (update_idem _ _ _).symm
  rw [views]
  refine accounts.congr rfl (fun _ => rfl) ?_ ?_ ?_ ?_
  · intro process
    unfold Books.heldCwd
    rw [View.update_part View.cwdTaken]
    rw [update_self, taken]
  · rw [update_self, refs]
  · rw [update_self, locks]
  · intro ip
    have covered := accounts.covered pid ip
    rw [update_self] at covered
    rw [refs, locks, pins]
    exact covered

/-- The directories that are held do not depend on the other parts. -/
theorem heldCwd_congr
    (proc : ∀ other, final.cwd other = books.cwd other)
    (taken : own.cwdTaken = (views pid).cwdTaken)
    (other : Pid) :
    final.heldCwd (update views pid own) other = books.heldCwd views other := by
  unfold Books.heldCwd
  rw [View.update_part View.cwdTaken taken, proc]

/-- Neither the inode cache nor what the call has of it changes. -/
theorem same
    (accounts : InodeAccounts books views)
    (tables : final.inodePart = books.inodePart)
    (files : ∀ f, (final.file f).inode = (books.file f).inode)
    (cwds : ∀ other, final.cwd other = books.cwd other)
    (view : (own.refs, own.locks, own.pins, own.cwdTaken) =
      ((views pid).refs, (views pid).locks, (views pid).pins, (views pid).cwdTaken)) :
    InodeAccounts final (update views pid own) := by
  simp only [Prod.mk.injEq] at view
  obtain ⟨refs, locks, pins, taken⟩ := view
  refine accounts.congr tables files (heldCwd_congr cwds taken) refs locks fun ip => ?_
  rw [refs, locks, pins]
  exact accounts.covered pid ip

/-- The shares of all holders but the call. -/
theorem share_of_ne_call
    (files : ∀ f, (final.file f).inode = (books.file f).inode)
    (proc : ∀ other, final.cwd other = books.cwd other)
    (taken : own.cwdTaken = (views pid).cwdTaken)
    (holder : InodeHolder)
    (different : holder ≠ .call pid) :
    final.inodeShare (update views pid own) holder = books.inodeShare views holder := by
  cases holder with
  | file f => exact congrArg single (files f)
  | cwd other => exact congrArg single (heldCwd_congr proc taken other)
  | call other =>
    have elsewhere : other ≠ pid := fun same => different (by rw [same])
    exact congrArg View.refs (update_of_ne elsewhere _ _)

/-- An entry without references is not locked. -/
theorem busy_eq_none
    (accounts : InodeAccounts books views)
    (pinned : ∀ pid ip, (views pid).pinnedIp = some ip → ∃ f, (books.file f).inode = some ip)
    (free : books.ref ip = 0) :
    books.busy ip = none := by
  by_contra locked
  obtain ⟨pid, busy⟩ := Option.ne_none_iff_exists'.mp locked
  have covered := accounts.covered pid ip
  rw [accounts.locked pid ip, if_pos busy] at covered
  have refs := accounts.balanced.share_le (.call pid) ip
  have none : (views pid).refs ip = 0 := Nat.le_zero.mp (free ▸ refs)
  have pins : (views pid).pinnedIp = some ip := by
    by_contra other
    rw [View.pins, if_neg other, none] at covered
    omega
  obtain ⟨f, inode⟩ := pinned pid ip pins
  have held := accounts.balanced.share_le (.file f) ip
  have positive : 0 < single (books.file f).inode ip := single_pos_iff.mpr inode
  exact absurd (positive.trans_le held) (by rw [free]; exact Nat.lt_irrefl 0)

/-- The panic of `iput` needs more references than there are. -/
theorem not_busy
    (accounts : InodeAccounts books views)
    (pinned : ∀ pid ip, (views pid).pinnedIp = some ip → ∃ f, (books.file f).inode = some ip)
    (spare : (views pid).Spare ip)
    (last : books.ref ip = 1) :
    books.busy ip = none := by
  by_contra locked
  obtain ⟨holder, busy⟩ := Option.ne_none_iff_exists'.mp locked
  have lockedHolder := accounts.locked holder ip
  rw [if_pos busy] at lockedHolder
  have covered := accounts.covered holder ip
  have own := accounts.balanced.share_le (.call pid) ip
  change (views pid).refs ip ≤ _ at own
  unfold View.Spare at spare
  by_cases same : holder = pid
  · rw [same] at lockedHolder
    omega
  by_cases pins : (views holder).pinnedIp = some ip
  · obtain ⟨f, inode⟩ := pinned holder ip pins
    have both := accounts.balanced.share_add_le (.file f) (.call pid)
      (fun equal => by cases equal) ip
    have positive : 0 < single (books.file f).inode ip := single_pos_iff.mpr inode
    change single (books.file f).inode ip + (views pid).refs ip ≤ _ at both
    omega
  · rw [View.pins, if_neg pins] at covered
    have both := accounts.balanced.share_add_le (.call holder) (.call pid)
      (fun equal => same (InodeHolder.call.inj equal)) ip
    change (views holder).refs ip + (views pid).refs ip ≤ _ at both
    omega

variable {ip : Slot}

variable (accounts : InodeAccounts books views)

include accounts

/-- A call takes a reference. -/
theorem addRef
    (sole : ∀ other, 0 < books.ref other → books.inum other = books.inum ip → other = ip) :
    InodeAccounts (books.addRef ip) (update views pid ((views pid).addRef ip)) where
  unique first second nowFirst nowSecond same := by
    have used : ∀ slot, slot ≠ ip → 0 < (books.addRef ip).ref slot → 0 < books.ref slot := by
      intro slot different positive
      simpa [Books.addRef, different] using positive
    by_cases isFirst : first = ip
    · by_cases isSecond : second = ip
      · rw [isFirst, isSecond]
      · rw [isFirst] at same ⊢
        exact (sole second (used second isSecond nowSecond) same.symm).symm
    · by_cases isSecond : second = ip
      · rw [isSecond] at same ⊢
        exact sole first (used first isFirst nowFirst) same
      · exact accounts.unique first second (used first isFirst nowFirst)
          (used second isSecond nowSecond) same
  balanced := by
    refine accounts.balanced.exchangeOne (.call pid) ?_ ?_
    · exact share_of_ne_call (fun _ => rfl) (fun _ => rfl) rfl
    · intro slot
      simp only [Books.inodeShare, update_self, Books.addRef, View.addRef, Pi.add_apply]
      omega
  locked other slot := by
    rw [congrFun (View.update_part View.locks (by rfl) other) slot]
    exact accounts.locked other slot
  covered := accounts.covered_update fun slot => (accounts.covered pid slot).trans
    (Nat.add_le_add_right (Nat.le_add_right _ _) _)

/-- A free entry is taken for an inode number that has none. -/
theorem assign
    (free : books.ref ip = 0)
    (unlocked : books.busy ip = none) :
    InodeAccounts (books.assign ip inum) views where
  unique first second usedFirst usedSecond same := by
    have different : ∀ slot, 0 < books.ref slot → slot ≠ ip := by
      rintro slot used rfl
      omega
    simp only [Books.assign, update_of_ne (different first usedFirst),
      update_of_ne (different second usedSecond)] at same
    exact accounts.unique first second usedFirst usedSecond same
  balanced := accounts.balanced
  locked other slot := by
    have same : (books.assign ip inum).busy = books.busy := by
      rw [Books.assign, ← unlocked]
      exact update_eq_self ip books.busy
    rw [same]
    exact accounts.locked other slot
  covered := accounts.covered

/-- `iget`. -/
theorem gets
    (pinned : ∀ pid ip, (views pid).pinnedIp = some ip → ∃ f, (books.file f).inode = some ip)
    (gets : books.Gets inum ip final) :
    InodeAccounts final (update views pid ((views pid).addRef ip)) := by
  rcases gets with ⟨used, _, rfl⟩ | ⟨free, absent, rfl⟩
  · exact accounts.addRef fun other usedOther same =>
      accounts.unique other ip usedOther used same
  · refine (accounts.assign free (accounts.busy_eq_none pinned free)).addRef ?_
    intro other usedOther same
    by_contra different
    rw [Books.assign] at same
    simp only [update_self, update_of_ne different] at same
    exact absent other usedOther same

/-- A reference that a call can do without is not what covers its locks. -/
theorem covered_dropRef
    (spare : (views pid).Spare ip)
    (slot : Slot) :
    (views pid).locks slot ≤ ((views pid).dropRef ip).refs slot + (views pid).pins slot := by
  have before := accounts.covered pid slot
  by_cases same : slot = ip
  · subst same
    unfold View.Spare at spare
    simp only [View.dropRef, Pi.sub_apply, Pi.single_eq_same]
    omega
  · simpa [View.dropRef, same] using before

/-- A call puts a reference. -/
theorem dropRef (spare : (views pid).Spare ip) :
    InodeAccounts (books.dropRef ip) (update views pid ((views pid).dropRef ip)) where
  unique first second usedFirst usedSecond same :=
    accounts.unique first second (usedFirst.trans_le (Nat.sub_le _ _))
      (usedSecond.trans_le (Nat.sub_le _ _)) same
  balanced := by
    refine accounts.balanced.exchangeOne (.call pid) ?_ ?_
    · exact share_of_ne_call (fun _ => rfl) (fun _ => rfl) rfl
    intro slot
    have held := accounts.balanced.share_le (.call pid) slot
    simp only [Books.inodeShare, update_self, Books.dropRef, View.dropRef, Pi.sub_apply] at held ⊢
    by_cases here : slot = ip
    · subst here
      unfold View.Spare at spare
      rw [Pi.single_eq_same]
      omega
    · rw [Pi.single_eq_of_ne here]
      omega
  locked other slot := by
    rw [congrFun (View.update_part View.locks (by rfl) other) slot]
    exact accounts.locked other slot
  covered := accounts.covered_update (accounts.covered_dropRef spare)

/-- A call locks an inode. -/
theorem lock
    (unlocked : books.busy ip = none)
    (spare : (views pid).locks ip < (views pid).refs ip + (views pid).pins ip) :
    InodeAccounts (books.lock ip pid) (update views pid ((views pid).lock ip)) where
  unique := accounts.unique
  balanced := by
    refine accounts.balanced.exchangeOne (.call pid) ?_ ?_
    · exact share_of_ne_call (fun _ => rfl) (fun _ => rfl) rfl
    · intro slot
      simp only [Books.inodeShare, update_self]
      rfl
  locked other slot := by
    have before := accounts.locked other slot
    by_cases same : slot = ip
    · subst same
      rw [unlocked, if_neg (by simp)] at before
      by_cases here : other = pid
      · subst here
        simp [Books.lock, View.lock, before]
      · have elsewhere : ¬pid = other := fun equal => here equal.symm
        simp [Books.lock, here, elsewhere, before]
    · by_cases here : other = pid
      · subst here
        simpa [Books.lock, View.lock, same] using before
      · simpa [Books.lock, here, same] using before
  covered := accounts.covered_update fun slot => by
    have before := accounts.covered pid slot
    rw [View.pins_lock]
    by_cases same : slot = ip
    · subst same
      simp only [View.lock, Pi.add_apply, Pi.single_eq_same]
      omega
    · simpa [View.lock, same] using before

/-- A call unlocks an inode. -/
theorem unlock (held : 0 < (views pid).locks ip) :
    InodeAccounts (books.unlock ip) (update views pid ((views pid).unlock ip)) where
  unique := accounts.unique
  balanced := by
    refine accounts.balanced.exchangeOne (.call pid) ?_ ?_
    · exact share_of_ne_call (fun _ => rfl) (fun _ => rfl) rfl
    · intro slot
      simp only [Books.inodeShare, update_self]
      rfl
  locked other slot := by
    have mine := accounts.locked pid ip
    have busy : books.busy ip = some pid := by
      by_contra different
      rw [if_neg different] at mine
      omega
    rw [if_pos busy] at mine
    have before := accounts.locked other slot
    by_cases same : slot = ip
    · subst same
      by_cases here : other = pid
      · subst here
        simp [Books.unlock, View.unlock, mine]
      · have elsewhere : ¬some pid = some other := fun equal =>
          here (Option.some.inj equal).symm
        rw [busy, if_neg elsewhere] at before
        simp [Books.unlock, here, before]
    · by_cases here : other = pid
      · subst here
        simpa [Books.unlock, View.unlock, same] using before
      · simpa [Books.unlock, here, same] using before
  covered := accounts.covered_update fun slot =>
    (Nat.sub_le _ _).trans (accounts.covered pid slot)

section

variable (holder : InodeHolder) (distinct : holder ≠ .call pid)
  (inum : final.inum = books.inum) (ref : final.ref = books.ref) (busy : final.busy = books.busy)
  (others : ∀ other, other ≠ holder → other ≠ .call pid →
    final.inodeShare (update views pid own) other = books.inodeShare views other)

include holder distinct inum ref busy others

/-- A reference changes hands between a call and another holder. -/
theorem exchange
    (sum : ∀ slot, final.inodeShare (update views pid own) holder slot + own.refs slot =
      books.inodeShare views holder slot + (views pid).refs slot)
    (locks : own.locks = (views pid).locks)
    (covered : ∀ slot, own.locks slot ≤ own.refs slot + own.pins slot) :
    InodeAccounts final (update views pid own) where
  unique := by
    rw [inum, ref]
    exact accounts.unique
  balanced := by
    rw [ref]
    refine accounts.balanced.exchangeTwo holder (.call pid) distinct others ?_
    intro slot
    have sum := sum slot
    simp only [Books.inodeShare, update_self] at sum ⊢
    omega
  locked other slot := by
    rw [busy, congrFun (View.update_part View.locks locks other) slot]
    exact accounts.locked other slot
  covered := accounts.covered_update covered

/-- A call hands one of its references to a file or a directory. -/
theorem give
    (spare : (views pid).Spare ip)
    (before : books.inodeShare views holder = 0)
    (after : final.inodeShare (update views pid own) holder = single (some ip))
    (refs : own.refs = ((views pid).dropRef ip).refs)
    (locks : own.locks = (views pid).locks)
    (pins : own.pins = (views pid).pins) :
    InodeAccounts final (update views pid own) := by
  refine accounts.exchange holder distinct inum ref busy others ?_ locks ?_
  · intro slot
    rw [before, after, single_some, refs]
    simp only [View.dropRef, Pi.sub_apply, Pi.zero_apply]
    by_cases here : slot = ip
    · subst here
      unfold View.Spare at spare
      rw [Pi.single_eq_same]
      omega
    · rw [Pi.single_eq_of_ne here]
      omega
  · intro slot
    rw [refs, locks, pins]
    exact accounts.covered_dropRef spare slot

/-- A call takes over the reference of a file or a directory. -/
theorem receive
    (before : books.inodeShare views holder = single (some ip))
    (after : final.inodeShare (update views pid own) holder = 0)
    (refs : own.refs = ((views pid).addRef ip).refs)
    (locks : own.locks = (views pid).locks)
    (pins : own.pins = (views pid).pins) :
    InodeAccounts final (update views pid own) := by
  refine accounts.exchange holder distinct inum ref busy others ?_ locks ?_
  · intro slot
    rw [before, after, single_some, refs]
    simp only [View.addRef, Pi.add_apply, Pi.zero_apply]
    omega
  · intro slot
    rw [refs, locks, pins]
    exact (accounts.covered pid slot).trans (Nat.add_le_add_right (Nat.le_add_right _ _) _)

end

/-- A directory gets a reference of its own. -/
theorem dupCwd
    (child : Pid)
    (used : 0 < books.ref ip)
    (before : books.heldCwd views child = none)
    (after : (final.heldCwd views child) = some ip)
    (others : ∀ other, other ≠ child → final.heldCwd views other = books.heldCwd views other)
    (inum : final.inum = books.inum)
    (ref : final.ref = (books.addRef ip).ref)
    (busy : final.busy = books.busy)
    (file : final.file = books.file) :
    InodeAccounts final views where
  unique := by
    rw [inum, ref]
    have positive : ∀ slot, 0 < (books.addRef ip).ref slot → 0 < books.ref slot := by
      intro slot now
      by_cases here : slot = ip
      · rw [here]
        exact used
      · simpa [Books.addRef, here] using now
    exact fun first second nowFirst nowSecond => accounts.unique first second
      (positive first nowFirst) (positive second nowSecond)
  balanced := by
    refine accounts.balanced.exchangeOne (.cwd child) ?_ ?_
    · intro other different
      cases other with
      | file f =>
        change single (final.file f).inode = _
        rw [file]
        rfl
      | cwd other =>
        exact congrArg single (others other fun same => different (by rw [same]))
      | call other => rfl
    · intro slot
      simp only [Books.inodeShare, before, after, ref, Books.addRef, Pi.add_apply,
        single_none, single_some, Pi.zero_apply]
      omega
  locked := by
    rw [busy]
    exact accounts.locked
  covered := accounts.covered

end InodeAccounts
end Xv6
