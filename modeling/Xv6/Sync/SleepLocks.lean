import Mathlib.Data.List.FinRange
import Mathlib.Data.List.Perm.Basic
import Xv6.Foundation.Monitor
import Xv6.Params

/-!
# Sleep-locks

Three objects of the kernel are locked for longer than a spinlock may be held:
an inode by I_BUSY, a buffer by B_BUSY and the log by log.busy.  Each is taken
by a loop that sleeps under a spinlock of its own, and given back with a wakeup.
The functions of fs.c, bio.c, ide.c and log.c that take part are the critical
sections of one monitor.

Lists of processes and references record who holds what; the code reads none of
them.  They also state what callers owe: an inode is locked and put through a
reference that exists, a reference is not put while it is being used, and only
the holder of a lock gives it back.
-/

namespace Xv6
namespace Sync

open Function (update update_self)
open Monitor

/-- Buffers of the buffer cache. -/
abbrev NBUF : Nat := 10

/-- An entry of the inode cache. -/
abbrev Slot := Fin NINODE

/-- A buffer. -/
abbrev BufId := Fin NBUF

/-- The fields of struct inode that its locking uses. -/
structure Inode where
  dev : Nat
  inum : Nat
  ref : Nat
  busy : Bool
  valid : Bool
  nlink : Nat
  deriving DecidableEq

/-- The inode cache. -/
structure Icache where
  inode : Slot → Inode
  /-- The references to an entry that may be used. -/
  refs : Slot → List Nat
  /-- The processes that hold I_BUSY, with the reference they use. -/
  lockers : Slot → List (Nat × Nat)
  /-- The processes that hold I_BUSY to free the inode they put. -/
  freeing : Slot → List Nat
  fresh : Nat

/-- The fields of struct buf that its locking uses. -/
structure Buf where
  dev : Nat
  sector : Nat
  busy : Bool
  valid : Bool
  dirty : Bool
  deriving DecidableEq

/-- The buffer cache. -/
structure Bcache where
  buf : BufId → Buf
  order : List BufId
  users : BufId → List Nat

/-- The log. -/
structure LogLock where
  busy : Bool
  writers : List Nat

/-- Everything under the three locks. -/
structure Shared where
  icache : Icache
  bcache : Bcache
  log : LogLock

/-- What processes sleep on. -/
inductive Chan where
  | inode (slot : Slot)
  | buf (b : BufId)
  | log
  deriving DecidableEq

/-- A call, or the part of one between two releases. -/
inductive Call where
  | iget (dev inum : Nat)
  | idup (slot : Slot)
  | ilock (slot : Slot) (ref : Nat)
  | relock (slot : Slot) (ref : Nat)
  /-- The end of ilock or iupdate: nlink is set and the inode is valid. -/
  | setValid (slot : Slot) (nlink : Nat)
  | iunlock (slot : Slot) (ref : Nat)
  /-- iput of a reference, to the first release. -/
  | iput (slot : Slot) (ref : Nat)
  | iputEnd (slot : Slot)
  | bget (dev sector : Nat)
  | setDirty (b : BufId)
  | iderw (b : BufId)
  | ideintr (b : BufId)
  | brelse (b : BufId)
  | beginTrans
  | commitTrans
  deriving DecidableEq

/-- What a section ends with. -/
inductive Result where
  | inode (slot : Slot)
  | buf (b : BufId)
  | done
  | panic (message : String)
  deriving DecidableEq

/-- What a section does to one of the caches. -/
abbrev Section (σ : Type) := Outcome σ Chan Call Result

/-- A section that returns. -/
def returns {σ : Type} (shared : σ) (result : Result) : Section σ :=
  { shared, wakes := [], exit := .leave result }

/-- A section that returns after a wakeup. -/
def wakes {σ : Type} (shared : σ) (on : Chan) : Section σ :=
  { shared, wakes := [on], exit := .leave .done }

/-! ## The inode cache -/

namespace Icache

/-- An entry changes. -/
def set (c : Icache) (slot : Slot) (ip : Inode) : Icache :=
  { c with inode := update c.inode slot ip }

/-- A new reference to an entry. -/
def addRef (c : Icache) (slot : Slot) : Icache :=
  { c with
    refs := update c.refs slot (c.fresh :: c.refs slot)
    fresh := c.fresh + 1 }

/-- A reference to an entry may no longer be used. -/
def dropRef (c : Icache) (slot : Slot) (ref : Nat) : Icache :=
  { c with refs := update c.refs slot ((c.refs slot).erase ref) }

/-- The entry that iget finds cached. -/
def cached (c : Icache) (dev inum : Nat) : Option Slot :=
  (List.finRange NINODE).find? fun slot =>
    0 < (c.inode slot).ref ∧ (c.inode slot).dev = dev ∧ (c.inode slot).inum = inum

/-- The entry that iget recycles. -/
def empty (c : Icache) : Option Slot :=
  (List.finRange NINODE).find? fun slot => (c.inode slot).ref = 0

/-- iget. -/
def iget (c : Icache) (dev inum : Nat) : Section Icache :=
  match c.cached dev inum with
  | some slot =>
    returns ((c.set slot { c.inode slot with ref := (c.inode slot).ref + 1 }).addRef slot)
      (.inode slot)
  | none =>
    match c.empty with
    | some slot =>
      returns ((c.set slot { c.inode slot with
            dev, inum, ref := 1, busy := false, valid := false }).addRef
          slot)
        (.inode slot)
    | none => returns c (.panic "iget: no inodes")

/-- idup. -/
def idup (c : Icache) (slot : Slot) : Section Icache :=
  returns ((c.set slot { c.inode slot with ref := (c.inode slot).ref + 1 }).addRef slot)
    (.inode slot)

/-- The loop of ilock. -/
def relock (c : Icache) (thread : Nat) (slot : Slot) (ref : Nat) :
    Section Icache :=
  if (c.inode slot).busy then
    { shared := c
      wakes := []
      exit := .sleep (.inode slot) (.relock slot ref) }
  else
    returns
      { c.set slot { c.inode slot with busy := true } with
        lockers := update c.lockers slot ((thread, ref) :: c.lockers slot) }
      .done

/-- ilock. -/
def ilock (c : Icache) (thread : Nat) (slot : Slot) (ref : Nat) :
    Section Icache :=
  if (c.inode slot).ref < 1 then returns c (.panic "ilock")
  else c.relock thread slot ref

/-- iunlock. -/
def iunlock (c : Icache) (thread : Nat) (slot : Slot) (ref : Nat) :
    Section Icache :=
  if (c.inode slot).busy = false ∨ (c.inode slot).ref < 1 then
    returns c (.panic "iunlock")
  else
    wakes
      { c.set slot { c.inode slot with busy := false } with
        lockers := update c.lockers slot ((c.lockers slot).erase (thread, ref)) }
      (.inode slot)

/-- iput up to the end, or up to the release before itrunc. -/
def iput (c : Icache) (thread : Nat) (slot : Slot) (ref : Nat) :
    Section Icache :=
  if (c.inode slot).ref = 1 ∧ (c.inode slot).valid = true ∧ (c.inode slot).nlink = 0 then
    if (c.inode slot).busy then returns c (.panic "iput busy")
    else
      returns
        { (c.set slot { c.inode slot with busy := true }).dropRef slot ref with
          freeing := update c.freeing slot (thread :: c.freeing slot) }
        .done
  else
    returns ((c.set slot { c.inode slot with ref := (c.inode slot).ref - 1 }).dropRef slot ref)
      .done

/-- iput after the inode has been freed on disk. -/
def iputEnd (c : Icache) (thread : Nat) (slot : Slot) : Section Icache :=
  wakes
    { c.set slot
        { c.inode slot with
          busy := false, valid := false, ref := (c.inode slot).ref - 1 } with
      freeing := update c.freeing slot ((c.freeing slot).erase thread) }
    (.inode slot)

/-- The holder sets nlink and I_VALID. -/
def setValid (c : Icache) (slot : Slot) (nlink : Nat) : Section Icache :=
  returns (c.set slot { c.inode slot with valid := true, nlink }) .done

end Icache

/-! ## The buffer cache -/

namespace Bcache

/-- A buffer changes. -/
def set (c : Bcache) (b : BufId) (buf : Buf) : Bcache :=
  { c with buf := update c.buf b buf }

/-- A process holds a buffer. -/
def take (c : Bcache) (thread : Nat) (b : BufId) : Bcache :=
  { c with users := update c.users b (thread :: c.users b) }

/-- bget. -/
def bget (c : Bcache) (thread dev sector : Nat) : Section Bcache :=
  match c.order.find? fun b =>
      (c.buf b).dev = dev ∧ (c.buf b).sector = sector with
  | some b =>
    if (c.buf b).busy then
      { shared := c, wakes := [], exit := .sleep (.buf b) (.bget dev sector) }
    else
      returns ((c.set b { c.buf b with busy := true }).take thread b) (.buf b)
  | none =>
    match c.order.reverse.find? fun b =>
        (c.buf b).busy = false ∧ (c.buf b).dirty = false with
    | some b =>
      returns ((c.set b
          { dev, sector, busy := true, valid := false, dirty := false }).take thread b)
        (.buf b)
    | none => returns c (.panic "bget: no buffers")

/-- brelse. -/
def brelse (c : Bcache) (thread : Nat) (b : BufId) : Section Bcache :=
  if (c.buf b).busy then
    wakes
      { c.set b { c.buf b with busy := false } with
        order := b :: c.order.erase b
        users := update c.users b ((c.users b).erase thread) }
      (.buf b)
  else returns c (.panic "brelse")

/-- bwrite marks its buffer. -/
def setDirty (c : Bcache) (b : BufId) : Section Bcache :=
  returns (c.set b { c.buf b with dirty := true }) .done

/-- The loop of iderw, which sleeps on the buffer under idelock. -/
def iderw (c : Bcache) (b : BufId) : Section Bcache :=
  if (c.buf b).valid ∧ ¬(c.buf b).dirty then returns c .done
  else { shared := c, wakes := [], exit := .sleep (.buf b) (.iderw b) }

/-- ideintr. -/
def ideintr (c : Bcache) (b : BufId) : Section Bcache :=
  wakes (c.set b { c.buf b with valid := true, dirty := false }) (.buf b)

end Bcache

/-! ## The log -/

namespace LogLock

/-- begin_trans. -/
def beginTrans (log : LogLock) (thread : Nat) : Section LogLock :=
  if log.busy then
    { shared := log, wakes := [], exit := .sleep .log .beginTrans }
  else returns { busy := true, writers := thread :: log.writers } .done

/-- commit_trans, after the transaction has been written. -/
def commitTrans (log : LogLock) (thread : Nat) : Section LogLock :=
  wakes { busy := false, writers := log.writers.erase thread } .log

end LogLock

/-! ## The monitor -/

/-- A section of one part as a section of the whole. -/
def within {σ : Type} (embed : σ → Shared) (critical : Section σ) :
    Section Shared :=
  { shared := embed critical.shared
    wakes := critical.wakes
    exit := critical.exit }

/-- The next section of a call. -/
def Call.critical (thread : Nat) (request : Call) (s : Shared) :
    Section Shared :=
  let onInodes := within fun icache => { s with icache }
  let onBufs := within fun bcache => { s with bcache }
  let onLog := within fun log => { s with log }
  match request with
  | .iget dev inum => onInodes (s.icache.iget dev inum)
  | .idup slot => onInodes (s.icache.idup slot)
  | .ilock slot ref => onInodes (s.icache.ilock thread slot ref)
  | .relock slot ref => onInodes (s.icache.relock thread slot ref)
  | .setValid slot nlink => onInodes (s.icache.setValid slot nlink)
  | .iunlock slot ref => onInodes (s.icache.iunlock thread slot ref)
  | .iput slot ref => onInodes (s.icache.iput thread slot ref)
  | .iputEnd slot => onInodes (s.icache.iputEnd thread slot)
  | .bget dev sector => onBufs (s.bcache.bget thread dev sector)
  | .setDirty b => onBufs (s.bcache.setDirty b)
  | .iderw b => onBufs (s.bcache.iderw b)
  | .ideintr b => onBufs (s.bcache.ideintr b)
  | .brelse b => onBufs (s.bcache.brelse thread b)
  | .beginTrans => onLog (s.log.beginTrans thread)
  | .commitTrans => onLog (s.log.commitTrans thread)

/-- The sleep-locks as a monitor: a process may call anything. -/
def behaviour : Behaviour Shared Chan Call Result where
  critical thread request _ shared := request.critical thread shared
  starts _ _ _ := True

/-- What callers owe. -/
def Disciplined (state : State Shared Chan Call) (thread : Nat) : Call → Prop
  | .iget _ _ => True
  | .idup slot => state.shared.icache.refs slot ≠ []
  | .ilock slot ref => ref ∈ state.shared.icache.refs slot
  | .relock slot ref => ref ∈ state.shared.icache.refs slot
  | .setValid slot _ =>
    ∃ ref, (thread, ref) ∈ state.shared.icache.lockers slot
  | .iunlock slot ref => (thread, ref) ∈ state.shared.icache.lockers slot
  | .iput slot ref => ref ∈ state.shared.icache.refs slot ∧
      (∀ other, (other, ref) ∉ state.shared.icache.lockers slot) ∧
      ∀ other, state.activity other ≠ .asleep (.inode slot) (.relock slot ref)
  | .iputEnd slot => thread ∈ state.shared.icache.freeing slot
  | .bget _ _ => True
  | .setDirty b => thread ∈ state.shared.bcache.users b
  | .iderw b => thread ∈ state.shared.bcache.users b
  | .ideintr _ => True
  | .brelse b => thread ∈ state.shared.bcache.users b
  | .beginTrans => True
  | .commitTrans => thread ∈ state.shared.log.writers

/-- The kernel after iinit, binit and initlog. -/
def start (inode : Slot → Inode) (buf : BufId → Buf) :
    State Shared Chan Call where
  shared :=
    { icache :=
        { inode := fun slot =>
            { inode slot with ref := 0, busy := false, valid := false }
          refs := fun _ => []
          lockers := fun _ => []
          freeing := fun _ => []
          fresh := 0 }
      bcache :=
        { buf := fun b =>
            { buf b with busy := false, valid := false, dirty := false }
          order := (List.finRange NBUF).reverse
          users := fun _ => [] }
      log := { busy := false, writers := [] } }
  activity _ := .idle
  killed _ := false

/-! ## Who holds what -/

/-- The records of one entry of the inode cache agree with it. -/
structure Icache.Agrees (c : Icache) (slot : Slot) : Prop where
  /-- ref counts the references. -/
  counted : (c.inode slot).ref = (c.refs slot).length + (c.freeing slot).length
  /-- I_BUSY is set as long as somebody holds it. -/
  locked : (c.lockers slot).length + (c.freeing slot).length = (c.inode slot).busy.toNat
  /-- Whoever holds I_BUSY uses a reference. -/
  pinned : ∀ holder ref, (holder, ref) ∈ c.lockers slot → ref ∈ c.refs slot

/-- The records of the buffer cache agree with it. -/
def Bcache.Agrees (c : Bcache) : Prop :=
  ∀ b, (c.users b).length = (c.buf b).busy.toNat

/-- The records of the log agree with it. -/
def LogLock.Agrees (log : LogLock) : Prop :=
  log.writers.length = log.busy.toNat

/-- All records agree. -/
structure Agrees (s : Shared) : Prop where
  /-- The inode cache. -/
  inodes : ∀ slot, s.icache.Agrees slot
  bufs : s.bcache.Agrees
  log : s.log.Agrees

namespace Icache

variable {c : Icache} {thread nlink : Nat} {slot : Slot} {ref : Nat}

attribute [local simp] returns wakes set addRef dropRef setValid iputEnd

/-- Changes at one entry leave the others alone. -/
theorem agrees_of_slot {d : Icache}
    (slot : Slot)
    (agrees : ∀ other, c.Agrees other)
    (others : ∀ other, other ≠ slot → d.inode other = c.inode other ∧ d.refs other = c.refs other ∧
      d.lockers other = c.lockers other ∧ d.freeing other = c.freeing other)
    (own : d.Agrees slot)
    (other : Slot) :
    d.Agrees other := by
  by_cases same : other = slot
  · exact same ▸ own
  obtain ⟨inode, refs, lockers, freeing⟩ := others other same
  have before := agrees other
  refine ⟨?_, ?_, ?_⟩
  · rw [inode, refs, freeing]
    exact before.counted
  · rw [inode, lockers, freeing]
    exact before.locked
  · rw [lockers, refs]
    exact before.pinned

/-- A new reference to an entry. -/
theorem agrees_addRef (agrees : ∀ other, c.Agrees other) :
    ∀ other, ((c.set slot { c.inode slot with ref := (c.inode slot).ref + 1 }).addRef slot).Agrees
        other := by
  have before := agrees slot
  refine agrees_of_slot slot agrees (fun other different => by simp [different]) ⟨?_, ?_, ?_⟩
  · have := before.counted
    simp
    omega
  · simpa using before.locked
  · intro holder used member
    have := before.pinned holder used member
    simp [this]

theorem agrees_iget
    (agrees : ∀ other, c.Agrees other)
    (dev inum : Nat) :
    ∀ other, (c.iget dev inum).shared.Agrees other := by
  unfold Icache.iget
  split
  · exact agrees_addRef agrees
  split
  · rename_i slot found
    have before := agrees slot
    have unused : (c.inode slot).ref = 0 := by
      simpa using List.find?_some found
    have none : c.refs slot = [] ∧ c.freeing slot = [] := by
      have := before.counted
      rw [unused] at this
      constructor <;> apply List.eq_nil_of_length_eq_zero <;> omega
    have unlocked : c.lockers slot = [] := by
      apply List.eq_nil_iff_forall_not_mem.mpr
      rintro ⟨holder, used⟩ member
      have := before.pinned holder used member
      simp [none.1] at this
    refine agrees_of_slot slot agrees (fun other different => by simp [different]) ⟨?_, ?_, ?_⟩
    · simp [none]
    · simp [none, unlocked]
    · simp [unlocked]
  · exact agrees

/-- An entry that is not busy has no holder. -/
theorem Agrees.free
    (agrees : c.Agrees slot)
    (idle : (c.inode slot).busy = false) :
    c.lockers slot = [] ∧ c.freeing slot = [] := by
  have := agrees.locked
  rw [idle, Bool.toNat_false] at this
  constructor <;> apply List.eq_nil_of_length_eq_zero <;> omega

theorem agrees_relock
    (agrees : ∀ other, c.Agrees other)
    (used : ref ∈ c.refs slot) :
    ∀ other, (c.relock thread slot ref).shared.Agrees other := by
  unfold Icache.relock
  split
  · exact agrees
  rename_i idle
  obtain ⟨unlocked, unfreed⟩ := (agrees slot).free (by simpa using idle)
  refine agrees_of_slot slot agrees (fun other different => by simp [different]) ⟨?_, ?_, ?_⟩
  · simpa using (agrees slot).counted
  · simp [unlocked, unfreed]
  · intro holder other member
    simp only [returns, update_self, unlocked, List.mem_singleton, Prod.mk.injEq] at member
    obtain ⟨_, rfl⟩ := member
    exact used

theorem agrees_setValid (agrees : ∀ other, c.Agrees other) :
    ∀ other, (c.setValid slot nlink).shared.Agrees other := by
  refine agrees_of_slot slot agrees (fun other different => by simp [different]) ⟨?_, ?_, (agrees slot).pinned⟩
  · simpa using (agrees slot).counted
  · simpa using (agrees slot).locked

/-- The only holder of an entry. -/
theorem Agrees.lockers_eq
    (agrees : c.Agrees slot)
    (held : (thread, ref) ∈ c.lockers slot) :
    c.lockers slot = [(thread, ref)] ∧ c.freeing slot = [] := by
  have positive := List.length_pos_of_mem held
  have bounded : (c.inode slot).busy.toNat ≤ 1 := Bool.toNat_le _
  have := agrees.locked
  have single : (c.lockers slot).length = 1 := by omega
  obtain ⟨only, same⟩ := List.length_eq_one_iff.mp single
  rw [same, List.mem_singleton] at held
  exact ⟨by rw [same, held], List.eq_nil_of_length_eq_zero (by omega)⟩

theorem agrees_iunlock
    (agrees : ∀ other, c.Agrees other)
    (held : (thread, ref) ∈ c.lockers slot) :
    ∀ other, (c.iunlock thread slot ref).shared.Agrees other := by
  unfold Icache.iunlock
  split
  · exact agrees
  obtain ⟨unlocked, unfreed⟩ := (agrees slot).lockers_eq held
  refine agrees_of_slot slot agrees (fun other different => by simp [different]) ⟨?_, ?_, ?_⟩
  · simpa using (agrees slot).counted
  · simp [unlocked, unfreed]
  · simp [unlocked]

/-- The last reference to an entry, which nobody uses, is alone. -/
theorem Agrees.last
    (agrees : c.Agrees slot)
    (used : ref ∈ c.refs slot)
    (unlocked : ∀ other, (other, ref) ∉ c.lockers slot)
    (last : (c.inode slot).ref = 1) :
    c.refs slot = [ref] ∧ c.freeing slot = [] ∧ c.lockers slot = [] := by
  have positive := List.length_pos_of_mem used
  have := agrees.counted
  have single : (c.refs slot).length = 1 := by omega
  obtain ⟨only, same⟩ := List.length_eq_one_iff.mp single
  have refs : c.refs slot = [ref] := by
    rw [same, List.mem_singleton] at used
    rw [same, used]
  refine ⟨refs, List.eq_nil_of_length_eq_zero (by omega), ?_⟩
  apply List.eq_nil_iff_forall_not_mem.mpr
  rintro ⟨holder, other⟩ member
  have pinned := agrees.pinned holder other member
  rw [refs, List.mem_singleton] at pinned
  exact unlocked holder (pinned ▸ member)

theorem agrees_iput
    (agrees : ∀ other, c.Agrees other)
    (used : ref ∈ c.refs slot)
    (unlocked : ∀ other, (other, ref) ∉ c.lockers slot) :
    ∀ other, (c.iput thread slot ref).shared.Agrees other := by
  have before := agrees slot
  unfold Icache.iput
  split
  · rename_i last
    obtain ⟨refs, unfreed, free⟩ := before.last used unlocked last.1
    split
    · exact agrees
    refine agrees_of_slot slot agrees (fun other different => by simp [different]) ⟨?_, ?_, ?_⟩
    · simp [last.1, refs, unfreed]
    · simp [free, unfreed]
    · simp [free]
  · refine agrees_of_slot slot agrees (fun other different => by simp [different]) ⟨?_, ?_, ?_⟩
    · have counted := before.counted
      have positive := List.length_pos_of_mem used
      simp only [returns, Icache.dropRef, Icache.set, update_self, List.length_erase_of_mem used]
      omega
    · simpa using before.locked
    · intro holder other member
      have pinned := before.pinned holder other member
      have different : other ≠ ref := by
        rintro rfl
        exact unlocked holder member
      simpa using (List.mem_erase_of_ne different).mpr pinned

theorem agrees_iputEnd
    (agrees : ∀ other, c.Agrees other)
    (freeing : thread ∈ c.freeing slot) :
    ∀ other, (c.iputEnd thread slot).shared.Agrees other := by
  have before := agrees slot
  have positive := List.length_pos_of_mem freeing
  have bounded : (c.inode slot).busy.toNat ≤ 1 := Bool.toNat_le _
  have locked := before.locked
  have counted := before.counted
  have single : (c.freeing slot).length = 1 := by omega
  have free : c.lockers slot = [] :=
    List.eq_nil_of_length_eq_zero (by omega)
  refine agrees_of_slot slot agrees (fun other different => by simp [different]) ⟨?_, ?_, ?_⟩
  · simp only [Icache.iputEnd, wakes, Icache.set, update_self, List.length_erase_of_mem freeing]
    omega
  · simp only [Icache.iputEnd, wakes, Icache.set, update_self,
      List.length_erase_of_mem freeing, free, Bool.toNat_false, List.length_nil]
    omega
  · simp [free]

end Icache

namespace Bcache

variable {c : Bcache} {thread : Nat} {b : BufId}

attribute [local simp] wakes set take

/-- A change at one buffer. -/
theorem agrees_of_buf {d : Bcache}
    (b : BufId)
    (agrees : c.Agrees)
    (others : ∀ other, other ≠ b → d.users other = c.users other ∧ d.buf other = c.buf other)
    (own : (d.users b).length = (d.buf b).busy.toNat) :
    d.Agrees := by
  intro other
  by_cases same : other = b
  · exact same ▸ own
  · rw [(others other same).1, (others other same).2]
    exact agrees other

/-- A process takes a buffer that nobody holds. -/
theorem agrees_take {buf : Buf}
    (agrees : c.Agrees)
    (idle : (c.buf b).busy = false)
    (busy : buf.busy = true) :
    ((c.set b buf).take thread b).Agrees := by
  have free := agrees b
  rw [idle, Bool.toNat_false] at free
  refine agrees_of_buf b agrees (fun other different => by simp [different]) ?_
  simp [free, busy]

theorem agrees_bget
    (agrees : c.Agrees)
    (dev sector : Nat) :
    (c.bget thread dev sector).shared.Agrees := by
  unfold Bcache.bget
  split
  · split
    · exact agrees
    · rename_i idle
      exact agrees_take agrees (by simpa using idle) rfl
  · split
    · rename_i found
      have clean := List.find?_some found
      simp only [decide_eq_true_eq] at clean
      exact agrees_take agrees clean.1 rfl
    · exact agrees

theorem agrees_brelse
    (agrees : c.Agrees)
    (held : thread ∈ c.users b) :
    (c.brelse thread b).shared.Agrees := by
  unfold Bcache.brelse
  split
  · rename_i busy
    have single := agrees b
    rw [busy, Bool.toNat_true] at single
    refine agrees_of_buf b agrees (fun other different => by simp [different]) ?_
    simp [List.length_erase_of_mem held, single]
  · exact agrees

/-- The other flags of a buffer change. -/
theorem agrees_set {buf : Buf}
    (agrees : c.Agrees)
    (same : buf.busy = (c.buf b).busy) :
    (c.set b buf).Agrees := by
  refine agrees_of_buf b agrees (fun other different => by simp [different]) ?_
  simpa [same] using agrees b

theorem agrees_iderw (agrees : c.Agrees) :
    (c.iderw b).shared.Agrees := by
  unfold Bcache.iderw
  split <;> exact agrees

end Bcache

namespace LogLock

variable {log : LogLock} {thread : Nat}

theorem agrees_beginTrans (agrees : log.Agrees) :
    (log.beginTrans thread).shared.Agrees := by
  unfold LogLock.beginTrans
  split
  · exact agrees
  · rename_i idle
    have free := agrees
    unfold LogLock.Agrees at free ⊢
    simp_all [returns]

theorem agrees_commitTrans
    (agrees : log.Agrees)
    (held : thread ∈ log.writers) :
    (log.commitTrans thread).shared.Agrees := by
  have positive := List.length_pos_of_mem held
  have bounded : log.busy.toNat ≤ 1 := Bool.toNat_le _
  unfold LogLock.Agrees at agrees ⊢
  simp only [LogLock.commitTrans, wakes, List.length_erase_of_mem held, Bool.toNat_false]
  omega

end LogLock

variable {state : State Shared Chan Call} {thread : Nat} {request : Call} {s : Shared} {on : Chan}
  {resume : Call}

/-- A section whose caller gives what it owes keeps the records. -/
theorem Agrees.critical
    (agrees : Agrees state.shared)
    (disciplined : Disciplined state thread request) :
    Agrees (request.critical thread state.shared).shared := by
  obtain ⟨inodes, bufs, log⟩ := agrees
  cases request with
  | iget dev inum => exact ⟨Icache.agrees_iget inodes dev inum, bufs, log⟩
  | idup slot => exact ⟨Icache.agrees_addRef inodes, bufs, log⟩
  | ilock slot ref =>
    refine ⟨?_, bufs, log⟩
    simp only [Call.critical, within, Icache.ilock]
    split
    · exact inodes
    · exact Icache.agrees_relock inodes disciplined
  | relock slot ref =>
    exact ⟨Icache.agrees_relock inodes disciplined, bufs, log⟩
  | setValid slot nlink => exact ⟨Icache.agrees_setValid inodes, bufs, log⟩
  | iunlock slot ref =>
    exact ⟨Icache.agrees_iunlock inodes disciplined, bufs, log⟩
  | iput slot ref =>
    exact ⟨Icache.agrees_iput inodes disciplined.1 disciplined.2.1, bufs, log⟩
  | iputEnd slot => exact ⟨Icache.agrees_iputEnd inodes disciplined, bufs, log⟩
  | bget dev sector => exact ⟨inodes, Bcache.agrees_bget bufs dev sector, log⟩
  | setDirty b => exact ⟨inodes, Bcache.agrees_set bufs rfl, log⟩
  | iderw b => exact ⟨inodes, Bcache.agrees_iderw bufs, log⟩
  | ideintr b => exact ⟨inodes, Bcache.agrees_set bufs rfl, log⟩
  | brelse b => exact ⟨inodes, Bcache.agrees_brelse bufs disciplined, log⟩
  | beginTrans => exact ⟨inodes, bufs, LogLock.agrees_beginTrans log⟩
  | commitTrans =>
    exact ⟨inodes, bufs, LogLock.agrees_commitTrans log disciplined⟩

theorem Agrees.reachable (reached : Reachable behaviour Disciplined (start inode buf) state) :
    Agrees state.shared := by
  refine reached.shared Agrees ?_ ?_
  · exact ⟨fun slot => ⟨rfl, rfl, fun _ _ member => by cases member⟩, fun b => rfl, rfl⟩
  · exact fun state thread request _ _ disciplined agrees =>
      agrees.critical disciplined

/-! ## Waiters -/

attribute [local simp] Call.critical within wakes returns Bcache.set Icache.set Icache.addRef
  Icache.dropRef Icache.setValid Icache.iputEnd

/-- What a process waits for in one of the three acquisition loops. -/
def Waits (on : Chan) (resume : Call) (s : Shared) : Prop :=
  match resume with
  | .relock slot ref => on = .inode slot ∧
      (s.icache.inode slot).busy = true ∧ ref ∈ s.icache.refs slot
  | .bget _ _ => ∃ b, on = .buf b ∧ (s.bcache.buf b).busy = true
  | .beginTrans => on = .log ∧ s.log.busy = true
  | _ => True

/-- The sections without a loop leave. -/
theorem not_sleep_of_plain (exit : (request.critical thread s).exit = .sleep on resume) :
    (∃ slot ref, request = .ilock slot ref ∨ request = .relock slot ref) ∨
      (∃ dev sector, request = .bget dev sector) ∨
      (∃ b, request = .iderw b) ∨ request = .beginTrans := by
  cases request with
  | iget dev inum =>
    simp only [Call.critical, within, Icache.iget] at exit
    split at exit
    · cases exit
    · split at exit <;> cases exit
  | idup slot => cases exit
  | setValid slot nlink => cases exit
  | iunlock slot ref =>
    simp only [Call.critical, within, Icache.iunlock] at exit
    split at exit <;> cases exit
  | iput slot ref =>
    simp only [Call.critical, within, Icache.iput] at exit
    split at exit
    · split at exit <;> cases exit
    · cases exit
  | iputEnd slot => cases exit
  | setDirty b => cases exit
  | ideintr b => cases exit
  | brelse b =>
    simp only [Call.critical, within, Bcache.brelse] at exit
    split at exit <;> cases exit
  | commitTrans => cases exit
  | ilock slot ref => exact Or.inl ⟨slot, ref, Or.inl rfl⟩
  | relock slot ref => exact Or.inl ⟨slot, ref, Or.inr rfl⟩
  | bget dev sector => exact Or.inr (Or.inl ⟨dev, sector, rfl⟩)
  | iderw b => exact Or.inr (Or.inr (Or.inl ⟨b, rfl⟩))
  | beginTrans => exact Or.inr (Or.inr (Or.inr rfl))

theorem Icache.relock_sleeps {c : Icache} {slot : Slot}
    (exit : (c.relock thread slot ref).exit = .sleep on resume) :
    (c.relock thread slot ref).shared = c ∧ on = .inode slot ∧
      resume = .relock slot ref ∧ (c.inode slot).busy = true := by
  unfold Icache.relock at exit ⊢
  split at exit
  · rename_i busy
    cases exit
    simp [busy]
  · cases exit

/-- A section that falls asleep waits for something. -/
theorem waits_of_sleep
    (disciplined : Disciplined state thread request)
    (exit : (request.critical thread state.shared).exit = .sleep on resume) :
    Waits on resume (request.critical thread state.shared).shared := by
  obtain ⟨slot, ref, rfl | rfl⟩ | ⟨dev, sector, rfl⟩ | ⟨b, rfl⟩ | rfl :=
    not_sleep_of_plain exit
  · simp only [Call.critical, within, Icache.ilock] at exit ⊢
    split at exit
    · cases exit
    · rename_i referenced
      obtain ⟨same, rfl, rfl, busy⟩ := Icache.relock_sleeps exit
      rw [if_neg referenced, same]
      exact ⟨rfl, busy, disciplined⟩
  · obtain ⟨same, rfl, rfl, busy⟩ := Icache.relock_sleeps exit
    simp only [Call.critical, within, same]
    exact ⟨rfl, busy, disciplined⟩
  · simp only [Call.critical, within, Bcache.bget] at exit ⊢
    split at exit
    · rename_i b found
      split at exit
      · rename_i busy
        cases exit
        refine ⟨b, rfl, ?_⟩
        simp [busy]
      · cases exit
    · split at exit <;> cases exit
  · simp only [Call.critical, within, Bcache.iderw] at exit
    split at exit
    · cases exit
    · cases exit
      trivial
  · simp only [Call.critical, within, LogLock.beginTrans] at exit ⊢
    split at exit
    · rename_i busy
      cases exit
      rw [if_pos busy]
      exact ⟨rfl, busy⟩
    · cases exit

/-! ## Sections and the waiters of others -/

/-- A section leaves an entry of the inode cache busy and a reference to it in
use, if it wakes nobody that waits for the entry. -/
theorem inode_keeps
    (agrees : Agrees state.shared)
    (disciplined : Disciplined state thread request)
    (asleep : state.activity other = .asleep (.inode slot) (.relock slot ref))
    (busy : (state.shared.icache.inode slot).busy = true)
    (used : ref ∈ state.shared.icache.refs slot)
    (unwoken : .inode slot ∉ (request.critical thread state.shared).wakes) :
    ((request.critical thread state.shared).shared.icache.inode slot).busy = true ∧
      ref ∈ (request.critical thread state.shared).shared.icache.refs slot := by
  have counted := (agrees.inodes slot).counted
  have positive := List.length_pos_of_mem used
  -- an entry that is set without its busy flag, possibly with a new reference
  have taken : ∀ place ip, (place = slot → ip.busy = true) →
      (((state.shared.icache.set place ip).addRef place).inode slot).busy = true ∧
        ref ∈ ((state.shared.icache.set place ip).addRef place).refs slot := by
    intro place ip same
    by_cases here : slot = place
    · subst here
      simp [same, used]
    · simp [here, busy, used]
  have relocks : ∀ place via,
      ((state.shared.icache.relock thread place via).shared.inode slot).busy =
        true ∧ ref ∈ (state.shared.icache.relock thread place via).shared.refs
          slot := by
    intro place via
    unfold Icache.relock
    split
    · exact ⟨busy, used⟩
    · by_cases here : slot = place
      · subst here
        simp [used]
      · simp [here, busy, used]
  cases request with
  | iget dev inum =>
    simp only [Call.critical, within, Icache.iget]
    split
    · refine taken _ _ ?_
      rintro rfl
      exact busy
    split
    · rename_i empty found
      refine taken _ _ ?_
      rintro rfl
      have unused : (state.shared.icache.inode empty).ref = 0 := by
        simpa using List.find?_some found
      omega
    · exact ⟨busy, used⟩
  | idup place =>
    refine taken _ _ ?_
    rintro rfl
    exact busy
  | ilock place via =>
    simp only [Call.critical, within, Icache.ilock]
    split
    · exact ⟨busy, used⟩
    · exact relocks place via
  | relock place via => exact relocks place via
  | setValid place nlink =>
    refine ⟨?_, used⟩
    by_cases here : slot = place
    · subst here
      simpa using busy
    · simpa [here] using busy
  | iunlock place via =>
    simp only [Call.critical, within, Icache.iunlock] at unwoken ⊢
    split at unwoken <;> rename_i reason
    · rw [if_pos reason]
      exact ⟨busy, used⟩
    · rw [if_neg reason]
      have here : slot ≠ place := by simpa using unwoken
      simpa [here] using And.intro busy used
  | iput place via =>
    obtain ⟨referenced, unlocked, unwaited⟩ := disciplined
    simp only [Call.critical, within, Icache.iput]
    by_cases here : slot = place
    · subst here
      have different : ref ≠ via := by
        rintro rfl
        exact unwaited other asleep
      have kept : ref ∈ (state.shared.icache.refs slot).erase via :=
        (List.mem_erase_of_ne different).mpr used
      split
      · rename_i last
        have alone := (agrees.inodes slot).last referenced unlocked last.1
        rw [alone.1, List.mem_singleton] at used
        exact absurd used different
      · simpa [kept] using busy
    · split
      · split
        · exact ⟨busy, used⟩
        · simpa [here] using And.intro busy used
      · simpa [here] using And.intro busy used
  | iputEnd place =>
    have here : slot ≠ place := by
      simpa using unwoken
    simpa [here] using And.intro busy used
  | _ => exact ⟨busy, used⟩

/-- A section leaves a buffer busy, if it wakes nobody that waits for it. -/
theorem buf_keeps
    (busy : (s.bcache.buf b).busy = true)
    (unwoken : .buf b ∉ (request.critical thread s).wakes) :
    ((request.critical thread s).shared.bcache.buf b).busy = true := by
  have sets : ∀ place buf, (place = b → buf.busy = true) →
      ((s.bcache.set place buf).buf b).busy = true := by
    intro place buf same
    by_cases here : b = place
    · simp [← here, same here.symm]
    · simp [here, busy]
  cases request with
  | bget dev sector =>
    simp only [Call.critical, within, Bcache.bget]
    split
    · split
      · exact busy
      · exact sets _ _ fun _ => rfl
    · split
      · exact sets _ _ fun _ => rfl
      · exact busy
  | setDirty place =>
    refine sets _ _ ?_
    rintro rfl
    exact busy
  | iderw place =>
    simp only [Call.critical, within, Bcache.iderw]
    split <;> exact busy
  | ideintr place =>
    refine sets _ _ ?_
    rintro rfl
    exact busy
  | brelse place =>
    simp only [Call.critical, within, Bcache.brelse] at unwoken ⊢
    split at unwoken <;> rename_i reason
    · rw [if_pos reason]
      refine sets _ _ ?_
      rintro rfl
      simp at unwoken
    · rw [if_neg reason]
      exact busy
  | _ => exact busy

/-- A section leaves the log busy, if it wakes nobody that waits for it. -/
theorem log_keeps
    (busy : s.log.busy = true)
    (unwoken : .log ∉ (request.critical thread s).wakes) :
    (request.critical thread s).shared.log.busy = true := by
  cases request with
  | beginTrans => simp [LogLock.beginTrans, busy]
  | commitTrans =>
    simp [LogLock.commitTrans] at unwoken
  | _ => exact busy

/-- What sleepers in an acquisition loop wait for holds as long as they
sleep. -/
theorem waits_of_asleep
    (reached : Reachable behaviour Disciplined (start inode buf) state)
    (asleep : state.activity thread = .asleep on resume) :
    Waits on resume state.shared := by
  refine reached.asleep Waits ?_ ?_ ?_ asleep
  · intro thread on resume asleep
    cases asleep
  · intro state thread request on resume _ _ disciplined exit
    exact waits_of_sleep disciplined exit
  intro state thread request other on resume reached _ disciplined asleep unwoken waits
  cases resume with
  | relock slot ref =>
    obtain ⟨rfl, busy, used⟩ := waits
    exact ⟨rfl, inode_keeps (Agrees.reachable reached) disciplined asleep busy used unwoken⟩
  | bget dev sector =>
    obtain ⟨b, rfl, busy⟩ := waits
    exact ⟨b, rfl, buf_keeps busy unwoken⟩
  | beginTrans =>
    obtain ⟨rfl, busy⟩ := waits
    exact ⟨rfl, log_keeps busy unwoken⟩
  | _ => trivial

/-! ## Exclusion -/

/-- The processes that hold I_BUSY of an entry. -/
def Shared.inodeHolders (s : Shared) (slot : Slot) : List Nat :=
  (s.icache.lockers slot).map Prod.fst ++ s.icache.freeing slot

/-- The call is one of the three acquisition loops. -/
def Call.acquires : Call → Bool
  | .relock _ _ => true
  | .bget _ _ => true
  | .beginTrans => true
  | _ => false

/-- Somebody holds the object that a channel stands for. -/
def Shared.Held (s : Shared) : Chan → Prop
  | .inode slot => s.inodeHolders slot ≠ []
  | .buf b => s.bcache.users b ≠ []
  | .log => s.log.writers ≠ []

/-- The sleep-locks exclude and strand nobody: an inode, a buffer and the log
are held by one process at most, and a process that sleeps in an acquisition
loop waits for an object that is held. -/
theorem sleep_locks_exclude {inode : Slot → Inode}
    {buf : BufId → Buf} {state : State Shared Chan Call}
    (reached : Reachable behaviour Disciplined (start inode buf) state) :
    (∀ slot, (state.shared.inodeHolders slot).length ≤ 1) ∧
      (∀ b, (state.shared.bcache.users b).length ≤ 1) ∧ state.shared.log.writers.length ≤ 1 ∧
      ∀ thread on resume, state.activity thread = .asleep on resume →
        resume.acquires = true → state.shared.Held on := by
  have agrees := Agrees.reachable reached
  have inodes : ∀ slot, (state.shared.inodeHolders slot).length =
      (state.shared.icache.inode slot).busy.toNat := by
    intro slot
    simpa [Shared.inodeHolders] using (agrees.inodes slot).locked
  refine ⟨?_, ?_, ?_, ?_⟩
  · intro slot
    rw [inodes]
    exact Bool.toNat_le _
  · intro b
    rw [agrees.bufs b]
    exact Bool.toNat_le _
  · rw [agrees.log]
    exact Bool.toNat_le _
  intro thread on resume asleep acquires
  have waits := waits_of_asleep reached asleep
  cases resume with
  | relock slot ref =>
    obtain ⟨rfl, busy, _⟩ := waits
    apply List.ne_nil_of_length_pos
    rw [inodes, busy]
    decide
  | bget dev sector =>
    obtain ⟨b, rfl, busy⟩ := waits
    apply List.ne_nil_of_length_pos
    rw [agrees.bufs b, busy]
    decide
  | beginTrans =>
    obtain ⟨rfl, busy⟩ := waits
    apply List.ne_nil_of_length_pos
    rw [agrees.log, busy]
    decide
  | _ => cases acquires

/-- One process is in a transaction and another one waits for it. -/
theorem waiting_reachable :
    ∃ state, Reachable behaviour Disciplined (start (fun _ => ⟨0, 0, 0, false, false, 0⟩)
          fun _ => ⟨0, 0, false, false, false⟩) state ∧
      state.activity 1 = .asleep .log .beginTrans := by
  have first : Reachable behaviour Disciplined (start (fun _ => ⟨0, 0, 0, false, false, 0⟩)
        fun _ => ⟨0, 0, false, false, false⟩) _ :=
    .step .initial (.start 0 Call.beginTrans rfl trivial)
  have busy := first.step (.enter 0 Call.beginTrans rfl trivial)
  have second := busy.step (.start 1 Call.beginTrans rfl trivial)
  exact ⟨_, second.step (.enter 1 Call.beginTrans rfl trivial), rfl⟩

theorem sleep_locks_exclude_waiting :
    ∃ state : State Shared Chan Call, state.activity 1 = .asleep .log .beginTrans ∧
      state.shared.Held .log := by
  obtain ⟨state, reached, asleep⟩ := waiting_reachable
  exact ⟨state, asleep, (sleep_locks_exclude reached).2.2.2 1 .log .beginTrans asleep rfl⟩

end Sync
end Xv6
