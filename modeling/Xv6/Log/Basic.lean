import Xv6.Foundation.DeferredWrites
import Xv6.Params

/-!
# The redo log of `log.c`

The log occupies the last `nlog` sectors of the file system: a header sector
that lists the home sectors of the logged blocks, followed by the logged
blocks themselves.  Every function of this module returns the single-sector
disk writes it issues, in issue order, as deferred writes, so that a crash is
the performance of a prefix of them.

The in-memory header is the list of the sectors it holds; its length is the
field `n`.  Reads go through the buffer cache in the source; a buffer of a log
sector or of the header is always written through, so they read the disk.
-/

namespace Xv6
namespace Log

open DeferredWrites

/-- A buffer handed to `log_write`: its sector and its modified contents. -/
structure Buf where
  sector : UInt32
  data : Block

/-- Placement of the log on the disk, as `initlog` takes it from the super
block.  There is at least the header sector. -/
structure Area where
  start : Nat
  size : Nat
  /-- The header sector belongs to the log. -/
  size_pos : 0 < size

/-- The log placement computed by `initlog`. -/
def initlog (sb : Superblock) (nlogPositive : 0 < sb.nlog) : Area where
  start := sb.size - sb.nlog
  size := sb.nlog
  size_pos := nlogPositive

/-- A sector of the log. -/
def Area.Contains (area : Area) (sector : Nat) : Prop :=
  area.start ≤ sector ∧ sector < area.start + area.size

/-- Sector of the log block with a given index. -/
def Area.slot (area : Area) (index : Nat) : Nat := area.start + index + 1

/-- The in-memory log state. -/
structure State where
  busy : Bool
  lh : List UInt32

/-- The state after boot: no transaction and nothing logged. -/
def State.idle : State := { busy := false, lh := [] }

/-- Contents of the header sector after the header is stored in it. -/
def headBlock (block : Block) (lh : List UInt32) : Block :=
  (block.putWord 0 (UInt32.ofNat lh.length)).putWords 4 lh

/-- Write the in-memory header to disk. -/
def writeHead (area : Area) (lh : List UInt32) : Write Nat Block :=
  fun disk => (area.start, headBlock (disk area.start) lh)

/-- Read the log header from disk.  A count above `LOGSIZE` would overrun the
in-memory header and has no defined result. -/
def readHead (area : Area) (disk : Disk) : Option (List UInt32) :=
  let count := asInt ((disk area.start).word 0)
  if count > LOGSIZE then none
  else some ((List.range count.toNat).map fun index =>
    (disk area.start).word (4 + 4 * index))

/-- Homes and log slots of the logged sectors, from a given index on. -/
def installPlan (area : Area) : Nat → List UInt32 → List (Nat × Nat)
  | _, [] => []
  | index, sector :: lh =>
    (sector.toNat, area.slot index) :: installPlan area (index + 1) lh

/-- Copy committed blocks from the log to their home location. -/
def installTrans (area : Area) (lh : List UInt32) : List (Write Nat Block) :=
  redo (installPlan area 0 lh)

/-- The writes of `recover_from_log` on a disk. -/
def recoverFromLog (area : Area) (disk : Disk) :
    Option (List (Write Nat Block)) :=
  (readHead area disk).map fun lh =>
    installTrans area lh ++ [writeHead area []]

/-- Start a transaction; waits while another one is active. -/
def beginTrans (log : State) : Option State :=
  if log.busy then none else some { log with busy := true }

/-- The writes of `commit_trans`. -/
def commitWrites (area : Area) (log : State) : List (Write Nat Block) :=
  if 0 < log.lh.length then
    writeHead area log.lh :: (installTrans area log.lh ++ [writeHead area []])
  else []

/-- The in-memory state after `commit_trans`. -/
def commitTrans (log : State) : State :=
  { log with busy := false, lh := [] }

/-- Append a block to the log.  The result is the new in-memory state and the
write of the log slot, or the text of the panic. -/
def logWrite (area : Area) (log : State) (buf : Buf) :
    Except String (State × Write Nat Block) :=
  if LOGSIZE ≤ log.lh.length ∨ (area.size : Int) - 1 ≤ log.lh.length then
    .error "too big a transaction"
  else if !log.busy then
    .error "write outside of trans"
  else
    -- the loop stops at the slot of an earlier write of the sector
    let index := log.lh.idxOf buf.sector
    let lh := if index = log.lh.length then log.lh ++ [buf.sector] else log.lh
    .ok ({ log with lh := lh }, put (area.slot index) buf.data)

/-- A list of `log_write` calls: the writes issued and, unless one of the
calls panicked, the state after the last. -/
def logWrites (area : Area) : State → List Buf → List (Write Nat Block) × Option State
  | log, [] => ([], some log)
  | log, buf :: bufs =>
    match logWrite area log buf with
    | .error _ => ([], none)
    | .ok (log, write) =>
      (write :: (logWrites area log bufs).1, (logWrites area log bufs).2)

/-- A whole transaction: `begin_trans`, the `log_write` calls, `commit_trans`.
A panic stops the machine, so nothing is committed then. -/
def transaction (area : Area) (log : State) (bufs : List Buf) :
    List (Write Nat Block) × Option State :=
  match beginTrans log with
  | none => ([], none)
  | some log =>
    match logWrites area log bufs with
    | (writes, none) => (writes, none)
    | (writes, some log) =>
      (writes ++ commitWrites area log, some (commitTrans log))

/-! ## Crashes and reboots -/

/-- Recovery on a disk: each round but the last is cut off after the given
number of writes, and the last one completes. -/
def reboot (area : Area) : List Nat → Disk → Option Disk
  | [], disk => (recoverFromLog area disk).map fun writes =>
    performAll writes disk
  | count :: rounds, disk =>
    match recoverFromLog area disk with
    | none => none
    | some writes => reboot area rounds (performAll (writes.take count) disk)

/-- What happens to one transaction. -/
inductive Epoch
  | committed (bufs : List Buf)
  /-- The machine stops after `count` of its writes, and `rounds` of recovery
  are cut off before one completes. -/
  | interrupted (bufs : List Buf) (count : Nat) (rounds : List Nat)

/-- The buffers of an epoch's transaction. -/
def Epoch.bufs : Epoch → List Buf
  | .committed bufs => bufs
  | .interrupted bufs _ _ => bufs

/-- The disk after one epoch; a committed epoch needs a transaction that does
not panic.  Either way the log is idle afterwards. -/
def Epoch.run (area : Area) : Epoch → Disk → Option Disk
  | .committed bufs, disk =>
    match transaction area State.idle bufs with
    | (_, none) => none
    | (writes, some _) => some (performAll writes disk)
  | .interrupted bufs count rounds, disk =>
    reboot area rounds (performAll ((transaction area State.idle bufs).1.take count) disk)

/-- The disk after a list of epochs. -/
def lifetime (area : Area) : List Epoch → Disk → Option Disk
  | [], disk => some disk
  | epoch :: epochs, disk => (epoch.run area disk).bind (lifetime area epochs)

/-! ## Intended meaning -/

/-- The home sectors and contents of a list of `log_write` calls. -/
def updates (bufs : List Buf) : List (Nat × Block) :=
  bufs.map fun buf => (buf.sector.toNat, buf.data)

/-- None of the `log_write` calls of the transaction panics. -/
def Fits (area : Area) (bufs : List Buf) : Prop :=
  (transaction area State.idle bufs).2.isSome = true

instance (area : Area) (bufs : List Buf) : Decidable (Fits area bufs) :=
  inferInstanceAs (Decidable (_ = true))

/-- The transactions of a list of epochs that took effect: all committed ones,
and each interrupted one as a whole or not at all. -/
inductive Effective (area : Area) : List Epoch → List (List Buf) → Prop
  | nil : Effective area [] []
  | committed (bufs : List Buf) (rest : Effective area epochs done) :
      Effective area (.committed bufs :: epochs) (bufs :: done)
  | kept (bufs : List Buf) (fits : Fits area bufs)
      (rest : Effective area epochs done) :
      Effective area (.interrupted bufs count rounds :: epochs) (bufs :: done)
  | lost (bufs : List Buf) (rest : Effective area epochs done) :
      Effective area (.interrupted bufs count rounds :: epochs) done

/-- Contents after a list of transactions, each of whose sectors gets the data
of its last `log_write`. -/
def replay (done : List (List Buf)) (disk : Disk) : Disk :=
  done.foldl (fun disk bufs => assign (updates bufs) disk) disk

end Log
end Xv6
