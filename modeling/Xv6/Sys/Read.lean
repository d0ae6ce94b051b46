import Xv6.Fs.Allocator
import Xv6.Fs.Inode

/-!
# Reading into the memory of a process

The path of a `read` system call: the arguments are fetched from the user
stack, the buffer is checked against the size of the process, and `readi`
stores bytes from the start of the buffer on.
-/

namespace Xv6

open Cells
open Fs

/-! ## Arguments of a system call -/

/-- An open file backed by an inode. -/
structure OpenInode where
  readable : Bool
  ip : Slot
  off : UInt32

/-- What a system call sees of the calling process. -/
structure Caller where
  sz : UInt32
  /-- The user stack pointer in the trap frame. -/
  esp : UInt32
  mem : UInt32 → UInt8
  ofile : Fin NOFILE → Option OpenInode

namespace Caller

/-- Fetch the word at an address of the process. -/
def fetchint (caller : Caller) (addr : UInt32) : Option UInt32 :=
  if caller.sz ≤ addr ∨ caller.sz < addr + 4 then none
  else some (UInt32.ofNat (leNat [caller.mem addr, caller.mem (addr + 1), caller.mem (addr + 2),
      caller.mem (addr + 3)]))

/-- Fetch an argument of the system call. -/
def argint (caller : Caller) (position : UInt32) : Option UInt32 :=
  caller.fetchint (caller.esp + 4 + 4 * position)

/-- Fetch an argument as a pointer to `size` bytes of the process. -/
def argptr (caller : Caller) (position size : UInt32) : Option UInt32 :=
  match caller.argint position with
  | none => none
  | some pointer =>
    if caller.sz ≤ pointer ∨ caller.sz < pointer + size then none
    else some pointer

/-- Fetch an argument as a descriptor of an open file. -/
def argfd (caller : Caller) (position : UInt32) : Option OpenInode :=
  match caller.argint position with
  | none => none
  | some fd =>
    if asInt fd < 0 ∨ (NOFILE : Int) ≤ asInt fd then none
    else if bound : fd.toNat < NOFILE then caller.ofile ⟨fd.toNat, bound⟩
    else none

/-- The checked arguments of a `read`: the file, the buffer and its length. -/
def readArgs (caller : Caller) : Option (OpenInode × UInt32 × UInt32) :=
  match caller.argfd 0 with
  | none => none
  | some file =>
    match caller.argint 2 with
    | none => none
    | some n =>
      match caller.argptr 1 n with
      | none => none
      | some addr => some (file, addr, n)

end Caller

/-! ## The transfer -/

/-- Bytes stored one after the other from an address on. -/
def storesFrom (addr : UInt32) (bytes : List UInt8) : List (UInt32 × UInt8) :=
  bytes.mapIdx fun index byte => (addr + UInt32.ofNat index, byte)

/-- Read from an open file into memory: the stores, and the result with the
new offset of the file. -/
def fileread (sb : Superblock) (file : OpenInode) (addr n : UInt32) (fs : Fs) :
    List (UInt32 × UInt8) × Except Stop (Transfer UInt32 × OpenInode × Fs) :=
  if file.readable = false then ([], .ok (.refused, file, fs))
  else
    match ilock file.ip fs with
    | .error reason => ([], .error reason)
    | .ok (_, fs) =>
      let (bytes, ending) := readiStores sb file.ip file.off n fs
      (storesFrom addr bytes, do
        let (result, fs) ← ending
        let file := match result with
          | .done count =>
            if 0 < asInt count then { file with off := file.off + count }
            else file
          | _ => file
        match iunlock file.ip fs with
        | .error reason => .error reason
        | .ok (_, fs) => .ok (result, file, fs))

/-- The `read` system call. -/
def sysRead (sb : Superblock) (caller : Caller) (fs : Fs) :
    List (UInt32 × UInt8) × Except Stop (Transfer UInt32 × Fs) :=
  match caller.readArgs with
  | none => ([], .ok (.refused, fs))
  | some (file, addr, n) =>
    let (stores, ending) := fileread sb file addr n fs
    (stores, ending.map fun (result, _, fs) => (result, fs))

/-- A store lies in the buffer that the caller named, read as integers, and
below the size of the process. -/
def StoreConfined (caller : Caller) (addr n : UInt32)
    (store : UInt32 × UInt8) : Prop :=
  addr.toNat ≤ store.1.toNat ∧ (store.1.toNat : Int) < addr.toNat + asInt n ∧
    store.1.toNat < caller.sz.toNat

/-! ## How much is stored -/

section

variable (sb : Superblock) (slot : Slot)

include sb slot

theorem length_readLoop_le
    (fuel n off : Nat)
    (fs : Fs) :
    (readLoop sb slot fuel n off fs).1.length ≤ n := by
  induction fuel generalizing n off fs with
  | zero => exact Nat.zero_le n
  | succ fuel ih =>
    unfold readLoop
    split
    · exact Nat.zero_le n
    · split
      · exact Nat.zero_le n
      · rename_i addr fs _
        have later := ih (n - min n (BSIZE - off % BSIZE)) (off + min n (BSIZE - off % BSIZE)) fs
        simp only [List.length_append, Cell.length_slice]
        omega

/-- The loop stores something unless there is nothing to read or its first
block cannot be mapped. -/
theorem readLoop_eq_nil_iff
    (n off : Nat)
    (fs : Fs) :
    (readLoop sb slot n n off fs).1 = [] ↔
      n = 0 ∨ ∃ reason, bmap sb slot (off / BSIZE) fs = .error reason := by
  cases n with
  | zero => simp [readLoop]
  | succ n =>
    rw [readLoop, if_neg (Nat.succ_ne_zero n)]
    cases mapped : bmap sb slot (off / BSIZE) fs with
    | error reason => simp
    | ok pair =>
      have positive : 0 < min (n + 1) (BSIZE - off % BSIZE) := by
        have := Nat.mod_lt off (show 0 < BSIZE by decide)
        omega
      have nonempty : (pair.2.disk pair.1.toNat).slice (off % BSIZE)
          (min (n + 1) (BSIZE - off % BSIZE)) ≠ [] := by
        rw [← List.length_pos_iff_ne_nil, Cell.length_slice]
        exact positive
      simp [nonempty]

theorem readiStores_fst
    (off n : UInt32)
    (fs : Fs) :
    (readiStores sb slot off n fs).1 = if (fs.icache slot).din.type = T_DEV then []
      else if (fs.icache slot).din.size < off ∨ off + n < off then []
      else
        (readLoop sb slot (readCount (fs.icache slot).din.size off n).toNat
          (readCount (fs.icache slot).din.size off n).toNat off.toNat fs).1 := by
  simp only [readiStores]
  split
  · split <;> rfl
  · split <;> rfl

/-- When a read of a file that is not a device stores nothing. -/
theorem readiStores_eq_nil_iff
    (off n : UInt32)
    (fs : Fs)
    (notDevice : (fs.icache slot).din.type ≠ T_DEV)
    (some : n ≠ 0) :
    (readiStores sb slot off n fs).1 = [] ↔ (fs.icache slot).din.size ≤ off ∨ off + n < off ∨
        ∃ reason, bmap sb slot (off.toNat / BSIZE) fs = .error reason := by
  rw [readiStores_fst, if_neg notDevice]
  split
  · rename_i refused
    simp only [true_iff]
    rcases refused with beyond | wraps
    · exact Or.inl (UInt32.le_of_lt beyond)
    · exact Or.inr (Or.inl wraps)
  rename_i accepted
  rw [not_or] at accepted
  rw [readLoop_eq_nil_iff]
  have nothing : (readCount (fs.icache slot).din.size off n).toNat = 0 ↔
      (fs.icache slot).din.size ≤ off := by
    unfold readCount
    simp only [UInt32.lt_iff_toNat_lt, UInt32.le_iff_toNat_le] at *
    have := UInt32.toNat_add off n
    have nonzero : n.toNat ≠ 0 := fun zero => some (UInt32.toNat_inj.mp zero)
    have := off.toNat_lt
    have := n.toNat_lt
    split
    · rw [UInt32.toNat_sub_of_le _ _ (UInt32.le_iff_toNat_le.mpr (by omega))]
      omega
    · omega
  rw [nothing]
  constructor
  · rintro (beyond | stuck)
    · exact Or.inl beyond
    · exact Or.inr (Or.inr stuck)
  · rintro (beyond | wraps | stuck)
    · exact Or.inl beyond
    · exact absurd wraps accepted.2
    · exact Or.inr stuck

/-- A read stores at most `n` bytes, read as an unsigned number. -/
theorem length_readiStores_le
    (off n : UInt32)
    (fs : Fs) :
    (readiStores sb slot off n fs).1.length ≤ n.toNat := by
  rw [readiStores_fst]
  split
  · exact Nat.zero_le _
  split
  · exact Nat.zero_le _
  rename_i accepted
  refine le_trans (length_readLoop_le _ _ _ _ _ _) ?_
  rw [not_or] at accepted
  unfold readCount
  simp only [UInt32.lt_iff_toNat_lt] at *
  have := UInt32.toNat_add off n
  have := off.toNat_lt
  have := n.toNat_lt
  split
  · rw [UInt32.toNat_sub_of_le _ _ (UInt32.le_iff_toNat_le.mpr (by omega))]
    omega
  · exact le_refl _

end

/-! ## Where it is stored -/

theorem mem_storesFrom (member : store ∈ storesFrom addr bytes) :
    ∃ index < bytes.length, store.1 = addr + UInt32.ofNat index := by
  obtain ⟨index, bound, rfl⟩ := List.mem_mapIdx.mp member
  exact ⟨index, bound, rfl⟩

/-- What a successful check of the buffer says. -/
theorem Caller.readArgs_bounds {caller : Caller} {addr n : UInt32}
    (passed : caller.readArgs = some (file, addr, n)) :
    addr < caller.sz ∧ addr + n ≤ caller.sz := by
  unfold readArgs at passed
  split at passed
  · cases passed
  split at passed
  · cases passed
  split at passed
  · cases passed
  rename_i pointer checked
  simp only [Option.some.injEq, Prod.mk.injEq] at passed
  obtain ⟨_, rfl, rfl⟩ := passed
  unfold argptr at checked
  split at checked
  · cases checked
  · split at checked
    · cases checked
    · rename_i inside
      obtain rfl := Option.some.inj checked
      rw [not_or, UInt32.not_le, UInt32.not_lt] at inside
      exact inside

/-- The stores of a `read` whose arguments pass and whose file is locked. -/
theorem sysRead_fst
    (passed : caller.readArgs = some (file, addr, n))
    (lock : ilock file.ip fs = .ok ((), locked)) :
    (sysRead sb caller fs).1 = if file.readable = false then []
      else storesFrom addr (readiStores sb file.ip file.off n locked).1 := by
  simp only [sysRead, passed, fileread, lock]
  split <;> rfl

/-- A length that is not negative keeps all stores in the buffer. -/
theorem storesFrom_confined
    (space : caller.sz.toNat < KERNBASE)
    (bounds : addr < caller.sz ∧ addr + n ≤ caller.sz)
    (nonnegative : 0 ≤ asInt n)
    (few : bytes.length ≤ n.toNat) :
    ∀ store ∈ storesFrom addr bytes, StoreConfined caller addr n store := by
  intro store member
  obtain ⟨index, bound, position⟩ := mem_storesFrom member
  have signed : asInt n = n.toNat ∧ n.toNat < 2 ^ 31 := by
    unfold asInt at *
    split
    · exact ⟨rfl, by assumption⟩
    · have := n.toNat_lt
      split at nonnegative <;> omega
  rw [UInt32.lt_iff_toNat_lt, UInt32.le_iff_toNat_le, UInt32.toNat_add] at bounds
  unfold KERNBASE at space
  have index32 : (UInt32.ofNat index).toNat = index :=
    UInt32.toNat_ofNat_of_lt' (by unfold UInt32.size; omega)
  have address : store.1.toNat = addr.toNat + index := by
    rw [position, UInt32.toNat_add, index32]
    omega
  unfold StoreConfined
  rw [address, signed.1]
  omega

/-- For every process below the kernel, every buffer that passes the checks and
every open regular file: all bytes that `read` stores lie in the buffer and in
the process exactly when the length is not negative or nothing is stored,
which is so when the file is not readable, the offset is at or past its end,
offset and length wrap around, or the first block cannot be mapped. -/
theorem sysRead_confined_iff
    (sb : Superblock)
    (caller : Caller)
    (fs locked : Fs)
    (file : OpenInode)
    (addr n : UInt32)
    (space : caller.sz.toNat < KERNBASE)
    (passed : caller.readArgs = some (file, addr, n))
    (lock : ilock file.ip fs = .ok ((), locked))
    (regular : (locked.icache file.ip).din.type = T_FILE) :
    (∀ store ∈ (sysRead sb caller fs).1, StoreConfined caller addr n store) ↔
      0 ≤ asInt n ∨ file.readable = false ∨
        (locked.icache file.ip).din.size ≤ file.off ∨ file.off + n < file.off ∨
        ∃ reason, bmap sb file.ip (file.off.toNat / BSIZE) locked = .error reason := by
  rw [sysRead_fst passed lock]
  by_cases nonnegative : 0 ≤ asInt n
  · simp only [nonnegative, true_or, iff_true]
    split
    · intro store member
      cases member
    · exact storesFrom_confined space (Caller.readArgs_bounds passed) nonnegative
        (length_readiStores_le sb file.ip file.off n locked)
  have notDevice : (locked.icache file.ip).din.type ≠ T_DEV := by
    rw [regular]
    decide
  have notZero : n ≠ 0 := by
    rintro rfl
    exact nonnegative (by decide)
  have nothing := readiStores_eq_nil_iff sb file.ip file.off n locked notDevice notZero
  rw [← nothing]
  simp only [nonnegative, false_or]
  constructor
  · -- a negative length leaves no room for any store
    intro confined
    by_cases readable : file.readable = false
    · exact Or.inl readable
    rw [if_neg readable] at confined
    refine Or.inr ?_
    cases bytes : (readiStores sb file.ip file.off n locked).1 with
    | nil => rfl
    | cons byte rest =>
      rw [bytes] at confined
      have first := confined (addr + UInt32.ofNat 0, byte) (by simp [storesFrom])
      have origin : addr + UInt32.ofNat 0 = addr := UInt32.add_zero addr
      rw [origin] at first
      obtain ⟨_, upper, _⟩ := first
      simp only at upper
      omega
  · rintro (unreadable | empty)
    · rw [if_pos unreadable]
      intro store member
      cases member
    · rw [empty]
      split
      · intro store member
        cases member
      · intro store member
        cases member

/-! ## A read of one byte -/

namespace ReadSample

local instance slots : NeZero NINODE := ⟨by decide⟩

/-- A readable file of one byte at the start of block 29. -/
def file : OpenInode where
  readable := true
  ip := 0
  off := 0

/-- The file's entry of the inode cache. -/
def inode : Inode where
  inum := 2
  ref := 1
  busy := none
  valid := true
  din :=
    { type := T_FILE, major := 0, minor := 0, nlink := 1, size := 1
      addrs := Function.update (fun _ => 0) 0 29 }

/-- The file system with the file in the cache. -/
def fs : Fs where
  disk := fun _ => Cell.zero
  icache := Function.update (fun _ => Inode.unused) 0 inode
  proc := 0
  owner := none
  logged := ∅
  rogue := false

/-- The same with the file locked. -/
def locked : Fs := fs.withInode 0 { inode with busy := some 0 }

/-- A process that calls `read(0, 100, n)`. -/
def caller (n : UInt32) : Caller where
  sz := 4096
  esp := 0
  mem := fun addr =>
    if addr = 8 then 100
    else if 12 ≤ addr ∧ addr < 16 then
      UInt8.ofNat (n.toNat / 256 ^ (addr.toNat - 12))
    else 0
  ofile := fun _ => some file

theorem readArgs_caller :
    (caller 10).readArgs = some (file, 100, 10) ∧
      (caller (-50)).readArgs = some (file, 100, -50) := by
  constructor <;> rfl

theorem ilock_fs : ilock file.ip fs = .ok ((), locked) := by
  rw [ilock_valid (by decide) (by decide) (by decide)]
  rfl

end ReadSample

theorem sysRead_confined_iff_sample :
    (ReadSample.caller 10).readArgs = some (ReadSample.file, 100, 10) ∧
      ∀ store ∈ (sysRead Mkfs.sb (ReadSample.caller 10) ReadSample.fs).1,
        StoreConfined (ReadSample.caller 10) 100 10 store :=
  ⟨ReadSample.readArgs_caller.1, (sysRead_confined_iff Mkfs.sb (ReadSample.caller 10) ReadSample.fs
      ReadSample.locked ReadSample.file 100 10 (by decide)
      ReadSample.readArgs_caller.1 ReadSample.ilock_fs rfl).mpr
      (Or.inl (by decide))⟩

/-- `read(0, 100, -50)` passes the checks and stores a byte. -/
theorem sysRead_negative_stores :
    ¬∀ (sb : Superblock) (caller : Caller) (fs locked : Fs) (file : OpenInode) (addr n : UInt32),
      caller.sz.toNat < KERNBASE → caller.readArgs = some (file, addr, n) →
      ilock file.ip fs = .ok ((), locked) → (locked.icache file.ip).din.type = T_FILE →
      ∀ store ∈ (sysRead sb caller fs).1, StoreConfined caller addr n store := by
  intro always
  have stored : (100, 0) ∈ (sysRead Mkfs.sb (ReadSample.caller (-50)) ReadSample.fs).1 := by
    rw [sysRead_fst ReadSample.readArgs_caller.2 ReadSample.ilock_fs]
    decide
  have confined := always Mkfs.sb (ReadSample.caller (-50)) ReadSample.fs
    ReadSample.locked ReadSample.file 100 (-50) (by decide)
    ReadSample.readArgs_caller.2 ReadSample.ilock_fs rfl (100, 0) stored
  exact absurd confined.2.1 (by decide)

end Xv6
