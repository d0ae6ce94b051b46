import Xv6.User.Malloc
import Xv6.Vm.Sbrk

/-!
# Requests and the memory of a process

The sizes of `malloc` are rounded up to units, multiplied by the size of a unit and passed
to `sbrk` as a signed number, all in 32 bits.  For requests whose rounded size stays below
2^31 none of this wraps, and what `malloc` returns lies in the memory of the process.
-/

namespace Xv6
namespace Umalloc

open Faulting

/-- The number of bytes that `morecore` passes to `sbrk`. -/
def coreBytes (nu : Nat) : UInt32 :=
  UInt32.ofNat (coreUnits nu) * 8

/-- What `sys_sbrk` returns to a process of a size, and the size of the process after it. -/
inductive Sbrk (sz n : UInt32) : Option Nat → UInt32 → Prop where
  | moved
      (ran : Vm.growproc link moments sz n vm = .ok ((0, new), final)) :
      Sbrk sz n (some sz.toNat) new
  | failed
      (ran : Vm.growproc link moments sz n vm = .ok ((-1, new), final)) :
      Sbrk sz n none new

/-- The size of the process after a call of `malloc` that left some of the replies. -/
def sizeAfter (left : List (Option Nat)) (sz new : UInt32) : UInt32 :=
  if left = [] then new else sz

/-- The states of a process that calls `malloc` and `free`, with its size. -/
inductive Runs (base : Nat) : Heap → List Block → List Block → UInt32 → Prop where
  | start
      (unset : heap.freep = 0)
      (above : base < sz.toNat)
      (below : sz.toNat < KERNBASE) :
      Runs base heap [] [] sz
  | malloc
      (run : Runs base heap live chunks sz)
      (small : Small nbytes)
      (called : Sbrk sz (coreBytes (unitsFor nbytes)) reply new)
      (returns : malloc base passes nbytes [reply] heap = some (result, left, heap')) :
      Runs base heap' (allocated result (unitsFor nbytes) live)
        (grown (unitsFor nbytes) reply left chunks) (sizeAfter left sz new)
  | free
      (run : Runs base heap (before ++ b :: after) chunks sz)
      (returns : free passes (b.addr + headerSize) heap = some heap') :
      Runs base heap' (before ++ after) chunks sz
  | write
      (run : Runs base heap live chunks sz)
      (cursor : heap'.freep = heap.freep)
      (kept : ∀ address, ¬Writable base live chunks address →
        heap'.ptr address = heap.ptr address ∧ heap'.size address = heap.size address) :
      Runs base heap' live chunks sz

/-! ## `sbrk` -/

/-- The loop of `allocuvm` ends with the new size or with 0. -/
theorem allocRounds_result {round : Nat}
    (ran : Vm.allocRounds link moments oldsz newsz fuel round a vm = .ok (value, final)) :
    value = 0 ∨ value = newsz := by
  induction fuel generalizing round a vm with
  | zero => exact .inr (Prod.mk.inj (Except.ok.inj ran)).1.symm
  | succ fuel ih =>
    unfold Vm.allocRounds at ran
    split at ran
    · obtain ⟨_, _, _, ran⟩ := Run.bind_eq_ok_iff.mp ran
      obtain ⟨page, _, _, ran⟩ := Run.bind_eq_ok_iff.mp ran
      cases page with
      | none =>
        obtain ⟨_, _, _, ran⟩ := Run.bind_eq_ok_iff.mp ran
        exact .inl (Prod.mk.inj (Except.ok.inj ran)).1.symm
      | some page =>
        obtain ⟨_, _, _, ran⟩ := Run.bind_eq_ok_iff.mp ran
        obtain ⟨_, _, _, ran⟩ := Run.bind_eq_ok_iff.mp ran
        exact ih ran
    · exact .inr (Prod.mk.inj (Except.ok.inj ran)).1.symm

/-- A positive number is added to the size, or nothing happens. -/
theorem Sbrk.size
    (called : Sbrk sz n reply new)
    (positive : 0 < asInt n)
    (below : sz.toNat < KERNBASE) :
    reply = some sz.toNat ∧ new.toNat = sz.toNat + n.toNat ∧ new.toNat < KERNBASE ∨
      reply = none ∧ new = sz := by
  have sum : (sz + n).toNat = sz.toNat + n.toNat := by
    have word := n.toNat_lt
    unfold asInt at positive
    unfold KERNBASE at below
    rw [UInt32.toNat_add]
    split at positive <;> omega
  have result : ∀ {link moments vm pair final},
      Vm.growproc link moments sz n vm = .ok (pair, final) → pair = (-1, sz) ∨
        pair = (0, sz + n) ∧ (sz + n).toNat < KERNBASE := by
    intro link moments vm pair final ran
    unfold Vm.growproc at ran
    rw [if_pos positive] at ran
    obtain ⟨value, middle, allocated, ran⟩ := Run.bind_eq_ok_iff.mp ran
    split at ran
    case isTrue => exact .inl (Prod.mk.inj (Except.ok.inj ran)).1.symm
    case isFalse nonzero =>
      unfold Vm.allocuvmAmong at allocated
      rw [if_neg (show ¬sz + n < sz by rw [UInt32.lt_iff_toNat_lt]; omega)] at allocated
      split at allocated
      case isTrue => exact absurd (Prod.mk.inj (Except.ok.inj allocated)).1.symm nonzero
      case isFalse user =>
        obtain rfl := (allocRounds_result allocated).resolve_left nonzero
        exact .inr ⟨(Prod.mk.inj (Except.ok.inj ran)).1.symm, not_le.mp user⟩
  cases called with
  | moved ran =>
    rcases result ran with failed | ⟨grew, user⟩
    · exact nomatch (Prod.mk.inj failed).1
    · rw [(Prod.mk.inj grew).2]
      exact .inl ⟨rfl, sum, user⟩
  | failed ran =>
    rcases result ran with failed | ⟨grew, _⟩
    · exact .inr ⟨rfl, (Prod.mk.inj failed).2⟩
    · exact nomatch (Prod.mk.inj grew).1

/-- The bytes for a small request do not wrap. -/
theorem toNat_coreBytes (small : Small nbytes) :
    (coreBytes (unitsFor nbytes)).toNat = headerSize * coreUnits (unitsFor nbytes) ∧
      asInt (coreBytes (unitsFor nbytes)) = headerSize * coreUnits (unitsFor nbytes) ∧
      0 < coreUnits (unitsFor nbytes) := by
  have bound : 8 * coreUnits (unitsFor nbytes) < 2 ^ 31 := by
    rw [unitsFor_eq small]
    unfold Small at small
    unfold coreUnits
    split <;> omega
  have exact : (coreBytes (unitsFor nbytes)).toNat = 8 * coreUnits (unitsFor nbytes) := by
    rw [coreBytes, UInt32.toNat_mul, UInt32.toNat_ofNat_of_lt' (show _ < 2 ^ 32 by omega)]
    simp only [UInt32.reduceToNat]
    omega
  refine ⟨exact, ?_, (le_coreUnits _).2⟩
  rw [asInt, exact, if_pos bound]
  rfl

/-! ## Runs -/

/-- The memory of the heap lies below the size of the process. -/
structure Inside (base : Nat) (chunks : List Block) (sz : UInt32) : Prop where
  above : base < sz.toNat
  below : sz.toNat < KERNBASE
  chunks : ∀ chunk ∈ chunks, chunk.stop ≤ sz.toNat

section Runs

variable {base : Nat} {heap : Heap} {live chunks : List Block} {sz : UInt32}

theorem Inside.fresh
    (inside : Inside base chunks sz)
    (small : Small nbytes)
    (called : Sbrk sz (coreBytes (unitsFor nbytes)) reply new) :
    Fresh base chunks reply := by
  obtain ⟨_, signed, positive⟩ := toNat_coreBytes small
  rintro hp rfl
  rcases called.size (by rw [signed]; unfold headerSize; omega) inside.below with
    ⟨same, _⟩ | ⟨failed, _⟩
  · rw [Option.some.inj same]
    exact ⟨inside.above, inside.chunks⟩
  · exact nomatch failed

theorem Inside.grown
    (inside : Inside base chunks sz)
    (small : Small nbytes)
    (called : Sbrk sz (coreBytes (unitsFor nbytes)) reply new)
    (left : List (Option Nat)) :
    Inside base (grown (unitsFor nbytes) reply left chunks) (sizeAfter left sz new) := by
  obtain ⟨bytes, signed, positive⟩ := toNat_coreBytes small
  have size := called.size (by rw [signed]; unfold headerSize; omega) inside.below
  unfold Umalloc.grown sizeAfter
  cases left with
  | cons => simpa using inside
  | nil =>
    rcases size with ⟨rfl, sum, user⟩ | ⟨rfl, rfl⟩
    · rw [bytes] at sum
      have above := inside.above
      refine ⟨by simp only [if_true]; omega, user, ?_⟩
      refine List.forall_mem_cons.mpr ⟨?_, fun chunk member => ?_⟩
      · exact sum.symm.le
      · have old := inside.chunks chunk member
        simp only [if_true]
        omega
    · simpa using inside

theorem Runs.reaches (run : Runs base heap live chunks sz) :
    Reaches base heap live chunks ∧ Inside base chunks sz := by
  induction run with
  | start unset above below => exact ⟨.start unset, above, below, nofun⟩
  | malloc run small called returns ih =>
    exact ⟨.malloc ih.1 small (ih.2.fresh small called) returns, ih.2.grown small called _⟩
  | free run returns ih => exact ⟨.free ih.1 returns, ih.2⟩
  | write run cursor kept ih => exact ⟨.write ih.1 cursor kept, ih.2⟩

end Runs

/-- In every run of a process whose requests are small, `malloc` of a small request returns,
null or a block that holds the bytes of the request and lies in the memory of the process;
neither the units of the request nor the bytes that `sbrk` is asked for have wrapped. -/
theorem malloc_large_enough
    (base : Nat)
    (heap : Heap)
    (live chunks : List Block)
    (sz new nbytes : UInt32)
    (reply : Option Nat)
    (nonnull : 0 < base)
    (run : Runs base heap live chunks sz)
    (small : Small nbytes)
    (called : Sbrk sz (coreBytes (unitsFor nbytes)) reply new) :
    unitsFor nbytes = (nbytes.toNat + headerSize - 1) / headerSize + 1 ∧
      asInt (coreBytes (unitsFor nbytes)) = headerSize * coreUnits (unitsFor nbytes) ∧
      ∃ passes result left heap',
        (∀ more ≥ passes, malloc base more nbytes [reply] heap = some (result, left, heap')) ∧
        (result = 0 ∨ headerSize ≤ result ∧
          nbytes.toNat ≤ headerSize * (heap'.size (result - headerSize) - 1) ∧
          result + headerSize * (heap'.size (result - headerSize) - 1) ≤
            (sizeAfter left sz new).toNat) := by
  obtain ⟨reaches, inside⟩ := run.reaches
  refine ⟨unitsFor_eq small, (toNat_coreBytes small).2.1, ?_⟩
  obtain ⟨passes, result, left, heap', blocks', returns, _, low, sound⟩ :=
    (reaches.settled nonnull).malloc nonnull small (inside.fresh small called)
  refine ⟨passes, result, left, heap', returns, ?_⟩
  by_cases null : result = 0
  · exact .inl null
  rw [allocated, if_neg null] at sound
  have size : heap'.size (result - headerSize) = unitsFor nbytes :=
    (sound.headers _ List.mem_cons_self).2
  have enough := le_unitsFor small
  have positive := unitsFor_pos small
  have base := low null
  rw [size]
  refine .inr ⟨base, enough, ?_⟩
  -- the last byte of the block lies in memory from `sbrk`
  have last : (⟨result - headerSize, unitsFor nbytes⟩ : Block).Has
      (result - headerSize + headerSize * unitsFor nbytes - 1) := by
    change result - headerSize ≤ _ ∧ _ < result - headerSize + headerSize * unitsFor nbytes
    unfold headerSize
    omega
  obtain ⟨chunk, member, has⟩ :=
    sound.chunk (List.mem_append_right _ List.mem_cons_self) last
  have stop := (inside.grown small called left).chunks chunk member
  have lower := has.2
  unfold headerSize at *
  omega

namespace RequestSample

/-- No free list has been made. -/
def heap : Heap :=
  ⟨fun _ => 0, fun _ => 0, 0⟩

/-- A process of one page gets the memory that `morecore` asks for. -/
theorem sbrk_core : Sbrk 0x1000 (coreBytes 14) (some 0x1000) 0x9000 :=
  .moved (rfl : Vm.growproc WrapSample.link Vm.SbrkSample.moments 0x1000 0x8000
    Vm.SbrkSample.vm = .ok ((0, 0x9000), _))

theorem run : Runs 8 heap [] [] 0x1000 :=
  .start rfl (by decide) (by decide)

/-- A request of 100 bytes. -/
theorem malloc_large_enough_first :
    ∃ passes result left heap',
      (∀ more ≥ passes, malloc 8 more 100 [some 0x1000] heap = some (result, left, heap')) ∧
      (result = 0 ∨ headerSize ≤ result ∧
        (100 : UInt32).toNat ≤ headerSize * (heap'.size (result - headerSize) - 1) ∧
        result + headerSize * (heap'.size (result - headerSize) - 1) ≤
          (sizeAfter left 0x1000 0x9000).toNat) :=
  (malloc_large_enough 8 heap [] [] 0x1000 0x9000 100 (some 0x1000) (by decide) run
    (by unfold Small; decide) sbrk_core).2.2

/-- A request of 2^32 - 1 bytes gets a block without room for any; and the bytes that `sbrk`
is asked for are negative for a request of 2^31 bytes and none for one of 2^32 - 8. -/
theorem malloc_too_small :
    (Runs 8 heap [] [] 0x1000 ∧ Sbrk 0x1000 (coreBytes (unitsFor 0xffffffff)) (some 0x1000) 0x9000 ∧
      ∃ result left heap', malloc 8 9 0xffffffff [some 0x1000] heap = some (result, left, heap') ∧
        result ≠ 0 ∧ heap'.size (result - headerSize) = 1) ∧
      asInt (coreBytes (unitsFor 0x80000000)) < 0 ∧ coreBytes (unitsFor 0xfffffff8) = 0 :=
  ⟨⟨run, sbrk_core, _, _, _, rfl, by decide, rfl⟩, by decide, by decide⟩

end RequestSample

end Umalloc
end Xv6
