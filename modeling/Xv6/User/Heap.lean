import Mathlib
import Xv6.User.FreeList

/-!
# The heap of a program

The memory that `sbrk` has handed out is, byte for byte, that of the free blocks
and of the live ones.  `free` moves a block from the live ones to the free list,
`malloc` the other way, and `morecore` frees the new memory.
-/

namespace Xv6
namespace Umalloc

/-! ## Counting the blocks at an address -/

/-- Whether an address lies in a block, as a number. -/
def Block.count (block : Block) (address : Nat) : Nat :=
  if block.Has address then 1 else 0

/-- The number of blocks that an address lies in. -/
def covers (blocks : List Block) (address : Nat) : Nat :=
  (blocks.map (fun block => block.count address)).sum

@[simp] theorem covers_nil (address : Nat) : covers [] address = 0 := rfl

@[simp] theorem covers_cons (block : Block) (blocks : List Block) (address : Nat) :
    covers (block :: blocks) address = block.count address + covers blocks address := by
  simp [covers]

@[simp] theorem covers_append (one two : List Block) (address : Nat) :
    covers (one ++ two) address = covers one address + covers two address := by
  simp [covers]

theorem Block.count_eq_one {block : Block} (inside : block.Has address) :
    block.count address = 1 :=
  if_pos inside

@[simp] theorem count_base (base address : Nat) : (⟨base, 0⟩ : Block).count address = 0 := by
  refine if_neg (fun inside => ?_)
  obtain ⟨low, high⟩ := inside
  exact absurd (low.trans_lt high) (Nat.lt_irrefl _)

/-- A block is made of two that touch. -/
theorem count_add (addr one two address : Nat) :
    (⟨addr, one + two⟩ : Block).count address = (⟨addr, one⟩ : Block).count address +
        (⟨addr + headerSize * one, two⟩ : Block).count address := by
  have split : (⟨addr, one + two⟩ : Block).Has address ↔ (⟨addr, one⟩ : Block).Has address ∨
        (⟨addr + headerSize * one, two⟩ : Block).Has address := by
    simp only [Block.Has, Block.stop, headerSize]
    omega
  have never : ¬((⟨addr, one⟩ : Block).Has address ∧
      (⟨addr + headerSize * one, two⟩ : Block).Has address) := by
    simp only [Block.Has, Block.stop, headerSize]
    omega
  unfold Block.count
  grind

variable {blocks : List Block}

theorem covers_pos {block : Block}
    (member : block ∈ blocks)
    (inside : block.Has address) :
    1 ≤ covers blocks address := by
  obtain ⟨before, after, rfl⟩ := List.append_of_mem member
  rw [covers_append, covers_cons, Block.count_eq_one inside]
  omega

theorem exists_of_covers_pos (some : 1 ≤ covers blocks address) :
    ∃ block ∈ blocks, block.Has address := by
  induction blocks with
  | nil => exact absurd some (by simp)
  | cons block blocks ih =>
    by_cases inside : block.Has address
    · exact ⟨block, List.mem_cons_self, inside⟩
    · rw [covers_cons, show block.count address = 0 from if_neg inside, Nat.zero_add] at some
      obtain ⟨other, member, has⟩ := ih some
      exact ⟨other, List.mem_cons_of_mem _ member, has⟩

theorem covers_joinPost (b : Block) (post : List Block) (address : Nat) :
    (joinPost b post).1.count address + covers (joinPost b post).2 address =
      b.count address + covers post address := by
  cases post with
  | nil => rfl
  | cons next post =>
    rw [joinPost]
    split
    case isTrue touch =>
      have joined := count_add b.addr b.size next.size address
      have rest : (⟨b.addr + headerSize * b.size, next.size⟩ : Block) = next := by
        cases next
        exact congrArg (Block.mk · _) touch
      rw [rest] at joined
      rw [joined, covers_cons, Nat.add_assoc]
    case isFalse =>
      rfl

/-- Putting a block in its place covers its addresses once more. -/
theorem covers_released (pre post : List Block) (p b : Block) (address : Nat) :
    covers (released pre p b post) address =
      covers (pre ++ p :: post) address + b.count address := by
  have joined := covers_joinPost b post address
  have addr := joinPost_addr b post
  unfold released
  split
  case isTrue touch =>
    have whole := count_add p.addr p.size (joinPost b post).1.size address
    have rest : (⟨p.addr + headerSize * p.size, (joinPost b post).1.size⟩ : Block) =
        (joinPost b post).1 := by
      have start : p.addr + headerSize * p.size = (joinPost b post).1.addr :=
        (show p.addr + headerSize * p.size = b.addr from touch).trans addr.symm
      rw [start]
    have same : (⟨p.addr, p.size⟩ : Block) = p := rfl
    rw [rest, same] at whole
    simp only [covers_append, covers_cons, whole]
    omega
  case isFalse =>
    simp only [covers_append, covers_cons]
    omega

/-- No address lies in both blocks. -/
def Apart (one two : Block) : Prop :=
  ∀ address, ¬(one.Has address ∧ two.Has address)

theorem pairwise_apart (once : ∀ address, covers blocks address ≤ 1) :
    blocks.Pairwise Apart := by
  induction blocks with
  | nil => exact List.Pairwise.nil
  | cons block blocks ih =>
    refine List.pairwise_cons.mpr ⟨?_, ih (fun address => ?_)⟩
    · rintro other member address ⟨one, two⟩
      have bound := once address
      have positive := covers_pos member two
      rw [covers_cons, Block.count_eq_one one] at bound
      omega
    · have bound := once address
      rw [covers_cons] at bound
      omega

/-! ## Sound heaps -/

/-- The free list holds the given blocks, and they and the live blocks make up
the memory obtained from `sbrk`, each address of it once. -/
structure Sound (base : Nat) (heap : Heap) (live chunks blocks : List Block) : Prop where
  list : FreeList base heap blocks
  /-- The headers of the live blocks give their sizes. -/
  headers : ∀ block ∈ live, 0 < block.size ∧ heap.size block.addr = block.size
  /-- Free and live blocks make up the memory. -/
  cover : ∀ address, covers blocks address + covers live address = covers chunks address
  /-- No memory is handed out twice. -/
  once : ∀ address, covers chunks address ≤ 1
  /-- The memory lies above base. -/
  above : ∀ chunk ∈ chunks, base < chunk.addr

section Sound

variable {base : Nat} {heap : Heap} {live chunks blocks : List Block}

variable (sound : Sound base heap live chunks blocks)

include sound

theorem Sound.apart
    (free : one ∈ blocks)
    (used : two ∈ live) :
    Apart one two := by
  rintro address ⟨inOne, inTwo⟩
  have cover := sound.cover address
  have once := sound.once address
  have first := covers_pos free inOne
  have second := covers_pos used inTwo
  omega

/-- An address in a block lies in memory from `sbrk`. -/
theorem Sound.chunk
    (member : block ∈ blocks ++ live)
    (inside : block.Has address) :
    ∃ chunk ∈ chunks, chunk.Has address := by
  refine exists_of_covers_pos ?_
  have positive := covers_pos member inside
  rw [covers_append] at positive
  exact positive.trans (sound.cover address).le

theorem Sound.positive (member : block ∈ blocks ++ live) :
    0 < block.size := by
  rcases List.mem_append.mp member with free | used
  · exact sound.list.positive block free
  · exact (sound.headers block used).1

theorem Sound.base_lt (member : block ∈ blocks ++ live) :
    base < block.addr := by
  have inside := Block.has_addr (sound.positive member)
  obtain ⟨chunk, among, low, _⟩ := sound.chunk member inside
  exact (sound.above chunk among).trans_le low

/-- The headers of the list are not those of live blocks. -/
theorem Sound.header_ne
    (free : one ∈ (⟨base, 0⟩ :: blocks : List Block))
    (used : two ∈ live) :
    one.addr ≠ two.addr := by
  intro equal
  rcases List.mem_cons.mp free with rfl | free
  · exact absurd (sound.base_lt (List.mem_append_right _ used)) (by rw [← equal]; exact lt_irrefl _)
  · have inOne := Block.has_addr (sound.list.positive one free)
    have inTwo := Block.has_addr (sound.headers two used).1
    exact sound.apart free used one.addr ⟨inOne, equal ▸ inTwo⟩

end Sound

/-! ## `free` -/

/-- The last element of a list with a property. -/
theorem exists_last {holds : α → Prop}
    (some : ∃ first ∈ list, holds first) :
    ∃ pre last post, list = pre ++ last :: post ∧ holds last ∧ ∀ other ∈ post, ¬holds other := by
  induction list with
  | nil =>
    obtain ⟨first, member, _⟩ := some
    exact absurd member List.not_mem_nil
  | cons first rest ih =>
    by_cases more : ∃ other ∈ rest, holds other
    · obtain ⟨pre, last, post, rfl, found⟩ := ih more
      exact ⟨first :: pre, last, post, rfl, found⟩
    · obtain ⟨other, member, holdsOther⟩ := some
      rcases List.mem_cons.mp member with rfl | member
      · exact ⟨[], other, rest, rfl, holdsOther, fun two late holdsTwo =>
          more ⟨two, late, holdsTwo⟩⟩
      · exact absurd ⟨other, member, holdsOther⟩ more

/-- A block that is apart from the free ones has a place among them. -/
theorem FreeList.exists_between
    (list : FreeList base heap blocks)
    (positive : 0 < b.size)
    (low : base < b.addr)
    (apart : ∀ block ∈ blocks, Apart block b) :
    ∃ pre p post, Between base blocks pre p b post := by
  have first : ∃ block ∈ (⟨base, 0⟩ :: blocks : List Block), block.addr < b.addr :=
    ⟨_, List.mem_cons_self, low⟩
  obtain ⟨pre, p, post, split, before, none⟩ := exists_last first
  have inB := Block.has_addr positive
  refine ⟨pre, p, post, split, ?_, before, ?_, positive⟩
  · have member : p ∈ (⟨base, 0⟩ :: blocks : List Block) := by
      rw [split]
      exact List.mem_append_right _ List.mem_cons_self
    rcases List.mem_cons.mp member with rfl | member
    · exact low.le
    · by_contra overlap
      exact apart p member b.addr ⟨⟨before.le, by omega⟩, inB⟩
  · intro two late
    have after := none two late
    have member : two ∈ blocks := by
      cases pre with
      | nil => exact (List.cons.inj split).2 ▸ late
      | cons first pre =>
        rw [(List.cons.inj split).2]
        exact List.mem_append_right _ (List.mem_cons_of_mem _ late)
    have inTwo := Block.has_addr (list.positive two member)
    by_contra overlap
    exact apart two member two.addr ⟨inTwo, by unfold Block.Has; omega⟩

section Free

variable {base : Nat} {heap : Heap} {chunks blocks before after : List Block} {b : Block}

/-- `free` moves a live block to the free list. -/
theorem Sound.release (sound : Sound base heap (before ++ b :: after) chunks blocks) :
    ∃ heap' blocks', (∀ passes > blocks.length + 1,
        free passes (b.addr + headerSize) heap = some heap') ∧
      Sound base heap' (before ++ after) chunks blocks' ∧ blocks'.length ≤ blocks.length + 1 ∧
      ∃ block ∈ blocks', b.size ≤ block.size := by
  have used : b ∈ before ++ b :: after := List.mem_append_right _ List.mem_cons_self
  obtain ⟨positive, size⟩ := sound.headers b used
  obtain ⟨pre, p, post, between⟩ := sound.list.exists_between positive
    (sound.base_lt (List.mem_append_right _ used)) (fun block free => sound.apart free used)
  obtain ⟨ring, sizes, others⟩ := between.afterFree_spec sound.list size
  obtain ⟨rest, head⟩ := between.released_head sound.list
  have gaps := between.released_gaps sound.list
  have covered := covers_released pre post p b
  rw [head] at ring sizes gaps
  rw [head, ← between.split] at covered
  simp only [covers_cons, count_base, Nat.zero_add] at covered
  have split := between.split
  refine ⟨afterFree b.addr p.addr heap, rest, ?_, ⟨⟨ring, sizes, gaps, ?_, ?_⟩, ?_, ?_, sound.once,
    sound.above⟩, ?_, ?_⟩
  · intro passes enough
    unfold free
    rw [Nat.add_sub_cancel, between.walk_eq sound.list enough]
    rfl
  · intro block member
    refine between.released_positive sound.list ?_ ?_
    · rw [head]
      exact List.mem_cons_of_mem _ member
    · have gap := (List.pairwise_cons.mp gaps).1 block member
      exact (Nat.ne_of_lt gap).symm
  · rw [← head]
    exact (mem_released pre post p b).1
  · intro block member
    have stays := List.mem_append.mpr
      ((List.mem_append.mp member).imp_right (List.mem_cons_of_mem b))
    obtain ⟨positive, same⟩ := sound.headers block stays
    refine ⟨positive, ?_⟩
    rw [others block.addr ?_ ?_, same]
    · intro equal
      have once := sound.once b.addr
      have cover := sound.cover b.addr
      have inside := covers_pos member (equal ▸ Block.has_addr positive)
      rw [covers_append, covers_cons, Block.count_eq_one (Block.has_addr ‹0 < b.size›)] at cover
      rw [covers_append] at inside
      omega
    · have among : p ∈ (⟨base, 0⟩ :: blocks : List Block) := by
        rw [split]
        exact List.mem_append_right _ List.mem_cons_self
      exact (sound.header_ne among stays).symm
  · intro address
    have cover := sound.cover address
    rw [covers_append, covers_cons] at cover
    rw [covers_append, covered]
    omega
  · have count := released_length_le pre post p b
    rw [head, ← split, List.length_cons, List.length_cons] at count
    omega
  · obtain ⟨block, member, large⟩ := (mem_released pre post p b).2
    rw [head] at member
    rcases List.mem_cons.mp member with rfl | member
    · exact absurd large (by show ¬b.size ≤ 0; omega)
    · exact ⟨block, member, large⟩

end Free

end Umalloc
end Xv6
