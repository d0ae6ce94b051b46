import Mathlib.Data.List.Pairwise
import Mathlib.Order.Nat
import Xv6.User.Umalloc

/-!
# The free list

The blocks of the allocator's free list are in the order of their addresses,
with a gap between any two of them, and the list closes at `base`, which lies
below all of them.  `free` finds the place of a block from wherever the search
starts, and joins it to its neighbours.
-/

namespace Xv6
namespace Umalloc

open Function
open Linked

/-- A block of memory: the address of its header and its size in units. -/
structure Block where
  addr : Nat
  size : Nat
  deriving DecidableEq, Repr

namespace Block

/-- The address after a block. -/
def stop (block : Block) : Nat :=
  block.addr + headerSize * block.size

/-- An address lies in a block. -/
def Has (block : Block) (address : Nat) : Prop :=
  block.addr ≤ address ∧ address < block.stop

instance (block : Block) (address : Nat) : Decidable (block.Has address) :=
  inferInstanceAs (Decidable (_ ∧ _))

theorem addr_le_stop (block : Block) : block.addr ≤ block.stop :=
  Nat.le_add_right _ _

theorem has_addr {block : Block} (positive : 0 < block.size) : block.Has block.addr := by
  refine ⟨le_rfl, ?_⟩
  unfold stop headerSize
  omega

end Block

/-- The free list holds the given blocks. -/
structure FreeList (base : Nat) (heap : Heap) (blocks : List Block) : Prop where
  /-- The links lead around base and the blocks. -/
  ring : Ring heap.ptr ((⟨base, 0⟩ :: blocks).map Block.addr)
  /-- The headers give the sizes. -/
  sizes : ∀ block ∈ (⟨base, 0⟩ :: blocks : List Block), heap.size block.addr = block.size
  /-- The addresses grow, and no block touches the next. -/
  gaps : (⟨base, 0⟩ :: blocks : List Block).Pairwise (fun one two => one.stop < two.addr)
  /-- No block is empty. -/
  positive : ∀ block ∈ blocks, 0 < block.size
  /-- The search starts in the list. -/
  cursor : heap.freep ∈ (⟨base, 0⟩ :: blocks).map Block.addr

theorem map_append_cons (before after : List Block) (block : Block) :
    (before ++ block :: after).map Block.addr =
      before.map Block.addr ++ block.addr :: after.map Block.addr := by
  simp

section Place

variable {base : Nat} {heap : Heap} {blocks pre post : List Block} {p b : Block}

/-- The link of a header in the list. -/
theorem FreeList.ptr_eq
    (list : FreeList base heap blocks)
    (split : ⟨base, 0⟩ :: blocks = pre ++ p :: post) :
    heap.ptr p.addr = ((post ++ pre).map Block.addr).headD p.addr := by
  have ring := list.ring
  rw [split, map_append_cons, ring_iff_chain, ← List.map_append] at ring
  exact ring.next_eq

/-- The addresses before and after a block of the list. -/
theorem FreeList.around
    (list : FreeList base heap blocks)
    (split : ⟨base, 0⟩ :: blocks = pre ++ p :: post) :
    (∀ one ∈ pre, one.stop < p.addr) ∧ (∀ two ∈ post, p.stop < two.addr) ∧
      ∀ one ∈ pre, ∀ two ∈ post, one.stop < two.addr := by
  have gaps := list.gaps
  rw [split, List.pairwise_append, List.pairwise_cons] at gaps
  exact ⟨fun one early => gaps.2.2 one early p List.mem_cons_self,
    gaps.2.1.1, fun one early two late => gaps.2.2 one early two (List.mem_cons_of_mem _ late)⟩

/-- The first header of the list is base. -/
theorem FreeList.headD_pre (split : (⟨base, 0⟩ :: blocks : List Block) = pre ++ p :: post) :
    (pre.map Block.addr).headD p.addr = base := by
  cases pre with
  | nil => exact congrArg Block.addr (List.cons.inj split).1.symm
  | cons first pre => exact congrArg Block.addr (List.cons.inj split).1.symm

/-- A block belongs after p: it starts after p's end, and ends before the next
block starts. -/
structure Between (base : Nat) (blocks pre : List Block) (p b : Block) (post : List Block) :
    Prop where
  /-- p is in the list. -/
  split : ⟨base, 0⟩ :: blocks = pre ++ p :: post
  /-- The block is not below p. -/
  above : p.stop ≤ b.addr
  /-- The block is not p. -/
  after : p.addr < b.addr
  /-- The block is below the others. -/
  below : ∀ two ∈ post, b.stop ≤ two.addr
  /-- The block is not empty. -/
  positive : 0 < b.size

section

variable (between : Between base blocks pre p b post)

include between

theorem Between.base_lt (list : FreeList base heap blocks) :
    base < b.addr := by
  have first := FreeList.headD_pre between.split
  obtain ⟨early, _, _⟩ := list.around between.split
  cases pre with
  | nil =>
    have same : p.addr = base := first
    exact same ▸ between.after
  | cons one pre =>
    have same : one.addr = base := first
    have less := early one List.mem_cons_self
    have start := one.addr_le_stop
    have last := between.after
    omega

theorem Between.belongs_p (list : FreeList base heap blocks) :
    belongs heap b.addr p.addr = true := by
  have link := list.ptr_eq between.split
  have after := between.after
  unfold belongs
  rw [link]
  cases post with
  | nil =>
    rw [List.nil_append, FreeList.headD_pre between.split]
    have low : base ≤ p.addr := by
      have first := FreeList.headD_pre between.split
      obtain ⟨early, _, _⟩ := list.around between.split
      cases pre with
      | nil => exact (show p.addr = base from first).ge
      | cons one pre =>
        have same : one.addr = base := first
        have less := early one List.mem_cons_self
        have start := one.addr_le_stop
        omega
    simp [after, low]
  | cons next post =>
    have below := between.below next List.mem_cons_self
    have inside : b.addr < next.addr := by
      have start := Block.has_addr between.positive
      exact start.2.trans_le below
    simp [after, inside]

theorem Between.belongs_pre
    (list : FreeList base heap blocks)
    (member : node ∈ pre.map Block.addr) :
    belongs heap b.addr node = false := by
  obtain ⟨one, early, rfl⟩ := List.mem_map.mp member
  obtain ⟨left, right, rfl⟩ := List.append_of_mem early
  have split : (⟨base, 0⟩ :: blocks : List Block) = left ++ one :: (right ++ p :: post) := by
    rw [between.split]
    simp
  have link := list.ptr_eq split
  -- the next header is one of those up to p
  obtain ⟨next, among, equal⟩ : ∃ next ∈ right ++ [p], heap.ptr one.addr = next.addr := by
    cases right with
    | nil => exact ⟨p, List.mem_singleton_self _, link⟩
    | cons next right => exact ⟨next, List.mem_cons_self, link⟩
  obtain ⟨_, late, _⟩ := list.around split
  have later : one.addr < next.addr := by
    have inside : next ∈ right ++ p :: post := by
      rcases List.mem_append.mp among with among | among
      · exact List.mem_append_left _ among
      · rw [List.mem_singleton.mp among]
        exact List.mem_append_right _ List.mem_cons_self
    exact one.addr_le_stop.trans_lt (late next inside)
  have beforeB : next.addr < b.addr := by
    have after := between.after
    rcases List.mem_append.mp among with among | among
    · obtain ⟨early, _, _⟩ := list.around between.split
      have less := early next (List.mem_append_right _ (List.mem_cons_of_mem _ among))
      have start := next.addr_le_stop
      omega
    · rw [List.mem_singleton.mp among]
      exact after
  unfold belongs
  rw [equal]
  simp only [Bool.or_eq_false_iff, Bool.and_eq_false_iff, decide_eq_false_iff_not]
  exact ⟨.inr (by omega), .inl (by omega)⟩

theorem Between.belongs_post
    (list : FreeList base heap blocks)
    (member : node ∈ post.map Block.addr) :
    belongs heap b.addr node = false := by
  obtain ⟨two, late, rfl⟩ := List.mem_map.mp member
  have above := between.below two late
  have inside := (Block.has_addr between.positive).2
  have low := between.base_lt list
  obtain ⟨left, right, rfl⟩ := List.append_of_mem late
  have split : (⟨base, 0⟩ :: blocks : List Block) = (pre ++ p :: left) ++ two :: right := by
    rw [between.split]
    simp
  have link := list.ptr_eq split
  unfold belongs
  rw [link]
  simp only [Bool.or_eq_false_iff, Bool.and_eq_false_iff, decide_eq_false_iff_not]
  cases right with
  | nil =>
    have first := FreeList.headD_pre split
    rw [List.nil_append, first]
    exact ⟨.inl (by omega), .inr (by simp; omega)⟩
  | cons next right =>
    obtain ⟨_, later, _⟩ := list.around split
    have less := later next List.mem_cons_self
    have start := two.addr_le_stop
    refine ⟨.inl (by omega), .inl ?_⟩
    show ¬two.addr ≥ next.addr
    omega

/-- The search of `free` ends at the header before the block. -/
theorem Between.walk_eq
    (list : FreeList base heap blocks)
    (enough : blocks.length + 1 < passes) :
    walk heap.ptr (belongs heap b.addr) passes heap.freep = some p.addr := by
  have ring := list.ring
  have cursor := list.cursor
  rw [between.split, map_append_cons] at ring cursor
  refine ring.walk_eq ?_ (between.belongs_p list) cursor ?_
  · intro node member
    rcases List.mem_append.mp member with early | late
    · exact between.belongs_pre list early
    · exact between.belongs_post list late
  · rw [← map_append_cons, ← between.split, List.length_map, List.length_cons]
    exact enough

end

/-! ## Joining blocks -/

/-- A block joined to the one after it, if they touch. -/
def joinPost (b : Block) : List Block → Block × List Block
  | [] => (b, [])
  | next :: post =>
    if b.stop = next.addr then (⟨b.addr, b.size + next.size⟩, post) else (b, next :: post)

theorem joinPost_addr (b : Block) (post : List Block) : (joinPost b post).1.addr = b.addr := by
  cases post with
  | nil => rfl
  | cons next post =>
    rw [joinPost]
    split <;> rfl

theorem joinPost_subset (b : Block) (post : List Block) : (joinPost b post).2 ⊆ post := by
  cases post with
  | nil => exact List.Subset.refl _
  | cons next post =>
    rw [joinPost]
    split
    · exact List.subset_cons_self _ _
    · exact List.Subset.refl _

theorem joinPost_size_le (b : Block) (post : List Block) : b.size ≤ (joinPost b post).1.size := by
  cases post with
  | nil => exact Nat.le_refl _
  | cons next post =>
    rw [joinPost]
    split
    · exact Nat.le_add_right _ _
    · exact Nat.le_refl _

/-- The list after a block has been put in its place. -/
def released (pre : List Block) (p b : Block) (post : List Block) : List Block :=
  if p.stop = b.addr then
    pre ++ ⟨p.addr, p.size + (joinPost b post).1.size⟩ :: (joinPost b post).2
  else
    pre ++ p :: (joinPost b post).1 :: (joinPost b post).2

/-- p and a block that holds the new one are in the list. -/
theorem mem_released (pre post : List Block) (p b : Block) :
    p.addr ∈ (released pre p b post).map Block.addr ∧
      ∃ block ∈ released pre p b post, b.size ≤ block.size := by
  have large := joinPost_size_le b post
  unfold released
  split
  case isTrue =>
    refine ⟨?_, _, List.mem_append_right _ List.mem_cons_self, ?_⟩
    · rw [map_append_cons]
      exact List.mem_append_right _ List.mem_cons_self
    · exact large.trans (Nat.le_add_left _ _)
  case isFalse =>
    refine ⟨?_, _, List.mem_append_right _ (List.mem_cons_of_mem _ List.mem_cons_self), large⟩
    rw [map_append_cons]
    exact List.mem_append_right _ List.mem_cons_self

theorem released_length_le (pre post : List Block) (p b : Block) :
    (released pre p b post).length ≤ (pre ++ p :: post).length + 1 := by
  have shorter : (joinPost b post).2.length ≤ post.length := by
    cases post with
    | nil => exact Nat.le_refl _
    | cons next post =>
      rw [joinPost]
      split
      · exact Nat.le_succ _
      · exact Nat.le_refl _
  unfold released
  split <;> simp only [List.length_append, List.length_cons] <;> omega

section

variable (between : Between base blocks pre p b post)

include between

/-- The headers in the list are different from each other and from the block's. -/
theorem Between.fresh (list : FreeList base heap blocks) :
    p.addr ∉ (post ++ pre).map Block.addr ∧ b.addr ∉ p.addr :: (post ++ pre).map Block.addr := by
  obtain ⟨early, late, _⟩ := list.around between.split
  have start := (Block.has_addr between.positive).2
  have after := between.after
  have low := p.addr_le_stop
  refine ⟨fun member => ?_, fun member => ?_⟩
  · obtain ⟨other, among, equal⟩ := List.mem_map.mp member
    rcases List.mem_append.mp among with among | among
    · have less := late other among
      omega
    · have less := early other among
      have first := other.addr_le_stop
      omega
  · rcases List.mem_cons.mp member with equal | member
    · omega
    · obtain ⟨other, among, equal⟩ := List.mem_map.mp member
      rcases List.mem_append.mp among with among | among
      · have less := between.below other among
        omega
      · have less := early other among
        have first := other.addr_le_stop
        omega

/-- What `joinUpper` does: the block has its new size, and the links are such
that p can be linked to the block, or to what follows it. -/
theorem Between.joinUpper_spec
    (list : FreeList base heap blocks)
    (size : heap.size b.addr = b.size) :
    (joinUpper b.addr p.addr heap).size = update heap.size b.addr (joinPost b post).1.size ∧
    Chain (update (joinUpper b.addr p.addr heap).ptr p.addr b.addr) p.addr
      (b.addr :: ((joinPost b post).2 ++ pre).map Block.addr) p.addr ∧
    Chain (update (joinUpper b.addr p.addr heap).ptr p.addr
        ((joinUpper b.addr p.addr heap).ptr b.addr)) p.addr
      (((joinPost b post).2 ++ pre).map Block.addr) p.addr := by
  have link := list.ptr_eq between.split
  have chain := list.ring
  rw [between.split, map_append_cons, ring_iff_chain, ← List.map_append] at chain
  obtain ⟨apart, fresh⟩ := between.fresh list
  have different : b.addr ≠ p.addr := fun same => fresh (same ▸ List.mem_cons_self)
  -- without a block to join, the block is linked to p's successor
  have alone : Chain (update (update heap.ptr b.addr (heap.ptr p.addr)) p.addr
        b.addr) p.addr (b.addr :: (post ++ pre).map Block.addr) p.addr ∧
      Chain (update (update heap.ptr b.addr (heap.ptr p.addr)) p.addr
        (update heap.ptr b.addr (heap.ptr p.addr) b.addr)) p.addr
        ((post ++ pre).map Block.addr) p.addr := by
    refine ⟨chain.insert apart fresh, ?_⟩
    have same := update_of_ne different.symm (heap.ptr p.addr) heap.ptr
    rw [update_self]
    nth_rewrite 2 [← same]
    rw [update_eq_self]
    exact chain.update fresh
  have unchanged : update heap.size b.addr b.size = heap.size := by
    rw [← size, update_eq_self]
  unfold joinUpper
  cases post with
  | nil =>
    rw [List.nil_append, FreeList.headD_pre between.split] at link
    have low := between.base_lt list
    have high := (Block.has_addr between.positive).2
    have never : b.addr + headerSize * heap.size b.addr ≠ heap.ptr p.addr := by
      rw [size, link]
      exact fun equal => absurd (equal ▸ high : b.addr < base) (by omega)
    rw [if_neg never]
    exact ⟨unchanged.symm, alone⟩
  | cons next post =>
    have linkNext : heap.ptr p.addr = next.addr := link
    have test : b.addr + headerSize * heap.size b.addr = heap.ptr p.addr ↔ b.stop = next.addr := by
      rw [size, linkNext]
      rfl
    by_cases touch : b.stop = next.addr
    · rw [if_pos (test.mpr touch)]
      simp only [joinPost, if_pos touch]
      have among : next ∈ (⟨base, 0⟩ :: blocks : List Block) := by
        rw [between.split]
        exact List.mem_append_right _ (List.mem_cons_of_mem _ List.mem_cons_self)
      have nextSize := list.sizes next among
      have freshRest : b.addr ∉ p.addr :: (post ++ pre).map Block.addr := by
        intro member
        rcases List.mem_cons.mp member with equal | member
        · exact different equal
        · exact fresh (List.mem_cons_of_mem _ (List.mem_cons_of_mem _ member))
      have apartRest : p.addr ∉ (post ++ pre).map Block.addr := fun member =>
        apart (List.mem_cons_of_mem _ member)
      refine ⟨?_, ?_, ?_⟩
      · simp only [Heap.setPtr, Heap.setSize]
        rw [linkNext, nextSize, size]
      · simp only [Heap.setPtr, Heap.setSize]
        rw [linkNext]
        exact chain.replace apartRest freshRest
      · simp only [Heap.setPtr, Heap.setSize]
        rw [linkNext, update_self, update_comm different]
        exact (chain.remove apartRest).update freshRest
    · rw [if_neg (mt test.mp touch)]
      simp only [joinPost, if_neg touch]
      exact ⟨unchanged.symm, alone⟩

/-- The blocks after the block that is put in its place start after its end. -/
theorem Between.joinPost_gap (list : FreeList base heap blocks) :
    (∀ two ∈ (joinPost b post).2, (joinPost b post).1.stop < two.addr) ∧
      (joinPost b post).2.Pairwise (fun one two => one.stop < two.addr) := by
  have gaps := list.gaps
  rw [between.split, List.pairwise_append, List.pairwise_cons] at gaps
  have sorted := gaps.2.1.2
  cases post with
  | nil => exact ⟨fun _ member => absurd member List.not_mem_nil, sorted⟩
  | cons next post =>
    obtain ⟨later, rest⟩ := List.pairwise_cons.mp sorted
    have below := between.below next List.mem_cons_self
    by_cases touch : b.stop = next.addr
    · simp only [joinPost, if_pos touch]
      refine ⟨fun two member => ?_, rest⟩
      have less := later two member
      unfold Block.stop at touch less ⊢
      dsimp only
      rw [Nat.mul_add]
      omega
    · simp only [joinPost, if_neg touch]
      refine ⟨fun two member => ?_, sorted⟩
      rcases List.mem_cons.mp member with rfl | member
      · omega
      · have less := later two member
        have start := next.addr_le_stop
        omega

theorem Between.released_gaps (list : FreeList base heap blocks) :
    (released pre p b post).Pairwise (fun one two => one.stop < two.addr) := by
  obtain ⟨gap, sorted⟩ := between.joinPost_gap list
  have gaps := list.gaps
  rw [between.split, List.pairwise_append] at gaps
  obtain ⟨early, late, across⟩ := list.around between.split
  have subset := joinPost_subset b post
  have addr := joinPost_addr b post
  have above := between.above
  unfold released
  by_cases touch : p.stop = b.addr
  · rw [if_pos touch, List.pairwise_append, List.pairwise_cons]
    refine ⟨gaps.1, ⟨?_, sorted⟩, ?_⟩
    · intro two member
      have less := gap two member
      unfold Block.stop at less touch ⊢
      dsimp only
      rw [addr] at less
      rw [Nat.mul_add]
      omega
    · intro one first two member
      rcases List.mem_cons.mp member with rfl | member
      · exact early one first
      · exact across one first two (subset member)
  · rw [if_neg touch, List.pairwise_append, List.pairwise_cons, List.pairwise_cons]
    refine ⟨gaps.1, ⟨?_, gap, sorted⟩, ?_⟩
    · intro two member
      rcases List.mem_cons.mp member with rfl | member
      · rw [addr]
        omega
      · exact late two (subset member)
    · intro one first two member
      rcases List.mem_cons.mp member with rfl | member
      · exact early one first
      · rcases List.mem_cons.mp member with rfl | member
        · have less := early one first
          have start := p.addr_le_stop
          rw [addr]
          omega
        · exact across one first two (subset member)

/-- No block but base is empty. -/
theorem Between.released_positive
    (list : FreeList base heap blocks)
    (member : block ∈ released pre p b post)
    (notBase : block.addr ≠ base) :
    0 < block.size := by
  have large := joinPost_size_le b post
  have positive := between.positive
  have old : ∀ other ∈ pre ++ p :: post, other.addr ≠ base → 0 < other.size := by
    intro other among away
    rw [← between.split] at among
    rcases List.mem_cons.mp among with rfl | among
    · exact absurd rfl away
    · exact list.positive other among
  unfold released at member
  split at member
  case isTrue =>
    rcases List.mem_append.mp member with early | late
    · exact old block (List.mem_append_left _ early) notBase
    · rcases List.mem_cons.mp late with rfl | late
      · show 0 < p.size + (joinPost b post).1.size
        omega
      · exact old block (List.mem_append_right _
          (List.mem_cons_of_mem _ (joinPost_subset b post late))) notBase
  case isFalse =>
    rcases List.mem_append.mp member with early | late
    · exact old block (List.mem_append_left _ early) notBase
    · rcases List.mem_cons.mp late with rfl | late
      · exact old block (List.mem_append_right _ List.mem_cons_self) notBase
      · rcases List.mem_cons.mp late with rfl | late
        · omega
        · exact old block (List.mem_append_right _
            (List.mem_cons_of_mem _ (joinPost_subset b post late))) notBase

/-- base stays the first header. -/
theorem Between.released_head (list : FreeList base heap blocks) :
    ∃ rest, released pre p b post = ⟨base, 0⟩ :: rest := by
  have low := between.base_lt list
  have split := between.split
  unfold released
  cases pre with
  | nil =>
    obtain ⟨rfl, _⟩ := List.cons.inj split
    have never : ¬(⟨base, 0⟩ : Block).stop = b.addr := by
      show ¬base = b.addr
      omega
    rw [if_neg never]
    exact ⟨_, rfl⟩
  | cons first pre =>
    obtain ⟨rfl, _⟩ := List.cons.inj split
    by_cases touch : p.stop = b.addr
    · rw [if_pos touch]
      exact ⟨_, rfl⟩
    · rw [if_neg touch]
      exact ⟨_, rfl⟩

end

/-- The heap after `free` has put a block in its place. -/
def afterFree (b p : Nat) (heap : Heap) : Heap :=
  { joinLower b p (joinUpper b p heap) with freep := p }

/-- The links and the sizes after `free`. -/
theorem Between.afterFree_spec
    (between : Between base blocks pre p b post)
    (list : FreeList base heap blocks)
    (size : heap.size b.addr = b.size) :
    Ring (afterFree b.addr p.addr heap).ptr ((released pre p b post).map Block.addr) ∧
      (∀ block ∈ released pre p b post,
        (afterFree b.addr p.addr heap).size block.addr = block.size) ∧
      (∀ other, other ≠ b.addr → other ≠ p.addr →
        (afterFree b.addr p.addr heap).size other = heap.size other) := by
  obtain ⟨sizes, linked, skipped⟩ := between.joinUpper_spec list size
  obtain ⟨apart, fresh⟩ := between.fresh list
  have different : p.addr ≠ b.addr := fun same => fresh (same ▸ List.mem_cons_self)
  have among : p ∈ (⟨base, 0⟩ :: blocks : List Block) := by
    rw [between.split]
    exact List.mem_append_right _ List.mem_cons_self
  have sizeP : (joinUpper b.addr p.addr heap).size p.addr = p.size := by
    rw [sizes, update_of_ne different]
    exact list.sizes p among
  have sizeB : (joinUpper b.addr p.addr heap).size b.addr = (joinPost b post).1.size := by
    rw [sizes, update_self]
  have sizeOther : ∀ block ∈ (joinPost b post).2 ++ pre, block.addr ≠ b.addr ∧ block.addr ≠ p.addr ∧
        (joinUpper b.addr p.addr heap).size block.addr = block.size := by
    intro block member
    have old : block ∈ post ++ pre := by
      rcases List.mem_append.mp member with member | member
      · exact List.mem_append_left _ (joinPost_subset b post member)
      · exact List.mem_append_right _ member
    have notB : block.addr ≠ b.addr := fun same =>
      fresh (List.mem_cons_of_mem _ (same ▸ List.mem_map_of_mem old))
    have notP : block.addr ≠ p.addr := fun same => apart (same ▸ List.mem_map_of_mem old)
    refine ⟨notB, notP, ?_⟩
    rw [sizes, update_of_ne notB]
    refine list.sizes block ?_
    rw [between.split]
    rcases List.mem_append.mp old with late | early
    · exact List.mem_append_right _ (List.mem_cons_of_mem _ late)
    · exact List.mem_append_left _ early
  have test : p.addr + headerSize * (joinUpper b.addr p.addr heap).size p.addr = b.addr ↔
      p.stop = b.addr := by
    rw [sizeP]
    rfl
  have addr := joinPost_addr b post
  unfold afterFree joinLower released
  by_cases touch : p.stop = b.addr
  · rw [if_pos (test.mpr touch), if_pos touch]
    refine ⟨?_, ?_, ?_⟩
    · rw [map_append_cons, ring_iff_chain, ← List.map_append]
      exact skipped
    · intro block member
      simp only [Heap.setPtr, Heap.setSize]
      rcases List.mem_append.mp member with member | member
      · obtain ⟨_, notP, same⟩ := sizeOther block (List.mem_append_right _ member)
        rw [update_of_ne notP, same]
      · rcases List.mem_cons.mp member with rfl | member
        · rw [update_self, sizeP, sizeB]
        · obtain ⟨_, notP, same⟩ := sizeOther block (List.mem_append_left _ member)
          rw [update_of_ne notP, same]
    · intro other notB notP
      simp only [Heap.setPtr, Heap.setSize]
      rw [update_of_ne notP, sizes, update_of_ne notB]
  · rw [if_neg (mt test.mp touch), if_neg touch]
    refine ⟨?_, ?_, ?_⟩
    · rw [map_append_cons, ring_iff_chain, ← List.map_append, List.cons_append, List.map_cons, addr]
      exact linked
    · intro block member
      simp only [Heap.setPtr]
      rcases List.mem_append.mp member with member | member
      · exact (sizeOther block (List.mem_append_right _ member)).2.2
      · rcases List.mem_cons.mp member with rfl | member
        · exact sizeP
        · rcases List.mem_cons.mp member with rfl | member
          · rw [addr]
            exact sizeB
          · exact (sizeOther block (List.mem_append_left _ member)).2.2
    · intro other notB _
      simp only [Heap.setPtr]
      rw [sizes, update_of_ne notB]

end Place

end Umalloc
end Xv6
