import Xv6.User.Heap

/-!
# The search of `malloc`

`malloc` goes once around the free list.  It takes the units from the first block
that is large enough; if there is none it frees new memory, and then there is one.
In every run of calls of `malloc` and `free` the heap stays sound.
-/

namespace Xv6
namespace Umalloc

open Function
open Linked

/-! ## New memory -/

/-- What `sbrk` returns is a failure, or memory above all that it returned
before. -/
def Fresh (base : Nat) (chunks : List Block) (reply : Option Nat) : Prop :=
  ∀ hp, reply = some hp → base < hp ∧ ∀ chunk ∈ chunks, chunk.stop ≤ hp

section Grow

variable {base : Nat} {heap : Heap} {live chunks blocks : List Block}

/-- The blocks lie below new memory. -/
theorem Sound.stop_le
    (sound : Sound base heap live chunks blocks)
    (fresh : Fresh base chunks (some hp))
    (member : block ∈ blocks ++ live) :
    block.stop ≤ hp := by
  have positive := sound.positive member
  have last : block.Has (block.stop - 1) := by
    unfold Block.Has Block.stop headerSize
    omega
  obtain ⟨chunk, among, _, high⟩ := sound.chunk member last
  have below := (fresh hp rfl).2 chunk among
  omega

/-- New memory is a live block once its header has its size. -/
theorem Sound.grow
    (sound : Sound base heap live chunks blocks)
    (fresh : Fresh base chunks (some hp))
    (positive : 0 < units) :
    Sound base (heap.setSize hp units) (⟨hp, units⟩ :: live) (⟨hp, units⟩ :: chunks) blocks := by
  obtain ⟨low, below⟩ := fresh hp rfl
  have same : ∀ block ∈ blocks ++ live, (heap.setSize hp units).size block.addr =
      heap.size block.addr := by
    intro block member
    have stop := sound.stop_le fresh member
    have inside := (Block.has_addr (sound.positive member)).2
    exact update_of_ne (by omega) _ _
  have list := sound.list
  refine ⟨⟨list.ring, ?_, list.gaps, list.positive, list.cursor⟩, ?_, ?_, ?_, ?_⟩
  · intro block member
    rcases List.mem_cons.mp member with rfl | free
    · exact (update_of_ne low.ne _ _).trans (list.sizes _ member)
    · exact (same block (List.mem_append_left _ free)).trans (list.sizes block member)
  · intro block member
    rcases List.mem_cons.mp member with rfl | used
    · exact ⟨positive, update_self _ _ _⟩
    · obtain ⟨large, size⟩ := sound.headers block used
      exact ⟨large, (same block (List.mem_append_right _ used)).trans size⟩
  · intro address
    have cover := sound.cover address
    rw [covers_cons, covers_cons]
    omega
  · intro address
    have once := sound.once address
    rw [covers_cons]
    by_cases inside : (⟨hp, units⟩ : Block).Has address
    · have none : covers chunks address = 0 := by
        by_contra some
        obtain ⟨chunk, among, _, high⟩ := exists_of_covers_pos (Nat.pos_of_ne_zero some)
        have stop := below chunk among
        have start : hp ≤ address := inside.1
        omega
      rw [none, Block.count_eq_one inside]
    · rw [show (⟨hp, units⟩ : Block).count address = 0 from if_neg inside]
      omega
  · intro chunk member
    rcases List.mem_cons.mp member with rfl | member
    · exact low
    · exact sound.above chunk member

theorem le_coreUnits (nu : Nat) : nu ≤ coreUnits nu ∧ 0 < coreUnits nu := by
  unfold coreUnits
  split <;> omega

/-- `morecore` puts the new memory on the free list. -/
theorem Sound.extend
    (sound : Sound base heap live chunks blocks)
    (fresh : Fresh base chunks (some hp))
    (nu : Nat) :
    ∃ heap' blocks', (∀ passes > blocks.length + 1,
        morecore passes nu (some hp) heap = some (some heap'.freep, heap')) ∧
      Sound base heap' live (⟨hp, coreUnits nu⟩ :: chunks) blocks' ∧
      blocks'.length ≤ blocks.length + 1 ∧
      ∃ block ∈ blocks', nu ≤ block.size := by
  obtain ⟨enough, positive⟩ := le_coreUnits nu
  have grown : Sound base (heap.setSize hp (coreUnits nu)) ([] ++ ⟨hp, coreUnits nu⟩ :: live)
      (⟨hp, coreUnits nu⟩ :: chunks) blocks := sound.grow fresh positive
  obtain ⟨heap', blocks', frees, sound', short, block, member, large⟩ := grown.release
  refine ⟨heap', blocks', ?_, sound', short, block, member, enough.trans large⟩
  intro passes more
  rw [morecore, frees passes more]

end Grow

/-! ## The search -/

section Loop

variable {heap : Heap} {nunits passes prevp p : Nat} {replies : List (Option Nat)}

theorem mallocLoop_take (large : nunits ≤ heap.size p) :
    mallocLoop nunits (passes + 1) prevp p replies heap =
      some ((carve nunits prevp p heap).1, replies, (carve nunits prevp p heap).2) := by
  unfold mallocLoop
  exact if_pos large

theorem mallocLoop_next
    (small : heap.size p < nunits)
    (away : p ≠ heap.freep) :
    mallocLoop nunits (passes + 1) prevp p replies heap =
      mallocLoop nunits passes p (heap.ptr p) replies heap := by
  conv_lhs => unfold mallocLoop
  rw [if_neg (Nat.not_le.mpr small), if_neg away]

theorem mallocLoop_more
    (small : heap.size heap.freep < nunits)
    (more : morecore passes nunits reply heap = some (some next, heap')) :
    mallocLoop nunits (passes + 1) prevp heap.freep (reply :: replies) heap =
      mallocLoop nunits passes next (heap'.ptr next) replies heap' := by
  conv_lhs => unfold mallocLoop
  rw [if_neg (Nat.not_le.mpr small), if_pos rfl]
  simp only [more]

theorem mallocLoop_fail (small : heap.size heap.freep < nunits) :
    mallocLoop nunits (passes + 1) prevp heap.freep (none :: replies) heap =
      some (0, replies, heap) := by
  unfold mallocLoop
  rw [if_neg (Nat.not_le.mpr small), if_pos rfl]
  rfl

end Loop

/-- A search along the list takes the first block that is large enough, or
reaches the header where it started. -/
theorem mallocLoop_scan
    (nunits : Nat)
    (replies : List (Option Nat))
    (chain : Chain heap.ptr prevp rest heap.freep)
    (apart : heap.freep ∉ rest) :
    (∃ q ∈ prevp :: rest, nunits ≤ heap.size (heap.ptr q) ∧ ∀ left,
      mallocLoop nunits (left + rest.length + 1) prevp (heap.ptr prevp) replies heap =
        some ((carve nunits q (heap.ptr q) heap).1, replies,
          (carve nunits q (heap.ptr q) heap).2)) ∨
    (∀ node ∈ rest ++ [heap.freep], heap.size node < nunits) ∧
      ∃ q, ∀ left, mallocLoop nunits (left + rest.length + 1) prevp (heap.ptr prevp) replies heap =
        mallocLoop nunits (left + 1) q heap.freep replies heap := by
  induction rest generalizing prevp with
  | nil =>
    rw [Chain] at chain
    rcases Nat.lt_or_ge (heap.size heap.freep) nunits with small | large
    · refine .inr ⟨fun node member => ?_, prevp, fun left => ?_⟩
      · rw [List.nil_append, List.mem_singleton] at member
        rw [member]
        exact small
      · rw [chain, List.length_nil, Nat.add_zero]
    · refine .inl ⟨prevp, List.mem_cons_self, ?_, ?_⟩
      · rw [chain]
        exact large
      · exact fun left => mallocLoop_take (by rw [chain]; exact large)
  | cons node rest ih =>
    obtain ⟨link, chain⟩ := chain
    rcases Nat.lt_or_ge (heap.size node) nunits with small | large
    · have away : ¬node = heap.freep := fun same => apart (same ▸ List.mem_cons_self)
      have next : ∀ left, mallocLoop nunits (left + (node :: rest).length + 1) prevp
          (heap.ptr prevp) replies heap =
          mallocLoop nunits (left + rest.length + 1) node (heap.ptr node) replies heap := by
        intro left
        rw [link, List.length_cons, ← Nat.add_assoc left]
        exact mallocLoop_next small away
      simp only [next]
      rcases ih chain (fun member => apart (List.mem_cons_of_mem _ member)) with
        ⟨q, member, found⟩ | ⟨none, found⟩
      · exact .inl ⟨q, List.mem_cons_of_mem _ member, found⟩
      · refine .inr ⟨?_, found⟩
        intro other member
        rcases List.mem_cons.mp member with rfl | member
        · exact small
        · exact none other member
    · refine .inl ⟨prevp, List.mem_cons_self, ?_, ?_⟩
      · rw [link]
        exact large
      · exact fun left => mallocLoop_take (by rw [link]; exact large)

/-- The search of `malloc` in a free list. -/
theorem FreeList.scan
    (list : FreeList base heap blocks)
    (nunits : Nat)
    (replies : List (Option Nat)) :
    (∃ q ∈ (⟨base, 0⟩ :: blocks).map Block.addr, nunits ≤ heap.size (heap.ptr q) ∧ ∀ left,
      mallocLoop nunits (left + blocks.length + 1) heap.freep (heap.ptr heap.freep) replies heap =
        some ((carve nunits q (heap.ptr q) heap).1, replies,
          (carve nunits q (heap.ptr q) heap).2)) ∨
    (∀ block ∈ blocks, block.size < nunits) ∧ heap.size heap.freep < nunits ∧
      ∃ q, ∀ left, mallocLoop nunits (left + blocks.length + 1) heap.freep
        (heap.ptr heap.freep) replies heap = mallocLoop nunits (left + 1) q heap.freep replies heap := by
  obtain ⟨start, member, cursor⟩ := List.mem_map.mp list.cursor
  obtain ⟨pre, post, split⟩ := List.append_of_mem member
  have chain := list.ring
  rw [split, map_append_cons, ring_iff_chain, ← List.map_append, cursor] at chain
  have apart : heap.freep ∉ (post ++ pre).map Block.addr := by
    intro among
    obtain ⟨other, inside, equal⟩ := List.mem_map.mp among
    obtain ⟨early, late, _⟩ := list.around split
    have size := start.addr_le_stop
    rcases List.mem_append.mp inside with after | before
    · have less := late other after
      omega
    · have less := early other before
      have stop := other.addr_le_stop
      omega
  have count : ((post ++ pre).map Block.addr).length = blocks.length := by
    have total := congrArg List.length split
    simp only [List.length_cons, List.length_append, List.length_map] at total ⊢
    omega
  have nodes : ∀ block ∈ (⟨base, 0⟩ :: blocks : List Block),
      block.addr ∈ heap.freep :: (post ++ pre).map Block.addr := by
    intro block among
    rw [split] at among
    rw [← cursor, ← List.map_cons]
    refine List.mem_map_of_mem ?_
    simp only [List.mem_append, List.mem_cons] at among ⊢
    tauto
  have found := mallocLoop_scan nunits replies chain apart
  rw [count] at found
  rcases found with ⟨q, among, large, taken⟩ | ⟨none, moved⟩
  · refine .inl ⟨q, ?_, large, taken⟩
    rw [← cursor, ← List.map_cons, List.mem_map] at among
    obtain ⟨block, inside, rfl⟩ := among
    refine List.mem_map_of_mem ?_
    rw [split]
    simp only [List.mem_append, List.mem_cons] at inside ⊢
    tauto
  · refine .inr ⟨?_, none _ (List.mem_append_right _ (List.mem_singleton_self _)), moved⟩
    intro block among
    have inside := nodes block (List.mem_cons_of_mem _ among)
    rw [← list.sizes block (List.mem_cons_of_mem _ among)]
    refine none _ ?_
    rcases List.mem_cons.mp inside with equal | inside
    · rw [equal]
      exact List.mem_append_right _ (List.mem_singleton_self _)
    · exact List.mem_append_left _ inside

/-! ## The bound on the passes -/

/-- What a call returns does not depend on the bound. -/
theorem eq_of_returns {call : Nat → Option α}
    (mono : ∀ passes many {result}, call passes = some result → passes ≤ many →
      call many = some result)
    (returns : call passes = some result)
    (spec : ∀ more ≥ bound, call more = some other) :
    result = other := by
  have one := mono passes (max passes bound) returns (Nat.le_max_left _ _)
  have two := spec (max passes bound) (Nat.le_max_right _ _)
  exact Option.some.inj (one.symm.trans two)

theorem free_mono
    (returns : free passes ap heap = some heap')
    (more : passes ≤ many) :
    free many ap heap = some heap' := by
  unfold free at returns ⊢
  split at returns
  case h_1 => exact absurd returns (by simp)
  case h_2 p found =>
    rw [walk_mono found more]
    exact returns

theorem morecore_mono
    (returns : morecore passes nu brk heap = some result)
    (more : passes ≤ many) :
    morecore many nu brk heap = some result := by
  cases brk with
  | none => exact returns
  | some hp =>
    unfold morecore at returns ⊢
    dsimp only at returns ⊢
    split at returns
    case h_1 => exact absurd returns (by simp)
    case h_2 heap' frees =>
      rw [free_mono frees more]
      exact returns

/-- A search that ends does so with any larger bound. -/
theorem mallocLoop_mono
    (returns : mallocLoop nunits passes prevp p replies heap = some result)
    (more : passes ≤ many) :
    mallocLoop nunits many prevp p replies heap = some result := by
  induction passes generalizing many prevp p replies heap with
  | zero => exact absurd returns (by simp [mallocLoop])
  | succ passes ih =>
    obtain ⟨many, rfl⟩ : ∃ less, many = less + 1 := ⟨many - 1, by omega⟩
    have less : passes ≤ many := by omega
    unfold mallocLoop at returns ⊢
    split at returns
    case isTrue large =>
      rw [if_pos large]
      exact returns
    case isFalse small =>
      rw [if_neg small]
      split at returns
      case isFalse away =>
        rw [if_neg away]
        exact ih returns less
      case isTrue here =>
        rw [if_pos here]
        split at returns
        case h_1 => exact absurd returns (by simp)
        case h_2 reply replies =>
          split at returns
          case h_1 => exact absurd returns (by simp)
          case h_2 extends' =>
            rw [morecore_mono extends' less]
            exact returns
          case h_3 extends' =>
            rw [morecore_mono extends' less]
            exact ih returns less

/-! ## Taking units from a block -/

section Carve

variable {base : Nat} {heap : Heap} {live chunks blocks pre post : List Block} {q z : Block}

/-- A header with units that follows another one in the links does so in the
list. -/
theorem FreeList.exists_next
    (list : FreeList base heap blocks)
    (member : node ∈ (⟨base, 0⟩ :: blocks).map Block.addr)
    (large : 0 < heap.size (heap.ptr node)) :
    ∃ pre q z post, ⟨base, 0⟩ :: blocks = pre ++ q :: z :: post ∧ q.addr = node ∧
      heap.ptr node = z.addr := by
  obtain ⟨q, among, rfl⟩ := List.mem_map.mp member
  obtain ⟨pre, post, split⟩ := List.append_of_mem among
  have link := list.ptr_eq split
  cases post with
  | nil =>
    rw [List.nil_append, FreeList.headD_pre split] at link
    rw [link, list.sizes ⟨base, 0⟩ List.mem_cons_self] at large
    exact absurd large (Nat.lt_irrefl 0)
  | cons z post => exact ⟨pre, q, z, post, split, rfl, link⟩

/-- The blocks of the list after base, whatever follows q. -/
theorem exists_tail (split : (⟨base, 0⟩ :: blocks : List Block) = pre ++ q :: post) :
    ∃ early, ∀ rest, pre ++ q :: rest = ⟨base, 0⟩ :: (early ++ rest) := by
  cases pre with
  | nil =>
    obtain ⟨rfl, _⟩ := List.cons.inj split
    exact ⟨[], fun _ => rfl⟩
  | cons first pre =>
    obtain ⟨rfl, _⟩ := List.cons.inj split
    exact ⟨pre ++ [q], fun rest => by simp⟩

variable (sound : Sound base heap live chunks blocks)

include sound

/-- Taking a whole block. -/
theorem Sound.take (split : ⟨base, 0⟩ :: blocks = pre ++ q :: z :: post) :
    ∃ blocks', Sound base { heap.setPtr q.addr (heap.ptr z.addr) with freep := q.addr }
      (z :: live) chunks blocks' := by
  obtain ⟨early, whole⟩ := exists_tail split
  have same := (List.cons.inj (split.trans (whole (z :: post)))).2
  subst same
  have list := sound.list
  have kept : (early ++ post).Sublist (early ++ z :: post) :=
    (List.Sublist.refl _).append (List.sublist_cons_self _ _)
  have keptAll : (⟨base, 0⟩ :: (early ++ post) : List Block).Sublist
      (⟨base, 0⟩ :: (early ++ z :: post)) := kept.cons_cons _
  have member : z ∈ early ++ z :: post := List.mem_append_right _ List.mem_cons_self
  refine ⟨early ++ post, ⟨?_, ?_, ?_, ?_, ?_⟩, ?_, ?_, sound.once, sound.above⟩
  · have ring := list.ring
    rw [split, map_append_cons, ring_iff_chain] at ring
    rw [← whole post, map_append_cons, ring_iff_chain]
    refine Chain.remove ring ?_
    obtain ⟨before, after, _⟩ := list.around split
    rw [← List.map_append]
    intro among
    obtain ⟨other, inside, equal⟩ := List.mem_map.mp among
    have size := q.addr_le_stop
    rcases List.mem_append.mp inside with late | first
    · have less := after other (List.mem_cons_of_mem _ late)
      omega
    · have less := before other first
      have stop := other.addr_le_stop
      omega
  · intro block among
    exact list.sizes block (keptAll.subset among)
  · exact list.gaps.sublist keptAll
  · intro block among
    exact list.positive block (kept.subset among)
  · rw [← whole post, map_append_cons]
    exact List.mem_append_right _ List.mem_cons_self
  · intro block among
    rcases List.mem_cons.mp among with rfl | used
    · exact ⟨list.positive block member, list.sizes block (List.mem_cons_of_mem _ member)⟩
    · exact sound.headers block used
  · intro address
    have cover := sound.cover address
    simp only [covers_append, covers_cons] at cover ⊢
    omega

/-- Taking the end of a block. -/
theorem Sound.split
    (split : ⟨base, 0⟩ :: blocks = pre ++ q :: z :: post)
    (size : z.size = rest + units)
    (some : 0 < units)
    (left : 0 < rest) :
    ∃ blocks', Sound base
      { (heap.setSize z.addr rest).setSize (z.addr + headerSize * rest) units with
        freep := q.addr }
      (⟨z.addr + headerSize * rest, units⟩ :: live) chunks blocks' := by
  obtain ⟨early, whole⟩ := exists_tail split
  have same := (List.cons.inj (split.trans (whole (z :: post)))).2
  subst same
  have list := sound.list
  have member : z ∈ early ++ z :: post := List.mem_append_right _ List.mem_cons_self
  have first : pre ++ [q] = ⟨base, 0⟩ :: early := by
    rw [whole [], List.append_nil]
  have order := split.trans (List.append_cons pre q (z :: post))
  obtain ⟨before, after, across⟩ := list.around order
  have stop : z.stop = z.addr + headerSize * rest + headerSize * units := by
    rw [Block.stop, size, Nat.mul_add, Nat.add_assoc]
  have others : ∀ block ∈ (⟨base, 0⟩ :: early) ++ post, block ∈
        (⟨base, 0⟩ :: (early ++ z :: post) : List Block) ∧
      block.addr ≠ z.addr + headerSize * rest ∧ block.addr ≠ z.addr := by
    intro block among
    have low := block.addr_le_stop
    rw [← first] at among
    rw [order]
    unfold headerSize at *
    rcases List.mem_append.mp among with early | late
    · have less := before block early
      exact ⟨List.mem_append_left _ early, by omega, by omega⟩
    · have less := after block late
      exact ⟨List.mem_append_right _ (List.mem_cons_of_mem _ late), by omega, by omega⟩
  have inZ : z.Has (z.addr + headerSize * rest) := by
    unfold Block.Has headerSize at *
    omega
  refine ⟨early ++ ⟨z.addr, rest⟩ :: post, ⟨?_, ?_, ?_, ?_, ?_⟩, ?_, ?_, sound.once, sound.above⟩
  · have ring := list.ring
    rw [← List.cons_append, map_append_cons] at ring ⊢
    exact ring
  · intro block among
    show update (update heap.size z.addr rest) _ _ block.addr = _
    rw [← List.cons_append] at among
    rcases List.mem_append.mp among with among | among
    · obtain ⟨old, notEnd, notZ⟩ := others block (List.mem_append_left _ among)
      rw [update_of_ne notEnd, update_of_ne notZ, list.sizes block old]
    · rcases List.mem_cons.mp among with rfl | among
      · rw [update_of_ne (by unfold headerSize; dsimp only; omega), update_self]
      · obtain ⟨old, notEnd, notZ⟩ := others block (List.mem_append_right _ among)
        rw [update_of_ne notEnd, update_of_ne notZ, list.sizes block old]
  · have gaps := list.gaps
    rw [← List.cons_append, List.pairwise_append] at gaps ⊢
    obtain ⟨gapEarly, gapLate, _⟩ := gaps
    rw [first] at before across
    refine ⟨gapEarly, List.pairwise_cons.mpr ⟨?_, (List.pairwise_cons.mp gapLate).2⟩, ?_⟩
    · intro two late
      have less := after two late
      show z.addr + headerSize * rest < two.addr
      omega
    · intro one early two late
      rcases List.mem_cons.mp late with rfl | late
      · exact before one early
      · exact across one early two late
  · intro block among
    rcases List.mem_append.mp among with among | among
    · exact list.positive block (List.mem_append_left _ among)
    · rcases List.mem_cons.mp among with rfl | among
      · exact left
      · exact list.positive block (List.mem_append_right _ (List.mem_cons_of_mem _ among))
  · rw [← whole, map_append_cons]
    exact List.mem_append_right _ List.mem_cons_self
  · intro block among
    show _ ∧ update (update heap.size z.addr rest) _ _ block.addr = _
    rcases List.mem_cons.mp among with rfl | used
    · exact ⟨some, update_self _ _ _⟩
    · obtain ⟨positive, header⟩ := sound.headers block used
      have notEnd : block.addr ≠ z.addr + headerSize * rest := fun equal =>
        sound.apart member used _ ⟨inZ, equal ▸ Block.has_addr positive⟩
      have notZ := (sound.header_ne (List.mem_cons_of_mem _ member) used).symm
      rw [update_of_ne notEnd, update_of_ne notZ]
      exact ⟨positive, header⟩
  · intro address
    have cover := sound.cover address
    have parts := count_add z.addr rest units address
    rw [← size] at parts
    simp only [covers_append, covers_cons] at cover ⊢
    have same : (⟨z.addr, z.size⟩ : Block) = z := rfl
    rw [same] at parts
    omega

/-- `malloc` takes its units from the block after q. -/
theorem Sound.carve
    (member : node ∈ (⟨base, 0⟩ :: blocks).map Block.addr)
    (large : nunits ≤ heap.size (heap.ptr node))
    (some : 0 < nunits) :
    ∃ addr blocks', (carve nunits node (heap.ptr node) heap).1 = addr + headerSize ∧
      Sound base (carve nunits node (heap.ptr node) heap).2 (⟨addr, nunits⟩ :: live) chunks
        blocks' := by
  obtain ⟨pre, q, z, post, split, rfl, link⟩ :=
    sound.list.exists_next member (some.trans_le large)
  have among : z ∈ (⟨base, 0⟩ :: blocks : List Block) := by
    rw [split]
    exact List.mem_append_right _ (List.mem_cons_of_mem _ List.mem_cons_self)
  have size := sound.list.sizes z among
  rw [link, size] at large
  rw [link]
  unfold Umalloc.carve
  rw [size]
  split
  case isTrue exact_ =>
    obtain ⟨blocks', sound'⟩ := sound.take split
    refine ⟨z.addr, blocks', rfl, ?_⟩
    rw [← exact_]
    exact sound'
  case isFalse more =>
    have parts : z.size = (z.size - nunits) + nunits := by omega
    obtain ⟨blocks', sound'⟩ := sound.split split parts some (by omega)
    exact ⟨_, blocks', rfl, sound'⟩

end Carve

/-! ## `malloc` -/

/-- The memory obtained from `sbrk` after a call that left some of the replies. -/
def grown (nunits : Nat) (reply : Option Nat) (left : List (Option Nat)) (chunks : List Block) :
    List Block :=
  match left, reply with
  | [], some hp => ⟨hp, coreUnits nunits⟩ :: chunks
  | _, _ => chunks

/-- What `malloc` does to a sound heap: it returns null after a failed `sbrk`, or
a new live block. -/
theorem Sound.mallocLoop_spec
    (sound : Sound base heap live chunks blocks)
    (fresh : Fresh base chunks reply)
    (some : 0 < nunits) :
    ∃ passes result left heap' blocks', (∀ more ≥ passes,
        mallocLoop nunits more heap.freep (heap.ptr heap.freep) [reply] heap =
          Option.some (result, left, heap')) ∧
      (result = 0 ∧ reply = none ∧ left = [] ∧ Sound base heap' live chunks blocks' ∨
        ∃ addr, result = addr + headerSize ∧
          Sound base heap' (⟨addr, nunits⟩ :: live) (grown nunits reply left chunks) blocks') := by
  rcases sound.list.scan nunits [reply] with ⟨node, member, large, taken⟩ | ⟨_, small, node, moved⟩
  · obtain ⟨addr, blocks', result, sound'⟩ := sound.carve member large some
    refine ⟨blocks.length + 1, _, [reply], _, blocks', fun more enough => ?_, .inr ⟨addr, result, sound'⟩⟩
    obtain ⟨left, rfl⟩ : ∃ left, more = left + blocks.length + 1 :=
      ⟨more - (blocks.length + 1), by omega⟩
    exact taken left
  cases reply with
  | none =>
    refine ⟨blocks.length + 1, 0, [], heap, blocks, fun more enough => ?_,
      .inl ⟨rfl, rfl, rfl, sound⟩⟩
    obtain ⟨left, rfl⟩ : ∃ left, more = left + blocks.length + 1 :=
      ⟨more - (blocks.length + 1), by omega⟩
    rw [moved left]
    exact mallocLoop_fail small
  | some hp =>
    obtain ⟨heap', blocks', extends', sound', short, block, among, enough⟩ :=
      sound.extend fresh nunits
    -- the new memory is large enough, so the second search finds a block
    rcases sound'.list.scan nunits [] with ⟨node', member, large, taken⟩ | ⟨none, _⟩
    · obtain ⟨addr, blocks'', result, sound''⟩ := sound'.carve member large some
      refine ⟨2 * blocks.length + 5, _, [], _, blocks'', fun more many => ?_,
        .inr ⟨addr, result, sound''⟩⟩
      obtain ⟨left, rfl⟩ : ∃ left, more = left + blocks.length + 1 :=
        ⟨more - (blocks.length + 1), by omega⟩
      rw [moved left, mallocLoop_more small (extends' left (by omega))]
      obtain ⟨rest, rfl⟩ : ∃ rest, left = rest + blocks'.length + 1 :=
        ⟨left - (blocks'.length + 1), by omega⟩
      exact taken rest
    · exact absurd enough (Nat.not_le.mpr (none block among))

/-! ## Runs -/

/-- The rounded size of a request stays below 2^31. -/
def Small (nbytes : UInt32) : Prop :=
  headerSize * ((nbytes.toNat + headerSize - 1) / headerSize + 1) < 2 ^ 31

theorem unitsFor_eq (small : Small nbytes) :
    unitsFor nbytes = (nbytes.toNat + headerSize - 1) / headerSize + 1 := by
  unfold Small headerSize at small
  unfold unitsFor headerSize
  have sum : (nbytes + 8 - 1).toNat = nbytes.toNat + 7 := by
    rw [UInt32.toNat_sub, UInt32.toNat_add]
    simp only [UInt32.reduceToNat]
    omega
  rw [UInt32.toNat_add, UInt32.toNat_div, sum]
  simp only [UInt32.reduceToNat]
  omega

theorem unitsFor_pos (small : Small nbytes) :
    0 < unitsFor nbytes := by
  rw [unitsFor_eq small]
  exact Nat.succ_pos _

/-- A block of the units of a request holds its bytes after the header. -/
theorem le_unitsFor (small : Small nbytes) :
    nbytes.toNat ≤ headerSize * (unitsFor nbytes - 1) := by
  rw [unitsFor_eq small]
  unfold headerSize
  omega

/-- The live blocks after `malloc` has returned. -/
def allocated (result nunits : Nat) (live : List Block) : List Block :=
  if result = 0 then live else ⟨result - headerSize, nunits⟩ :: live

/-- The program may write to a header's place: inside a live block, after its
header, or outside of the heap. -/
def Writable (base : Nat) (live chunks : List Block) (address : Nat) : Prop :=
  (∃ block ∈ live, block.addr < address ∧ address < block.stop) ∨
    (address ≠ base ∧ ∀ chunk ∈ chunks, ¬chunk.Has address)

/-- The states that calls of `malloc` and `free` lead to, with the live blocks and
the memory from `sbrk`. -/
inductive Reaches (base : Nat) : Heap → List Block → List Block → Prop
  | start (unset : heap.freep = 0) : Reaches base heap [] []
  | malloc
      (run : Reaches base heap live chunks)
      (small : Small nbytes)
      (fresh : Fresh base chunks reply)
      (returns : malloc base passes nbytes [reply] heap = some (result, left, heap')) :
      Reaches base heap' (allocated result (unitsFor nbytes) live)
        (grown (unitsFor nbytes) reply left chunks)
  | free
      (run : Reaches base heap (before ++ b :: after) chunks)
      (returns : free passes (b.addr + headerSize) heap = some heap') :
      Reaches base heap' (before ++ after) chunks
  | write
      (run : Reaches base heap live chunks)
      (cursor : heap'.freep = heap.freep)
      (kept : ∀ address, ¬Writable base live chunks address →
        heap'.ptr address = heap.ptr address ∧ heap'.size address = heap.size address) :
      Reaches base heap' live chunks

section Runs

variable {base : Nat} {heap heap' : Heap} {live chunks blocks : List Block}

theorem Sound.pairwise (sound : Sound base heap live chunks blocks) :
    (blocks ++ live).Pairwise Apart := by
  refine pairwise_apart (fun address => ?_)
  rw [covers_append, sound.cover]
  exact sound.once address

/-- Writes of the program do not reach the headers. -/
theorem Sound.write
    (sound : Sound base heap live chunks blocks)
    (cursor : heap'.freep = heap.freep)
    (kept : ∀ address, ¬Writable base live chunks address →
      heap'.ptr address = heap.ptr address ∧ heap'.size address = heap.size address) :
    Sound base heap' live chunks blocks := by
  have covered : ∀ block ∈ blocks ++ live, ¬Writable base live chunks block.addr := by
    intro block member
    have inside := Block.has_addr (sound.positive member)
    rintro (⟨other, used, low, high⟩ | ⟨_, outside⟩)
    · have inOther : other.Has block.addr := ⟨low.le, high⟩
      rcases List.mem_append.mp member with free | among
      · exact sound.apart free used block.addr ⟨inside, inOther⟩
      obtain ⟨before, after, rfl⟩ := List.append_of_mem used
      have cover := sound.cover block.addr
      have once := sound.once block.addr
      have rest : block ∈ before ++ after := by
        rcases List.mem_append.mp among with early | late
        · exact List.mem_append_left _ early
        · rcases List.mem_cons.mp late with rfl | late
          · exact absurd low (lt_irrefl _)
          · exact List.mem_append_right _ late
      have again := covers_pos rest inside
      rw [covers_append] at again
      rw [covers_append, covers_cons, Block.count_eq_one inOther] at cover
      omega
    · obtain ⟨chunk, among, has⟩ := sound.chunk member inside
      exact outside chunk among has
  have notBase : ¬Writable base live chunks base := by
    rintro (⟨other, used, low, _⟩ | ⟨notSelf, _⟩)
    · exact absurd (sound.base_lt (List.mem_append_right _ used)) (by omega)
    · exact notSelf rfl
  have nodes : ∀ block ∈ (⟨base, 0⟩ :: blocks : List Block),
      ¬Writable base live chunks block.addr := by
    intro block member
    rcases List.mem_cons.mp member with rfl | free
    · exact notBase
    · exact covered block (List.mem_append_left _ free)
  have list := sound.list
  refine ⟨⟨?_, ?_, list.gaps, list.positive, ?_⟩, ?_, sound.cover, sound.once, sound.above⟩
  · refine Chain.congr list.ring (fun node member => ?_)
    rw [← List.map_cons] at member
    obtain ⟨block, among, rfl⟩ := List.mem_map.mp member
    exact (kept _ (nodes block among)).1
  · intro block member
    rw [(kept _ (nodes block member)).2, list.sizes block member]
  · rw [cursor]
    exact list.cursor
  · intro block used
    rw [(kept _ (covered block (List.mem_append_right _ used))).2]
    exact sound.headers block used

/-- Before the first call, or in a sound heap. -/
def Settled (base : Nat) (heap : Heap) (live chunks : List Block) : Prop :=
  heap.freep = 0 ∧ live = [] ∧ chunks = [] ∨ ∃ blocks, Sound base heap live chunks blocks

/-- `malloc` starts its search in a sound heap. -/
theorem Settled.init
    (settled : Settled base heap live chunks)
    (nonnull : 0 < base) :
    ∃ blocks, Sound base (heap.init base) live chunks blocks := by
  rcases settled with ⟨unset, rfl, rfl⟩ | ⟨blocks, sound⟩
  · unfold Heap.init
    rw [if_pos unset]
    refine ⟨[], ⟨?_, ?_, List.pairwise_singleton _ _, ?_, List.mem_singleton_self _⟩, ?_, ?_, ?_, ?_⟩
    · exact update_self _ _ _
    · intro block member
      rw [List.mem_singleton.mp member]
      exact update_self _ _ _
    · simp
    · simp
    · simp
    · simp
    · simp
  · have used : heap.freep ≠ 0 := by
      obtain ⟨block, member, equal⟩ := List.mem_map.mp sound.list.cursor
      rw [← equal]
      rcases List.mem_cons.mp member with rfl | free
      · exact nonnull.ne'
      · exact (nonnull.trans (sound.base_lt (List.mem_append_left _ free))).ne'
    unfold Heap.init
    rw [if_neg used]
    exact ⟨blocks, sound⟩

/-- What `malloc` does in a settled heap. -/
theorem Settled.malloc
    (settled : Settled base heap live chunks)
    (nonnull : 0 < base)
    (small : Small nbytes)
    (fresh : Fresh base chunks reply) :
    ∃ passes result left heap' blocks', (∀ more ≥ passes,
        malloc base more nbytes [reply] heap = some (result, left, heap')) ∧
      (result = 0 → reply = none ∧ left = []) ∧ (result ≠ 0 → headerSize ≤ result) ∧
      Sound base heap' (allocated result (unitsFor nbytes) live)
        (grown (unitsFor nbytes) reply left chunks) blocks' := by
  obtain ⟨blocks, sound⟩ := settled.init nonnull
  obtain ⟨passes, result, left, heap', blocks', returns, outcome⟩ :=
    sound.mallocLoop_spec fresh (unitsFor_pos small)
  refine ⟨passes, result, left, heap', blocks', returns, ?_⟩
  rcases outcome with ⟨rfl, rfl, rfl, sound'⟩ | ⟨addr, rfl, sound'⟩
  · exact ⟨fun _ => ⟨rfl, rfl⟩, fun nonzero => absurd rfl nonzero, sound'⟩
  · have nonzero : ¬addr + headerSize = 0 := Nat.succ_ne_zero _
    refine ⟨fun zero => absurd zero nonzero, fun _ => Nat.le_add_left _ _, ?_⟩
    rw [allocated, if_neg nonzero, Nat.add_sub_cancel]
    exact sound'

theorem Reaches.settled
    (run : Reaches base heap live chunks)
    (nonnull : 0 < base) :
    Settled base heap live chunks := by
  induction run with
  | start unset => exact .inl ⟨unset, rfl, rfl⟩
  | malloc run small fresh returns ih =>
    obtain ⟨passes, result, left, heap', blocks', spec, _, _, sound⟩ :=
      ih.malloc nonnull small fresh
    obtain ⟨rfl, rest⟩ := Prod.mk.inj (eq_of_returns (fun _ _ => mallocLoop_mono) returns spec)
    obtain ⟨rfl, rfl⟩ := Prod.mk.inj rest
    exact .inr ⟨blocks', sound⟩
  | free run returns ih =>
    rcases ih with ⟨_, none, _⟩ | ⟨blocks, sound⟩
    · exact absurd none (by simp)
    · obtain ⟨heap', blocks', spec, sound', _⟩ := sound.release
      obtain rfl := eq_of_returns (fun _ _ => free_mono) returns spec
      exact .inr ⟨blocks', sound'⟩
  | write run cursor kept ih =>
    rcases ih with ⟨unset, none⟩ | ⟨blocks, sound⟩
    · exact .inl ⟨cursor.trans unset, none⟩
    · exact .inr ⟨blocks, sound.write cursor kept⟩

end Runs

/-- In every run of calls of `malloc` and `free`, with writes of the program in
between: before the first call there is no free list, and after it the links lead
around base and blocks in the order of their addresses, no two of which touch;
free and live blocks are pairwise apart and make up the memory from `sbrk`.
`malloc` returns, null only after a failed `sbrk`, and otherwise a block with room
for the request that is apart from the live ones; `free` of a live block returns. -/
theorem malloc_free_sound
    (nonnull : 0 < base)
    (run : Reaches base heap live chunks) :
    (heap.freep = 0 ∧ live = [] ∧ chunks = [] ∨
      ∃ blocks, FreeList base heap blocks ∧ (blocks ++ live).Pairwise Apart ∧
        ∀ address, (∃ block ∈ blocks ++ live, block.Has address) ↔
          ∃ chunk ∈ chunks, chunk.Has address) ∧
    (∀ nbytes reply, Small nbytes → Fresh base chunks reply →
      ∃ passes result left heap', (∀ more ≥ passes,
          malloc base more nbytes [reply] heap = some (result, left, heap')) ∧
        (result = 0 → reply = none ∧ left = []) ∧ (result ≠ 0 → headerSize ≤ result ∧
          nbytes.toNat ≤ headerSize * (unitsFor nbytes - 1) ∧
          heap'.size (result - headerSize) = unitsFor nbytes ∧
          ∀ block ∈ live, Apart ⟨result - headerSize, unitsFor nbytes⟩ block)) ∧
    ∀ block ∈ live, ∃ passes heap', ∀ more ≥ passes,
      free more (block.addr + headerSize) heap = some heap' := by
  have settled := run.settled nonnull
  refine ⟨?_, ?_, ?_⟩
  · rcases settled with unset | ⟨blocks, sound⟩
    · exact .inl unset
    · refine .inr ⟨blocks, sound.list, sound.pairwise, fun address => ⟨?_, ?_⟩⟩
      · rintro ⟨block, member, inside⟩
        exact sound.chunk member inside
      · rintro ⟨chunk, member, inside⟩
        refine exists_of_covers_pos ?_
        rw [covers_append, sound.cover]
        exact covers_pos member inside
  · intro nbytes reply small fresh
    obtain ⟨passes, result, left, heap', blocks', returns, null, low, sound⟩ :=
      settled.malloc nonnull small fresh
    refine ⟨passes, result, left, heap', returns, null, fun nonzero => ?_⟩
    rw [allocated, if_neg nonzero] at sound
    have apart := (List.pairwise_append.mp sound.pairwise).2.1
    exact ⟨low nonzero, le_unitsFor small, (sound.headers _ List.mem_cons_self).2,
      (List.pairwise_cons.mp apart).1⟩
  · intro block used
    rcases settled with ⟨_, rfl, _⟩ | ⟨blocks, sound⟩
    · exact absurd used List.not_mem_nil
    · obtain ⟨before, after, rfl⟩ := List.append_of_mem used
      obtain ⟨heap', _, returns, _⟩ := sound.release
      exact ⟨blocks.length + 2, heap', fun more enough => returns more enough⟩

/-- The first request of 100 bytes takes the end of the memory from `sbrk`, and
that block can be freed. -/
theorem malloc_free_sound_first :
    ∃ heap, Reaches 8 heap [⟨32720, 14⟩] [⟨64, 4096⟩] ∧
      ∀ block ∈ [(⟨32720, 14⟩ : Block)], ∃ passes heap', ∀ more ≥ passes,
        free more (block.addr + headerSize) heap = some heap' := by
  have first : Reaches 8 ⟨fun _ => 0, fun _ => 0, 0⟩ [] [] := .start rfl
  have small : Small 100 := by
    unfold Small
    decide
  have fresh : Fresh 8 [] (some 64) := by
    rintro hp equal
    obtain rfl := Option.some.inj equal
    exact ⟨by decide, by simp⟩
  have run := first.malloc small fresh (rfl : malloc 8 9 100 [some 64] _ = _)
  exact ⟨_, run, (malloc_free_sound (by decide) run).2.2⟩

end Umalloc
end Xv6
