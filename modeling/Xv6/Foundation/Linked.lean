import Mathlib.Data.List.Basic

/-!
# Rings of links

A chain follows links through some nodes to another one; a ring is a chain back
to its first node.  A ring can be entered at any node, and a node is linked in
and out by changing the links of its neighbour.
-/

namespace Linked

variable {α : Type} {next : α → α}

/-- The links lead from a node through a list of nodes to another node. -/
def Chain (next : α → α) : α → List α → α → Prop
  | first, [], last => next first = last
  | first, node :: rest, last => next first = node ∧ Chain next node rest last

theorem chain_append :
    Chain next first (before ++ middle :: after) last ↔
      Chain next first before middle ∧ Chain next middle after last := by
  induction before generalizing first with
  | nil => rfl
  | cons node before ih =>
    rw [List.cons_append, Chain, Chain, ih, and_assoc]

variable {first last : α} {nodes : List α} {target : α} {stop : α → Bool}

/-- The first link of a chain. -/
theorem Chain.next_eq (chain : Chain next first nodes last) :
    next first = nodes.headD last := by
  cases nodes with
  | nil => exact chain
  | cons node rest => exact chain.1

/-- Links of other nodes do not matter to a chain. -/
theorem Chain.congr
    (chain : Chain next first nodes last)
    (same : ∀ node ∈ first :: nodes, other node = next node) :
    Chain other first nodes last := by
  induction nodes generalizing first with
  | nil =>
    rw [Chain, same first List.mem_cons_self]
    exact chain
  | cons node rest ih =>
    refine ⟨(same first List.mem_cons_self).trans chain.1, ih chain.2 ?_⟩
    intro other member
    exact same other (List.mem_cons_of_mem _ member)

theorem Chain.update [DecidableEq α] {first last changed target : α}
    (chain : Chain next first nodes last)
    (apart : changed ∉ first :: nodes) :
    Chain (Function.update next changed target) first nodes last := by
  refine chain.congr (fun node member => Function.update_of_ne ?_ _ _)
  rintro rfl
  exact apart member

/-- The rest of a chain, from the node after the first one. -/
theorem Chain.tail_congr
    (chain : Chain next first nodes last)
    (link : other target = next first)
    (same : ∀ node ∈ nodes, other node = next node) :
    Chain other target nodes last := by
  cases nodes with
  | nil => exact link.trans chain
  | cons node rest =>
    exact ⟨link.trans chain.1, chain.2.congr same⟩

/-! ## Rings -/

/-- The links lead around the nodes of a list. -/
def Ring (next : α → α) : List α → Prop
  | [] => False
  | first :: rest => Chain next first rest first

/-- A ring entered at any of its nodes. -/
theorem ring_iff_chain :
    Ring next (before ++ node :: after) ↔ Chain next node (after ++ before) node := by
  cases before with
  | nil => rw [List.append_nil]; rfl
  | cons first before =>
    rw [List.cons_append, Ring, chain_append, chain_append, and_comm]

variable [DecidableEq α]

/-- Link a new node in after the first one. -/
theorem Chain.insert
    (chain : Chain next first nodes first)
    (apart : first ∉ nodes)
    (fresh : new ∉ first :: nodes) :
    Chain (Function.update (Function.update next new (next first)) first new) first
      (new :: nodes) first := by
  refine ⟨Function.update_self _ _ _, ?_⟩
  obtain ⟨notFirst, notNodes⟩ := not_or.mp (mt List.mem_cons.mpr fresh)
  refine chain.tail_congr ?_ ?_
  · rw [Function.update_of_ne notFirst, Function.update_self]
  · intro node member
    rw [Function.update_of_ne (ne_of_mem_of_not_mem member apart),
      Function.update_of_ne (ne_of_mem_of_not_mem member notNodes)]

/-- Link the node after the first one out. -/
theorem Chain.remove
    (chain : Chain next first (gone :: nodes) first)
    (apart : first ∉ nodes) :
    Chain (Function.update next first (next gone)) first nodes first := by
  refine chain.2.tail_congr (Function.update_self _ _ _) ?_
  intro node member
  exact Function.update_of_ne (ne_of_mem_of_not_mem member apart) _ _

/-- Link a new node in, in the place of the node after the first one. -/
theorem Chain.replace
    (chain : Chain next first (gone :: nodes) first)
    (apart : first ∉ nodes)
    (fresh : new ∉ first :: nodes) :
    Chain (Function.update (Function.update next new (next gone)) first new) first
      (new :: nodes) first := by
  refine ⟨Function.update_self _ _ _, ?_⟩
  obtain ⟨notFirst, notNodes⟩ := not_or.mp (mt List.mem_cons.mpr fresh)
  refine chain.2.tail_congr ?_ ?_
  · rw [Function.update_of_ne notFirst, Function.update_self]
  · intro node member
    rw [Function.update_of_ne (ne_of_mem_of_not_mem member apart),
      Function.update_of_ne (ne_of_mem_of_not_mem member notNodes)]

omit [DecidableEq α]

/-! ## Walks -/

/-- Follow the links until a node that stops, at most a number of links. -/
def walk (next : α → α) (stop : α → Bool) : Nat → α → Option α
  | 0, _ => none
  | links + 1, node => if stop node then some node else walk next stop links (next node)

/-- A walk that ends does so with any larger number of links. -/
theorem walk_mono
    (found : walk next stop links node = some target)
    (more : links ≤ links') :
    walk next stop links' node = some target := by
  induction links generalizing node links' with
  | zero => exact absurd found (by simp [walk])
  | succ links ih =>
    obtain ⟨links', rfl⟩ : ∃ less, links' = less + 1 := ⟨links' - 1, by omega⟩
    rw [walk] at found ⊢
    split at found
    case isTrue here => rw [if_pos here, found]
    case isFalse away => rw [if_neg away, ih found (by omega)]

/-- A walk along a chain ends at the first node that stops. -/
theorem Chain.walk_eq
    (chain : Chain next first nodes last)
    (goes : ∀ node ∈ first :: nodes, stop node = false)
    (stops : stop last = true)
    (enough : nodes.length + 1 < links) :
    walk next stop links first = some last := by
  induction nodes generalizing first links with
  | nil =>
    obtain ⟨links, rfl⟩ : ∃ less, links = less + 2 :=
      ⟨links - 2, by rw [List.length_nil] at enough; omega⟩
    rw [Chain] at chain
    rw [walk, if_neg (by simp [goes first List.mem_cons_self]), chain, walk, if_pos stops]
  | cons node rest ih =>
    obtain ⟨links, rfl⟩ : ∃ less, links = less + 1 := ⟨links - 1, by omega⟩
    rw [walk, if_neg (by simp [goes first List.mem_cons_self]), chain.1]
    refine ih chain.2 (fun other member => goes other (List.mem_cons_of_mem _ member)) ?_
    rw [List.length_cons] at enough
    omega

/-- A walk around a ring ends at the only node that stops, from wherever it
starts. -/
theorem Ring.walk_eq
    (ring : Ring next (before ++ target :: after))
    (goes : ∀ node ∈ before ++ after, stop node = false)
    (stops : stop target = true)
    (member : start ∈ before ++ target :: after)
    (enough : (before ++ target :: after).length < links) :
    walk next stop links start = some target := by
  have count : (before ++ target :: after).length = before.length + after.length + 1 := by
    simp
    omega
  rw [count] at enough
  rcases List.mem_append.mp member with early | late
  · obtain ⟨left, right, rfl⟩ := List.append_of_mem early
    rw [List.append_assoc, List.cons_append, ring_iff_chain, List.append_assoc,
      List.cons_append, chain_append] at ring
    refine ring.1.walk_eq ?_ stops ?_
    · intro node among
      exact goes node (List.mem_append_left _ (List.mem_append_right _ among))
    · rw [List.length_append, List.length_cons] at enough
      omega
  rcases List.mem_cons.mp late with rfl | late
  · obtain ⟨links, rfl⟩ : ∃ less, links = less + 1 := ⟨links - 1, by omega⟩
    rw [walk, if_pos stops]
  obtain ⟨left, right, rfl⟩ := List.append_of_mem late
  have turned : before ++ target :: (left ++ start :: right) =
      (before ++ target :: left) ++ start :: right := by simp
  rw [turned, ring_iff_chain, ← List.append_assoc, chain_append] at ring
  refine ring.1.walk_eq ?_ stops ?_
  · intro node among
    refine goes node ?_
    simp only [List.mem_cons, List.mem_append] at among ⊢
    rcases among with rfl | among | among
    · exact .inr (.inr (.inl rfl))
    · exact .inr (.inr (.inr among))
    · exact .inl among
  · rw [List.length_append, List.length_cons] at enough
    rw [List.length_append]
    omega

end Linked
