import Xv6.Foundation.Linked

/-!
# The user-level allocator

`free`, `morecore` and `malloc` of umalloc.c over the headers in memory.  An
address is a natural number, and a header lies at the address of its block; the
memory that `sbrk` hands out lies in the address space, so neither addresses nor
sizes wrap.  The loops carry a bound on their passes.
-/

namespace Xv6
namespace Umalloc

/-- Bytes of a header, the unit of all sizes. -/
abbrev headerSize : Nat := 8

/-- The headers in memory, and the variable freep. -/
structure Heap where
  ptr : Nat → Nat
  size : Nat → Nat
  /-- Where the next search starts; zero before the first one. -/
  freep : Nat

/-- Assign to s.ptr of a header. -/
def Heap.setPtr (heap : Heap) (header target : Nat) : Heap :=
  { heap with ptr := Function.update heap.ptr header target }

/-- Assign to s.size of a header. -/
def Heap.setSize (heap : Heap) (header units : Nat) : Heap :=
  { heap with size := Function.update heap.size header units }

/-! ## `free` -/

/-- The test that ends the loop of `free`: the block belongs between p and its
successor, or the list wraps around at p. -/
def belongs (heap : Heap) (bp p : Nat) : Bool :=
  (decide (bp > p) && decide (bp < heap.ptr p)) ||
    (decide (p ≥ heap.ptr p) && (decide (bp > p) || decide (bp < heap.ptr p)))

/-- Join a block to the one after p, or link it to that one. -/
def joinUpper (bp p : Nat) (heap : Heap) : Heap :=
  if bp + headerSize * heap.size bp = heap.ptr p then
    (heap.setSize bp (heap.size bp + heap.size (heap.ptr p))).setPtr bp (heap.ptr (heap.ptr p))
  else
    heap.setPtr bp (heap.ptr p)

/-- Join a block to p, or link p to it. -/
def joinLower (bp p : Nat) (heap : Heap) : Heap :=
  if p + headerSize * heap.size p = bp then
    (heap.setSize p (heap.size p + heap.size bp)).setPtr p (heap.ptr bp)
  else
    heap.setPtr p bp

/-- `free`. -/
def free (passes : Nat) (ap : Nat) (heap : Heap) : Option Heap :=
  match Linked.walk heap.ptr (belongs heap (ap - headerSize)) passes heap.freep with
  | none => none
  | some p =>
    some { joinLower (ap - headerSize) p (joinUpper (ap - headerSize) p heap) with freep := p }

/-! ## `malloc` -/

/-- The units that `morecore` asks for. -/
def coreUnits (nu : Nat) : Nat :=
  if nu < 4096 then 4096 else nu

/-- `morecore`, by what `sbrk` returns: null, or the value of freep. -/
def morecore (passes : Nat) (nu : Nat) (brk : Option Nat) (heap : Heap) :
    Option (Option Nat × Heap) :=
  match brk with
  | none => some (none, heap)
  | some hp =>
    match free passes (hp + headerSize) (heap.setSize hp (coreUnits nu)) with
    | none => none
    | some heap => some (some heap.freep, heap)

/-- The units of a request. -/
def unitsFor (nbytes : UInt32) : Nat :=
  ((nbytes + 8 - 1) / 8 + 1).toNat

/-- Take the units from a block that is large enough: the whole block, or its
end. -/
def carve (nunits prevp p : Nat) (heap : Heap) : Nat × Heap :=
  if heap.size p = nunits then
    (p + headerSize, { heap.setPtr prevp (heap.ptr p) with freep := prevp })
  else
    let rest := heap.size p - nunits
    let q := p + headerSize * rest
    (q + headerSize, { (heap.setSize p rest).setSize q nunits with freep := prevp })

/-- The loop of `malloc`; each call of `sbrk` consumes one of the replies. -/
def mallocLoop (nunits : Nat) :
    Nat → Nat → Nat → List (Option Nat) → Heap → Option (Nat × List (Option Nat) × Heap)
  | 0, _, _, _, _ => none
  | passes + 1, prevp, p, replies, heap =>
    if heap.size p ≥ nunits then
      some ((carve nunits prevp p heap).1, replies, (carve nunits prevp p heap).2)
    else if p = heap.freep then
      match replies with
      | [] => none
      | reply :: replies =>
        match morecore passes nunits reply heap with
        | none => none
        | some (none, heap) => some (0, replies, heap)
        | some (some p, heap) => mallocLoop nunits passes p (heap.ptr p) replies heap
    else
      mallocLoop nunits passes p (heap.ptr p) replies heap

/-- Before the first search the list is made of base alone. -/
def Heap.init (base : Nat) (heap : Heap) : Heap :=
  if heap.freep = 0 then
    { (heap.setPtr base base).setSize base 0 with freep := base }
  else
    heap

/-- `malloc`: null is zero. -/
def malloc (base : Nat) (passes : Nat) (nbytes : UInt32) (replies : List (Option Nat))
    (heap : Heap) : Option (Nat × List (Option Nat) × Heap) :=
  mallocLoop (unitsFor nbytes) passes (heap.init base).freep
    ((heap.init base).ptr (heap.init base).freep) replies (heap.init base)

end Umalloc
end Xv6
