import Mathlib.Data.List.Basic
import Xv6.Foundation.Monitor

/-!
# Pipes

The functions of pipe.c as critical sections of `p->lock`: each runs from an
acquire, or from a return of sleep, to the next release or sleep.  A section
also says which bytes it moved, so that a run has a history to compare the
buffer with: a pipe is a first-in first-out byte stream.
-/

namespace Xv6

open Monitor

/-- The bytes of a pipe's buffer. -/
abbrev PIPESIZE : Nat := 512

/-- struct pipe, without its lock. -/
structure Pipe where
  data : Fin PIPESIZE → UInt8
  nread : UInt32
  /-- The number of bytes written, modulo 2 ^ 32. -/
  nwrite : UInt32
  readopen : Bool
  writeopen : Bool

namespace Pipe

/-- The position of a counter in the buffer. -/
def slot (counter : UInt32) : Fin PIPESIZE :=
  ⟨counter.toNat % PIPESIZE, Nat.mod_lt _ (by decide)⟩

/-- The test of pipewrite's inner loop. -/
def full (p : Pipe) : Bool := p.nwrite == p.nread + 512

/-- The test of piperead's loops. -/
def empty (p : Pipe) : Bool := p.nread == p.nwrite

/-- The bytes between the two counters, oldest first. -/
def buffered (p : Pipe) : List UInt8 :=
  (List.range (p.nwrite - p.nread).toNat).map fun offset =>
    p.data (slot (p.nread + UInt32.ofNat offset))

/-- p->data[p->nwrite++ % PIPESIZE] = byte. -/
def put (p : Pipe) (byte : UInt8) : Pipe :=
  { p with
    data := Function.update p.data (slot p.nwrite) byte
    nwrite := p.nwrite + 1 }

/-- The byte at p->data[p->nread % PIPESIZE]. -/
def front (p : Pipe) : UInt8 := p.data (slot p.nread)

/-- p->nread++. -/
def advance (p : Pipe) : Pipe := { p with nread := p.nread + 1 }

/-- The page has not been freed: pipeclose frees it when both ends are
closed. -/
def live (p : Pipe) : Bool := p.readopen || p.writeopen

/-- What pipealloc makes of a page with some content. -/
def pipealloc (data : Fin PIPESIZE → UInt8) : Pipe :=
  { data, nread := 0, nwrite := 0, readopen := true, writeopen := true }

/-- The two channels of a pipe. -/
inductive Chan where
  | nread
  | nwrite
  deriving DecidableEq

/-- A call on a pipe, with what is left of it. -/
inductive Call where
  /-- pipewrite: its argument n and the bytes still to be stored. -/
  | write (n : Int) (left : List UInt8)
  | read (n : Int)
  | close (writable : Bool)
  deriving DecidableEq

/-- What a call returns: its value, and the bytes it has put at addr. -/
structure Result where
  value : Int
  bytes : List UInt8
  deriving DecidableEq

/-- What a critical section does to the pipe, and the bytes it moves. -/
structure Section where
  pipe : Pipe
  stored : List UInt8
  wakes : List Chan
  exit : Exit Chan Call Result

/-- The bytes a section delivers to its caller. -/
def Section.delivered (critical : Section) : List UInt8 :=
  match critical.exit with
  | .leave result => result.bytes
  | .sleep _ _ => []

/-- The stores of pipewrite until the request is done or the pipe is full:
the bytes stored, and those left. -/
def fill : List UInt8 → Pipe → Pipe × List UInt8 × List UInt8
  | [], p => (p, [], [])
  | byte :: rest, p =>
    if p.full then (p, [], byte :: rest)
    else
      match fill rest (p.put byte) with
      | (final, stored, left) => (final, byte :: stored, left)

/-- A section of pipewrite. -/
def pipewrite (n : Int) (request : List UInt8) (killed : Bool) (p : Pipe) :
    Section :=
  match fill request p with
  | (final, stored, []) =>
    { pipe := final, stored, wakes := [.nread], exit := .leave ⟨n, []⟩ }
  | (final, stored, left) =>
    if !final.readopen || killed then
      { pipe := final, stored, wakes := [], exit := .leave ⟨-1, []⟩ }
    else
      { pipe := final, stored, wakes := [.nread], exit := .sleep .nwrite (.write n left) }

/-- The copies of piperead: at most a count of bytes, while there are any. -/
def drain : Nat → Pipe → Pipe × List UInt8
  | 0, p => (p, [])
  | count + 1, p =>
    if p.empty then (p, [])
    else
      match drain count p.advance with
      | (final, bytes) => (final, p.front :: bytes)

/-- A section of piperead. -/
def piperead (n : Int) (killed : Bool) (p : Pipe) : Section :=
  if p.empty && p.writeopen then
    if killed then
      { pipe := p, stored := [], wakes := [], exit := .leave ⟨-1, []⟩ }
    else
      { pipe := p, stored := [], wakes := [], exit := .sleep .nread (.read n) }
  else
    match drain n.toNat p with
    | (final, bytes) =>
      { pipe := final, stored := [], wakes := [.nwrite], exit := .leave ⟨bytes.length, bytes⟩ }

/-- The section of pipeclose. -/
def pipeclose (writable : Bool) (p : Pipe) : Section :=
  if writable then
    { pipe := { p with writeopen := false }, stored := [], wakes := [.nread],
      exit := .leave ⟨0, []⟩ }
  else
    { pipe := { p with readopen := false }, stored := [], wakes := [.nwrite],
      exit := .leave ⟨0, []⟩ }

/-- The next section of a call. -/
def Call.critical : Call → Bool → Pipe → Section
  | .write n left, killed, p => pipewrite n left killed p
  | .read n, killed, p => piperead n killed p
  | .close writable, _, p => pipeclose writable p

/-! ## Runs -/

/-- A pipe with the history of what went through it. -/
structure Stream where
  pipe : Pipe
  /-- The bytes that pipewrites have stored, in order. -/
  stored : List UInt8
  /-- The bytes that pipereads have copied out, in order. -/
  delivered : List UInt8

/-- The history with what a section adds to it. -/
def Stream.extend (stream : Stream) (critical : Section) : Stream where
  pipe := critical.pipe
  stored := stream.stored ++ critical.stored
  delivered := stream.delivered ++ critical.delivered

/-- A call begins with the whole of its request. -/
def Call.whole : Call → Prop
  | .write n left => left.length = n.toNat
  | .read _ => True
  | .close _ => True

/-- The pipe as a monitor. -/
def behaviour : Behaviour Stream Chan Call Result where
  critical _ request killed stream :=
    { shared := stream.extend (request.critical killed stream.pipe)
      wakes := (request.critical killed stream.pipe).wakes
      exit := (request.critical killed stream.pipe).exit }
  starts _ _ request := request.whole

/-- Sections take place as long as the page has not been freed. -/
def Live (state : State Stream Chan Call) (_ : Nat) (_ : Call) : Prop :=
  state.shared.pipe.live = true

/-- A pipe that has just been made, with nobody using it. -/
def opened (data : Fin PIPESIZE → UInt8) : State Stream Chan Call where
  shared := { pipe := pipealloc data, stored := [], delivered := [] }
  activity _ := .idle
  killed _ := false

/-- The section that a thread runs next on a call. -/
def next (state : State Stream Chan Call) (thread : Nat) (request : Call) :
    Section :=
  request.critical (state.killed thread) state.shared.pipe

/-! ## The stream behind a buffer -/

/-- The buffer holds what has been stored and not yet been delivered. -/
structure Carries (p : Pipe) (stored delivered : List UInt8) : Prop where
  /-- nread counts the bytes delivered. -/
  read : p.nread = UInt32.ofNat delivered.length
  /-- nwrite counts the bytes stored. -/
  written : p.nwrite = UInt32.ofNat stored.length
  /-- The buffer is large enough for the rest. -/
  fits : stored.length ≤ delivered.length + PIPESIZE
  /-- The bytes delivered are the first ones stored. -/
  first : delivered <+: stored
  /-- The rest is in the buffer. -/
  rest : ∀ position, delivered.length ≤ position → position < stored.length →
    stored[position]? = some (p.data (slot (UInt32.ofNat position)))

theorem slot_ofNat (position : Nat) :
    slot (UInt32.ofNat position) = ⟨position % PIPESIZE, Nat.mod_lt _ (by decide)⟩ := by
  apply Fin.ext
  show (UInt32.ofNat position).toNat % PIPESIZE = position % PIPESIZE
  rw [UInt32.toNat_ofNat']
  unfold PIPESIZE
  omega

theorem ofNat_ne_of_lt
    (less : low < high)
    (near : high ≤ low + PIPESIZE) :
    UInt32.ofNat low ≠ UInt32.ofNat high := by
  intro same
  have equal := congrArg UInt32.toNat same
  rw [UInt32.toNat_ofNat', UInt32.toNat_ofNat'] at equal
  unfold PIPESIZE at near
  omega

namespace Carries

variable {p : Pipe} {stored delivered : List UInt8}

theorem le (carries : Carries p stored delivered) :
    delivered.length ≤ stored.length :=
  carries.first.length_le

theorem full_iff (carries : Carries p stored delivered) :
    p.full = true ↔ stored.length = delivered.length + PIPESIZE := by
  have bounded := carries.fits
  unfold Pipe.full
  rw [carries.read, carries.written, beq_iff_eq,
    show (512 : UInt32) = UInt32.ofNat PIPESIZE from rfl, ← UInt32.ofNat_add]
  constructor
  · intro same
    by_contra different
    exact absurd same (ofNat_ne_of_lt (by omega) (by have := carries.le; omega))
  · intro same
    rw [same]

theorem empty_iff (carries : Carries p stored delivered) :
    p.empty = true ↔ stored.length = delivered.length := by
  have bounded := carries.fits
  have ordered := carries.le
  unfold Pipe.empty
  rw [carries.read, carries.written, beq_iff_eq]
  constructor
  · intro same
    by_contra different
    exact absurd same (ofNat_ne_of_lt (by omega) bounded)
  · intro same
    rw [same]

/-- The two counters are as far apart as there are bytes in the buffer. -/
theorem toNat_sub (carries : Carries p stored delivered) :
    (p.nwrite - p.nread).toNat = stored.length - delivered.length := by
  have bounded := carries.fits
  have ordered := carries.le
  rw [carries.read, carries.written, UInt32.toNat_sub, UInt32.toNat_ofNat', UInt32.toNat_ofNat']
  unfold PIPESIZE at bounded
  omega

theorem buffered (carries : Carries p stored delivered) :
    stored = delivered ++ p.buffered := by
  obtain ⟨rest, split⟩ := carries.first
  have length : rest.length = stored.length - delivered.length := by
    simp [← split]
  rw [← split]
  congr 1
  apply List.ext_getElem?
  intro offset
  unfold Pipe.buffered
  rw [carries.toNat_sub, List.getElem?_map]
  by_cases within : offset < stored.length - delivered.length
  · have byte := carries.rest (delivered.length + offset) (by omega) (by omega)
    rw [← split, List.getElem?_append_right (by omega), Nat.add_sub_cancel_left,
      UInt32.ofNat_add, ← carries.read] at byte
    rw [byte, List.getElem?_range within]
    rfl
  · rw [List.getElem?_eq_none (by omega),
      List.getElem?_eq_none (by simp only [List.length_range]; omega)]
    rfl

/-- Storing a byte while there is room. -/
theorem put
    (carries : Carries p stored delivered)
    (room : p.full = false)
    (byte : UInt8) :
    Carries (p.put byte) (stored ++ [byte]) delivered := by
  have space : stored.length < delivered.length + PIPESIZE := by
    have := carries.fits
    have := mt carries.full_iff.mpr (by simp [room])
    omega
  refine ⟨carries.read, ?_, ?_, ?_, ?_⟩
  · simp [Pipe.put, carries.written, UInt32.ofNat_add]
  · simp only [List.length_append, List.length_singleton]
    omega
  · exact carries.first.trans (List.prefix_append _ _)
  intro position reached within
  simp only [List.length_append, List.length_singleton] at within
  simp only [Pipe.put, carries.written]
  by_cases last : position = stored.length
  · rw [last, Function.update_self]
    simp
  · have different :
        slot (UInt32.ofNat position) ≠ slot (UInt32.ofNat stored.length) := by
      rw [slot_ofNat, slot_ofNat, Ne, Fin.mk.injEq]
      unfold PIPESIZE at space ⊢
      omega
    rw [Function.update_of_ne different, List.getElem?_append_left (by omega)]
    exact carries.rest position reached (by omega)

/-- Delivering the byte at the front. -/
theorem advance
    (carries : Carries p stored delivered)
    (some : p.empty = false) :
    Carries p.advance stored (delivered ++ [p.front]) := by
  have less : delivered.length < stored.length := by
    have := carries.le
    have := mt carries.empty_iff.mpr (by simp [some])
    omega
  have front : stored[delivered.length]? = Option.some p.front := by
    rw [carries.rest delivered.length (Nat.le_refl _) less, Pipe.front, carries.read]
  refine ⟨?_, carries.written, ?_, ?_, ?_⟩
  · simp [Pipe.advance, carries.read, UInt32.ofNat_add]
  · have := carries.fits
    simp only [List.length_append, List.length_singleton]
    omega
  · rw [List.prefix_iff_eq_take, List.length_append, List.length_singleton,
      List.take_add_one, front, ← List.prefix_iff_eq_take.mp carries.first]
    rfl
  · intro position reached within
    simp only [List.length_append, List.length_singleton] at reached
    exact carries.rest position (by omega) within

/-- A new pipe carries nothing. -/
theorem pipealloc (data : Fin PIPESIZE → UInt8) :
    Carries (pipealloc data) [] [] :=
  ⟨rfl, rfl, by simp, List.prefix_rfl, fun position _ within => by
    simp at within⟩

end Carries

/-! ## Sections -/

variable {p : Pipe} {stored delivered : List UInt8}

/-- The store loop ends with the request done or the pipe full, and leaves the
two ends as they were. -/
theorem fill_spec
    (carries : Carries p stored delivered)
    (request : List UInt8) :
    Carries (fill request p).1 (stored ++ (fill request p).2.1) delivered ∧
      request = (fill request p).2.1 ++ (fill request p).2.2 ∧
      ((fill request p).2.2 ≠ [] → (fill request p).1.full = true) ∧
      (fill request p).1.readopen = p.readopen ∧
      (fill request p).1.writeopen = p.writeopen := by
  induction request generalizing p stored with
  | nil => simpa [fill] using carries
  | cons byte rest ih =>
    by_cases full : p.full = true
    · simpa [fill, full] using carries
    · have room : p.full = false := by simpa using full
      obtain ⟨after, split, ended, readopen, writeopen⟩ :=
        ih (carries.put room byte)
      simp only [fill, room, Bool.false_eq_true, if_false]
      refine ⟨by simpa using after, ?_, ended, readopen, writeopen⟩
      rw [List.cons_append, ← split]

/-- The copy loop delivers a byte if it may and if there is one. -/
theorem drain_spec
    (carries : Carries p stored delivered)
    (count : Nat) :
    Carries (drain count p).1 stored (delivered ++ (drain count p).2) ∧
      ((drain count p).2 = [] → count = 0 ∨ p.empty = true) ∧
      (drain count p).1.readopen = p.readopen ∧
      (drain count p).1.writeopen = p.writeopen := by
  induction count generalizing p delivered with
  | zero => simpa [drain] using carries
  | succ count ih =>
    by_cases none : p.empty = true
    · simpa [drain, none] using carries
    · have some : p.empty = false := by simpa using none
      obtain ⟨after, _, readopen, writeopen⟩ :=
        ih (carries.advance some)
      simp only [drain, some, Bool.false_eq_true, if_false]
      exact ⟨by simpa using after, by simp, readopen, writeopen⟩

/-- What a section of pipewrite does, in terms of its store loop. -/
theorem pipewrite_eq
    (n : Int)
    (request : List UInt8)
    (killed : Bool)
    (p : Pipe) :
    (pipewrite n request killed p).pipe = (fill request p).1 ∧
      (pipewrite n request killed p).stored = (fill request p).2.1 ∧
      (pipewrite n request killed p).delivered = [] ∧ (((fill request p).2.2 = [] ∧
          (pipewrite n request killed p).wakes = [.nread] ∧
          (pipewrite n request killed p).exit = .leave ⟨n, []⟩) ∨
        ((fill request p).2.2 ≠ [] ∧ ((fill request p).1.readopen = false ∨ killed = true) ∧
          (pipewrite n request killed p).wakes = [] ∧
          (pipewrite n request killed p).exit = .leave ⟨-1, []⟩) ∨
        ((fill request p).2.2 ≠ [] ∧ (fill request p).1.readopen = true ∧ killed = false ∧
          (pipewrite n request killed p).wakes = [.nread] ∧ (pipewrite n request killed p).exit =
            .sleep .nwrite (.write n (fill request p).2.2))) := by
  unfold pipewrite Section.delivered
  split
  · rename_i final stored filled
    simp [filled]
  · rename_i final stored left unfinished filled
    have pending : left ≠ [] := fun none => unfinished none
    cases readopen : final.readopen <;> cases killed <;> simp [filled, readopen, pending]

/-- What a section of piperead does, in terms of its copy loop. -/
theorem piperead_eq
    (n : Int)
    (killed : Bool)
    (p : Pipe) :
    (piperead n killed p).stored = [] ∧ ((p.empty = true ∧ p.writeopen = true ∧
          (piperead n killed p).pipe = p ∧ (piperead n killed p).delivered = [] ∧
          (piperead n killed p).wakes = [] ∧
          (((piperead n killed p).exit = .leave ⟨-1, []⟩ ∧ killed = true) ∨
            (piperead n killed p).exit = .sleep .nread (.read n))) ∨
        ((p.empty = false ∨ p.writeopen = false) ∧
          (piperead n killed p).pipe = (drain n.toNat p).1 ∧
          (piperead n killed p).delivered = (drain n.toNat p).2 ∧
          (piperead n killed p).wakes = [.nwrite] ∧ (piperead n killed p).exit =
            .leave ⟨(drain n.toNat p).2.length, (drain n.toNat p).2⟩)) := by
  unfold piperead Section.delivered
  cases none : p.empty <;> cases writeopen : p.writeopen <;> cases killed <;> simp

/-- Every section keeps the buffer in step with the history. -/
theorem Carries.critical
    (carries : Carries p stored delivered)
    (request : Call)
    (killed : Bool) :
    Carries (request.critical killed p).pipe (stored ++ (request.critical killed p).stored)
      (delivered ++ (request.critical killed p).delivered) := by
  cases request with
  | write n left =>
    obtain ⟨pipe, now, none, _⟩ := pipewrite_eq n left killed p
    simp only [Call.critical]
    rw [pipe, now, none, List.append_nil]
    exact (fill_spec carries left).1
  | read n =>
    obtain ⟨none, ⟨_, _, pipe, out, _⟩ | ⟨_, pipe, out, _⟩⟩ :=
      piperead_eq n killed p
    · simp only [Call.critical]
      rw [none, pipe, out, List.append_nil, List.append_nil]
      exact carries
    · simp only [Call.critical]
      rw [none, pipe, out, List.append_nil]
      exact (drain_spec carries n.toNat).1
  | close writable =>
    cases writable <;> simpa [Call.critical, pipeclose, Section.delivered] using
        ⟨carries.read, carries.written, carries.fits, carries.first, carries.rest⟩

/-- The buffer is in step with the history in every reachable state, whatever
sections are admitted. -/
theorem Carries.reachable {data : Fin PIPESIZE → UInt8}
    (reached : Reachable behaviour admits (opened data) state) :
    Carries state.shared.pipe state.shared.stored state.shared.delivered :=
  reached.shared (fun stream => Carries stream.pipe stream.stored stream.delivered)
    (Carries.pipealloc data)
    fun state thread request _ _ _ carries =>
      carries.critical request (state.killed thread)

/-- A read for some bytes that returns none has found the write end closed and
the pipe empty. -/
theorem piperead_eof
    (carries : Carries p stored delivered)
    (positive : 0 < n)
    (returned : (piperead n killed p).exit = .leave ⟨0, bytes⟩) :
    p.writeopen = false ∧ (piperead n killed p).delivered = [] ∧ delivered = stored := by
  obtain ⟨_, ⟨_, _, _, _, _, ⟨exit, _⟩ | exit⟩ | ⟨reason, _, out, _, exit⟩⟩ :=
    piperead_eq n killed p
  · simp [exit] at returned
  · simp [exit] at returned
  obtain ⟨_, short, _⟩ := drain_spec carries n.toNat
  have nothing : (drain n.toNat p).2 = [] := by
    rw [exit] at returned
    simp only [Exit.leave.injEq, Result.mk.injEq] at returned
    exact List.length_eq_zero_iff.mp (by exact_mod_cast returned.1)
  have none : p.empty = true := (short nothing).resolve_left (by omega)
  have closed : p.writeopen = false := reason.resolve_left (by simp [none])
  refine ⟨closed, by rw [out, nothing], ?_⟩
  exact carries.first.eq_of_length (carries.empty_iff.mp none).symm

/-- A pipe is a first-in first-out byte stream: in every state that any
interleaving reaches, the counters are at most the buffer's size apart, the
bytes delivered are the first ones stored and the rest is in the buffer.  A
section of pipewrite stores a first part of its request, all of it when it
returns n.  A piperead for some bytes returns 0 only when the write end is
closed and every stored byte has been delivered. -/
theorem stream_fifo {data : Fin PIPESIZE → UInt8}
    {state : State Stream Chan Call}
    (reached : Reachable behaviour Live (opened data) state) :
    (state.shared.pipe.nwrite - state.shared.pipe.nread).toNat ≤ PIPESIZE ∧
      state.shared.delivered <+: state.shared.stored ∧ state.shared.stored =
        state.shared.delivered ++ state.shared.pipe.buffered ∧
      (∀ thread n left, state.activity thread = .ready (.write n left) → ∃ rest,
          left = (next state thread (.write n left)).stored ++ rest ∧
          ((next state thread (.write n left)).exit = .leave ⟨n, []⟩ ∧ rest = [] ∨
            (next state thread (.write n left)).exit = .leave ⟨-1, []⟩ ∨
            (next state thread (.write n left)).exit = .sleep .nwrite (.write n rest))) ∧
      ∀ thread n bytes, state.activity thread = .ready (.read n) → 0 < n →
        (next state thread (.read n)).exit = .leave ⟨0, bytes⟩ →
        state.shared.pipe.writeopen = false ∧
          state.shared.delivered ++ (next state thread (.read n)).delivered =
            state.shared.stored := by
  have carries := Carries.reachable reached
  refine ⟨?_, carries.first, carries.buffered, ?_, ?_⟩
  · rw [carries.toNat_sub]
    have := carries.fits
    omega
  · intro thread n left _
    obtain ⟨_, stored, _, cases⟩ :=
      pipewrite_eq n left (state.killed thread) state.shared.pipe
    obtain ⟨_, split, _⟩ := fill_spec carries left
    refine ⟨(fill left state.shared.pipe).2.2, ?_, ?_⟩
    · simp only [next, Call.critical]
      rw [stored]
      exact split
    · obtain ⟨done, _, exit⟩ | ⟨_, _, _, exit⟩ | ⟨_, _, _, _, exit⟩ := cases
      · exact Or.inl ⟨exit, done⟩
      · exact Or.inr (Or.inl exit)
      · exact Or.inr (Or.inr exit)
  · intro thread n bytes _ positive returned
    obtain ⟨closed, nothing, same⟩ := piperead_eof carries positive returned
    refine ⟨closed, ?_⟩
    simp only [next, Call.critical]
    rw [nothing, List.append_nil]
    exact same

/-- A writer has stored two bytes, and a reader is about to take one. -/
def sample : State Stream Chan Call :=
  (((opened fun _ => 0).become 0 (.ready (.write 2 [3, 4]))).enter behaviour 0
    (.write 2 [3, 4])).become 1 (.ready (.read 1))

theorem sample_reachable :
    Reachable behaviour Live (opened fun _ => 0) (sample.enter behaviour 1 (.read 1)) := by
  have asked : Reachable behaviour Live (opened fun _ => 0)
      ((opened fun _ => 0).become 0 (.ready (.write 2 [3, 4]))) :=
    .step .initial (.start 0 (Call.write 2 [3, 4]) rfl rfl)
  have written := asked.step (.enter 0 (Call.write 2 [3, 4]) rfl rfl)
  have reading := written.step (.start 1 (Call.read 1) rfl trivial)
  exact reading.step (.enter 1 (Call.read 1) rfl rfl)

theorem stream_fifo_sample :
    (sample.enter behaviour 1 (.read 1)).shared.delivered = [3] ∧
      (sample.enter behaviour 1 (.read 1)).shared.stored = [3, 4] ∧
      (sample.enter behaviour 1 (.read 1)).shared.stored =
        (sample.enter behaviour 1 (.read 1)).shared.delivered ++
          (sample.enter behaviour 1 (.read 1)).shared.pipe.buffered :=
  ⟨by decide, by decide, (stream_fifo sample_reachable).2.2.1⟩

end Pipe
end Xv6
