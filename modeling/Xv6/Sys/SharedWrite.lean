import Xv6.Foundation.Shares
import Xv6.Fs.Contents
import Xv6.Sys.Calls

/-!
# Writing to an open file that is shared

Processes that share an open file share its offset.  `filewrite` writes a call in
pieces; for each one it begins a transaction, locks the inode, reads the offset,
writes, advances the offset, and gives lock and transaction back.  Here each of
these is a step of its own, and any number of processes take their steps in any
order.  The inode is a list of bytes.
-/

namespace Xv6
namespace SharedFile

open Function
open Interleaving
open Faulting
open Shares
open Call (maxWrite)

/-! ## The program -/

/-- What a process does at once. -/
inductive Op : Type → Type where
  | enter (src : List UInt8) : Op Unit
  | beginTrans : Op Unit
  | ilock : Op Unit
  | off : Op UInt32
  | writei (src : List UInt8) (off : UInt32) : Op Int
  | setOff (off : UInt32) : Op Unit
  | iunlock : Op Unit
  | commitTrans : Op Unit
  | leave (result : Int) : Op Unit
  | panic (text : String) : Op Unit

/-- `f->off += r` if `r` is positive. -/
def advance (r : Int) : Program Op Unit :=
  if 0 < r then do
    let now ← Program.perform .off
    Program.perform (.setOff (now + UInt32.ofNat r.toNat))
  else pure ()

/-- The loop of `filewrite`; `fuel` bounds the number of rounds, each of which writes at
least one byte. -/
def filewriteLoop (src : List UInt8) : (fuel i : Nat) → Program Op Nat
  | 0, i => pure i
  | fuel + 1, i =>
    if i < src.length then do
      let n1 := if maxWrite < src.length - i then maxWrite else src.length - i
      Program.perform .beginTrans
      Program.perform .ilock
      let off ← Program.perform .off
      let r ← Program.perform (.writei ((src.drop i).take n1) off)
      advance r
      Program.perform .iunlock
      Program.perform .commitTrans
      if r < 0 then pure i
      else if r ≠ n1 then do
        Program.perform (.panic "short filewrite")
        pure i
      else filewriteLoop src fuel (i + r.toNat)
    else pure i

/-- `filewrite` on a regular file that is open for writing. -/
def filewrite (src : List UInt8) : Program Op Unit := do
  Program.perform (.enter src)
  let i ← filewriteLoop src src.length 0
  Program.perform (.leave (if i = src.length then src.length else -1))

/-! ## What is shared -/

/-- The open file, its inode, and what has happened. -/
structure Shared where
  off : UInt32
  contents : List UInt8
  busy : Option Nat
  locked : Option Nat
  /-- What `writei` has written, in order, and for which process. -/
  log : List (Nat × List UInt8)
  calls : Nat → List (List UInt8)
  results : Nat → List Int
  total : Nat

namespace Shared

/-- All bytes that have been written, in order. -/
def written (s : Shared) : List UInt8 := s.log.flatMap Prod.snd

/-- What has been written for a process. -/
def piecesOf (s : Shared) (thread : Nat) : List (List UInt8) :=
  (s.log.filter fun piece => piece.1 = thread).map Prod.snd

end Shared

/-- What the operations do. -/
def exec (thread : Nat) : {β : Type} → Op β → Run String Shared β
  | _, .enter src => Run.modify fun s =>
    { s with
      calls := update s.calls thread (s.calls thread ++ [src])
      total := s.total + src.length }
  | _, .beginTrans => Run.modify fun s => { s with busy := some thread }
  | _, .ilock => Run.modify fun s => { s with locked := some thread }
  | _, .off => Run.gets Shared.off
  | _, .writei src off => fun s =>
    match writeBytes s.contents src off with
    | some contents =>
      .ok (src.length, { s with contents := contents, log := s.log ++ [(thread, src)] })
    | none => .ok (-1, s)
  | _, .setOff off => Run.modify fun s => { s with off := off }
  | _, .iunlock => Run.modify fun s => { s with locked := none }
  | _, .commitTrans => Run.modify fun s => { s with busy := none }
  | _, .leave result => Run.modify fun s =>
    { s with
      results := update s.results thread (s.results thread ++ [result]) }
  | _, .panic text => Run.fault text

/-- Processes call `filewrite` with any bytes, as long as all calls together stay
within the largest file.  A transaction waits until there is none, and a lock until
the inode is not locked. -/
def behaviour (base : Nat) : Behaviour Op String Shared where
  starts _ _ program := ∃ src, program = filewrite src
  exec thread operation := exec thread operation
  admits s _ operation :=
    match operation with
    | .enter src => base + s.total + src.length ≤ MAXFILE * BSIZE
    | .beginTrans => s.busy = none
    | .ilock => s.locked = none
    | _ => True

/-- An open file before it is written to. -/
def opened (base : UInt32) (contents : List UInt8) : System Op Shared where
  state :=
    { off := base
      contents := contents
      busy := none
      locked := none
      log := []
      calls := fun _ => []
      results := fun _ => []
      total := 0 }
  running _ := none

/-! ## Pieces -/

theorem maxWrite_eq : maxWrite = 1536 := rfl

/-- The pieces in which a call is written. -/
def pieces (src : List UInt8) : List (List UInt8) :=
  if src = [] then [] else src.take maxWrite :: pieces (src.drop maxWrite)
termination_by src.length
decreasing_by
  rename_i nonempty
  have := List.length_pos_of_ne_nil nonempty
  rw [List.length_drop, maxWrite_eq]
  omega

@[simp] theorem pieces_nil : pieces [] = [] := by
  rw [pieces, if_pos rfl]

/-- A call of at most 1536 bytes is written at once. -/
theorem pieces_of_short {src : List UInt8}
    (nonempty : src ≠ [])
    (short : src.length ≤ maxWrite) :
    pieces src = [src] := by
  rw [pieces, if_neg nonempty, List.take_of_length_le short, List.drop_of_length_le short,
    pieces_nil]

/-- The pieces make up the call. -/
theorem flatten_pieces (src : List UInt8) : (pieces src).flatten = src := by
  induction src using pieces.induct with
  | case1 => rw [pieces_nil, List.flatten_nil]
  | case2 src nonempty ih =>
    rw [pieces, if_neg nonempty, List.flatten_cons, ih, List.take_append_drop]

/-- Whole pieces come first. -/
theorem pieces_append
    (first rest : List UInt8)
    (whole : first.length % maxWrite = 0) :
    pieces (first ++ rest) = pieces first ++ pieces rest := by
  induction first using pieces.induct with
  | case1 => rw [pieces_nil, List.nil_append, List.nil_append]
  | case2 first nonempty ih =>
    have long : maxWrite ≤ first.length := by
      have := List.length_pos_of_ne_nil nonempty
      rw [maxWrite_eq] at *
      omega
    rw [pieces, if_neg (by simp [nonempty]), List.take_append_of_le_length long,
      List.drop_append_of_le_length long, ih]
    · conv_rhs => rw [pieces, if_neg nonempty]
      rfl
    · rw [List.length_drop, maxWrite_eq] at *
      omega

/-! ## The discipline -/

/-- Where a process is in `filewrite`. -/
inductive Phase where
  | outside
  | between
  | begun
  | locked
  | loaded (off : UInt32)
  | written (r : Nat)
  | reloaded (r : Nat) (off : UInt32)
  | stored
  | unlocked
  /-- After `writei` has not written its piece. -/
  | odd
  deriving DecidableEq

/-- What a process knows. -/
structure View where
  src : List UInt8
  done : Nat
  phase : Phase

namespace View

/-- A process in no call. -/
def idle : View := ⟨[], 0, .outside⟩

/-- The next piece. -/
def chunk (view : View) : List UInt8 := (view.src.drop view.done).take maxWrite

/-- What is left to write. -/
def due (view : View) : Nat := view.src.length - view.done

/-- The process is in a transaction. -/
def begun (view : View) : Prop :=
  match view.phase with
  | .outside | .between | .odd => False
  | _ => True

/-- The process has the inode locked. -/
def locks (view : View) : Prop :=
  match view.phase with
  | .locked | .loaded _ | .written _ | .reloaded _ _ | .stored => True
  | _ => False

/-- The process is about to write a piece. -/
def pending (view : View) : Prop :=
  match view.phase with
  | .begun | .locked | .loaded _ => True
  | _ => False

/-- The process has read the offset. -/
def Loads (view : View) (now : UInt32) : Prop :=
  match view.phase with
  | .loaded off | .reloaded _ off => now = off
  | _ => False

/-- By how much the offset lags behind. -/
def lag (view : View) : Nat :=
  match view.phase with
  | .written r | .reloaded r _ => r
  | _ => 0

end View

/-- What the operations of `filewrite` require, and what they lead to. -/
def discipline : Discipline Op View where
  requires operation view :=
    match operation with
    | .enter _ => view.phase = .outside
    | .beginTrans => view.phase = .between ∧ view.done < view.src.length
    | .ilock => view.phase = .begun
    | .off => view.phase = .locked ∨ (∃ r, view.phase = .written r) ∨ view.phase = .odd
    | .writei src off => view.phase = .loaded off ∧ src = view.chunk
    | .setOff off =>
      (∃ r now, view.phase = .reloaded r now ∧ off = now + UInt32.ofNat r) ∨ view.phase = .odd
    | .iunlock => view.phase = .stored ∨ view.phase = .odd
    | .commitTrans => view.phase = .unlocked ∨ view.phase = .odd
    | .leave result =>
      view.phase = .between ∧ view.done = view.src.length ∧ result = view.src.length ∨
        view.phase = .odd
    | .panic _ => view.phase = .odd
  after operation view result :=
    match operation, result with
    | .enter src, _ => ⟨src, 0, .between⟩
    | .beginTrans, _ => { view with phase := .begun }
    | .ilock, _ => { view with phase := .locked }
    | .off, now =>
      match view.phase with
      | .locked => { view with phase := .loaded now }
      | .written r => { view with phase := .reloaded r now }
      | _ => view
    | .writei src _, r =>
      if r = src.length then
        { view with done := view.done + src.length, phase := .written src.length }
      else { view with phase := .odd }
    | .setOff _, _ =>
      match view.phase with
      | .reloaded _ _ => { view with phase := .stored }
      | _ => view
    | .iunlock, _ =>
      match view.phase with
      | .stored => { view with phase := .unlocked }
      | _ => view
    | .commitTrans, _ =>
      match view.phase with
      | .unlocked => { view with phase := .between }
      | _ => view
    | .leave _, _ =>
      match view.phase with
      | .odd => view
      | _ => .idle
    | .panic _, _ => view

/-- The views a call may end with. -/
def settled (view : View) : Prop := view = .idle ∨ view.phase = .odd

theorem chunk_of_loop
    (src : List UInt8)
    (i : Nat)
    (phase : Phase) :
    (src.drop i).take (if maxWrite < src.length - i then maxWrite else src.length - i) =
      (View.mk src i phase).chunk := by
  unfold View.chunk
  split
  · rfl
  · dsimp only
    rw [List.take_of_length_le (by rw [List.length_drop]),
      List.take_of_length_le (by rw [List.length_drop]; omega)]

/-- After an odd result everything the program does is allowed, and it stays odd. -/
theorem follows_odd {done i n1 : Nat} {r : Int} {post : Nat → View → Prop}
    (wrong : r ≠ n1)
    (ends : ∀ value, post value ⟨src, done, .odd⟩) :
    Program.Follows discipline
      (do
        advance r
        Program.perform .iunlock
        Program.perform .commitTrans
        if r < 0 then pure i
        else if r ≠ n1 then do
          Program.perform (.panic "short filewrite")
          pure i
        else rest)
      ⟨src, done, .odd⟩ post := by
  have advanced : (advance r).Follows discipline ⟨src, done, .odd⟩
      fun _ own => own = ⟨src, done, .odd⟩ := by
    unfold advance
    split
    · exact ⟨.inr (.inr rfl), fun _ => ⟨.inr rfl, fun _ => rfl⟩⟩
    · exact rfl
  refine Program.Follows.bind (advanced.mono ?_)
  rintro _ _ rfl
  refine ⟨.inr rfl, fun _ => ⟨.inr rfl, fun _ => ?_⟩⟩
  dsimp only
  split
  · exact ends i
  · exact ⟨rfl, fun _ => ends i⟩

/-- The loop of `filewrite` follows the discipline. -/
theorem filewriteLoop_follows
    (src : List UInt8)
    (fuel i : Nat)
    (enough : src.length ≤ i + fuel)
    (inside : i ≤ src.length) :
    (filewriteLoop src fuel i).Follows discipline ⟨src, i, .between⟩ fun value own =>
      value = src.length ∧ own = ⟨src, src.length, .between⟩ ∨ own.phase = .odd := by
  induction fuel generalizing i with
  | zero =>
    obtain rfl : i = src.length := by omega
    exact .inl ⟨rfl, rfl⟩
  | succ fuel ih =>
    unfold filewriteLoop
    split
    case isFalse past =>
      obtain rfl : i = src.length := by omega
      exact .inl ⟨rfl, rfl⟩
    case isTrue more =>
      generalize count : (if maxWrite < src.length - i then maxWrite else src.length - i) = n1
      have range : 0 < n1 ∧ i + n1 ≤ src.length := by
        rw [← count, maxWrite_eq]
        split <;> omega
      have length : ((src.drop i).take n1).length = n1 := by
        rw [List.length_take, List.length_drop]
        omega
      refine .perform_bind ⟨rfl, more⟩ fun _ => .perform_bind rfl fun _ =>
        .perform_bind (.inl rfl) fun off => .perform_bind ⟨rfl, ?_⟩ fun r => ?_
      · rw [← count]
        exact chunk_of_loop src i _
      by_cases right : r = n1
      · subst right
        have written : discipline.after (.writei ((src.drop i).take n1) off)
            ⟨src, i, .loaded off⟩ (n1 : Int) = ⟨src, i + n1, .written n1⟩ := by
          simp only [discipline, length, if_true]
        have advanced : (advance n1).Follows discipline ⟨src, i + n1, .written n1⟩
            fun _ own => own = ⟨src, i + n1, .stored⟩ := by
          unfold advance
          rw [if_pos (by omega)]
          exact ⟨.inr (.inl ⟨n1, rfl⟩), fun now => ⟨.inl ⟨n1, now, rfl, rfl⟩, fun _ => rfl⟩⟩
        show Program.Follows discipline _
          (discipline.after (.writei ((src.drop i).take n1) off) ⟨src, i, .loaded off⟩ n1) _
        rw [written]
        refine Program.Follows.bind (advanced.mono ?_)
        rintro _ _ rfl
        refine ⟨.inl rfl, fun _ => ⟨.inl rfl, fun _ => ?_⟩⟩
        have next := ih (i + n1) (by omega) range.2
        have rest : (if (n1 : Int) < 0 then pure i
            else if (n1 : Int) ≠ n1 then do
              Program.perform (.panic "short filewrite")
              pure i
            else filewriteLoop src fuel (i + (n1 : Int).toNat)) =
              filewriteLoop src fuel (i + n1) := by
          rw [if_neg (by omega), if_neg (by simp), Int.toNat_natCast]
        exact rest.symm ▸ next
      · have odd : discipline.after (.writei ((src.drop i).take n1) off)
            ⟨src, i, .loaded off⟩ r = ⟨src, i, .odd⟩ := by
          simp only [discipline, length, if_neg right]
        show Program.Follows discipline _
          (discipline.after (.writei ((src.drop i).take n1) off) ⟨src, i, .loaded off⟩ r) _
        rw [odd]
        exact follows_odd right fun _ => .inr rfl

/-- `filewrite` follows the discipline. -/
theorem filewrite_follows (src : List UInt8) :
    (filewrite src).Follows discipline .idle fun _ own => settled own := by
  refine .perform_bind rfl fun _ => .bind
    ((filewriteLoop_follows src src.length 0 (by omega) (Nat.zero_le _)).mono ?_)
  rintro value ⟨_, _, phase⟩ (⟨rfl, same⟩ | odd)
  · rw [if_pos rfl, same]
    exact ⟨.inl ⟨rfl, rfl, rfl⟩, fun _ => .inl rfl⟩
  · obtain rfl : phase = .odd := odd
    exact ⟨.inr rfl, fun _ => .inr rfl⟩

/-! ## The locks and the offset -/

/-- What is true of the locks and of the offset. -/
structure Guarded (base : Nat) (s : Shared) (views : Nat → View) : Prop where
  /-- Who is in a transaction. -/
  busy : ∀ t, s.busy = some t ↔ (views t).begun
  /-- Who has the inode locked. -/
  locked : ∀ t, s.locked = some t ↔ (views t).locks
  /-- The offset is where the next piece goes. -/
  free : s.locked = none → s.off.toNat = base + s.written.length
  /-- It lags behind only for who has the inode locked. -/
  held : ∀ t, s.locked = some t → s.off.toNat + (views t).lag = base + s.written.length
  /-- What a process has read is the offset. -/
  loaded : ∀ t now, (views t).Loads now → now = s.off

/-- Only who has the inode locked has read the offset. -/
theorem View.locks_of_loaded {view : View}
    (loaded : view.Loads now) :
    view.locks := by
  obtain ⟨src, done, phase⟩ := view
  cases phase <;> first | exact trivial | exact loaded

/-- A process has the inode locked only in a transaction. -/
theorem View.begun_of_locks {view : View}
    (locks : view.locks) :
    view.begun := by
  obtain ⟨src, done, phase⟩ := view
  cases phase <;> first | exact trivial | exact locks

namespace Guarded

variable {base : Nat} {s final : Shared} {views : Nat → View} {thread : Nat} {view : View}

/-- Ownership after a step of one process. -/
theorem owner_update {owns : View → Prop}
    (before : ∀ t, owner = some t ↔ owns (views t))
    (self : after = some thread ↔ owns view)
    (others : ∀ t, t ≠ thread → (after = some t ↔ owner = some t))
    (t : Nat) :
    after = some t ↔ owns (update views thread view t) := by
  by_cases same : t = thread
  · rw [same, update_self]
    exact self
  · rw [update_of_ne same, others t same]
    exact before t

variable (guarded : Guarded base s views)

include guarded

/-- A step of one process that leaves the locks and the offset alone. -/
theorem quiet
    (begun : view.begun ↔ (views thread).begun)
    (locks : view.locks ↔ (views thread).locks)
    (lag : view.lag = (views thread).lag)
    (loaded : ∀ now, view.Loads now → now = s.off)
    (busySame : final.busy = s.busy)
    (lockedSame : final.locked = s.locked)
    (offSame : final.off = s.off)
    (logSame : final.log = s.log) :
    Guarded base final (update views thread view) := by
  have written : final.written = s.written := by rw [Shared.written, Shared.written, logSame]
  refine ⟨?_, ?_, ?_, ?_, ?_⟩
  · rw [busySame]
    exact owner_update guarded.busy ((guarded.busy thread).trans begun.symm) fun _ _ => Iff.rfl
  · rw [lockedSame]
    exact owner_update guarded.locked ((guarded.locked thread).trans locks.symm) fun _ _ => Iff.rfl
  · rw [lockedSame, offSame, written]
    exact guarded.free
  · intro t held
    rw [lockedSame] at held
    rw [offSame, written]
    by_cases same : t = thread
    · rw [same, update_self, lag, ← same]
      exact guarded.held t held
    · rw [update_of_ne same]
      exact guarded.held t held
  · intro t now
    rw [offSame]
    by_cases same : t = thread
    · rw [same, update_self]
      exact loaded now
    · rw [update_of_ne same]
      exact guarded.loaded t now

/-- A step of the process that has the inode locked before it or after it. -/
theorem owned
    (alone : ∀ t, t ≠ thread → s.locked ≠ some t)
    (busy : ∀ t, t ≠ thread → (final.busy = some t ↔ s.busy = some t))
    (begun : final.busy = some thread ↔ view.begun)
    (locked : final.locked = some thread ∧ view.locks ∨ final.locked = none ∧ ¬view.locks)
    (off : final.off.toNat + view.lag = base + final.written.length)
    (loaded : ∀ now, view.Loads now → now = final.off) :
    Guarded base final (update views thread view) := by
  have lagFree : ¬view.locks → view.lag = 0 := by
    unfold View.locks View.lag
    cases view.phase <;> simp
  refine ⟨?_, ?_, ?_, ?_, ?_⟩
  · exact owner_update guarded.busy begun busy
  · refine owner_update guarded.locked ?_ fun t different => ?_
    · rcases locked with ⟨after, locks⟩ | ⟨after, free⟩
      · exact iff_of_true after locks
      · exact iff_of_false (by rw [after]; nofun) free
    · refine iff_of_false ?_ (alone t different)
      rcases locked with ⟨after, _⟩ | ⟨after, _⟩
      · rw [after]
        exact fun same => different (Option.some.inj same).symm
      · rw [after]
        nofun
  · intro free
    rcases locked with ⟨after, _⟩ | ⟨_, unlocked⟩
    · rw [after] at free
      nomatch free
    · rw [lagFree unlocked] at off
      exact off
  · intro t held
    rcases locked with ⟨after, _⟩ | ⟨after, _⟩
    · rw [after] at held
      obtain rfl := Option.some.inj held
      rw [update_self]
      exact off
    · rw [after] at held
      nomatch held
  · intro t now
    by_cases same : t = thread
    · rw [same, update_self]
      exact loaded now
    · rw [update_of_ne same]
      intro read
      exact absurd ((guarded.locked t).mpr (View.locks_of_loaded read)) (alone t same)

/-- Who is in a transaction is the only one who can have the inode locked. -/
theorem alone
    (begun : s.busy = none ∨ s.busy = some thread)
    (t : Nat)
    (different : t ≠ thread) :
    s.locked ≠ some t := by
  intro held
  have busy := (guarded.busy t).mpr (View.begun_of_locks ((guarded.locked t).mp held))
  rcases begun with none | self
  · rw [none] at busy
    nomatch busy
  · rw [self] at busy
    exact different (Option.some.inj busy).symm

/-- The inode is not locked while a process that has not locked it is in a transaction,
or nobody is. -/
theorem unlocked
    (begun : s.busy = none ∨ s.busy = some thread)
    (locks : ¬(views thread).locks) :
    s.locked = none := by
  cases held : s.locked with
  | none => rfl
  | some t =>
    by_cases same : t = thread
    · exact absurd ((guarded.locked t).mp held) (same ▸ locks)
    · exact absurd held (guarded.alone begun t same)

end Guarded

/-! ## What is written -/

/-- What is true of the view of a process. -/
structure View.Regular (view : View) : Prop where
  regular : view.phase ≠ .odd
  /-- A process in no call has nothing to write. -/
  resting : view.phase = .outside → view.src = []
  /-- A process that is about to write has something to write. -/
  pending : view.pending → view.done < view.src.length
  /-- A process has written no more than there is. -/
  inside : view.done ≤ view.src.length
  /-- Calls are interrupted between pieces only. -/
  whole : view.done % maxWrite = 0 ∨ view.done = view.src.length

/-- What is true of what has been written. -/
structure Recorded (base : Nat) (origin : List UInt8) (s : Shared) (views : Nat → View) :
    Prop where
  /-- The processes know what they have written. -/
  regular : ∀ t, (views t).Regular
  /-- What has been written follows the initial offset, without gaps. -/
  contents : s.contents = origin.take base ++ s.written ++ origin.drop (base + s.written.length)
  /-- What is written for a process are its calls, one after the other in pieces. -/
  pieces : ∀ t, ∃ earlier,
    s.calls t = earlier ++ (if (views t).phase = .outside then [] else [(views t).src]) ∧
      s.results t = earlier.map (fun src => (src.length : Int)) ∧
      s.piecesOf t = earlier.flatMap pieces ++ pieces ((views t).src.take (views t).done)
  /-- What the calls still have to write. -/
  due : ∃ due, s.total = s.written.length + due ∧
    Balanced (fun _ : Unit => due) fun t _ => (views t).due
  /-- All calls together stay within the largest file. -/
  bounded : base + s.total ≤ MAXFILE * BSIZE

namespace Recorded

variable {base : Nat} {origin : List UInt8} {s final : Shared} {views : Nat → View}
  {thread : Nat} {view : View}

/-- One process takes a step. -/
theorem regular_update
    (before : ∀ t, (views t).Regular)
    (after : view.Regular) :
    ∀ t, (update views thread view t).Regular :=
  (forall_update_iff views fun _ view => view.Regular).mpr ⟨after, fun t _ => before t⟩

section

variable (recorded : Recorded base origin s views)

include recorded

/-- A step that writes nothing and stays in its call. -/
theorem moves
    (src : view.src = (views thread).src)
    (done : view.done = (views thread).done)
    (inside : (views thread).phase ≠ .outside)
    (stays : view.phase ≠ .outside)
    (regular : view.phase ≠ .odd)
    (pending : view.pending → view.done < view.src.length)
    (contents : final.contents = s.contents)
    (log : final.log = s.log)
    (calls : final.calls = s.calls)
    (results : final.results = s.results)
    (total : final.total = s.total) :
    Recorded base origin final (update views thread view) := by
  have written : final.written = s.written := by rw [Shared.written, Shared.written, log]
  -- the views agree in all that is recorded
  have same : ∀ t, (update views thread view t).src = (views t).src ∧
      (update views thread view t).done = (views t).done ∧
      ((update views thread view t).phase = .outside ↔ (views t).phase = .outside) := by
    intro t
    by_cases self : t = thread
    · rw [self, update_self]
      exact ⟨src, done, iff_of_false stays inside⟩
    · rw [update_of_ne self]
      exact ⟨rfl, rfl, Iff.rfl⟩
  have before := recorded.regular thread
  refine ⟨regular_update recorded.regular ⟨regular, fun outside => absurd outside stays, pending,
    by rw [src, done]; exact before.inside, by rw [src, done]; exact before.whole⟩,
    ?_, ?_, ?_, ?_⟩
  · rw [contents, written]
    exact recorded.contents
  · intro t
    obtain ⟨sameSrc, sameDone, samePhase⟩ := same t
    rw [calls, results, Shared.piecesOf, log, sameSrc, sameDone]
    simp only [samePhase]
    exact recorded.pieces t
  · obtain ⟨due, sum, balanced⟩ := recorded.due
    refine ⟨due, by rw [total, written, sum], ?_⟩
    have unchanged : (fun t (_ : Unit) => (update views thread view t).due) =
        fun t _ => (views t).due := by
      funext t _
      obtain ⟨sameSrc, sameDone, _⟩ := same t
      rw [View.due, View.due, sameSrc, sameDone]
    rw [unchanged]
    exact balanced
  · rw [total]
    exact recorded.bounded

/-- A process calls `filewrite`. -/
theorem enter
    (outside : (views thread).phase = .outside)
    (src : List UInt8)
    (bounded : base + s.total + src.length ≤ MAXFILE * BSIZE) :
    Recorded base origin
      { s with
        calls := update s.calls thread (s.calls thread ++ [src])
        total := s.total + src.length }
      (update views thread ⟨src, 0, .between⟩) := by
  have nothing := (recorded.regular thread).resting outside
  refine ⟨regular_update recorded.regular ⟨nofun, nofun, False.elim, Nat.zero_le _,
    .inl (Nat.zero_mod _)⟩, recorded.contents, fun t => ?_, ?_, ?_⟩
  · by_cases self : t = thread
    · subst self
      obtain ⟨earlier, calls, results, pieces⟩ := recorded.pieces t
      rw [if_pos outside, List.append_nil] at calls
      rw [nothing, List.take_nil] at pieces
      refine ⟨earlier, ?_, results, ?_⟩
      · simp only [update_self, reduceCtorEq, if_false, calls]
      · rw [update_self]
        exact pieces
    · simp only [update_of_ne self]
      exact recorded.pieces t
  · obtain ⟨due, sum, balanced⟩ := recorded.due
    refine ⟨due + src.length, ?_, balanced.exchangeOne thread ?_ ?_⟩
    · show s.total + src.length = s.written.length + (due + src.length)
      omega
    · intro other different
      rw [update_of_ne different]
    · intro _
      rw [update_self, View.due, View.due, nothing, List.length_nil, Nat.zero_sub]
      rfl
  · show base + (s.total + src.length) ≤ _
    omega

/-- A call of `filewrite` returns. -/
theorem leave
    (between : (views thread).phase = .between)
    (done : (views thread).done = (views thread).src.length) :
    Recorded base origin
      { s with
        results := update s.results thread
          (s.results thread ++ [((views thread).src.length : Int)]) }
      (update views thread .idle) := by
  refine ⟨regular_update recorded.regular ⟨nofun, fun _ => rfl, False.elim, le_rfl, .inr rfl⟩,
    recorded.contents, fun t => ?_, ?_, recorded.bounded⟩
  · by_cases self : t = thread
    · subst self
      obtain ⟨earlier, calls, results, pieces⟩ := recorded.pieces t
      rw [between, if_neg nofun] at calls
      rw [done, List.take_length] at pieces
      refine ⟨earlier ++ [(views t).src], ?_, ?_, ?_⟩
      · simp only [update_self, View.idle, if_true, List.append_nil, calls]
      · simp only [update_self, results, List.map_append, List.map_cons, List.map_nil]
      · simp only [update_self, View.idle, List.take_nil, pieces_nil, List.append_nil,
          List.flatMap_append, List.flatMap_cons, List.flatMap_nil]
        exact pieces
    · simp only [update_of_ne self]
      exact recorded.pieces t
  · obtain ⟨due, sum, balanced⟩ := recorded.due
    refine ⟨due, sum, balanced.exchangeOne thread ?_ ?_⟩
    · intro other different
      rw [update_of_ne different]
    · intro _
      rw [update_self, View.due, View.due, done, Nat.sub_self]
      rfl

/-- There is room for the next piece. -/
theorem room (thread : Nat) :
    base + s.written.length + (views thread).chunk.length ≤ MAXFILE * BSIZE := by
  obtain ⟨due, sum, balanced⟩ := recorded.due
  have share := balanced.share_le thread ()
  have bounded := recorded.bounded
  have length : (views thread).chunk.length ≤ (views thread).due := by
    rw [View.chunk, List.length_take, List.length_drop, View.due]
    exact min_le_right _ _
  omega

/-- `writei` writes the next piece after all that has been written. -/
theorem writeBytes_eq
    (within : base ≤ origin.length)
    (thread : Nat)
    (offset : s.off.toNat = base + s.written.length) :
    writeBytes s.contents (views thread).chunk s.off =
      some (origin.take base ++ (s.written ++ (views thread).chunk) ++
        origin.drop (base + (s.written ++ (views thread).chunk).length)) := by
  have room := recorded.room thread
  have before : (origin.take base ++ s.written).length = base + s.written.length := by
    rw [List.length_append, List.length_take, min_eq_left within]
  have head : s.contents.take s.off.toNat = origin.take base ++ s.written := by
    rw [recorded.contents, offset, ← before, List.take_left]
  have tail : s.contents.drop (s.off.toNat + (views thread).chunk.length) =
      origin.drop (base + (s.written ++ (views thread).chunk).length) := by
    rw [recorded.contents, offset, ← before, List.drop_append, List.drop_drop,
      List.drop_eq_nil_of_le (by omega), List.nil_append, before]
    refine congrArg (List.drop · origin) ?_
    rw [List.length_append]
    omega
  have inside : s.off.toNat ≤ s.contents.length := by
    rw [recorded.contents, List.length_append, before, offset]
    exact Nat.le_add_right _ _
  unfold writeBytes
  rw [if_neg, head, tail, List.append_assoc (origin.take base)]
  rw [not_or, not_or]
  unfold MAXFILE NDIRECT NINDIRECT BSIZE at *
  omega

end

/-- What is written for the processes when a piece is written for one of them. -/
theorem piecesOf_append
    (contents bytes : List UInt8)
    (thread t : Nat) :
    Shared.piecesOf { s with contents := contents, log := s.log ++ [(thread, bytes)] } t =
      s.piecesOf t ++ if thread = t then [bytes] else [] := by
  unfold Shared.piecesOf
  rw [List.filter_append, List.map_append]
  by_cases same : thread = t <;> simp [same]

/-- The next piece of a call. -/
theorem pieces_next
    (whole : view.done % maxWrite = 0)
    (more : view.done < view.src.length) :
    SharedFile.pieces (view.src.take (view.done + view.chunk.length)) =
      SharedFile.pieces (view.src.take view.done) ++ [view.chunk] := by
  have length : view.chunk.length = min maxWrite (view.src.length - view.done) := by
    rw [View.chunk, List.length_take, List.length_drop]
  have chunk : (view.src.drop view.done).take view.chunk.length = view.chunk := by
    rw [length, ← List.length_drop, ← List.take_take, List.take_length]
    rfl
  have nonempty : view.chunk ≠ [] := by
    rw [← List.length_pos_iff, length, maxWrite_eq]
    omega
  rw [List.take_add, chunk, pieces_append, pieces_of_short nonempty]
  · rw [length]
    exact min_le_left _ _
  · rw [List.length_take, min_eq_left more.le]
    exact whole

/-- A piece is written. -/
theorem write
    (recorded : Recorded base origin s views)
    {contents : List UInt8}
    (pending : (views thread).pending)
    (inside : (views thread).phase ≠ .outside)
    (new : contents = origin.take base ++ (s.written ++ (views thread).chunk) ++
      origin.drop (base + (s.written ++ (views thread).chunk).length)) :
    Recorded base origin
      { s with contents := contents, log := s.log ++ [(thread, (views thread).chunk)] }
      (update views thread ⟨(views thread).src, (views thread).done + (views thread).chunk.length,
          .written (views thread).chunk.length⟩) := by
  have known := recorded.regular thread
  have more := known.pending pending
  have length : (views thread).chunk.length =
      min maxWrite ((views thread).src.length - (views thread).done) := by
    rw [View.chunk, List.length_take, List.length_drop]
  have written : (Shared.written
      { s with contents := contents, log := s.log ++ [(thread, (views thread).chunk)] }) =
      s.written ++ (views thread).chunk := by
    simp only [Shared.written, List.flatMap_append, List.flatMap_cons, List.flatMap_nil,
      List.append_nil]
  refine ⟨regular_update recorded.regular ⟨nofun, nofun, False.elim, ?_, ?_⟩, ?_, fun t => ?_, ?_,
    recorded.bounded⟩
  · dsimp only
    omega
  · have whole := known.whole
    dsimp only
    rw [length, maxWrite_eq] at *
    omega
  · rw [written]
    exact new
  · by_cases self : t = thread
    · subst self
      obtain ⟨earlier, calls, results, pieces⟩ := recorded.pieces t
      rw [if_neg inside] at calls
      refine ⟨earlier, ?_, results, ?_⟩
      · simp only [update_self, reduceCtorEq, if_false, calls]
      · have whole := known.whole.resolve_right more.ne
        rw [piecesOf_append, if_pos rfl, update_self, pieces_next whole more, pieces,
          List.append_assoc]
    · obtain ⟨earlier, calls, results, pieces⟩ := recorded.pieces t
      refine ⟨earlier, ?_, results, ?_⟩
      · simp only [update_of_ne self, calls]
      · rw [piecesOf_append, if_neg (Ne.symm self), List.append_nil, update_of_ne self]
        exact pieces
  · obtain ⟨due, sum, balanced⟩ := recorded.due
    have share := balanced.share_le thread ()
    refine ⟨due - (views thread).chunk.length, ?_, balanced.exchangeOne thread ?_ ?_⟩
    · rw [written, List.length_append]
      dsimp only
      rw [View.due] at share
      omega
    · intro other different
      rw [update_of_ne different]
    · intro _
      rw [update_self, View.due, View.due]
      rw [View.due] at share
      dsimp only
      omega

end Recorded

/-! ## Runs -/

/-- What is true in every state of a run. -/
structure Sound (base : Nat) (origin : List UInt8) (s : Shared) (views : Nat → View) :
    Prop where
  guarded : Guarded base s views
  recorded : Recorded base origin s views

namespace Sound

variable {base : Nat} {origin : List UInt8} {s : Shared} {views : Nat → View} {thread : Nat}

variable (sound : Sound base origin s views)

include sound

/-- A step of a process that stays in its call and writes nothing. -/
theorem moves
    (guarded : Guarded base final (update views thread view))
    (src : view.src = (views thread).src)
    (done : view.done = (views thread).done)
    (inside : (views thread).phase ≠ .outside)
    (stays : view.phase ≠ .outside)
    (regular : view.phase ≠ .odd)
    (pending : view.pending → view.done < view.src.length)
    (same : final = { s with off := final.off, busy := final.busy, locked := final.locked }) :
    Sound base origin final (update views thread view) := by
  refine ⟨guarded, sound.recorded.moves src done inside stays regular pending ?_ ?_ ?_ ?_ ?_⟩
  all_goals rw [same]

/-- `begin_trans`. -/
theorem beginTrans
    (between : (views thread).phase = .between)
    (more : (views thread).done < (views thread).src.length)
    (free : s.busy = none) :
    Sound base origin { s with busy := some thread }
      (update views thread { views thread with phase := .begun }) := by
  have unlocked : s.locked = none :=
    sound.guarded.unlocked (.inl free) (show ¬(views thread).locks by simp [View.locks, between])
  refine sound.moves (sound.guarded.owned (sound.guarded.alone (.inl free)) ?_
    (iff_of_true rfl trivial) (.inr ⟨unlocked, id⟩) (sound.guarded.free unlocked)
    fun _ => False.elim) rfl rfl (by rw [between]; nofun) nofun nofun (fun _ => more) rfl
  intro t different
  rw [free]
  exact iff_of_false (fun same => different (Option.some.inj same).symm) nofun

/-- A step of the process that is in a transaction, and stays in it. -/
theorem inside {final : Shared} {phase : Phase}
    (begun : (views thread).begun)
    (stays : View.begun ⟨(views thread).src, (views thread).done, phase⟩)
    (pending : View.pending ⟨(views thread).src, (views thread).done, phase⟩ →
      (views thread).pending)
    (locked : final.locked = some thread ∧
        View.locks ⟨(views thread).src, (views thread).done, phase⟩ ∨
      final.locked = none ∧ ¬View.locks ⟨(views thread).src, (views thread).done, phase⟩)
    (off : final.off.toNat + View.lag ⟨(views thread).src, (views thread).done, phase⟩ =
      base + s.written.length)
    (loaded : ∀ now, View.Loads ⟨(views thread).src, (views thread).done, phase⟩ now →
      now = final.off)
    (same : final = { s with off := final.off, locked := final.locked }) :
    Sound base origin final (update views thread { views thread with phase := phase }) := by
  have busy := (sound.guarded.busy thread).mpr begun
  have busySame : final.busy = s.busy := by rw [same]
  have written : final.written = s.written := by
    rw [same]
    rfl
  refine sound.moves (sound.guarded.owned (sound.guarded.alone (.inr busy)) ?_ ?_ locked ?_ loaded)
    rfl rfl ?_ ?_ ?_ ?_ ?_
  · intro t _
    rw [busySame]
  · rw [busySame]
    exact iff_of_true busy stays
  · rw [written]
    exact off
  · intro outside
    rw [View.begun, outside] at begun
    exact begun
  · rintro rfl
    exact stays
  · rintro rfl
    exact stays
  · exact fun before => (sound.recorded.regular thread).pending (pending before)
  · rw [busySame]
    exact same

/-- `ilock`. -/
theorem ilock
    (begun : (views thread).phase = .begun)
    (free : s.locked = none) :
    Sound base origin { s with locked := some thread }
      (update views thread { views thread with phase := .locked }) := by
  exact sound.inside (by simp [View.begun, begun]) trivial (fun _ => by simp [View.pending, begun])
    (.inl ⟨rfl, trivial⟩) (sound.guarded.free free) (fun _ => False.elim) rfl

/-- The offset where the inode is locked. -/
theorem off_add_lag (locks : (views thread).locks) :
    s.locked = some thread ∧ s.off.toNat + (views thread).lag = base + s.written.length := by
  have locked := (sound.guarded.locked thread).mpr locks
  exact ⟨locked, sound.guarded.held thread locked⟩

/-- The offset is read before a piece is written. -/
theorem load (locked : (views thread).phase = .locked) :
    Sound base origin s (update views thread { views thread with phase := .loaded s.off }) := by
  obtain ⟨held, off⟩ := sound.off_add_lag (show (views thread).locks by simp [View.locks, locked])
  rw [View.lag, locked] at off
  exact sound.inside (by simp [View.begun, locked]) trivial
    (fun _ => by simp [View.pending, locked]) (.inl ⟨held, trivial⟩) off (fun _ => id) rfl

/-- The offset is read after a piece is written. -/
theorem reload (written : (views thread).phase = .written r) :
    Sound base origin s (update views thread { views thread with phase := .reloaded r s.off }) := by
  obtain ⟨held, off⟩ := sound.off_add_lag (show (views thread).locks by simp [View.locks, written])
  rw [View.lag, written] at off
  exact sound.inside (by simp [View.begun, written]) trivial
    False.elim (.inl ⟨held, trivial⟩) off (fun _ => id) rfl

/-- The offset is advanced. -/
theorem setOff (reloaded : (views thread).phase = .reloaded r now) :
    Sound base origin { s with off := now + UInt32.ofNat r }
      (update views thread { views thread with phase := .stored }) := by
  obtain ⟨held, off⟩ := sound.off_add_lag (show (views thread).locks by simp [View.locks, reloaded])
  rw [View.lag, reloaded] at off
  obtain rfl := sound.guarded.loaded thread now (by simp [View.Loads, reloaded])
  have room := sound.recorded.room thread
  have sum : (s.off + UInt32.ofNat r).toNat = s.off.toNat + r := by
    unfold MAXFILE NDIRECT NINDIRECT BSIZE at room
    dsimp only at off
    rw [UInt32.toNat_add, UInt32.toNat_ofNat', Nat.mod_eq_of_lt (show r < 2 ^ 32 by omega),
      Nat.mod_eq_of_lt (by omega)]
  exact sound.inside (by simp [View.begun, reloaded]) trivial
    False.elim (.inl ⟨held, trivial⟩) (by rw [sum]; exact off) (fun _ => False.elim) rfl

/-- `iunlock`. -/
theorem iunlock (stored : (views thread).phase = .stored) :
    Sound base origin { s with locked := none }
      (update views thread { views thread with phase := .unlocked }) := by
  obtain ⟨_, off⟩ := sound.off_add_lag (show (views thread).locks by simp [View.locks, stored])
  rw [View.lag, stored] at off
  exact sound.inside (by simp [View.begun, stored]) trivial
    False.elim (.inr ⟨rfl, id⟩) off (fun _ => False.elim) rfl

/-- `commit_trans`. -/
theorem commitTrans (phase : (views thread).phase = .unlocked) :
    Sound base origin { s with busy := none }
      (update views thread { views thread with phase := .between }) := by
  have busy : s.busy = some thread :=
    (sound.guarded.busy thread).mpr (by simp [View.begun, phase])
  have unlocked : s.locked = none :=
    sound.guarded.unlocked (.inr busy) (by simp [View.locks, phase])
  refine sound.moves (sound.guarded.owned (sound.guarded.alone (.inr busy)) ?_
    (iff_of_false nofun id) (.inr ⟨unlocked, id⟩) (sound.guarded.free unlocked)
    fun _ => False.elim) rfl rfl (by rw [phase]; nofun) nofun nofun False.elim rfl
  intro t different
  rw [busy]
  exact iff_of_false nofun (fun same => different (Option.some.inj same).symm)

/-- `writei`. -/
theorem writei
    (within : base ≤ origin.length)
    {off : UInt32}
    (loaded : (views thread).phase = .loaded off) :
    ∃ contents, writeBytes s.contents (views thread).chunk off = some contents ∧ Sound base origin
          { s with contents := contents, log := s.log ++ [(thread, (views thread).chunk)] }
          (update views thread
            ⟨(views thread).src, (views thread).done + (views thread).chunk.length,
              .written (views thread).chunk.length⟩) := by
  obtain ⟨held, offset⟩ := sound.off_add_lag (show (views thread).locks by simp [View.locks, loaded])
  rw [View.lag, loaded] at offset
  obtain rfl := sound.guarded.loaded thread off (by simp [View.Loads, loaded])
  refine ⟨_, sound.recorded.writeBytes_eq within thread offset, ?_,
    sound.recorded.write (by simp [View.pending, loaded]) (by rw [loaded]; nofun) rfl⟩
  have busy : s.busy = some thread :=
    (sound.guarded.busy thread).mpr (by simp [View.begun, loaded])
  refine sound.guarded.owned (sound.guarded.alone (.inr busy)) (fun _ _ => Iff.rfl)
    (iff_of_true busy trivial) (.inl ⟨held, trivial⟩) ?_ fun _ => False.elim
  simp only [Shared.written, List.flatMap_append, List.flatMap_cons, List.flatMap_nil,
    List.append_nil, List.length_append, View.lag] at offset ⊢
  omega

/-- A process calls `filewrite`. -/
theorem enter
    (outside : (views thread).phase = .outside)
    (src : List UInt8)
    (bounded : base + s.total + src.length ≤ MAXFILE * BSIZE) :
    Sound base origin
      { s with
        calls := update s.calls thread (s.calls thread ++ [src])
        total := s.total + src.length }
      (update views thread ⟨src, 0, .between⟩) := by
  refine ⟨sound.guarded.quiet ?_ ?_ ?_ (fun _ => False.elim) rfl rfl rfl rfl,
    sound.recorded.enter outside src bounded⟩
  · exact iff_of_false id (by simp [View.begun, outside])
  · exact iff_of_false id (by simp [View.locks, outside])
  · simp [View.lag, outside]

/-- A call of `filewrite` returns. -/
theorem leave
    (between : (views thread).phase = .between)
    (done : (views thread).done = (views thread).src.length) :
    Sound base origin
      { s with
        results := update s.results thread
          (s.results thread ++ [((views thread).src.length : Int)]) }
      (update views thread .idle) := by
  refine ⟨sound.guarded.quiet ?_ ?_ ?_ (fun _ => False.elim) rfl rfl rfl rfl,
    sound.recorded.leave between done⟩
  · exact iff_of_false id (by simp [View.begun, between])
  · exact iff_of_false id (by simp [View.locks, between])
  · simp [View.lag, between, View.idle]

/-- No result of `writei` is odd. -/
theorem not_odd (odd : (views thread).phase = .odd) :
    False :=
  (sound.recorded.regular thread).regular odd

end Sound

/-- The operations of `filewrite` keep the invariant. -/
theorem kept {base : Nat}
    (within : base ≤ origin.length) :
    Kept (behaviour base) discipline .idle settled (Sound base origin) where
  starts := by
    rintro state thread program ⟨src, rfl⟩
    exact filewrite_follows src
  operates := by
    intro β s final views thread operation result sound required admitted performed
    cases operation with
    | enter src =>
      obtain ⟨_, rfl⟩ := Prod.mk.inj (Except.ok.inj performed)
      exact sound.enter required src admitted
    | beginTrans =>
      obtain ⟨_, rfl⟩ := Prod.mk.inj (Except.ok.inj performed)
      exact sound.beginTrans required.1 required.2 admitted
    | ilock =>
      obtain ⟨_, rfl⟩ := Prod.mk.inj (Except.ok.inj performed)
      exact sound.ilock required admitted
    | off =>
      obtain ⟨rfl, rfl⟩ := Prod.mk.inj (Except.ok.inj performed)
      rcases required with locked | ⟨r, written⟩ | odd
      · have next := sound.load locked
        simp only [discipline, locked]
        exact next
      · have next := sound.reload written
        simp only [discipline, written]
        exact next
      · exact (sound.not_odd odd).elim
    | writei src off =>
      obtain ⟨loaded, rfl⟩ := required
      obtain ⟨contents, wrote, next⟩ := sound.writei within loaded
      simp only [behaviour, exec, wrote] at performed
      obtain ⟨rfl, rfl⟩ := Prod.mk.inj (Except.ok.inj performed)
      simp only [discipline, if_true]
      exact next
    | setOff off =>
      obtain ⟨_, rfl⟩ := Prod.mk.inj (Except.ok.inj performed)
      rcases required with ⟨r, now, reloaded, rfl⟩ | odd
      · have next := sound.setOff reloaded
        simp only [discipline, reloaded]
        exact next
      · exact (sound.not_odd odd).elim
    | iunlock =>
      obtain ⟨_, rfl⟩ := Prod.mk.inj (Except.ok.inj performed)
      rcases required with stored | odd
      · have next := sound.iunlock stored
        simp only [discipline, stored]
        exact next
      · exact (sound.not_odd odd).elim
    | commitTrans =>
      obtain ⟨_, rfl⟩ := Prod.mk.inj (Except.ok.inj performed)
      rcases required with unlocked | odd
      · have next := sound.commitTrans unlocked
        simp only [discipline, unlocked]
        exact next
      · exact (sound.not_odd odd).elim
    | leave value =>
      obtain ⟨_, rfl⟩ := Prod.mk.inj (Except.ok.inj performed)
      rcases required with ⟨between, done, rfl⟩ | odd
      · have next := sound.leave between done
        simp only [discipline, between]
        exact next
      · exact (sound.not_odd odd).elim
    | panic text => exact (sound.not_odd required).elim
  finishes := by
    rintro s views thread sound (idle | odd)
    · rw [← idle, update_eq_self]
      exact sound
    · exact (sound.not_odd odd).elim

/-- The invariant holds before anything is written. -/
theorem opened_sound {base : UInt32}
    (largest : base.toNat ≤ MAXFILE * BSIZE) :
    Sound base.toNat contents (opened base contents).state fun _ => .idle where
  guarded :=
    { busy := fun _ => iff_of_false nofun id
      locked := fun _ => iff_of_false nofun id
      free := fun _ => rfl
      held := nofun
      loaded := fun _ _ => False.elim }
  recorded :=
    { regular := fun _ => ⟨nofun, fun _ => rfl, False.elim, le_rfl, .inr rfl⟩
      contents := by
        rw [show (opened base contents).state.written = [] from rfl, List.append_nil]
        exact (List.take_append_drop _ _).symm
      pieces := fun _ => ⟨[], rfl, rfl, pieces_nil.symm⟩
      due := ⟨0, rfl, Balanced.zero⟩
      bounded := largest }

/-- What processes that share an open file find, at any moment. -/
structure Lossless (base : Nat) (origin : List UInt8) (system : System Op Shared) : Prop where
  /-- What has been written follows the initial offset, piece after piece; everything else
  is as it was. -/
  consecutive : system.state.contents = origin.take base ++ system.state.written ++
    origin.drop (base + system.state.written.length)
  /-- What has been written for a process is the beginning of its calls, in order. -/
  ordered : ∀ t, system.state.piecesOf t <+: (system.state.calls t).flatMap pieces
  /-- Outside a call nothing is missing, and every call has returned its length. -/
  complete : ∀ t, system.running t = none →
    system.state.piecesOf t = (system.state.calls t).flatMap pieces ∧
      system.state.results t = (system.state.calls t).map fun src => (src.length : Int)
  /-- When all calls have returned, the offset has advanced by their total. -/
  advanced : (∀ t, system.running t = none) → system.state.off.toNat = base + system.state.total
  /-- The offset stays within the file. -/
  within : system.state.off.toNat ≤ system.state.contents.length
  /-- The kernel does not stop. -/
  safe : ∀ reason, ¬Faults (behaviour base) system reason

namespace Sound

variable {base : Nat} {origin : List UInt8} {s : Shared} {views : Nat → View} {thread : Nat}

variable (sound : Sound base origin s views)

include sound

/-- What has been written of a call is the beginning of its pieces. -/
theorem ordered (t : Nat) :
    s.piecesOf t <+: (s.calls t).flatMap pieces := by
  obtain ⟨earlier, calls, _, written⟩ := sound.recorded.pieces t
  have current : pieces ((views t).src.take (views t).done) <+: pieces (views t).src := by
    have known := sound.recorded.regular t
    rcases known.whole with whole | all
    · conv_rhs => rw [← List.take_append_drop (views t).done (views t).src]
      rw [pieces_append _ _ (by rwa [List.length_take, min_eq_left known.inside])]
      exact List.prefix_append _ _
    · rw [all, List.take_length]
  rw [calls, written, List.flatMap_append]
  split
  · rename_i outside
    rw [(sound.recorded.regular t).resting outside, List.take_nil, pieces_nil]
    exact List.prefix_rfl
  · rw [List.flatMap_singleton]
    exact (List.prefix_append_right_inj _).mpr current

/-- A process in no call has written all of them. -/
theorem complete {t : Nat}
    (idle : views t = .idle) :
    s.piecesOf t = (s.calls t).flatMap pieces ∧
      s.results t = (s.calls t).map fun src => (src.length : Int) := by
  obtain ⟨earlier, calls, results, written⟩ := sound.recorded.pieces t
  rw [idle, View.idle, if_pos rfl, List.append_nil] at calls
  rw [idle, View.idle, List.take_nil, pieces_nil, List.append_nil] at written
  exact ⟨by rw [written, calls], by rw [results, calls]⟩

/-- Only the panic that is never reached would stop the kernel. -/
theorem safe {β : Type} {operation : Op β}
    (required : discipline.requires operation (views thread))
    (faulted : exec thread operation s = .error reason) :
    False := by
  cases operation with
  | panic text => exact sound.not_odd required
  | writei src off =>
    simp only [exec] at faulted
    cases wrote : writeBytes s.contents src off with
    | some contents =>
      rw [wrote] at faulted
      nomatch faulted
    | none =>
      rw [wrote] at faulted
      nomatch faulted
  | _ => cases faulted

/-- The offset where no process is in a call. -/
theorem advanced (idle : ∀ t, views t = .idle) :
    s.off.toNat = base + s.total := by
  have unlocked : s.locked = none := by
    cases held : s.locked with
    | none => rfl
    | some t =>
      have locks := (sound.guarded.locked t).mp held
      rw [idle t] at locks
      exact locks.elim
  obtain ⟨due, sum, _, _, total⟩ := sound.recorded.due
  have none : due = 0 := by
    refine (total ()).trans (Finset.sum_eq_zero fun t _ => ?_)
    show (views t).due = 0
    rw [idle t]
    rfl
  rw [sound.guarded.free unlocked, sum, none, Nat.add_zero]

/-- The offset stays within the file. -/
theorem off_le (inside : base ≤ origin.length) :
    s.off.toNat ≤ s.contents.length := by
  have reached : s.off.toNat ≤ base + s.written.length := by
    cases held : s.locked with
    | none => exact (sound.guarded.free held).le
    | some t => exact Nat.le.intro (sound.guarded.held t held)
  rw [sound.recorded.contents, List.length_append, List.length_append, List.length_take,
    min_eq_left inside]
  exact reached.trans (Nat.le_add_right _ _)

end Sound

end SharedFile
end Xv6
