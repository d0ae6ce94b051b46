import Xv6.Console.Line

/-!
# The console refines its terminal

The ring buffer holds the terminal's characters from the first one that no read
has taken, and its three indices count the characters taken, committed and
typed.  Every section keeps this, so that what the reads deliver is a first
part of what was committed.
-/

namespace Xv6
namespace Console

/-- The buffer carries the terminal's characters that have not been taken. -/
structure Refines (input : Input) (terminal : Terminal) (taken : List UInt8) : Prop where
  /-- r counts the characters taken. -/
  read : input.r = UInt32.ofNat taken.length
  /-- w counts those committed. -/
  written : input.w = UInt32.ofNat terminal.committed.length
  /-- e counts those typed and not taken back. -/
  edited : input.e = UInt32.ofNat (terminal.committed.length + terminal.line.length)
  /-- The characters taken are the first ones committed. -/
  first : taken <+: terminal.committed
  holds : Ring.Holds input.buf (terminal.committed ++ terminal.line) taken.length
  open_line : newline ∉ terminal.line

namespace Refines

variable {input : Input} {terminal : Terminal} {taken : List UInt8}

theorem le (refines : Refines input terminal taken) :
    taken.length ≤ terminal.committed.length :=
  refines.first.length_le

theorem bound (refines : Refines input terminal taken) :
    terminal.committed.length + terminal.line.length ≤ taken.length + INPUT_BUF := by
  have fits := refines.holds.bound
  rwa [List.length_append] at fits

theorem toNat_written (refines : Refines input terminal taken) :
    (input.w - input.r).toNat = terminal.committed.length - taken.length := by
  have bound := refines.bound
  rw [refines.written, refines.read]
  unfold INPUT_BUF at bound
  exact Ring.toNat_sub_ofNat refines.le (by omega)

theorem toNat_edited (refines : Refines input terminal taken) :
    (input.e - input.r).toNat =
      terminal.committed.length + terminal.line.length - taken.length := by
  have bound := refines.bound
  have le := refines.le
  rw [refines.edited, refines.read]
  unfold INPUT_BUF at bound
  exact Ring.toNat_sub_ofNat (by omega) (by omega)

theorem toNat_line (refines : Refines input terminal taken) :
    (input.e - input.w).toNat = terminal.line.length := by
  have bound := refines.bound
  have le := refines.le
  rw [refines.edited, refines.written]
  unfold INPUT_BUF at bound
  rw [Ring.toNat_sub_ofNat (by omega) (by omega)]
  omega

theorem edited_eq_iff (refines : Refines input terminal taken) :
    input.e = input.w ↔ terminal.line = [] := by
  have bound := refines.bound
  have le := refines.le
  unfold INPUT_BUF at bound
  rw [refines.edited, refines.written, Ring.ofNat_eq_iff (by omega) (by omega),
    ← List.length_eq_zero_iff]
  omega

theorem empty_iff (refines : Refines input terminal taken) :
    input.r = input.w ↔ taken.length = terminal.committed.length := by
  have bound := refines.bound
  unfold INPUT_BUF at bound
  rw [refines.read, refines.written, eq_comm, Ring.ofNat_eq_iff refines.le (by omega), eq_comm]

theorem room_iff (refines : Refines input terminal taken) :
    input.e - input.r < 128 ↔
      terminal.committed.length + terminal.line.length < taken.length + INPUT_BUF := by
  have le := refines.le
  rw [UInt32.lt_iff_toNat_lt, refines.toNat_edited]
  show _ < 128 ↔ _
  unfold INPUT_BUF
  omega

theorem place_ofNat (position : Nat) :
    place (UInt32.ofNat position) = Ring.slot INPUT_BUF position :=
  Ring.slot_toNat_ofNat (by decide) position

variable (refines : Refines input terminal taken)

include refines

/-- The character at the read index. -/
theorem front (more : input.r ≠ input.w) :
    terminal.committed[taken.length]? = some (input.buf (place input.r)) := by
  have le := refines.le
  have less : taken.length < terminal.committed.length := by
    have different := mt refines.empty_iff.mpr more
    omega
  have stored := refines.holds.element taken.length le_rfl (by rw [List.length_append]; omega)
  rw [List.getElem?_append_left less] at stored
  rw [stored, refines.read, place_ofNat]

/-! ## Editing -/

/-- The last character of the line is taken back. -/
theorem backspace (more : input.e ≠ input.w) :
    Refines { input with e := input.e - 1 } { terminal with line := terminal.line.dropLast }
      taken where
  read := refines.read
  written := refines.written
  edited := by
    have nonempty : terminal.line ≠ [] := mt refines.edited_eq_iff.mpr more
    have positive := List.length_pos_of_ne_nil nonempty
    show input.e - 1 = _
    rw [refines.edited, List.length_dropLast]
    have split : terminal.committed.length + terminal.line.length =
        terminal.committed.length + (terminal.line.length - 1) + 1 := by omega
    rw [split, UInt32.ofNat_add]
    exact UInt32.add_sub_cancel _ _
  first := refines.first
  holds := by
    have shorter : terminal.committed ++ terminal.line.dropLast =
        (terminal.committed ++ terminal.line).take
          (terminal.committed.length + (terminal.line.length - 1)) := by
      rw [List.take_length_add_append, List.dropLast_eq_take]
    show Ring.Holds input.buf (terminal.committed ++ terminal.line.dropLast) taken.length
    rw [shorter]
    exact refines.holds.take _
  open_line := fun member => refines.open_line (List.dropLast_subset _ member)

/-- The character before the edit index. -/
theorem last (more : input.e ≠ input.w) :
    input.buf (place (input.e - 1)) ∈ terminal.line := by
  have nonempty : terminal.line ≠ [] := mt refines.edited_eq_iff.mpr more
  have positive := List.length_pos_of_ne_nil nonempty
  have le := refines.le
  have edited := (refines.backspace more).edited
  have stored := refines.holds.element
    (terminal.committed.length + (terminal.line.length - 1)) (by omega)
    (by rw [List.length_append]; omega)
  rw [List.getElem?_append_right (by omega), Nat.add_sub_cancel_left] at stored
  have index : input.e - 1 =
      UInt32.ofNat (terminal.committed.length + (terminal.line.length - 1)) := by
    simpa using edited
  rw [index, place_ofNat]
  exact List.mem_of_getElem? stored

/-- Control-U takes back the whole line. -/
theorem killLine (enough : terminal.line.length ≤ passes) :
    Refines (killLine passes input) { terminal with line := [] } taken := by
  induction passes generalizing input terminal with
  | zero =>
    have none : terminal.line = [] := List.length_eq_zero_iff.mp (Nat.le_zero.mp enough)
    rw [← none]
    exact refines
  | succ passes ih =>
    unfold Console.killLine
    by_cases more : input.e ≠ input.w
    · have inside := refines.last more
      have plain : input.buf (place (input.e - 1)) ≠ newline := fun equal =>
        refines.open_line (equal ▸ inside)
      rw [if_pos ⟨more, plain⟩]
      have shorter : terminal.line.dropLast.length ≤ passes := by
        rw [List.length_dropLast]
        omega
      have rest := ih (refines.backspace more) shorter
      exact rest
    · have none : terminal.line = [] := refines.edited_eq_iff.mp (not_not.mp more)
      rw [if_neg (fun both => more both.1), ← none]
      exact refines

/-- A character is stored while there is room, and perhaps ends the line. -/
theorem store
    (c : UInt8)
    (proper : c ≠ ctrlP ∧ c ≠ ctrlU ∧ ¬(c = ctrlH ∨ c = delete) ∧ c ≠ 0)
    (room : terminal.committed.length + terminal.line.length < taken.length + INPUT_BUF) :
    Refines (store c input).1 (terminal.type taken.length c) taken := by
  have le := refines.le
  obtain ⟨notP, notU, notH, notZero⟩ := proper
  rw [Terminal.type, if_neg notP, if_neg notU, if_neg notH, if_pos ⟨notZero, room⟩]
  dsimp only [Console.store]
  generalize (if c = carriageReturn then newline else c) = d
  have put := refines.holds.put (by rwa [List.length_append]) d
  rw [List.append_assoc, List.length_append, ← place_ofNat, ← refines.edited] at put
  have index : input.e + 1 =
      UInt32.ofNat (terminal.committed.length + (terminal.line ++ [d]).length) := by
    rw [List.length_append, List.length_singleton, ← Nat.add_assoc, UInt32.ofNat_add,
      ← refines.edited]
    rfl
  have full : input.e + 1 = input.r + 128 ↔
      terminal.committed.length + (terminal.line ++ [d]).length = taken.length + INPUT_BUF := by
    have length : (terminal.line ++ [d]).length = terminal.line.length + 1 := by simp
    rw [index, refines.read, show (128 : UInt32) = UInt32.ofNat INPUT_BUF from rfl,
      ← UInt32.ofNat_add, length]
    unfold INPUT_BUF at room ⊢
    rw [eq_comm, Ring.ofNat_eq_iff (by omega) (by omega), eq_comm]
  simp only [full]
  by_cases ends : d = newline ∨ d = ctrlD ∨
      terminal.committed.length + (terminal.line ++ [d]).length = taken.length + INPUT_BUF
  · rw [if_pos ends, if_pos ends]
    refine ⟨refines.read, ?_, ?_, ?_, ?_, List.not_mem_nil⟩
    · simpa using index
    · simpa using index
    · exact refines.first.trans (List.prefix_append _ _)
    · simpa using put
  · rw [if_neg ends, if_neg ends]
    refine ⟨refines.read, refines.written, index, refines.first, put, ?_⟩
    intro member
    rcases List.mem_append.mp member with old | new
    · exact refines.open_line old
    · exact ends (.inl (List.mem_singleton.mp new).symm)

/-- One character. -/
theorem consolechar (c : UInt8) :
    Refines (consolechar c input).1 (terminal.type taken.length c) taken := by
  unfold Console.consolechar
  by_cases isP : c = ctrlP
  · rw [if_pos isP, Terminal.type, if_pos isP]
    exact refines
  rw [if_neg isP]
  by_cases isU : c = ctrlU
  · rw [if_pos isU, Terminal.type, if_neg isP, if_pos isU]
    exact refines.killLine refines.toNat_line.ge
  rw [if_neg isU]
  by_cases isH : c = ctrlH ∨ c = delete
  · rw [if_pos isH, Terminal.type, if_neg isP, if_neg isU, if_pos isH]
    by_cases more : input.e ≠ input.w
    · rw [if_pos more]
      exact refines.backspace more
    · have none : terminal.line = [] := refines.edited_eq_iff.mp (not_not.mp more)
      rw [if_neg more, none, List.dropLast_nil, ← none]
      exact refines
  rw [if_neg isH]
  by_cases stored : c ≠ 0 ∧ input.e - input.r < 128
  · rw [if_pos stored]
    exact refines.store c ⟨isP, isU, isH, stored.1⟩ (refines.room_iff.mp stored.2)
  · have refused : ¬(c ≠ 0 ∧
        terminal.committed.length + terminal.line.length < taken.length + INPUT_BUF) := by
      rwa [← refines.room_iff]
    rw [if_neg stored, Terminal.type, if_neg isP, if_neg isU, if_neg isH, if_neg refused]
    exact refines

theorem consoleintr (chars : List UInt8) :
    Refines (consoleintr chars input).1 (chars.foldl (·.type taken.length) terminal) taken := by
  induction chars generalizing input terminal with
  | nil => exact refines
  | cons c rest ih => exact ih (refines.consolechar c)

end Refines

/-! ## Editing leaves committed characters alone -/

theorem committed_prefix_type (terminal : Terminal) (taken : Nat) (c : UInt8) :
    terminal.committed <+: (terminal.type taken c).committed := by
  unfold Terminal.type
  split
  · exact List.prefix_refl _
  split
  · exact List.prefix_refl _
  split
  · exact List.prefix_refl _
  split
  · dsimp only
    generalize (if c = carriageReturn then newline else c) = d
    split
    · exact List.prefix_append _ _
    · exact List.prefix_refl _
  · exact List.prefix_refl _

theorem committed_prefix_foldl (chars : List UInt8) (terminal : Terminal) (taken : Nat) :
    terminal.committed <+: (chars.foldl (·.type taken) terminal).committed := by
  induction chars generalizing terminal with
  | nil => exact List.prefix_refl _
  | cons c rest ih => exact (committed_prefix_type terminal taken c).trans (ih _)

variable {input : Input} {terminal : Terminal} {taken : List UInt8}

/-- Two buffers that carry the same committed characters agree on them. -/
theorem Refines.agree
    (refines : Refines input terminal taken)
    (refinesLater : Refines later after taken)
    (extends_ : terminal.committed <+: after.committed)
    (offset : Nat)
    (between : offset < (input.w - input.r).toNat) :
    later.r = input.r ∧ later.buf (place (input.r + UInt32.ofNat offset)) =
        input.buf (place (input.r + UInt32.ofNat offset)) := by
  rw [refines.toNat_written] at between
  refine ⟨refinesLater.read.trans refines.read.symm, ?_⟩
  have longer := extends_.length_le
  have within : taken.length + offset < terminal.committed.length := by omega
  have before := refines.holds.element (taken.length + offset) (by omega)
    (by rw [List.length_append]; omega)
  have now := refinesLater.holds.element (taken.length + offset) (by omega)
    (by rw [List.length_append]; omega)
  rw [List.getElem?_append_left within] at before
  rw [List.getElem?_append_left (within.trans_le longer)] at now
  obtain ⟨more, equal⟩ := extends_
  rw [← equal, List.getElem?_append_left within] at now
  rw [refines.read, ← UInt32.ofNat_add, Refines.place_ofNat]
  exact Option.some.inj (now.symm.trans before)

/-! ## Reading -/

/-- Taking the character at the read index. -/
theorem Refines.advance
    (refines : Refines input terminal taken)
    (more : input.r ≠ input.w) :
    Refines { input with r := input.r + 1 } terminal (taken ++ [input.buf (place input.r)]) where
  read := by
    rw [List.length_append, List.length_singleton, UInt32.ofNat_add, ← refines.read]
    rfl
  written := refines.written
  edited := refines.edited
  first := by
    rw [List.prefix_iff_eq_take, List.length_append, List.length_singleton, List.take_add_one,
      refines.front more, ← List.prefix_iff_eq_take.mp refines.first]
    rfl
  holds := refines.holds.advance (by rw [List.length_append]; omega)
  open_line := refines.open_line

/-- The arguments of a read and what it has copied so far. -/
structure Valid (target n : Int) (copied : List UInt8) : Prop where
  /-- n counts down from target. -/
  size : target = n + copied.length
  plain : newline ∉ copied
  noEof : ctrlD ∉ copied
  /-- A read of no size copies nothing. -/
  sized : n ≤ 0 → copied = []

/-- Where a read may stop: at its size, after a newline, before a control-D, or
having taken a control-D at its start. -/
def Stopped (terminal : Terminal) (after : List UInt8) (target : Int)
    (new bytes : List UInt8) : Prop :=
  bytes.length = target.toNat ∨ bytes.getLast? = some newline ∨
    (bytes ≠ [] ∧ terminal.committed[after.length]? = some ctrlD) ∨ (bytes = [] ∧ new = [ctrlD])

/-- A read that returns what it has copied. -/
structure Complete (terminal : Terminal) (after : List UInt8) (target : Int)
    (copied new : List UInt8) (result : Result) : Prop where
  /-- The value counts the bytes. -/
  value : result.value = result.bytes.length
  /-- The bytes are those copied before and those taken now. -/
  bytes : result.bytes = copied ++ new.filter (· ≠ ctrlD)
  noEof : ctrlD ∉ result.bytes
  plain : newline ∉ result.bytes.dropLast
  stopped : Stopped terminal after target new result.bytes
  /-- A control-D is taken by a read that returns no bytes. -/
  eof : new.count ctrlD = if result.value = 0 ∧ 0 < target then 1 else 0

/-- How a section of a read ends. -/
def Ended (terminal : Terminal) (after : List UInt8) (target : Int) (killed : Bool)
    (copied : List UInt8) (reading : Reading) : Prop :=
  match reading.exit with
  | .sleep _ resume => ctrlD ∉ reading.taken ∧ ∃ n, 0 < n ∧
      resume = .read target n (copied ++ reading.taken) ∧ Valid target n (copied ++ reading.taken)
  | .leave result =>
    (result.value = -1 ∧ killed = true ∧ ctrlD ∉ reading.taken) ∨
      Complete terminal after target copied reading.taken result

theorem filter_eq_self_of_not_mem {chars : List UInt8}
    (absent : ctrlD ∉ chars) :
    chars.filter (· ≠ ctrlD) = chars := by
  rw [List.filter_eq_self]
  intro c member
  exact decide_eq_true (fun equal => absent (equal ▸ member))

/-- A section that takes a character first. -/
theorem Ended.cons {reading : Reading}
    (ended : Ended terminal after target killed (copied ++ [c]) reading)
    (eof : c ≠ ctrlD) :
    Ended terminal after target killed copied
      { reading with taken := c :: reading.taken } := by
  unfold Ended at ended ⊢
  have absent : ctrlD ∉ reading.taken → ctrlD ∉ c :: reading.taken := by
    intro none member
    rcases List.mem_cons.mp member with equal | member
    · exact eof equal.symm
    · exact none member
  have joined : copied ++ [c] ++ reading.taken = copied ++ (c :: reading.taken) := by simp
  cases exit : reading.exit with
  | sleep on resume =>
    simp only [exit] at ended ⊢
    obtain ⟨none, n, positive, equal, valid⟩ := ended
    rw [joined] at equal valid
    exact ⟨absent none, n, positive, equal, valid⟩
  | leave result =>
    simp only [exit] at ended ⊢
    rcases ended with ⟨failed, dead, none⟩ | complete
    · exact .inl ⟨failed, dead, absent none⟩
    refine .inr ⟨complete.value, ?_, complete.noEof, complete.plain, ?_, ?_⟩
    · rw [complete.bytes, List.append_assoc]
      simp [eof]
    · rcases complete.stopped with full | line | before | ⟨none, _⟩
      · exact .inl full
      · exact .inr (.inl line)
      · exact .inr (.inr (.inl before))
      · rw [complete.bytes] at none
        exact absurd none (by simp)
    · rw [List.count_cons_of_ne eof]
      exact complete.eof

theorem readLoop_spec
    (refines : Refines input terminal taken)
    (target : Int)
    (killed : Bool)
    (n : Nat)
    (copied : List UInt8)
    (size : target = n + copied.length)
    (plain : newline ∉ copied)
    (noEof : ctrlD ∉ copied) :
    Refines (readLoop target killed n copied input).input terminal
      (taken ++ (readLoop target killed n copied input).taken) ∧
    Ended terminal (taken ++ (readLoop target killed n copied input).taken) target killed copied
      (readLoop target killed n copied input) := by
  induction n generalizing input taken copied with
  | zero =>
    refine ⟨by simpa [readLoop] using refines, .inr ⟨?_, ?_, noEof, ?_, .inl ?_, ?_⟩⟩
    · simpa using size
    · simp [readLoop]
    · exact fun member => plain (List.dropLast_subset _ member)
    · simp only [size, Nat.cast_zero, zero_add, Int.toNat_natCast]
    · have target_eq : target = copied.length := by simpa using size
      have never : ¬(target = 0 ∧ 0 < target) := by omega
      simp [readLoop, never]
  | succ n ih =>
    unfold readLoop
    by_cases empty : input.r = input.w
    · rw [if_pos empty]
      cases killed with
      | true => exact ⟨by simpa using refines, .inl ⟨rfl, rfl, List.not_mem_nil⟩⟩
      | false =>
        refine ⟨by simpa using refines, List.not_mem_nil, (n : Int) + 1, by omega, ?_, ?_⟩
        · simp
        · have valid : Valid target ((n : Int) + 1) copied :=
            ⟨by simpa using size, plain, noEof, fun none => by omega⟩
          simpa using valid
    rw [if_neg empty]
    have front := refines.front empty
    have advanced := refines.advance empty
    generalize input.buf (place input.r) = c at front advanced ⊢
    dsimp only
    by_cases eof : c = ctrlD
    · subst eof
      rw [if_pos rfl]
      by_cases later : (n + 1 : Int) < target
      · -- the control-D stays for the next read
        have nonempty : copied ≠ [] := by
          rintro rfl
          simp only [List.length_nil] at size
          omega
        have back : input.r + 1 - 1 = input.r := UInt32.add_sub_cancel _ _
        rw [if_pos later, back]
        refine ⟨by simpa using refines, .inr ⟨?_, by simp, noEof, ?_, ?_, ?_⟩⟩
        · dsimp only
          push_cast at size
          omega
        · exact fun member => plain (List.dropLast_subset _ member)
        · refine .inr (.inr (.inl ⟨nonempty, ?_⟩))
          rw [List.append_nil]
          exact front
        · have positive := List.length_pos_of_ne_nil nonempty
          push_cast at size
          have never : ¬(target - (n + 1) = 0 ∧ 0 < target) := by omega
          rw [if_neg never]
          rfl
      · have none : copied = [] := by
          push_cast at size
          exact List.length_eq_zero_iff.mp (by omega)
        subst none
        simp only [List.length_nil] at size
        push_cast at size
        have zero : target - (n + 1) = 0 := by omega
        rw [if_neg later]
        refine ⟨advanced, .inr ⟨?_, by simp, List.not_mem_nil, List.not_mem_nil, ?_, ?_⟩⟩
        · simpa using zero
        · exact .inr (.inr (.inr ⟨rfl, rfl⟩))
        · dsimp only
          rw [if_pos ⟨zero, by omega⟩]
          rfl
    · rw [if_neg eof]
      have kept : [c].filter (· ≠ ctrlD) = [c] := by simp [eof]
      have noEofNext : ctrlD ∉ copied ++ [c] := by
        intro member
        rcases List.mem_append.mp member with old | new
        · exact noEof old
        · exact eof (List.mem_singleton.mp new).symm
      by_cases line : c = newline
      · rw [if_pos line]
        refine ⟨advanced, .inr ⟨?_, by rw [kept], noEofNext, ?_, ?_, ?_⟩⟩
        · dsimp only
          rw [List.length_append, List.length_singleton]
          push_cast at size ⊢
          omega
        · dsimp only
          rw [List.dropLast_concat]
          exact plain
        · refine .inr (.inl ?_)
          rw [line]
          exact List.getLast?_concat
        · have never : ¬(target - n = 0 ∧ 0 < target) := by
            push_cast at size
            omega
          dsimp only
          rw [if_neg never, List.count_singleton, if_neg (by simpa using eof)]
      · rw [if_neg line]
        have plainNext : newline ∉ copied ++ [c] := by
          intro member
          rcases List.mem_append.mp member with old | new
          · exact plain old
          · exact line (List.mem_singleton.mp new).symm
        have sizeNext : target = n + (copied ++ [c]).length := by
          rw [List.length_append, List.length_singleton]
          push_cast at size ⊢
          omega
        obtain ⟨after, ended⟩ := ih advanced (copied ++ [c]) sizeNext plainNext noEofNext
        rw [List.append_assoc] at after ended
        refine ⟨after, ?_⟩
        exact ended.cons eof

end Console
end Xv6
