import Xv6.Fs.Contents
import Xv6.User.Printf

/-!
# less

The `less` of less.c, up to the point where it waits for input.  Each row of 80
bytes goes through printf as a format, with the size of the buffer as the only
argument.
-/

namespace Xv6
namespace Less

open Printf

/-- `initrow`. -/
abbrev initrow : Nat := 23

/-- The size of `buf`. -/
abbrev bufSize : Nat := 80

/-- The memory from `buf` on, after `read` has stored bytes in it: the rest of `buf`, and
`empty` and `input` behind it, hold zeros. -/
def memory (bytes : List UInt8) : List UInt8 :=
  bytes ++ List.replicate (bufSize - bytes.length + 2 + 20) 0

/-- What printf finds when it is called with one argument. -/
def passing (word : UInt32) (frame : Frame) : Frame :=
  { frame with word := fun ap => if ap = 0 then word else frame.word (ap - 1) }

/-- How `less` goes on after its rows. -/
inductive Ending where
  | waits
  /-- It prints that this is the end of the file. -/
  | endOfFile
  | killed
  deriving DecidableEq

/-- The loop of `less` over the rows, with the offset of its descriptor; each call of
printf finds something else on the stack. -/
def lessLoop (frames : Nat → Frame) (contents : List UInt8) :
    (rows i : Nat) → UInt32 → List UInt8 × Ending
  | 0, _, _ => ([], .waits)
  | rows + 1, i, off =>
    -- if read fails, the buffer keeps its zeros
    let bytes := (readBytes contents off 80).getD []
    let written := printf (passing 80 (frames i)) (memory bytes)
    if written.alive = false then (written.bytes, .killed)
    else if bytes.length = 0 then (written.bytes, .endOfFile)
    else
      let (rest, ending) :=
        lessLoop frames contents rows (i + 1) (off + UInt32.ofNat bytes.length)
      (written.bytes ++ rest, ending)

/-- `less` on a file. -/
def less (frames : Nat → Frame) (contents : List UInt8) : List UInt8 × Ending :=
  lessLoop frames contents initrow 0 0

/-- The rows of a text. -/
def rowsOf : Nat → List UInt8 → List (List UInt8)
  | 0, _ => []
  | rows + 1, text => text.take bufSize :: rowsOf rows (text.drop bufSize)

/-- What `less` writes is the beginning of the file, whatever is on the stack. -/
def ShowsFile (contents : List UInt8) : Prop :=
  ∀ frames, ∃ ending, ending ≠ .killed ∧
    less frames contents = (contents.take (initrow * bufSize), ending)

/-! ## One row -/

variable {contents : List UInt8}

/-- One round of the loop, in terms of the text that is left. -/
theorem lessLoop_succ
    (frames : Nat → Frame)
    (rows i : Nat)
    (inside : off.toNat ≤ contents.length)
    (small : off.toNat + bufSize < 2 ^ 32) :
    lessLoop frames contents (rows + 1) i off = let row := (contents.drop off.toNat).take bufSize
      let written := printf (passing 80 (frames i)) (memory row)
      if written.alive = false then (written.bytes, .killed)
      else if row.length = 0 then (written.bytes, .endOfFile)
      else
        let (rest, ending) := lessLoop frames contents rows (i + 1) (off + UInt32.ofNat row.length)
        (written.bytes ++ rest, ending) := by
  have read : readBytes contents off 80 = some ((contents.drop off.toNat).take bufSize) := by
    unfold readBytes
    rw [if_neg]
    · rfl
    · rw [not_or, UInt32.lt_iff_toNat_lt, UInt32.toNat_add]
      simp only [UInt32.reduceToNat]
      unfold bufSize at small
      omega
  rw [lessLoop, read]
  rfl

/-- The text that is left after a row. -/
theorem drop_next
    (inside : off.toNat ≤ contents.length)
    (small : off.toNat + bufSize < 2 ^ 32) :
    (off + UInt32.ofNat ((contents.drop off.toNat).take bufSize).length).toNat =
        off.toNat + min bufSize (contents.length - off.toNat) ∧
      contents.drop (off + UInt32.ofNat ((contents.drop off.toNat).take bufSize).length).toNat =
        (contents.drop off.toNat).drop bufSize := by
  have sum : (off + UInt32.ofNat ((contents.drop off.toNat).take bufSize).length).toNat =
      off.toNat + min bufSize (contents.length - off.toNat) := by
    rw [UInt32.toNat_add, UInt32.toNat_ofNat', List.length_take, List.length_drop]
    unfold bufSize at *
    omega
  refine ⟨sum, ?_⟩
  rw [sum, List.drop_drop]
  rcases Nat.le_total bufSize (contents.length - off.toNat) with whole | part
  · rw [min_eq_left whole]
  · rw [min_eq_right part, List.drop_eq_nil_of_le (by omega), List.drop_eq_nil_of_le (by omega)]

theorem memory_eq (bytes : List UInt8) :
    ∃ zeros, memory bytes = bytes ++ 0 :: zeros :=
  ⟨_, rfl⟩

/-! ## All rows -/

/-- Plain rows are written as they are. -/
theorem lessLoop_plain
    (frames : Nat → Frame)
    (rows i : Nat)
    (off : UInt32)
    (nonzero : 0 ∉ contents)
    (inside : off.toNat ≤ contents.length)
    (small : off.toNat + rows * bufSize < 2 ^ 32)
    (plain : ∀ row ∈ rowsOf rows (contents.drop off.toNat), Plain row) :
    ∃ ending, ending ≠ .killed ∧ lessLoop frames contents rows i off =
      ((contents.drop off.toNat).take (rows * bufSize), ending) := by
  induction rows generalizing i off with
  | zero => exact ⟨.waits, nofun, by rw [Nat.zero_mul]; rfl⟩
  | succ rows ih =>
    rw [Nat.succ_mul] at small
    obtain ⟨next, left⟩ := drop_next inside (by omega)
    obtain ⟨zeros, equal⟩ := memory_eq ((contents.drop off.toNat).take bufSize)
    have row := plain _ List.mem_cons_self
    have written := printf_plain
      (fun zero => nonzero (List.mem_of_mem_drop (List.mem_of_mem_take zero))) row
      (passing 80 (frames i)) zeros
    rw [lessLoop_succ frames rows i inside (by omega)]
    dsimp only
    rw [equal, written, if_neg Bool.true_eq_false.mp]
    split
    case isTrue done =>
      have nothing : contents.drop off.toNat = [] := by
        rw [List.length_take, List.length_drop] at done
        rw [List.drop_eq_nil_iff]
        unfold bufSize at done
        omega
      refine ⟨.endOfFile, nofun, ?_⟩
      rw [nothing]
      rfl
    case isFalse more =>
      obtain ⟨ending, alive, rest⟩ := ih (i + 1) _ (by rw [next]; omega) (by rw [next]; omega)
        (by rw [left]; exact fun other member => plain other (List.mem_cons_of_mem _ member))
      refine ⟨ending, alive, ?_⟩
      rw [rest, left, Nat.succ_mul, Nat.add_comm, List.take_add]

theorem passing_eighty : passing 80 eighty = eighty := by
  unfold passing eighty
  simp

/-- The rows of an empty text are empty. -/
theorem rowsOf_nil (member : row ∈ rowsOf rows []) :
    row = [] := by
  induction rows with
  | zero => exact absurd member List.not_mem_nil
  | succ rows ih =>
    rcases List.mem_cons.mp member with rfl | later
    · rfl
    · exact ih later

/-- Two texts, each one no longer than another, are these only if each one is. -/
theorem append_eq_append_of_short {first second whole rest : List UInt8}
    (short : first.length ≤ whole.length)
    (shortToo : second.length ≤ rest.length)
    (same : first ++ second = whole ++ rest) :
    first = whole ∧ second = rest := by
  have lengths := congrArg List.length same
  rw [List.length_append, List.length_append] at lengths
  exact List.append_inj same (by omega)

/-- With the number 80 everywhere on the stack, what is written is the text only if its
rows are plain. -/
theorem lessLoop_eighty
    (rows i : Nat)
    (off : UInt32)
    (nonzero : 0 ∉ contents)
    (inside : off.toNat ≤ contents.length)
    (small : off.toNat + rows * bufSize < 2 ^ 32) :
    (lessLoop (fun _ => eighty) contents rows i off).1.length ≤
        ((contents.drop off.toNat).take (rows * bufSize)).length ∧
      ((lessLoop (fun _ => eighty) contents rows i off).1 =
        (contents.drop off.toNat).take (rows * bufSize) →
        ∀ row ∈ rowsOf rows (contents.drop off.toNat), Plain row) := by
  induction rows generalizing i off with
  | zero => exact ⟨Nat.zero_le _, nofun⟩
  | succ rows ih =>
    rw [Nat.succ_mul] at small
    obtain ⟨next, left⟩ := drop_next inside (by omega)
    obtain ⟨zeros, equal⟩ := memory_eq ((contents.drop off.toNat).take bufSize)
    have nonzeroRow : 0 ∉ (contents.drop off.toNat).take bufSize :=
      fun zero => nonzero (List.mem_of_mem_drop (List.mem_of_mem_take zero))
    have fair := printf_eighty nonzeroRow zeros
    have split : (contents.drop off.toNat).take ((rows + 1) * bufSize) =
        (contents.drop off.toNat).take bufSize ++
          ((contents.drop off.toNat).drop bufSize).take (rows * bufSize) := by
      rw [Nat.succ_mul, Nat.add_comm, List.take_add]
    obtain ⟨shortRest, plainRest⟩ := ih (i + 1)
      (off + UInt32.ofNat ((contents.drop off.toNat).take bufSize).length)
      (by rw [next]; omega) (by rw [next]; omega)
    rw [left] at shortRest plainRest
    rw [split, lessLoop_succ _ rows i inside (by omega)]
    dsimp only
    rw [passing_eighty, equal, fair.alive, if_neg Bool.true_eq_false.mp]
    split
    case isTrue done =>
      have nothing : contents.drop off.toNat = [] := by
        rw [List.length_take, List.length_drop] at done
        rw [List.drop_eq_nil_iff]
        unfold bufSize at done
        omega
      refine ⟨fair.short.trans ?_, fun _ row member => ?_⟩
      · rw [List.length_append]
        exact Nat.le_add_right _ _
      · rw [nothing] at member
        rw [rowsOf_nil member]
        trivial
    case isFalse more =>
      dsimp only
      refine ⟨?_, fun same => ?_⟩
      · rw [List.length_append, List.length_append]
        exact Nat.add_le_add fair.short shortRest
      · obtain ⟨sameRow, sameRest⟩ := append_eq_append_of_short fair.short shortRest same
        intro row member
        rcases List.mem_cons.mp member with rfl | later
        · exact fair.plain sameRow
        · exact plainRest sameRest row later

/-- `less` shows every file without a NUL as it is if and only if, in each of its first
23 rows of 80 bytes, every `%` is followed by a character that means nothing to printf. -/
theorem less_shows_file_iff
    (contents : List UInt8)
    (text : 0 ∉ contents) :
    ShowsFile contents ↔ ∀ row ∈ rowsOf initrow contents, Plain row := by
  constructor
  · intro shows
    obtain ⟨ending, _, equal⟩ := shows fun _ => eighty
    exact (lessLoop_eighty initrow 0 0 text (Nat.zero_le _) (by decide)).2 (congrArg Prod.fst equal)
  · intro plain frames
    exact lessLoop_plain frames initrow 0 0 text (Nat.zero_le _) (by decide) plain

/-- A line with a `%` that means nothing. -/
theorem less_shows_percent :
    0 ∉ ['5'.toUInt8, '%'.toUInt8, ' '.toUInt8] ∧
      ShowsFile ['5'.toUInt8, '%'.toUInt8, ' '.toUInt8] :=
  ⟨by decide, (less_shows_file_iff ['5'.toUInt8, '%'.toUInt8, ' '.toUInt8] (by decide)).mpr
    (by decide)⟩

/-- Of `5%%` only `5%` is shown, whatever is on the stack. -/
theorem less_drops_percent :
    0 ∉ ['5'.toUInt8, '%'.toUInt8, '%'.toUInt8] ∧
      ∀ frames, less frames ['5'.toUInt8, '%'.toUInt8, '%'.toUInt8] =
        (['5'.toUInt8, '%'.toUInt8], .endOfFile) :=
  ⟨by decide, fun _ => rfl⟩

end Less
end Xv6
