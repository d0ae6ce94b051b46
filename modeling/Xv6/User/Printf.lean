import Xv6.Params

/-!
# printf

The printf of printf.c: a format interpreter with two states that takes the
words after its format off the stack, whether its caller has passed them or
not.  The format is the memory from its first byte on, up to a NUL.  All bytes
go to a descriptor that takes them.
-/

namespace Xv6
namespace Printf

/-- What printf finds besides its format. -/
structure Frame where
  word : Nat → UInt32
  /-- The bytes at an address up to the next NUL, and whether there is one before
  memory that the process cannot read. -/
  string : UInt32 → List UInt8 × Bool

/-- What a process has written, and whether it has survived. -/
structure Written where
  bytes : List UInt8
  alive : Bool
  deriving DecidableEq

/-- Bytes that are written before others. -/
def Written.after (bytes : List UInt8) (rest : Written) : Written :=
  { rest with bytes := bytes ++ rest.bytes }

/-- An entry of `digits`. -/
def digit (value : Nat) : UInt8 :=
  if value < 10 then UInt8.ofNat (48 + value) else UInt8.ofNat (55 + value)

/-- The loops of `printint`: the digits of a number, the last one found first. -/
def intDigits (base : Nat) : (fuel x : Nat) → List UInt8
  | 0, _ => []
  | fuel + 1, x =>
    if x / base = 0 then [digit (x % base)]
    else intDigits base fuel (x / base) ++ [digit (x % base)]

/-- `printint`; a number of 32 bits has at most 16 digits and a sign. -/
def printint (xx : UInt32) (base : Nat) (sgn : Bool) : List UInt8 :=
  if sgn ∧ asInt xx < 0 then '-'.toUInt8 :: intDigits base 16 (2 ^ 32 - xx.toNat)
  else intDigits base 16 xx.toNat

/-- What `printf` writes instead of the string at 0. -/
def nullText : List UInt8 := ['('.toUInt8, 'n'.toUInt8, 'u'.toUInt8, 'l'.toUInt8, 'l'.toUInt8,
  ')'.toUInt8]

/-- What `%s` writes for a word. -/
def stringAt (frame : Frame) (word : UInt32) : List UInt8 × Bool :=
  if word = 0 then (nullText, true) else frame.string word

/-- The loop of `printf`, with its state, the number of words it has taken, and the
memory from the current character on. -/
def loop (frame : Frame) : (percent : Bool) → (ap : Nat) → List UInt8 → Written
  | _, _, [] => ⟨[], true⟩
  | false, ap, c :: rest =>
    if c = 0 then ⟨[], true⟩
    else if c = '%'.toUInt8 then loop frame true ap rest
    else (loop frame false ap rest).after [c]
  | true, ap, c :: rest =>
    if c = 0 then ⟨[], true⟩
    else if c = 'd'.toUInt8 then
      (loop frame false (ap + 1) rest).after (printint (frame.word ap) 10 true)
    else if c = 'x'.toUInt8 ∨ c = 'p'.toUInt8 then
      (loop frame false (ap + 1) rest).after (printint (frame.word ap) 16 false)
    else if c = 's'.toUInt8 then
      if (stringAt frame (frame.word ap)).2 then
        (loop frame false (ap + 1) rest).after (stringAt frame (frame.word ap)).1
      else ⟨(stringAt frame (frame.word ap)).1, false⟩
    else if c = 'c'.toUInt8 then
      (loop frame false (ap + 1) rest).after [(frame.word ap).toUInt8]
    else if c = '%'.toUInt8 then (loop frame false ap rest).after [c]
    else (loop frame false ap rest).after ['%'.toUInt8, c]

/-- `printf` on a format in memory. -/
def printf (frame : Frame) (fmt : List UInt8) : Written := loop frame false 0 fmt

/-- The characters that mean something after `%`. -/
def conversions : List UInt8 :=
  ['d'.toUInt8, 'x'.toUInt8, 'p'.toUInt8, 's'.toUInt8, 'c'.toUInt8, '%'.toUInt8]

/-- Every `%` is followed by a character that means nothing after it. -/
def Plain : List UInt8 → Prop
  | [] => True
  | c :: rest =>
    (c = '%'.toUInt8 → rest.head?.any (· ∉ conversions) = true) ∧ Plain rest

instance Plain.decidable : (text : List UInt8) → Decidable (Plain text)
  | [] => .isTrue trivial
  | _ :: rest =>
    have := Plain.decidable rest
    inferInstanceAs (Decidable (_ ∧ _))

/-! ## What comes out as it is -/

theorem plain_percent_cons (next : UInt8) (rest : List UInt8) :
    Plain ('%'.toUInt8 :: next :: rest) ↔ next ∉ conversions ∧ Plain rest := by
  have percent : '%'.toUInt8 ∈ conversions := by decide
  simp only [Plain, forall_const, List.head?_cons, Option.any_some, decide_eq_true_eq]
  constructor
  · exact fun ⟨other, _, plain⟩ => ⟨other, plain⟩
  · rintro ⟨other, plain⟩
    refine ⟨other, fun same => ?_, plain⟩
    exact absurd (same ▸ percent) other

theorem plain_cons_of_ne
    (other : c ≠ '%'.toUInt8)
    (rest : List UInt8) :
    Plain (c :: rest) ↔ Plain rest := by
  simp only [Plain, other, IsEmpty.forall_iff, true_and]

/-- The loop after `%` on a character that means nothing after it. -/
theorem loop_other
    (nonzero : c ≠ 0)
    (other : c ∉ conversions)
    (frame : Frame)
    (ap : Nat)
    (rest : List UInt8) :
    loop frame true ap (c :: rest) = (loop frame false ap rest).after ['%'.toUInt8, c] := by
  simp only [conversions, List.mem_cons, List.not_mem_nil, or_false, not_or] at other
  obtain ⟨d, x, p, s, char, percent⟩ := other
  simp only [loop, nonzero, d, x, p, s, char, percent, or_self, if_false]

/-- A plain text is written as it is, whatever is on the stack. -/
theorem loop_plain
    (frame : Frame)
    (ap : Nat)
    (text zeros : List UInt8)
    (nonzero : 0 ∉ text) :
    (Plain text → loop frame false ap (text ++ 0 :: zeros) = ⟨text, true⟩) ∧
      (Plain ('%'.toUInt8 :: text) →
        loop frame true ap (text ++ 0 :: zeros) = ⟨'%'.toUInt8 :: text, true⟩) := by
  induction text generalizing ap with
  | nil => exact ⟨fun _ => rfl, fun plain => nomatch plain.1 rfl⟩
  | cons c rest ih =>
    rw [List.mem_cons, not_or] at nonzero
    obtain ⟨nonzeroHead, nonzeroRest⟩ := nonzero
    have head : c ≠ 0 := Ne.symm nonzeroHead
    refine ⟨fun plain => ?_, fun plain => ?_⟩
    · rw [List.cons_append, loop, if_neg head]
      split
      case isTrue percent =>
        rw [percent] at plain ⊢
        exact (ih ap nonzeroRest).2 plain
      case isFalse other =>
        rw [plain_cons_of_ne other] at plain
        rw [(ih ap nonzeroRest).1 plain]
        rfl
    · rw [plain_percent_cons] at plain
      rw [List.cons_append, loop_other head plain.1, (ih ap nonzeroRest).1 plain.2]
      rfl

/-- printf writes a plain text that a NUL follows as it is. -/
theorem printf_plain
    (nonzero : 0 ∉ text)
    (plain : Plain text)
    (frame : Frame)
    (zeros : List UInt8) :
    printf frame (text ++ 0 :: zeros) = ⟨text, true⟩ :=
  (loop_plain frame 0 text zeros nonzero).1 plain

/-! ## What does not -/

/-- Every word on the stack is 80, and the string there is empty. -/
def eighty : Frame where
  word _ := 80
  string _ := ([], true)

/-- What is written is no longer than a text, and is the text only if that is plain. -/
structure Fair (text : List UInt8) (written : Written) : Prop where
  /-- No fault has stopped the process. -/
  alive : written.alive = true
  /-- What is written is not longer. -/
  short : written.bytes.length ≤ text.length
  /-- The text is written as it is only if it is plain. -/
  plain : written.bytes = text → Plain text

namespace Fair

variable {rest : List UInt8} {written : Written} {c : UInt8}

/-- A conversion that writes at most two bytes, and not itself. -/
theorem conversion
    (fair : Fair rest written)
    (bytes : List UInt8)
    (short : bytes.length ≤ 2)
    (changed : bytes ≠ ['%'.toUInt8, c]) :
    Fair ('%'.toUInt8 :: c :: rest) (written.after bytes) where
  alive := fair.alive
  short := by
    have := fair.short
    simp only [Written.after, List.length_append, List.length_cons]
    omega
  plain := by
    intro same
    have equal : bytes ++ written.bytes = ['%'.toUInt8, c] ++ rest := same
    have lengths := congrArg List.length equal
    have := fair.short
    simp only [List.length_append, List.length_cons, List.length_nil] at lengths
    exact absurd (List.append_inj_left equal (by simp only [List.length_cons, List.length_nil]; omega))
      changed

/-- A character that is written as it is. -/
theorem cons
    (fair : Fair rest written)
    (other : c ≠ '%'.toUInt8) :
    Fair (c :: rest) (written.after [c]) where
  alive := fair.alive
  short := Nat.succ_le_succ fair.short
  plain same := (plain_cons_of_ne other rest).mpr (fair.plain (List.cons.inj same).2)

/-- A character after `%` that is written with it. -/
theorem unknown
    (fair : Fair rest written)
    (other : c ∉ conversions) :
    Fair ('%'.toUInt8 :: c :: rest) (written.after ['%'.toUInt8, c]) where
  alive := fair.alive
  short := Nat.succ_le_succ (Nat.succ_le_succ fair.short)
  plain same := (plain_percent_cons c rest).mpr
    ⟨other, fair.plain (List.cons.inj (List.cons.inj same).2).2⟩

end Fair

/-- With such a stack, what printf writes is fair to its format. -/
theorem loop_eighty
    (ap : Nat)
    (text zeros : List UInt8)
    (nonzero : 0 ∉ text) :
    Fair text (loop eighty false ap (text ++ 0 :: zeros)) ∧
      Fair ('%'.toUInt8 :: text) (loop eighty true ap (text ++ 0 :: zeros)) := by
  induction text generalizing ap with
  | nil => exact ⟨⟨rfl, le_rfl, fun _ => trivial⟩, rfl, Nat.zero_le _, nofun⟩
  | cons c rest ih =>
    rw [List.mem_cons, not_or] at nonzero
    obtain ⟨nonzeroHead, nonzeroRest⟩ := nonzero
    have head : c ≠ 0 := Ne.symm nonzeroHead
    have taken := (ih (ap + 1) nonzeroRest).1
    refine ⟨?_, ?_⟩
    · rw [List.cons_append, loop, if_neg head]
      split
      case isTrue percent =>
        rw [percent]
        exact (ih ap nonzeroRest).2
      case isFalse other => exact .cons (ih ap nonzeroRest).1 other
    by_cases other : c ∉ conversions
    · rw [List.cons_append, loop_other head other]
      exact .unknown (ih ap nonzeroRest).1 other
    rw [not_not] at other
    simp only [conversions, List.mem_cons, List.not_mem_nil, or_false] at other
    rcases other with rfl | rfl | rfl | rfl | rfl | rfl
    · exact taken.conversion (printint 80 10 true) (by decide) (by decide)
    · exact taken.conversion (printint 80 16 false) (by decide) (by decide)
    · exact taken.conversion (printint 80 16 false) (by decide) (by decide)
    · exact taken.conversion [] (by decide) (by decide)
    · exact taken.conversion [80] (by decide) (by decide)
    · exact (ih ap nonzeroRest).1.conversion ['%'.toUInt8] (by decide) (by decide)

/-- printf on such a stack. -/
theorem printf_eighty
    (nonzero : 0 ∉ text)
    (zeros : List UInt8) :
    Fair text (printf eighty (text ++ 0 :: zeros)) :=
  (loop_eighty 0 text zeros nonzero).1

end Printf
end Xv6
