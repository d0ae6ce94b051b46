import Xv6.Params

/-!
# The size argument of truncate

How `main` of truncate.c reads its size argument and computes the size that it
passes on.  All numbers of the program are 32-bit ints.  A C string is the list
of its bytes, without the NUL.
-/

namespace Xv6
namespace Truncate

/-- `strchr`: the place of a byte in a string. -/
def strchr (s : List UInt8) (c : UInt8) : Option Nat := s.findIdx? (· == c)

/-- The loop of `atoi`. -/
def atoiLoop (n : Int32) : List UInt8 → Int32
  | [] => n
  | c :: rest =>
    if '0'.toUInt8 ≤ c ∧ c ≤ '9'.toUInt8 then
      atoiLoop (n * 10 + Int32.ofNat c.toNat - 48) rest
    else n

/-- `atoi`. -/
def atoi (s : List UInt8) : Int32 := atoiLoop 0 s

/-- What the argument asks for. -/
inductive Mode where
  | add
  | substract
  | change
  deriving DecidableEq

/-- `main` looks for a sign, anywhere in the argument, and steps over the first
character if there is one. -/
def sign (arg : List UInt8) : List UInt8 × Mode :=
  if (strchr arg '+'.toUInt8).isSome then (arg.drop 1, .add)
  else if (strchr arg '-'.toUInt8).isSome then (arg.drop 1, .substract)
  else (arg, .change)

/-- `main` looks for a suffix and ends the string there. -/
def multiplier (charsize : List UInt8) : List UInt8 × Int32 :=
  match strchr charsize 'K'.toUInt8 with
  | some temp => (charsize.take temp, 1024)
  | none =>
    match strchr charsize 'M'.toUInt8 with
    | some temp => (charsize.take temp, 1024 * 1024)
    | none =>
      match strchr charsize 'G'.toUInt8 with
      | some temp => (charsize.take temp, 1024 * 1024 * 1024)
      | none => (charsize, 1)

/-- The size that `main` passes to `truncate`, for a file whose size is `st.size`. -/
def newSize (arg : List UInt8) (stSize : UInt32) : Int32 :=
  let (charsize, mode) := sign arg
  let (charsize, multiplier) := multiplier charsize
  let size := stSize.toInt32
  match mode with
  | .add => size + atoi charsize * multiplier
  | .substract =>
    let size := size - atoi charsize * multiplier
    if size < 0 then 0 else size
  | .change => atoi charsize * multiplier

/-! ## Arguments -/

/-- A sign of the argument. -/
inductive Sign where
  | plus
  | minus
  deriving DecidableEq

/-- A suffix of the argument. -/
inductive Suffix where
  | kilo
  | mega
  | giga
  deriving DecidableEq

/-- An argument of the form `sign? digits suffix?`. -/
structure SizeArg where
  sign : Option Sign
  digits : List (Fin 10)
  suffix : Option Suffix
  deriving DecidableEq

/-- The character of a sign. -/
def Sign.char : Sign → UInt8
  | .plus => '+'.toUInt8
  | .minus => '-'.toUInt8

/-- The character of a suffix. -/
def Suffix.char : Suffix → UInt8
  | .kilo => 'K'.toUInt8
  | .mega => 'M'.toUInt8
  | .giga => 'G'.toUInt8

/-- What a suffix stands for. -/
def Suffix.factor : Suffix → Nat
  | .kilo => 1024
  | .mega => 1024 ^ 2
  | .giga => 1024 ^ 3

/-- The character of a digit. -/
def digitChar (digit : Fin 10) : UInt8 := UInt8.ofNat (48 + digit)

/-- The number that digits stand for. -/
def decimal (digits : List (Fin 10)) : Nat :=
  digits.foldl (fun number (digit : Fin 10) => number * 10 + digit) 0

namespace SizeArg

/-- The text after the sign. -/
def rest (arg : SizeArg) : List UInt8 :=
  arg.digits.map digitChar ++ (arg.suffix.map Suffix.char).toList

/-- The argument as a string. -/
def text (arg : SizeArg) : List UInt8 := (arg.sign.map Sign.char).toList ++ arg.rest

/-- The number that the argument stands for. -/
def value (arg : SizeArg) : Nat := decimal arg.digits * (arg.suffix.map Suffix.factor).getD 1

/-- The size that the user asks for. -/
def wanted (arg : SizeArg) (current : Nat) : Int :=
  match arg.sign with
  | some .plus => current + arg.value
  | some .minus => max 0 (current - arg.value)
  | none => arg.value

/-- The size fits into an int or, when a number is subtracted, its 32-bit
difference from the current size is not positive unless the difference is. -/
def Fits (arg : SizeArg) (current : Nat) : Prop :=
  match arg.sign with
  | some .plus => current + arg.value < 2 ^ 31
  | some .minus => arg.value ≤ current ∨ ((current : Int) - arg.value).bmod (2 ^ 32) ≤ 0
  | none => arg.value < 2 ^ 31

end SizeArg

/-! ## Reading the argument -/

theorem strchr_eq_none (absent : c ∉ s) :
    strchr s c = none := by
  rw [strchr, List.findIdx?_eq_none_iff]
  intro other member
  rw [beq_eq_false_iff_ne]
  rintro rfl
  exact absent member

/-- The first occurrence of a byte that follows others. -/
theorem strchr_append (absent : c ∉ s) :
    strchr (s ++ c :: rest) c = some s.length := by
  rw [strchr, List.findIdx?_append, ← strchr, strchr_eq_none absent]
  simp [List.findIdx?_cons]

theorem digitChar_range (digit : Fin 10) : 48 ≤ digitChar digit ∧ digitChar digit ≤ 57 := by
  revert digit
  decide

/-- A character that is not a digit does not occur among digits. -/
theorem not_mem_digits
    (other : c < 48 ∨ 57 < c)
    (digits : List (Fin 10)) :
    c ∉ digits.map digitChar := by
  intro member
  obtain ⟨digit, _, rfl⟩ := List.mem_map.mp member
  have range := digitChar_range digit
  simp only [UInt8.lt_iff_toNat_lt, UInt8.le_iff_toNat_le] at *
  omega

/-- `atoi` reads digits as their number, as far as 32 bits go. -/
theorem atoiLoop_digits
    (number : Nat)
    (digits : List (Fin 10)) :
    atoiLoop (Int32.ofNat number) (digits.map digitChar) = Int32.ofNat
        (digits.foldl (fun number (digit : Fin 10) => number * 10 + digit) number) := by
  induction digits generalizing number with
  | nil => rfl
  | cons digit rest ih =>
    have char : (digitChar digit).toNat = 48 + digit := by
      revert digit
      decide
    have next : Int32.ofNat number * 10 + Int32.ofNat (digitChar digit).toNat - 48 =
        Int32.ofNat (number * 10 + digit) := by
      rw [char, Int32.ofNat_add, Int32.ofNat_add, Int32.ofNat_mul, Int32.add_comm (.ofNat 48),
        ← Int32.add_assoc]
      exact Int32.add_sub_cancel _ _
    have digits : '0'.toUInt8 ≤ digitChar digit ∧ digitChar digit ≤ '9'.toUInt8 :=
      digitChar_range digit
    rw [List.map_cons, atoiLoop, if_pos digits, next, ih, List.foldl_cons]

theorem atoi_digits (digits : List (Fin 10)) :
    atoi (digits.map digitChar) = Int32.ofNat (decimal digits) :=
  atoiLoop_digits 0 digits

/-- `main` finds the sign. -/
theorem sign_text (arg : SizeArg) :
    sign arg.text = (arg.rest, match arg.sign with
      | some .plus => .add
      | some .minus => .substract
      | none => .change) := by
  have absent : ∀ c : UInt8, c < 48 → c ∉ arg.rest := by
    intro c low
    rw [SizeArg.rest, List.mem_append, not_or]
    refine ⟨not_mem_digits (.inl low) arg.digits, fun member => ?_⟩
    rw [Option.mem_toList, Option.map_eq_some_iff] at member
    obtain ⟨suffix, _, rfl⟩ := member
    revert low
    cases suffix <;> decide
  have plus := absent '+'.toUInt8 (by decide)
  have minus := absent '-'.toUInt8 (by decide)
  unfold sign SizeArg.text
  cases arg.sign with
  | none =>
    simp only [Option.map_none, Option.toList_none, List.nil_append, strchr_eq_none plus,
      strchr_eq_none minus, Option.isSome_none, Bool.false_eq_true, if_false]
  | some sign =>
    cases sign with
    | plus =>
      have found : strchr ('+'.toUInt8 :: arg.rest) '+'.toUInt8 = some 0 :=
        strchr_append List.not_mem_nil
      simp only [Option.map_some, Option.toList_some, List.cons_append, List.nil_append,
        Sign.char, found, Option.isSome_some, if_true, List.drop_one, List.tail_cons]
    | minus =>
      have other : strchr ('-'.toUInt8 :: arg.rest) '+'.toUInt8 = none := by
        refine strchr_eq_none fun member => ?_
        rcases List.mem_cons.mp member with impossible | member
        · exact absurd impossible (by decide)
        · exact plus member
      have found : strchr ('-'.toUInt8 :: arg.rest) '-'.toUInt8 = some 0 :=
        strchr_append List.not_mem_nil
      simp only [Option.map_some, Option.toList_some, List.cons_append, List.nil_append,
        Sign.char, other, found, Option.isSome_some, Option.isSome_none, Bool.false_eq_true,
        if_false, if_true, List.drop_one, List.tail_cons]

/-- `main` finds the suffix and cuts it off. -/
theorem multiplier_rest (arg : SizeArg) :
    multiplier arg.rest = (arg.digits.map digitChar,
      Int32.ofNat ((arg.suffix.map Suffix.factor).getD 1)) := by
  have absent : ∀ c : UInt8, 57 < c → c ∉ arg.digits.map digitChar :=
    fun c high => not_mem_digits (.inr high) arg.digits
  have kilo := absent 'K'.toUInt8 (by decide)
  have mega := absent 'M'.toUInt8 (by decide)
  have giga := absent 'G'.toUInt8 (by decide)
  -- another suffix than the one that is looked for
  have other : ∀ c d : UInt8, c ∉ arg.digits.map digitChar → c ≠ d →
      strchr (arg.digits.map digitChar ++ [d]) c = none := by
    intro c d missing different
    refine strchr_eq_none fun member => ?_
    rcases List.mem_append.mp member with member | member
    · exact missing member
    · exact different (List.mem_singleton.mp member)
  have found : ∀ c : UInt8, c ∉ arg.digits.map digitChar →
      strchr (arg.digits.map digitChar ++ [c]) c = some (arg.digits.map digitChar).length :=
    fun c missing => strchr_append missing
  have cut : ∀ c : UInt8, (arg.digits.map digitChar ++ [c]).take
      (arg.digits.map digitChar).length = arg.digits.map digitChar :=
    fun c => List.take_left
  unfold multiplier SizeArg.rest
  cases arg.suffix with
  | none =>
    simp only [Option.map_none, Option.toList_none, List.append_nil, strchr_eq_none kilo,
      strchr_eq_none mega, strchr_eq_none giga]
    rfl
  | some suffix =>
    cases suffix with
    | kilo =>
      simp only [Option.map_some, Option.toList_some, Suffix.char, found _ kilo, cut]
      rfl
    | mega =>
      simp only [Option.map_some, Option.toList_some, Suffix.char,
        other _ 'M'.toUInt8 kilo (by decide), found _ mega, cut]
      rfl
    | giga =>
      simp only [Option.map_some, Option.toList_some, Suffix.char,
        other _ 'G'.toUInt8 kilo (by decide), other _ 'G'.toUInt8 mega (by decide),
        found _ giga, cut]
      rfl

/-! ## The size -/

/-- The size that `main` computes, with the sum and the difference wrapped around at
32 bits. -/
theorem newSize_text
    (arg : SizeArg)
    (current : UInt32) :
    newSize arg.text current = match arg.sign with
      | some .plus => Int32.ofInt (current.toNat + arg.value)
      | some .minus =>
        if Int32.ofInt (current.toNat - arg.value) < 0 then 0
        else Int32.ofInt (current.toNat - arg.value)
      | none => Int32.ofInt arg.value := by
  have size : current.toInt32 = Int32.ofInt current.toNat := by
    refine Int32.toBitVec.inj ?_
    rw [UInt32.toBitVec_toInt32, Int32.toBitVec_ofInt, BitVec.ofInt_natCast]
    exact (BitVec.ofNat_toNat _ _).trans (BitVec.setWidth_eq _) |>.symm
  have product : atoi (arg.digits.map digitChar) *
      Int32.ofNat ((arg.suffix.map Suffix.factor).getD 1) = Int32.ofInt arg.value := by
    rw [atoi_digits, ← Int32.ofNat_mul]
    rfl
  unfold newSize
  rw [sign_text]
  simp only [multiplier_rest, product, size]
  cases arg.sign with
  | none => rfl
  | some sign =>
    cases sign with
    | plus => exact (Int32.ofInt_add _ _).symm
    | minus => simp only [Int32.ofInt_sub]

/-- A number that is not negative survives the wrap exactly if it is below 2^31. -/
theorem toInt_ofInt_eq_iff (number : Nat) :
    (Int32.ofInt number).toInt = number ↔ number < 2 ^ 31 := by
  rw [Int32.toInt_ofInt, Int.bmod_eq_iff (by decide)]
  unfold Int32.size
  omega

/-- For every size argument and every size of a file, `main` passes the size that the
user asks for to `truncate` if and only if that size, or the 32-bit difference, fits. -/
theorem newSize_eq_wanted_iff
    (arg : SizeArg)
    (current : UInt32)
    (file : current.toNat ≤ MAXFILE * BSIZE) :
    (newSize arg.text current).toInt = arg.wanted current.toNat ↔ arg.Fits current.toNat := by
  rw [newSize_text]
  unfold SizeArg.wanted SizeArg.Fits
  cases arg.sign with
  | none => exact toInt_ofInt_eq_iff arg.value
  | some sign =>
    cases sign with
    | plus => exact toInt_ofInt_eq_iff (current.toNat + arg.value)
    | minus =>
      have wrapped : (Int32.ofInt (current.toNat - arg.value)).toInt =
          ((current.toNat : Int) - arg.value).bmod (2 ^ 32) := Int32.toInt_ofInt
      dsimp only
      split
      case isTrue negative =>
        rw [Int32.lt_iff_toInt_lt, wrapped, Int32.toInt_zero] at negative
        -- the clamp applies
        rw [Int32.toInt_zero, eq_comm, max_eq_left_iff]
        refine iff_of_true ?_ (.inr negative.le)
        by_contra positive
        have same : ((current.toNat : Int) - arg.value).bmod (2 ^ 32) =
            current.toNat - arg.value := by
          refine Int.bmod_eq_of_le (by omega) ?_
          unfold MAXFILE NDIRECT NINDIRECT BSIZE at file
          omega
        omega
      case isFalse nonnegative =>
        rw [Int32.lt_iff_toInt_lt, wrapped, Int32.toInt_zero] at nonnegative
        rw [wrapped]
        rcases Nat.lt_or_ge current.toNat arg.value with larger | smaller
        · rw [max_eq_left (by omega)]
          omega
        · rw [max_eq_right (by omega)]
          refine iff_of_true (Int.bmod_eq_of_le (by omega) ?_) (.inl smaller)
          unfold MAXFILE NDIRECT NINDIRECT BSIZE at file
          omega

/-- `+1K` on a file of 100 bytes. -/
theorem newSize_eq_wanted_kilobyte :
    (100 : UInt32).toNat ≤ MAXFILE * BSIZE ∧
      (newSize (SizeArg.mk (some .plus) [1] (some .kilo)).text 100).toInt = 1124 :=
  ⟨by decide, (newSize_eq_wanted_iff ⟨some .plus, [1], some .kilo⟩ 100 (by decide)).mpr
    (show (100 : Nat) + 1024 < 2 ^ 31 by decide)⟩

/-- `4G`. -/
def fourGiga : SizeArg := ⟨none, [4], some .giga⟩

/-- `+2G`. -/
def twoGigaMore : SizeArg := ⟨some .plus, [2], some .giga⟩

/-- `-3G`. -/
def threeGigaLess : SizeArg := ⟨some .minus, [3], some .giga⟩

/-- On a file of 100 bytes, `4G` empties it, `+2G` asks for a negative size, and `-3G`
makes it larger. -/
theorem newSize_overflows :
    ((newSize fourGiga.text 100).toInt = 0 ∧ fourGiga.wanted 100 = 4 * 1024 ^ 3) ∧
      ((newSize twoGigaMore.text 100).toInt = -2147483548 ∧
        twoGigaMore.wanted 100 = 100 + 2 * 1024 ^ 3) ∧
      (newSize threeGigaLess.text 100).toInt = 1073741924 ∧ threeGigaLess.wanted 100 = 0 := by
  decide

end Truncate
end Xv6
