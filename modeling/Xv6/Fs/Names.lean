import Mathlib.Data.List.TakeWhile
import Xv6.Fs.Dir

/-!
# Names and paths

`namecmp` compares the first characters of two strings, `strncpy` writes them
into the field of a directory entry, and `skipelem` takes the elements off a
path.
-/

namespace Xv6

open Cells

/-! ## Comparing and copying -/

@[simp] theorem length_strncpy (name : List UInt8) (n : Nat) :
    (strncpy name n).length = n := by
  induction n generalizing name with
  | zero => rfl
  | succ n ih =>
    unfold strncpy
    split
    · rw [List.length_replicate]
    · rw [List.length_cons, ih]

/-- Two strings compare equal exactly if they are copied to the same field. -/
theorem strncmp_eq_zero_iff (n : Nat) (p q : List UInt8) :
    strncmp n p q = 0 ↔ strncpy p n = strncpy q n := by
  induction n generalizing p q with
  | zero => simp [strncmp, strncpy]
  | succ n ih =>
    unfold strncmp strncpy
    by_cases ends : p.headD 0 = 0
    · rw [if_neg (fun both => both.1 ends), if_pos ends, ends]
      by_cases otherEnds : q.headD 0 = 0
      · rw [if_pos otherEnds, otherEnds]
        simp
      · rw [if_neg otherEnds, List.replicate_succ]
        have different : (q.headD 0).toNat ≠ 0 := fun zero =>
          otherEnds (UInt8.toNat.inj zero)
        simp only [List.cons.injEq, Ne.symm otherEnds, false_and, iff_false]
        have zero : (0 : UInt8).toNat = 0 := rfl
        omega
    · by_cases same : p.headD 0 = q.headD 0
      · have otherEnds : ¬q.headD 0 = 0 := by rwa [← same]
        rw [if_pos ⟨ends, same⟩, if_neg ends, if_neg otherEnds, same, ih]
        simp
      have different : (p.headD 0).toNat ≠ (q.headD 0).toNat := fun equal =>
        same (UInt8.toNat.inj equal)
      rw [if_neg (fun both => same both.2), if_neg ends]
      constructor
      · intro zero
        omega
      · split
        · rw [List.replicate_succ]
          intro equal
          exact absurd (List.cons.inj equal).1 ends
        · intro equal
          exact absurd (List.cons.inj equal).1 same

/-- A string without zeros is copied and filled up. -/
theorem strncpy_eq
    (string : 0 ∉ name)
    (n : Nat) :
    strncpy name n = name.take n ++ List.replicate (n - name.length) 0 := by
  induction n generalizing name with
  | zero => simp [strncpy]
  | succ n ih =>
    unfold strncpy
    cases name with
    | nil => simp
    | cons char rest =>
      obtain ⟨nonzero, restString⟩ := not_or.mp (mt List.mem_cons.mpr string)
      rw [List.headD_cons, if_neg (Ne.symm nonzero), List.tail_cons,
        ih restString, List.take_succ_cons, List.length_cons,
        Nat.succ_sub_succ, List.cons_append]

theorem strncpy_take
    (string : 0 ∉ name)
    (n : Nat) :
    strncpy (name.take n) n = strncpy name n := by
  have takenString : 0 ∉ name.take n := fun member =>
    string (List.mem_of_mem_take member)
  rw [strncpy_eq takenString, strncpy_eq string, List.take_take, Nat.min_self, List.length_take]
  congr 2
  omega

/-- Copying a field again changes nothing. -/
theorem strncpy_strncpy (name : List UInt8) (n : Nat) :
    strncpy (strncpy name n) n = strncpy name n := by
  induction n generalizing name with
  | zero => rfl
  | succ n ih =>
    by_cases ends : name.headD 0 = 0
    · have field : strncpy name (n + 1) = List.replicate (n + 1) 0 := by
        rw [strncpy, if_pos ends]
      rw [field, List.replicate_succ, strncpy, List.headD_cons, if_pos rfl, List.replicate_succ]
    · have field : strncpy name (n + 1) = name.headD 0 :: strncpy name.tail n := by
        rw [strncpy, if_neg ends]
      rw [field, strncpy, List.headD_cons, if_neg ends, List.tail_cons, ih]

/-- Strings without zeros are copied to the same field exactly if their first
characters are the same. -/
theorem strncpy_inj
    (string : 0 ∉ name)
    (otherString : 0 ∉ other)
    (n : Nat) :
    strncpy name n = strncpy other n ↔ name.take n = other.take n := by
  constructor
  · intro same
    -- The first zero of the field marks the end of both strings.
    have read : ∀ string : List UInt8, 0 ∉ string →
        (strncpy string n).takeWhile (· != 0) = string.take n := by
      intro string noZero
      rw [strncpy_eq noZero, List.takeWhile_append_of_pos]
      · cases n - string.length <;> simp [List.replicate_succ]
      · intro char member
        have : char ≠ 0 := by
          rintro rfl
          exact noZero (List.mem_of_mem_take member)
        simpa using this
    rw [← read name string, ← read other otherString, same]
  · intro same
    rw [← strncpy_take string, ← strncpy_take otherString, same]

/-- `namecmp` of a name with the name field of an entry. -/
theorem namecmp_field_eq_zero_iff {name other : Name}
    (string : 0 ∉ name)
    (otherString : 0 ∉ other) :
    namecmp name (strncpy other DIRSIZ) = 0 ↔ name.take DIRSIZ = other.take DIRSIZ := by
  rw [namecmp, strncmp_eq_zero_iff, strncpy_strncpy, strncpy_inj string otherString]

/-! ## Directory entries -/

@[simp] theorem length_dirent (inum : Nat) (name : Name) :
    (dirent inum name).length = direntSize := by
  rw [dirent, List.length_append, length_leBytes, length_strncpy]
  rfl

theorem direntInum_dirent
    (bound : inum < 2 ^ 16)
    (name : Name) :
    direntInum (dirent inum name) = inum := by
  rw [direntInum, dirent, List.take_left' (length_leBytes 2 inum)]
  exact leNat_leBytes_of_lt bound

theorem direntName_dirent (inum : Nat) (name : Name) :
    direntName (dirent inum name) = strncpy name DIRSIZ := by
  rw [direntName, dirent, List.drop_left' (length_leBytes 2 inum)]

/-! ## Paths -/

theorem skipelem_nil : skipelem [] = none := rfl

/-- A path of one element below the root. -/
theorem pathElements_slash {name : Name}
    (nonempty : name ≠ [])
    (noSlash : slash ∉ name) :
    pathElements (slash :: name) = [name.take DIRSIZ] := by
  cases name with
  | nil => exact absurd rfl nonempty
  | cons char rest =>
    obtain ⟨notSlash, _⟩ := not_or.mp (mt List.mem_cons.mpr noSlash)
    have skipped : skipelem (slash :: char :: rest) = some ((char :: rest).take DIRSIZ, []) := by
      have passes : ∀ other ∈ char :: rest, (other != slash) = true := by
        intro other member
        have : other ≠ slash := by
          rintro rfl
          exact noSlash member
        simpa using this
      have first : (slash :: char :: rest).dropWhile (· == slash) = char :: rest := by
        simp [Ne.symm notSlash]
      rw [skipelem, first]
      simp only
      rw [List.takeWhile_eq_self_iff.mpr passes, List.dropWhile_eq_nil_iff.mpr passes]
      rfl
    simp only [pathElements, List.length_cons, elements, skipped, skipelem_nil]

end Xv6
