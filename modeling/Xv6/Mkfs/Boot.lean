import Xv6.Fs.Lookup
import Xv6.Mkfs.Files
import Xv6.Sys.Audit

/-!
# Booting from an image

What the kernel finds on an image that `mkfs` has written: whether the image is
well formed, and what it reads when it looks up the files.
-/

namespace Xv6

open Faulting
open Interleaving
open Interleaving.Program (perform)
open Fs (Place blockAt placeOf fileBlock fileByte fileContents dinode)

namespace Mkfs

theorem inodes_of_lt (bound : inum < sb.ninodes) :
    inodes disk inum = dinode disk inum := if_pos bound

/-! ## Well-formed images -/

/-- A well-formed file system: all blocks of all files are mapped, no block is
held twice, and the bitmap marks the blocks in front of `freeblock`, which are
the blocks before the data and those that are held. -/
structure WellFormed (disk : Disk) (freeblock : Nat) : Prop where
  /-- Each block of a file has a number. -/
  mapped : ∀ inum bn, inum < sb.ninodes → bn * BSIZE < (dinode disk inum).size.toNat →
    fileBlock disk (dinode disk inum) bn ≠ 0
  /-- No block is held by two places. -/
  distinct : ∀ inum other place otherPlace, inum < sb.ninodes →
    other < sb.ninodes → blockAt disk (dinode disk inum) place ≠ 0 →
    blockAt disk (dinode disk inum) place = blockAt disk (dinode disk other) otherPlace →
    inum = other ∧ place = otherPlace
  /-- Blocks that are held lie in the data area. -/
  inData : ∀ inum place, inum < sb.ninodes → blockAt disk (dinode disk inum) place ≠ 0 →
    InDataArea (blockAt disk (dinode disk inum) place).toNat
  /-- The bitmap marks the blocks in front of `freeblock`. -/
  front : ∀ block, block < sb.size → (Fs.bit sb disk block = true ↔ block < freeblock)
  /-- These are the blocks before the data and those that are held. -/
  marked : ∀ block, block < sb.size → (Fs.bit sb disk block = true ↔ block < usedblocks ∨
      ∃ inum place, inum < sb.ninodes ∧ (blockAt disk (dinode disk inum) place).toNat = block)
  /-- Directories consist of entries. -/
  directories : ∀ inum, inum < sb.ninodes → (dinode disk inum).type = T_DIR →
    direntSize ∣ (dinode disk inum).size.toNat
  /-- Reading an inode never has to allocate. -/
  reads : ∀ (fs : Fs) slot inum off n, inum < sb.ninodes → fs.disk = disk →
    (fs.icache slot).din = dinode disk inum → ∃ result, Fs.readi sb slot off n fs = .ok (result, fs)

namespace Finished

variable {files : List Input} {state : State}

/-- The blocks of a file that are mapped. -/
theorem fileBlock_ne_zero_iff
    (finished : Finished files state)
    (bound : inum < sb.ninodes)
    (inside : bn < MAXFILE) :
    fileBlock state.disk (dinode state.disk inum) bn ≠ 0 ↔
      bn < blocksOf (contentsOf files inum).length := by
  rw [← inodes_of_lt bound]
  exact (finished.laid.filled inum).fileBlock_ne_zero_iff inside

/-- A block that holds bytes of a file is mapped. -/
theorem mapped_of_lt
    (finished : Finished files state)
    (bound : inum < sb.ninodes)
    (inside : bn * BSIZE < (contentsOf files inum).length) :
    fileBlock state.disk (dinode state.disk inum) bn ≠ 0 := by
  have small := finished.laid.small inum
  refine (finished.fileBlock_ne_zero_iff bound ?_).mpr ?_
  · unfold MAXFILE NDIRECT NINDIRECT BSIZE at *
    omega
  · unfold blocksOf BSIZE at *
    omega

variable {inum : Nat}

section

variable (finished : Finished files state)

include finished

theorem size_dinode (bound : inum < sb.ninodes) :
    (dinode state.disk inum).size.toNat = if inum = ROOTINO then rootSize files
      else (contentsOf files inum).length := by
  rw [← inodes_of_lt bound]
  exact finished.sizes inum

theorem type_dinode (bound : inum < sb.ninodes) :
    (dinode state.disk inum).type = (kindOf files.length inum).1 := by
  rw [← inodes_of_lt bound, ← finished.kinds inum]
  rfl

theorem type_ne_device (bound : inum < sb.ninodes) :
    (dinode state.disk inum).type ≠ T_DEV := by
  rw [finished.type_dinode bound]
  unfold kindOf
  split_ifs <;> decide

/-- All blocks of all files are mapped exactly if the entries of the root
directory do not end with a block. -/
theorem mapped_iff (number : files.length + 2 ≤ sb.ninodes) :
    (∀ inum bn, inum < sb.ninodes → bn * BSIZE < (dinode state.disk inum).size.toNat →
      fileBlock state.disk (dinode state.disk inum) bn ≠ 0) ↔
      (files.length + 2) % 32 ≠ 0 := by
  have inodeCount : sb.ninodes = 200 := rfl
  have rootBound : ROOTINO < sb.ninodes := by decide
  have rootLength : (contentsOf files ROOTINO).length =
      direntSize * (files.length + 2) := length_rootContents files
  have size := finished.size_dinode rootBound
  rw [if_pos rfl] at size
  constructor
  · -- The size of the root directory is rounded up by a whole block.
    intro mapped full
    have block := mapped ROOTINO (direntSize * (files.length + 2) / BSIZE) rootBound (by
        rw [size]
        unfold rootSize BSIZE
        omega)
    rw [finished.fileBlock_ne_zero_iff rootBound, rootLength] at block
    · unfold blocksOf BSIZE direntSize at block
      omega
    · unfold MAXFILE NDIRECT NINDIRECT BSIZE direntSize
      omega
  · intro notFull inum bn bound inside
    rw [finished.size_dinode bound] at inside
    apply finished.mapped_of_lt bound
    by_cases root : inum = ROOTINO
    · subst root
      rw [if_pos rfl] at inside
      rw [rootLength]
      unfold rootSize BSIZE direntSize at *
      omega
    · rwa [if_neg root] at inside

theorem bit_eq (bound : block < sb.size) :
    Fs.bit sb state.disk block = decide (block < state.freeblock) := by
  obtain ⟨sameBlock, position⟩ := BBLOCK_eq bound
  have bitmap := finished.bitmap
  have inBitmap : state.freeblock < BPB :=
    lt_of_le_of_lt finished.laid.layout.bound (by decide)
  change state.disk 28 = _ at bitmap
  rw [Fs.bit, sameBlock, position, bitmap]
  exact bitSet_balloc inBitmap block

end

theorem heldAt_eq
    (bound : inum < sb.ninodes)
    (place : Place) :
    heldAt state.disk (inodes state.disk) (inum, place) =
      (blockAt state.disk (dinode state.disk inum) place).toNat := by
  rw [heldAt, inodes_of_lt bound]

theorem wellFormed
    (finished : Finished files state)
    (number : files.length + 2 ≤ sb.ninodes)
    (fits : blocksNeeded files ≤ sb.nblocks)
    (notFull : (files.length + 2) % 32 ≠ 0) :
    WellFormed state.disk state.freeblock := by
  have mapped := (finished.mapped_iff number).mpr notFull
  have layout := finished.laid.layout
  refine ⟨mapped, ?_, ?_, ?_, ?_, ?_, ?_⟩
  · intro inum other place otherPlace bound otherBound nonzero same
    have sites := layout.ledger.single (inum, place) (other, otherPlace) (by
        rw [heldAt_eq bound]
        intro zero
        exact nonzero (UInt32.toNat.inj zero))
      (by rw [heldAt_eq bound, heldAt_eq otherBound, same])
    exact Prod.mk.inj sites
  · intro inum place bound nonzero
    have bounds := layout.held_bounds (inum, place) (by
      rw [heldAt_eq bound]
      intro zero
      exact nonzero (UInt32.toNat.inj zero))
    rw [heldAt_eq bound] at bounds
    have end_ := finished.freeblock
    refine ⟨bounds.1, lt_of_lt_of_le bounds.2 ?_⟩
    have blocks : sb.nblocks + usedblocks = sb.size - sb.nlog := rfl
    omega
  · intro block bound
    rw [finished.bit_eq bound, decide_eq_true_iff]
  · intro block bound
    rw [finished.bit_eq bound, decide_eq_true_iff]
    constructor
    · intro before
      by_cases front : block < usedblocks
      · exact Or.inl front
      obtain ⟨⟨inum, place⟩, holds⟩ := layout.ledger.complete True.intro block
        (Nat.le_of_not_lt front) (decide_eq_true before)
      have inodeBound : inum < sb.ninodes := by
        by_contra beyond
        rw [heldAt, inodes, if_neg beyond] at holds
        have positive := usedblocks_pos
        cases place with
        | addr index =>
          change (0 : UInt32).toNat = block at holds
          change 0 = block at holds
          omega
        | entry index =>
          change (0 : UInt32).toNat = block at holds
          change 0 = block at holds
          omega
      rw [heldAt_eq inodeBound] at holds
      exact Or.inr ⟨inum, place, inodeBound, holds⟩
    · have start := layout.start
      rintro (front | ⟨inum, place, inodeBound, holds⟩)
      · omega
      · by_cases zero : block = 0
        · have positive := usedblocks_pos
          omega
        · rw [← heldAt_eq inodeBound] at holds
          rw [← holds]
          exact (layout.held_bounds (inum, place) (by omega)).2
  · intro inum bound directory
    have root : inum = ROOTINO := by
      rw [finished.type_dinode bound] at directory
      unfold kindOf at directory
      by_contra notRoot
      rw [if_neg notRoot] at directory
      split_ifs at directory
      · exact absurd directory (by decide)
      · exact absurd directory (by decide)
    rw [finished.size_dinode bound, if_pos root]
    exact Dvd.dvd.mul_left (by decide) _
  · intro fs slot inum off n bound onDisk cached
    refine ⟨_, Fs.readi_of_mapped sb ?_ off n ?_⟩
    · rw [cached]
      exact finished.type_ne_device bound
    · intro bn _ _ inside
      rw [cached] at inside ⊢
      rw [onDisk]
      exact mapped inum bn bound inside

end Finished

theorem finished_of_mkfs
    (number : files.length ≤ 198)
    (fits : blocksNeeded files ≤ sb.nblocks)
    (made : mkfs files = .ok state) :
    Finished files state := by
  have enough : files.length + 2 ≤ sb.ninodes := show files.length + 2 ≤ 200 by omega
  have room : usedblocks + blocksNeeded files ≤ sb.size := by
    have blocks : sb.nblocks + usedblocks + sb.nlog = sb.size := rfl
    omega
  unfold mkfs at made
  cases ran : main files initial with
  | error reason =>
    rw [ran] at made
    cases made
  | ok pair =>
    obtain ⟨value, final⟩ := pair
    rw [ran] at made
    obtain rfl : final = state := Except.ok.inj made
    exact (main_spec files enough room).of_ok ran

/-- On which images all is well: `mkfs` rounds the size of the root directory up
by a whole block when the entries end with a block. -/
theorem wellFormed_iff
    (files : List Input)
    (state : State)
    (number : files.length ≤ 198)
    (fits : blocksNeeded files ≤ sb.nblocks)
    (made : mkfs files = .ok state) :
    WellFormed state.disk state.freeblock ↔ (files.length + 2) % 32 ≠ 0 := by
  have finished := finished_of_mkfs number fits made
  have enough : files.length + 2 ≤ sb.ninodes := show files.length + 2 ≤ 200 by omega
  constructor
  · intro wellFormed
    exact (finished.mapped_iff enough).mp wellFormed.mapped
  · exact finished.wellFormed enough fits

theorem wellFormed_iff_nil :
    ∃ state, mkfs [] = .ok state ∧ (WellFormed state.disk state.freeblock ↔
        (([] : List Input).length + 2) % 32 ≠ 0) := by
  have ran : (mkfs []).isOk = true := by decide +kernel
  cases made : mkfs [] with
  | error reason =>
    rw [made] at ran
    cases ran
  | ok state =>
    exact ⟨state, rfl, wellFormed_iff [] state (by decide) (by decide) made⟩

/-- An empty input file with a name of one character. -/
def emptyFile (number : Fin 30) : Input where
  argument := [UInt8.ofNat (65 + number.val)]
  string := by
    revert number
    decide
  chunks := []

/-- Whether the second block of the root directory has no number although the
directory has the size of two blocks. -/
def rootHasHole : Except Exit State → Bool
  | .ok state =>
    decide ((dinode state.disk ROOTINO).size.toNat = 2 * BSIZE) &&
      decide (fileBlock state.disk (dinode state.disk ROOTINO) 1 = 0)
  | .error _ => false

/-- With thirty input files the root directory has a block without a number. -/
theorem thirty_files_leave_hole :
    ∃ files state, files.length = 30 ∧ blocksNeeded files ≤ sb.nblocks ∧ mkfs files = .ok state ∧
      (dinode state.disk ROOTINO).size.toNat = 2 * BSIZE ∧
      fileBlock state.disk (dinode state.disk ROOTINO) 1 = 0 ∧
      ¬WellFormed state.disk state.freeblock := by
  have hole : rootHasHole (mkfs ((List.finRange 30).map emptyFile)) = true := by
    decide +kernel
  have fits : blocksNeeded ((List.finRange 30).map emptyFile) ≤ sb.nblocks := by
    decide +kernel
  cases made : mkfs ((List.finRange 30).map emptyFile) with
  | error reason =>
    rw [made] at hole
    cases hole
  | ok state =>
    rw [made, rootHasHole, Bool.and_eq_true, decide_eq_true_iff, decide_eq_true_iff] at hole
    refine ⟨_, state, by simp, fits, made, hole.1, hole.2, fun wellFormed => ?_⟩
    exact wellFormed.mapped ROOTINO 1 (by decide) (by rw [hole.1]; decide) hole.2

/-! ## Reading the files -/

/-- A byte of a list of pieces of the same length. -/
theorem getD_flatMap {α : Type} {piece : α → List UInt8}
    (sized : ∀ value, (piece value).length = width)
    {values : List α} {value : α}
    (found : values[index]? = some value)
    {offset : Nat}
    (inside : offset < width) :
    (values.flatMap piece).getD (width * index + offset) 0 = (piece value).getD offset 0 := by
  induction values generalizing index with
  | nil => cases found
  | cons first rest ih =>
    rw [List.flatMap_cons]
    cases index with
    | zero =>
      obtain rfl : first = value := Option.some.inj found
      rw [Nat.mul_zero, Nat.zero_add, List.getD_append _ _ _ _ (by rw [sized]; exact inside)]
    | succ index =>
      have behind : width * (index + 1) + offset - width = width * index + offset := by
        rw [Nat.mul_succ]
        omega
      rw [List.getD_append_right _ _ _ _ (by rw [sized, Nat.mul_succ]; omega),
        sized, behind, ih found]

/-- A list is the list of its elements. -/
theorem map_range_getD (bytes : List UInt8) :
    ((List.range bytes.length).map fun index => bytes.getD index 0) = bytes := by
  apply List.ext_getElem?
  intro index
  by_cases inside : index < bytes.length
  · simp [inside]
  · rw [List.getElem?_eq_none (by simpa using inside), List.getElem?_eq_none (by omega)]

namespace Finished

variable {files : List Input} {state : State}

theorem fileByte_eq
    (finished : Finished files state)
    (bound : inum < sb.ninodes)
    (off : Nat) :
    fileByte state.disk (dinode state.disk inum) off = (contentsOf files inum).getD off 0 := by
  rw [← inodes_of_lt bound]
  exact finished.laid.layout.bytes inum off

/-- The kernel reads the entries of the root directory. -/
theorem read_entry
    (finished : Finished files state)
    (number : files.length + 2 ≤ sb.ninodes)
    {fs : Fs}
    (onDisk : fs.disk = state.disk)
    (cached : (fs.icache slot).din = dinode state.disk ROOTINO)
    {index : Nat}
    (found : (rootEntries files)[index]? = some entry) :
    direntSize * index < (fs.icache slot).din.size.toNat ∧
      Fs.readi sb slot (UInt32.ofNat (direntSize * index))
        (UInt32.ofNat direntSize) fs = .ok (.done (dirent entry.1 entry.2), fs) := by
  have inodeCount : sb.ninodes = 200 := rfl
  have rootBound : ROOTINO < sb.ninodes := by decide
  have inside : index < files.length + 2 := by
    rw [← length_rootEntries]
    exact (List.getElem?_eq_some_iff.mp found).1
  have rootLength : (contentsOf files ROOTINO).length =
      direntSize * (files.length + 2) := length_rootContents files
  have size : (fs.icache slot).din.size.toNat = rootSize files := by
    rw [cached, finished.size_dinode rootBound, if_pos rfl]
  have room : direntSize * (index + 1) ≤ rootSize files := by
    unfold rootSize BSIZE direntSize
    omega
  have offset : (UInt32.ofNat (direntSize * index)).toNat = direntSize * index := by
    apply UInt32.toNat_ofNat_of_lt'
    unfold direntSize UInt32.size
    omega
  have width : (UInt32.ofNat direntSize).toNat = direntSize := rfl
  refine ⟨by rw [size]; unfold direntSize at *; omega, ?_⟩
  rw [Fs.readi_of_mapped sb (by rw [cached]; exact finished.type_ne_device rootBound)]
  · have noWrap : ¬(UInt32.ofNat (direntSize * index) + UInt32.ofNat direntSize <
        UInt32.ofNat (direntSize * index)) := by
      rw [UInt32.lt_iff_toNat_lt, UInt32.toNat_add, offset, width]
      unfold direntSize
      omega
    rw [readBytes, Fs.length_fileContents, offset, size, if_neg]
    · rw [Fs.fileContents_range, size, width]
      have whole : min direntSize (rootSize files - direntSize * index) =
          direntSize := by
        unfold direntSize at *
        omega
      rw [whole, cached, onDisk]
      have bytes : ((List.range direntSize).map fun position =>
          fileByte state.disk (dinode state.disk ROOTINO)
            (direntSize * index + position)) = dirent entry.1 entry.2 := by
        conv_rhs => rw [← map_range_getD (dirent entry.1 entry.2), length_dirent]
        apply List.map_congr_left
        intro position member
        rw [finished.fileByte_eq rootBound]
        exact getD_flatMap (fun value => length_dirent value.1 value.2) found
          (List.mem_range.mp member)
      rw [bytes]
      rfl
    · rw [not_or]
      refine ⟨?_, noWrap⟩
      unfold direntSize at *
      omega
  · intro bn above below _
    rw [offset] at above below
    rw [width] at below
    rw [onDisk, cached]
    apply finished.mapped_of_lt rootBound
    rw [rootLength]
    unfold BSIZE direntSize at *
    omega

/-- The kernel reads the input files. -/
theorem read_file
    (finished : Finished files state)
    (number : files.length + 2 ≤ sb.ninodes)
    (onDisk : fs.disk = state.disk)
    (found : files[index]? = some file)
    (cached : (fs.icache slot).din = dinode state.disk (index + 2)) :
    Fs.readi sb slot 0 (dinode state.disk (index + 2)).size fs = .ok (.done file.contents, fs) := by
  have inside : index < files.length := (List.getElem?_eq_some_iff.mp found).1
  have bound : index + 2 < sb.ninodes := by omega
  have notRoot : index + 2 ≠ ROOTINO := by
    unfold ROOTINO
    omega
  have contents : contentsOf files (index + 2) = file.contents := by
    simp [contentsOf, found]
  have size := finished.size_dinode bound
  rw [if_neg notRoot, contents] at size
  rw [Fs.readi_of_mapped sb (by rw [cached]; exact finished.type_ne_device bound)]
  · have zero : (0 : UInt32).toNat = 0 := rfl
    have noWrap : ¬(0 + (dinode state.disk (index + 2)).size < 0) := by
      rw [UInt32.lt_iff_toNat_lt, zero]
      omega
    rw [readBytes, Fs.length_fileContents, zero, cached, size, if_neg]
    · rw [Fs.fileContents_range, size, onDisk]
      have bytes : ((List.range file.contents.length).map fun position =>
          fileByte state.disk (dinode state.disk (index + 2)) (0 + position)) =
          file.contents := by
        conv_rhs => rw [← map_range_getD file.contents]
        apply List.map_congr_left
        intro position _
        rw [finished.fileByte_eq bound, contents, Nat.zero_add]
      rw [Nat.sub_zero, Nat.min_self, bytes]
      rfl
    · rw [not_or]
      exact ⟨by omega, noWrap⟩
  · intro bn _ _ below
    rw [cached, size] at below
    rw [onDisk, cached]
    apply finished.mapped_of_lt bound
    rwa [contents]

end Finished

/-- The names of the input files that can be looked up. -/
structure Named (files : List Input) : Prop where
  /-- No name is empty. -/
  nonempty : ∀ file ∈ files, file.name ≠ []
  /-- No name has a slash. -/
  noSlash : ∀ file ∈ files, slash ∉ file.name
  /-- No name is that of the directory or its parent. -/
  notDots : ∀ file ∈ files, file.name ≠ dot ∧ file.name ≠ dotdot
  /-- The names differ in the characters that are stored. -/
  distinct : files.Pairwise fun file other =>
    file.name.take DIRSIZ ≠ other.name.take DIRSIZ

theorem Input.name_string (file : Input) : 0 ∉ file.name := by
  unfold Input.name
  split
  · exact fun member => file.string (List.mem_of_mem_tail member)
  · exact file.string

theorem Input.slash_notMem {file : Input}
    (noSlash : slash ∉ file.name) :
    slash ∉ file.argument := by
  unfold Input.name at noSlash
  split at noSlash
  · rename_i underscore
    cases argument : file.argument with
    | nil => simp
    | cons first rest =>
      rw [argument, List.head?_cons, Option.some.injEq] at underscore
      rw [argument, List.tail_cons] at noSlash
      rw [List.mem_cons, not_or, underscore]
      exact ⟨by decide, noSlash⟩
  · exact noSlash

/-- A name that is not longer than the field is stored as a whole. -/
theorem take_ne_of_ne {name short : Name}
    (different : name ≠ short)
    (fits : short.length < DIRSIZ) :
    name.take DIRSIZ ≠ short.take DIRSIZ := by
  intro same
  rw [List.take_of_length_le fits.le] at same
  have length := congrArg List.length same
  rw [List.length_take] at length
  exact different (by rwa [List.take_of_length_le (by omega)] at same)

namespace Named

variable {files : List Input}

/-- The entries of the root directory before that of a file have other names. -/
theorem entry_ne
    (named : Named files)
    {index : Nat}
    (found : files[index]? = some file)
    {other : Nat}
    (otherFound : (rootEntries files)[other]? = some entry)
    (before : other < index + 2) :
    0 ∉ entry.2 ∧ file.name.take DIRSIZ ≠ entry.2.take DIRSIZ := by
  have member : file ∈ files := List.mem_of_getElem? found
  match other with
  | 0 =>
    obtain rfl : (ROOTINO, dot) = entry := Option.some.inj otherFound
    exact ⟨by decide, take_ne_of_ne (named.notDots file member).1 (by decide)⟩
  | 1 =>
    obtain rfl : (ROOTINO, dotdot) = entry := Option.some.inj otherFound
    exact ⟨by decide, take_ne_of_ne (named.notDots file member).2 (by decide)⟩
  | position + 2 =>
    have earlier : (files.mapIdx fun index file => (index + 2, file.name))[position]? =
        some entry := otherFound
    rw [List.getElem?_mapIdx, Option.map_eq_some_iff] at earlier
    obtain ⟨otherFile, fileFound, rfl⟩ := earlier
    refine ⟨otherFile.name_string, ?_⟩
    obtain ⟨positionBound, positionEq⟩ := List.getElem?_eq_some_iff.mp fileFound
    obtain ⟨indexBound, indexEq⟩ := List.getElem?_eq_some_iff.mp found
    have distinct := List.pairwise_iff_getElem.mp named.distinct position index
      positionBound indexBound (by omega)
    rw [positionEq, indexEq] at distinct
    exact Ne.symm distinct

theorem entry_self (found : files[index]? = some file) :
    (rootEntries files)[index + 2]? = some (index + 2, file.name) := by
  change (files.mapIdx fun index file => (index + 2, file.name))[index]? = _
  rw [List.getElem?_mapIdx, found]
  rfl

end Named

namespace Finished

variable {files : List Input} {state : State}

/-- The scan of the root directory stops at the entry of the file. -/
theorem dirScan_root
    (finished : Finished files state)
    (number : files.length + 2 ≤ sb.ninodes)
    (named : Named files)
    (onDisk : fs.disk = state.disk)
    (cached : (fs.icache slot).din = dinode state.disk ROOTINO)
    (found : files[index]? = some file)
    (text : String) :
    Fs.dirScan sb slot text (fun de => direntInum de != 0 &&
          namecmp (file.name.take DIRSIZ) (direntName de) == 0)
        (Fs.scanFuel (fs.icache slot).din) 0 fs =
      .ok ((direntSize * (index + 2), some (dirent (index + 2) file.name)), fs) := by
  have inodeCount : sb.ninodes = 200 := rfl
  have inside : index < files.length := (List.getElem?_eq_some_iff.mp found).1
  have exists_ : ∀ other, other ≤ index + 2 →
      ∃ entry, (rootEntries files)[other]? = some entry := by
    intro other within
    refine ⟨_, List.getElem?_eq_getElem (h := ?_)⟩
    rw [length_rootEntries]
    omega
  have entryEq : ∀ other entry, (rootEntries files)[other]? = some entry →
      dirent ((rootEntries files).getD other (0, [])).1
        ((rootEntries files).getD other (0, [])).2 = dirent entry.1 entry.2 := by
    intro other entry otherFound
    rw [List.getD_eq_getElem?_getD, otherFound, Option.getD_some]
  have nameString : 0 ∉ file.name.take DIRSIZ := fun member =>
    file.name_string (List.mem_of_mem_take member)
  have own := entryEq _ _ (Named.entry_self found)
  have scan := Fs.dirScan_found sb text (fun de => direntInum de != 0 &&
      namecmp (file.name.take DIRSIZ) (direntName de) == 0)
    (fun other => dirent ((rootEntries files).getD other (0, [])).1
      ((rootEntries files).getD other (0, [])).2)
    (index + 2)
    (fun other within => by
      obtain ⟨entry, otherFound⟩ := exists_ other within
      exact (finished.read_entry number onDisk cached otherFound).1)
    (fun other within => by
      obtain ⟨entry, otherFound⟩ := exists_ other within
      rw [entryEq other entry otherFound]
      exact (finished.read_entry number onDisk cached otherFound).2)
    (fun _ _ => length_dirent _ _)
    (by
      rw [own, direntInum_dirent (by omega), direntName_dirent]
      have same : namecmp (file.name.take DIRSIZ) (strncpy file.name DIRSIZ) = 0 := by
        rw [namecmp_field_eq_zero_iff nameString file.name_string, List.take_take, Nat.min_self]
      simp [same])
    (Fs.scanFuel (fs.icache slot).din) 0
    (fun other _ before => by
      obtain ⟨entry, otherFound⟩ := exists_ other (by omega)
      obtain ⟨entryString, different⟩ := named.entry_ne found otherFound before
      rw [entryEq other entry otherFound, direntName_dirent]
      have unequal : namecmp (file.name.take DIRSIZ) (strncpy entry.2 DIRSIZ) ≠ 0 := by
        rw [Ne, namecmp_field_eq_zero_iff nameString entryString, List.take_take, Nat.min_self]
        exact different
      simp [unequal])
    (Nat.zero_le _)
    (by
      have last := (finished.read_entry number onDisk cached (Named.entry_self found)).1
      unfold Fs.scanFuel direntSize at *
      omega)
  rw [own] at scan
  exact scan

end Finished

/-- A cache that agrees with a disk: no inode is locked, what has been read is
what is on the disk, and there are two free entries. -/
structure Quiet (fs : Fs) (disk : Disk) : Prop where
  /-- The disk. -/
  onDisk : fs.disk = disk
  /-- Inodes that have been read are those on the disk. -/
  synced : ∀ slot, 0 < (fs.icache slot).ref → (fs.icache slot).valid = true →
    (fs.icache slot).din = dinode disk (fs.icache slot).inum
  /-- No inode is locked. -/
  unlocked : ∀ slot, (fs.icache slot).busy = none
  /-- There are two free entries. -/
  room : ∃ slot other, slot ≠ other ∧ (fs.icache slot).ref = 0 ∧ (fs.icache other).ref = 0

/-- Look up a path and read the whole file. -/
def readFile (path : Path) : Call (Option (Dinode × Transfer (List UInt8))) := do
  match ← Call.namei path with
  | none => pure none
  | some ip => do
      perform (.ilock ip)
      let din ← perform (.stat ip)
      let bytes ← perform (.readi ip 0 din.size)
      pure (some (din, bytes))

/-- An operation on the file system of the process that ran last. -/
theorem exec_fs {operation : Op β} {fs final : Fs}
    (kernel : Kernel)
    (effectEq : Kernel.effect sb operation = Kernel.onFs run)
    (proc : fs.proc = pid)
    (ran : run fs = .ok (value, final)) :
    Kernel.exec sb pid operation { kernel with fs := fs } =
      .ok (value, { kernel with fs := final }) := by
  subst proc
  rw [Kernel.exec, Run.bind_of_ok (Run.modify_apply _ _), effectEq]
  simp only [Kernel.onFs, ran]

theorem exec_stat
    (kernel : Kernel)
    (proc : fs.proc = pid)
    (slot : Slot) :
    Kernel.exec sb pid (.stat slot) { kernel with fs := fs } =
      .ok ((fs.icache slot).din, { kernel with fs := fs }) := by
  have read : (do
      let inode ← Fs.inode slot
      pure inode.din : FsM Dinode) fs = .ok ((fs.icache slot).din, fs) := rfl
  exact exec_fs kernel rfl proc read

/-- The first operation of a process makes it the running one. -/
theorem exec_first {operation : Op β}
    (kernel : Kernel) :
    Kernel.exec sb pid operation kernel = Kernel.exec sb pid operation
        { kernel with fs := { kernel.fs with proc := pid } } := rfl

section Lookup

variable {files : List Input} {state : State} {index : Nat} {file : Input}
  {pid : Pid}

variable {fs : Fs} {slot : Slot}

/-- The lookup in the root directory finds the entry of the file. -/
theorem dirlookup_root
    (finished : Finished files state)
    (number : files.length + 2 ≤ sb.ninodes)
    (named : Named files)
    (found : files[index]? = some file)
    (onDisk : fs.disk = state.disk)
    (cached : (fs.icache slot).din = dinode state.disk ROOTINO)
    (room : ∃ slot, (fs.icache slot).ref = 0) :
    ∃ next entry, Fs.dirlookup sb slot (file.name.take DIRSIZ) fs =
        .ok (some (next, direntSize * (index + 2)), fs.withInode next entry) ∧
      Fs.Got (fs.icache next) entry (index + 2) := by
  have inodeCount : sb.ninodes = 200 := rfl
  have inside : index < files.length := (List.getElem?_eq_some_iff.mp found).1
  have directory : (fs.icache slot).din.type = T_DIR := by
    rw [cached, finished.type_dinode (by decide)]
    rfl
  have read : Fs.inode slot fs = .ok (fs.icache slot, fs) := rfl
  have scan := finished.dirScan_root number named onDisk cached found "dirlink read"
  obtain ⟨next, entry, ran, got⟩ := Fs.iget_spec fs (index + 2) room
  refine ⟨next, entry, ?_, got⟩
  rw [Fs.dirlookup, Run.bind_of_ok read, if_neg (not_not_intro directory), Run.bind_of_ok scan]
  simp only
  rw [direntInum_dirent (by omega), Run.bind_of_ok ran]
  rfl

/-- What is known of the entry that `namei` returns. -/
structure Found (fs : Fs) (disk : Disk) (pid : Pid) (slot : Slot) (inum : Nat) :
    Prop where
  /-- The disk is the same. -/
  onDisk : fs.disk = disk
  /-- The process is the same. -/
  proc : fs.proc = pid
  /-- The entry is that of the inode. -/
  number : (fs.icache slot).inum = inum
  /-- It is referenced. -/
  referenced : 0 < (fs.icache slot).ref
  /-- It is not locked. -/
  unlocked : (fs.icache slot).busy = none
  /-- If it has been read it agrees with the disk. -/
  synced : (fs.icache slot).valid = true → (fs.icache slot).din = dinode disk inum

theorem Quiet.found
    (quiet : Quiet fs disk)
    (proc : fs.proc = pid)
    (got : Fs.Got (fs.icache slot) entry inum) :
    Found (fs.withInode slot entry) disk pid slot inum where
  onDisk := quiet.onDisk
  proc := proc
  number := by rw [Fs.withInode_self]; exact got.inum_eq
  referenced := by rw [Fs.withInode_self]; exact got.ref_pos
  unlocked := by
    rw [Fs.withInode_self]
    exact got.busy_eq (quiet.unlocked slot)
  synced := by
    rw [Fs.withInode_self]
    exact got.din_eq (quiet.synced slot)

/-- Locking the inode that has been found. -/
theorem Found.ilock
    (entry : Found fs disk pid slot inum)
    (typed : (dinode disk inum).type ≠ 0) :
    Fs.ilock slot fs = .ok ((), fs.withInode slot (fs.lockedEntry slot)) ∧
      (fs.lockedEntry slot).din = dinode disk inum := by
  have same : dinode fs.disk (fs.icache slot).inum = dinode disk inum := by
    rw [entry.onDisk, entry.number]
  refine ⟨Fs.ilock_synced entry.referenced entry.unlocked ?_ (by rwa [same]), same⟩
  rw [same]
  exact entry.synced

/-- `namei` finds the inode of an input file. -/
theorem namei_run
    (pid : Pid)
    (finished : Finished files state)
    (number : files.length + 2 ≤ sb.ninodes)
    (named : Named files)
    (found : files[index]? = some file)
    (quiet : Quiet kernel.fs state.disk) :
    ∃ slot fs, (Call.namei (slash :: file.name)).run (Kernel.exec sb pid) kernel =
        .ok (some slot, { kernel with fs := fs }) ∧
      Found fs state.disk pid slot (index + 2) := by
  have member : file ∈ files := List.mem_of_getElem? found
  have rootBound : ROOTINO < sb.ninodes := by decide
  have elements := pathElements_slash (named.nonempty file member) (named.noSlash file member)
  have rootType : (dinode state.disk ROOTINO).type = T_DIR := by
    rw [finished.type_dinode rootBound]
    rfl
  have rootLinks : (dinode state.disk ROOTINO).nlink = 1 := by
    have kinds := finished.kinds ROOTINO
    rw [inodes_of_lt rootBound] at kinds
    exact congrArg Prod.snd kinds
  obtain ⟨start, startQuiet, startProc, startEq⟩ : ∃ start : Fs,
      Quiet start state.disk ∧ start.proc = pid ∧ start = { kernel.fs with proc := pid } :=
    ⟨{ kernel.fs with proc := pid },
      ⟨quiet.onDisk, quiet.synced, quiet.unlocked, quiet.room⟩, rfl, rfl⟩
  obtain ⟨spare, other, different, spareFree, otherFree⟩ := startQuiet.room
  -- The root directory is found and locked.
  obtain ⟨root, rootEntry, gotRoot, rootGot⟩ :=
    Fs.iget_spec start ROOTINO ⟨spare, spareFree⟩
  have rootFound := startQuiet.found startProc rootGot
  obtain ⟨locked, lockedDin⟩ := rootFound.ilock (by rw [rootType]; decide)
  generalize lockedEq : (start.withInode root rootEntry).lockedEntry root = held
    at locked lockedDin
  have heldRef : 0 < held.ref := by
    rw [← lockedEq]
    exact rootFound.referenced
  have heldBusy : held.busy = some pid := by
    rw [← lockedEq, ← rootFound.proc]
    rfl
  generalize middleEq : (start.withInode root rootEntry).withInode root held = middle
    at locked
  have middleOther : ∀ slot, slot ≠ root → middle.icache slot = start.icache slot := by
    intro slot notRoot
    rw [← middleEq, Fs.withInode_other _ _ notRoot, Fs.withInode_other _ _ notRoot]
  have middleRoot : middle.icache root = held := by
    rw [← middleEq, Fs.withInode_self]
  have middleDisk : middle.disk = state.disk := by
    rw [← middleEq]
    exact startQuiet.onDisk
  have middleProc : middle.proc = pid := by
    rw [← middleEq]
    exact startProc
  -- There is a free entry left for the file.
  have middleRoom : ∃ slot, (middle.icache slot).ref = 0 := by
    by_cases spareRoot : spare = root
    · refine ⟨other, ?_⟩
      rw [middleOther other (by rw [← spareRoot]; exact different.symm)]
      exact otherFree
    · refine ⟨spare, ?_⟩
      rw [middleOther spare spareRoot]
      exact spareFree
  have middleDin : (middle.icache root).din = dinode state.disk ROOTINO := by
    rw [middleRoot, lockedDin]
  obtain ⟨next, entry, looked, got⟩ := dirlookup_root finished number named found
    middleDisk middleDin middleRoom
  have notRoot : next ≠ root := by
    rintro rfl
    rw [middleRoot] at got
    rcases got with ⟨_, sameInum, _⟩ | ⟨free, _⟩
    · rw [← lockedEq] at sameInum
      have rootInum := rootFound.number
      simp only [Fs.lockedEntry, Fs.withInode_self] at sameInum rootInum
      unfold ROOTINO at rootInum
      omega
    · omega
  rw [middleOther next notRoot] at got
  generalize lookedEq : middle.withInode next entry = after at looked
  have afterRoot : after.icache root = held := by
    rw [← lookedEq, Fs.withInode_other _ _ (Ne.symm notRoot), middleRoot]
  have afterProc : after.proc = pid := by
    rw [← lookedEq, Fs.withInode_proc, middleProc]
  have afterRef : 0 < (after.icache root).ref := by rwa [afterRoot]
  have afterBusy : (after.icache root).busy = some pid := by rwa [afterRoot]
  have unlocked := Fs.iunlock_eq afterRef afterBusy
  rw [afterRoot] at unlocked
  generalize unlockedEq : after.withInode root { held with busy := none } = free
    at unlocked
  have freeRoot : free.icache root = { held with busy := none } := by
    rw [← unlockedEq, Fs.withInode_self]
  have put : Kernel.iputBegin root free = .ok (false, free.withInode root
      { held with busy := none, ref := held.ref - 1 }) := by
    rw [Kernel.iputBegin, Run.bind_of_ok (Run.get_apply free)]
    simp only [freeRoot]
    rw [if_neg]
    · rfl
    · rintro ⟨_, _, unlinked⟩
      rw [lockedDin, rootLinks] at unlinked
      exact absurd unlinked (by decide)
  have freeProc : free.proc = pid := by
    rw [← unlockedEq, Fs.withInode_proc, afterProc]
  refine ⟨next, free.withInode root { held with busy := none, ref := held.ref - 1 }, ?_, ?_⟩
  · have first : Kernel.exec sb pid .igetRoot kernel =
        .ok (root, { kernel with fs := start.withInode root rootEntry }) := by
      rw [exec_first, ← startEq]
      exact exec_fs kernel rfl startProc gotRoot
    have read : Kernel.exec sb pid (.stat root) { kernel with fs := middle } =
        .ok (dinode state.disk ROOTINO, { kernel with fs := middle }) := by
      rw [← middleDin]
      exact exec_stat kernel middleProc root
    have release : (Call.iunlockput root).run (Kernel.exec sb pid)
        { kernel with fs := after } = .ok ((), { kernel with
          fs := free.withInode root { held with busy := none, ref := held.ref - 1 } }) := by
      rw [Call.iunlockput, Program.run_perform_bind
        (exec_fs kernel rfl afterProc unlocked), Call.iput,
        Program.run_perform_bind (exec_fs kernel rfl freeProc put)]
      rfl
    have walk : (Call.namex (slash :: file.name) false).run (Kernel.exec sb pid)
        kernel = .ok (some (next, []), { kernel with
          fs := free.withInode root { held with busy := none, ref := held.ref - 1 } }) := by
      have absolute : (slash :: file.name).head? = some slash := rfl
      rw [Call.namex, if_pos absolute, Program.run_perform_bind first, elements, Call.namexLoop,
        Program.run_perform_bind (exec_fs kernel rfl rootFound.proc locked),
        Program.run_perform_bind read, if_neg (not_not_intro rootType), if_neg (by simp),
        Program.run_perform_bind (exec_fs kernel rfl middleProc looked),
        Program.run_bind_of_ok release]
      rfl
    rw [Call.namei, Program.run_bind_of_ok walk]
    rfl
  · have nextEntry : (free.withInode root
        { held with busy := none, ref := held.ref - 1 }).icache next = entry := by
      rw [Fs.withInode_other _ _ notRoot, ← unlockedEq,
        Fs.withInode_other _ _ notRoot, ← lookedEq, Fs.withInode_self]
    refine ⟨?_, ?_, ?_, ?_, ?_, ?_⟩
    · rw [Fs.withInode_disk, ← unlockedEq, Fs.withInode_disk, ← lookedEq,
        Fs.withInode_disk, middleDisk]
    · rw [Fs.withInode_proc, ← unlockedEq, Fs.withInode_proc, ← lookedEq,
        Fs.withInode_proc, middleProc]
    · rw [nextEntry]
      exact got.inum_eq
    · rw [nextEntry]
      exact got.ref_pos
    · rw [nextEntry]
      exact got.busy_eq (startQuiet.unlocked next)
    · rw [nextEntry]
      exact got.din_eq (startQuiet.synced next)

end Lookup

/-- The image of input files with proper names is what the kernel reads: each
file is found below the root directory, with its type, its size and its bytes,
whatever the pieces in which it was read in. -/
theorem readFile_mkfs
    (files : List Input)
    (number : files.length ≤ 198)
    (named : Named files)
    (small : ∀ file ∈ files, file.contents.length ≤ MAXFILE * BSIZE)
    (fits : blocksNeeded files ≤ sb.nblocks) :
    ∃ state, mkfs files = .ok state ∧ ∀ file ∈ files, ∀ kernel pid, Quiet kernel.fs state.disk →
        ∃ din final, (readFile (slash :: file.name)).run (Kernel.exec sb pid)
            kernel = .ok (some (din, .done file.contents), final) ∧
          din.type = T_FILE ∧ din.nlink = 1 ∧ din.size.toNat = file.contents.length ∧
          final.fs.disk = state.disk := by
  have enough : files.length + 2 ≤ sb.ninodes := show files.length + 2 ≤ 200 by omega
  have room : usedblocks + blocksNeeded files ≤ sb.size := by
    have blocks : sb.nblocks + usedblocks + sb.nlog = sb.size := rfl
    omega
  obtain ⟨value, state, ran, finished⟩ :=
    (main_spec files enough room).exists_ok fun _ rejection => by
      obtain ⟨file, member, slashes | large⟩ := rejection
      · exact Input.slash_notMem (named.noSlash file member) slashes
      · exact absurd (small file member) (Nat.not_le_of_lt large)
  refine ⟨state, by rw [mkfs, ran], ?_⟩
  intro file member kernel pid quiet
  obtain ⟨index, bound, rfl⟩ := List.mem_iff_getElem.mp member
  have found : files[index]? = some files[index] := List.getElem?_eq_getElem bound
  obtain ⟨slot, fs, walk, entry⟩ :=
    namei_run pid finished enough named found quiet
  have inodeBound : index + 2 < sb.ninodes := by omega
  have notRoot : index + 2 ≠ ROOTINO := by
    unfold ROOTINO
    omega
  have kindEq := finished.kinds (index + 2)
  rw [inodes_of_lt inodeBound, kindOf, if_neg notRoot, if_pos ⟨by omega, by omega⟩] at kindEq
  have type : (dinode state.disk (index + 2)).type = T_FILE :=
    congrArg Prod.fst kindEq
  have nlink : (dinode state.disk (index + 2)).nlink = 1 := congrArg Prod.snd kindEq
  have size := finished.size_dinode inodeBound
  rw [if_neg notRoot] at size
  have contents : contentsOf files (index + 2) = files[index].contents := by
    simp [contentsOf, bound]
  obtain ⟨locked, lockedDin⟩ := entry.ilock (by rw [type]; decide)
  generalize afterEq : fs.withInode slot (fs.lockedEntry slot) = after at locked
  have afterProc : after.proc = pid := by
    rw [← afterEq, Fs.withInode_proc, entry.proc]
  have afterDisk : after.disk = state.disk := by
    rw [← afterEq, Fs.withInode_disk, entry.onDisk]
  have afterDin : (after.icache slot).din = dinode state.disk (index + 2) := by
    rw [← afterEq, Fs.withInode_self, lockedDin]
  have bytes := finished.read_file enough afterDisk found afterDin
  have seen := exec_stat kernel afterProc slot
  rw [afterDin] at seen
  refine ⟨dinode state.disk (index + 2), { kernel with fs := after }, ?_, type, nlink,
    by rw [size, contents], afterDisk⟩
  rw [readFile, Program.run_bind_of_ok walk,
    Program.run_perform_bind (exec_fs kernel rfl entry.proc locked), Program.run_perform_bind seen,
    Program.run_perform_bind (exec_fs kernel rfl afterProc bytes)]
  rfl

/-- A kernel that has just booted has a quiet cache. -/
theorem quiet_boot (disk : Disk) : Quiet (Kernel.boot disk).fs disk where
  onDisk := rfl
  synced slot _ valid := by
    by_cases root : slot = 0
    · simp [Kernel.boot, root, Inode.unused] at valid
    · simp [Kernel.boot, root, Inode.unused] at valid
  unlocked := (Kernel.booted_boot disk).busy
  room := by
    refine ⟨1, 2, by decide, ?_, ?_⟩
    · rw [(Kernel.booted_boot disk).ref]
      decide
    · rw [(Kernel.booted_boot disk).ref]
      decide

/-- An input file with the argument `_a` that is read in two pieces. -/
def smallFile : Input where
  argument := [95, 97]
  string := by decide
  chunks := [[1], [2, 3]]

theorem readFile_mkfs_small :
    ∃ state din final, mkfs [smallFile] = .ok state ∧
      (readFile [slash, 97]).run (Kernel.exec sb 1) (Kernel.boot state.disk) =
        .ok (some (din, .done [1, 2, 3]), final) ∧ din.type = T_FILE := by
  obtain ⟨state, made, reads⟩ := readFile_mkfs [smallFile] (by decide)
    ⟨by decide, by decide, by decide, List.pairwise_singleton _ _⟩ (by decide)
    (by decide)
  obtain ⟨din, final, ran, type, _⟩ :=
    reads smallFile List.mem_cons_self (Kernel.boot state.disk) 1 (quiet_boot _)
  exact ⟨state, din, final, made, ran, type⟩

end Mkfs
end Xv6
