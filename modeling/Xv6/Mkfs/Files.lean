import Xv6.Fs.Names
import Xv6.Mkfs.Append

/-!
# The files of an image

What `mkfs` has made of its input files: the contents of the inodes, their
sizes and types, and the blocks that are taken.
-/

namespace Xv6

open Function
open Cells
open Faulting
open Fs (Place blockAt placeOf fileBlock fileByte withAddr fieldsOf)

namespace Mkfs

/-! ## Inodes on the image -/

/-- The inodes of an image. -/
def inodes (disk : Disk) (inum : Nat) : Dinode :=
  if inum < sb.ninodes then Fs.dinode disk inum else Dinode.zero

/-- What a file is: its type and its link count. -/
def kind (din : Dinode) : Int16 × Int16 := (din.type, din.nlink)

variable {inum : Nat} {state : State} {contents : Nat → List UInt8}

theorem i2b_lt (bound : inum < sb.ninodes) :
    i2b inum < usedblocks - 2 := by
  have inodeCount : sb.ninodes = 200 := rfl
  have front : usedblocks = 29 := rfl
  unfold i2b IPB BSIZE dinodeSize
  omega

/-- Only the blocks of the inodes matter. -/
theorem inodes_congr (agree : ∀ inum, inum < sb.ninodes → final (i2b inum) = disk (i2b inum)) :
    inodes final = inodes disk := by
  funext inum
  unfold inodes Fs.dinode
  split
  · rename_i bound
    have same := agree inum bound
    unfold i2b at same
    rw [IBLOCK, same]
  · rfl

theorem State.Extends.inodes (extends_ : state.Extends final) :
    Mkfs.inodes final.disk = Mkfs.inodes state.disk :=
  inodes_congr fun inum bound => extends_.front _ (by
    have before := i2b_lt bound
    omega)

/-- An inode is stored. -/
def State.store (state : State) (inum : Nat) (din : Dinode) : State :=
  state.put (i2b inum) (putDinode (state.disk (i2b inum)) (inum % IPB) din)

theorem rinode_eq
    (bound : inum < sb.ninodes)
    (state : State) :
    rinode inum state = .ok (inodes state.disk inum, state) := by
  have before := i2b_lt bound
  have inside : i2b inum < sb.size := lt_trans before (by decide)
  rw [rinode, Run.bind_of_ok (rsect_eq inside), inodes, if_pos bound]
  rfl

theorem winode_eq
    (bound : inum < sb.ninodes)
    (din : Dinode)
    (state : State) :
    winode inum din state = .ok ((), state.store inum din) := by
  have before := i2b_lt bound
  have inside : i2b inum < sb.size := lt_trans before (by decide)
  rw [winode, Run.bind_of_ok (rsect_eq inside)]
  rfl

theorem inodes_store
    (bound : inum < sb.ninodes)
    (din : Dinode)
    (state : State) :
    inodes (state.store inum din).disk = update (inodes state.disk) inum din := by
  funext other
  have stored := Fs.dinode_update_putDinode state.disk inum other din
  unfold inodes
  by_cases same : other = inum
  · rw [if_pos same] at stored
    rw [same, update_self, if_pos bound, ← same]
    subst same
    exact stored
  · rw [if_neg same] at stored
    rw [update_of_ne same]
    split
    · exact stored
    · rfl

/-- Storing an inode with the addresses it has. -/
theorem Laid.store
    (laid : Laid state (update (inodes state.disk) inum old) contents)
    (bound : inum < sb.ninodes)
    (addrs : din.addrs = old.addrs) :
    Laid (state.store inum din) (inodes (state.store inum din).disk) contents := by
  have before := i2b_lt bound
  have agree : ∀ block, usedblocks ≤ block →
      (state.store inum din).disk block = state.disk block := fun block behind =>
    update_of_ne (by omega) _ _
  have sameAddrs : ∀ other, (inodes (state.store inum din).disk other).addrs =
      (update (inodes state.disk) inum old other).addrs := by
    intro other
    rw [inodes_store bound]
    by_cases same : other = inum
    · subst same
      rw [update_self, update_self, addrs]
    · rw [update_of_ne same, update_of_ne same]
  refine ⟨laid.layout.congr agree sameAddrs, ?_, laid.small⟩
  rw [laid.layout.heldAt_congr agree sameAddrs]
  exact laid.filled

/-- An image between two appends: the inodes have the sizes of their
contents. -/
structure Holds (state : State) (contents : Nat → List UInt8) : Prop where
  /-- The blocks of the inodes hold the contents. -/
  laid : Laid state (inodes state.disk) contents
  /-- The sizes of the inodes are those of the contents. -/
  sizes : ∀ inum, (inodes state.disk inum).size.toNat = (contents inum).length
  /-- The other inodes are free. -/
  fresh : ∀ inum, state.freeinode ≤ inum → inodes state.disk inum = Dinode.zero
  /-- The blocks in front of `freeblock` are in use. -/
  used : state.usedblocks = state.freeblock

/-- A size that an inode can have. -/
theorem toNat_ofNat_length (small : length ≤ MAXFILE * BSIZE) :
    (UInt32.ofNat length).toNat = length :=
  UInt32.toNat_ofNat_of_lt' (lt_of_le_of_lt small (by decide))

/-! ## Appending -/

/-- What `iappend` comes to. -/
structure Grows (state final : State) (contents : Nat → List UInt8)
    (inum : Nat) (p : List UInt8) : Prop where
  holds : Holds final (update contents inum (contents inum ++ p))
  /-- The blocks that takes. -/
  freeblock : final.freeblock + taken (blocksOf (contents inum).length) =
    state.freeblock + taken (blocksOf ((contents inum).length + p.length))
  /-- Same inodes. -/
  freeinode : final.freeinode = state.freeinode
  /-- Same types and link counts. -/
  kinds : ∀ other, kind (inodes final.disk other) = kind (inodes state.disk other)

theorem iappend_spec
    (holds : Holds state contents)
    (bound : inum < sb.ninodes)
    (live : inum < state.freeinode)
    (room : state.freeblock + taken (blocksOf ((contents inum).length + p.length)) ≤
      sb.size + taken (blocksOf (contents inum).length)) :
    Run.Spec (iappend inum p) state (fun _ final => Grows state final contents inum p)
      (fun _ => MAXFILE * BSIZE < (contents inum).length + p.length) := by
  apply Run.Spec.bind_ok (rinode_eq bound state)
  rw [holds.sizes inum]
  refine .bind ((iappendLoop_spec p.length holds.laid rfl rfl (le_refl _)
    room).mono ?_ fun _ big => big)
  rintro ⟨din, off⟩ middle ⟨appended, ending⟩
  simp only at appended ending
  subst ending
  have same := appended.extends_.inodes
  have laid := appended.laid
  have small := laid.small inum
  rw [update_self, List.length_append] at small
  rw [← same] at laid
  have stored := inodes_store bound
    { din with size := UInt32.ofNat ((contents inum).length + p.length) } middle
  refine .returns (winode_eq bound _ _) ⟨⟨laid.store bound rfl, ?_, ?_, ?_⟩,
    appended.freeblock, appended.extends_.freeinode, ?_⟩
  · intro other
    rw [stored, same]
    by_cases here : other = inum
    · subst here
      rw [update_self, update_self, List.length_append, toNat_ofNat_length small]
    · rw [update_of_ne here, update_of_ne here]
      exact holds.sizes other
  · intro other free
    have freeinode : middle.freeinode ≤ other := free
    rw [appended.extends_.freeinode] at freeinode
    rw [stored, same, update_of_ne (by omega)]
    exact holds.fresh other freeinode
  · have used := appended.extends_.used
    have before := holds.used
    change middle.usedblocks = middle.freeblock
    omega
  · intro other
    rw [stored, same]
    by_cases here : other = inum
    · subst here
      rw [update_self]
      have type : (fieldsOf din).type = (fieldsOf (inodes state.disk other)).type :=
        congrArg Dinode.type appended.fields
      have nlink : (fieldsOf din).nlink = (fieldsOf (inodes state.disk other)).nlink :=
        congrArg Dinode.nlink appended.fields
      exact Prod.ext type nlink
    · rw [update_of_ne here]

/-- Appending the pieces of a file appends the file. -/
theorem appendAll_spec
    (chunks : List (List UInt8))
    (holds : Holds state contents)
    (bound : inum < sb.ninodes)
    (live : inum < state.freeinode)
    (room : state.freeblock + taken (blocksOf ((contents inum).length + chunks.flatten.length)) ≤
      sb.size + taken (blocksOf (contents inum).length)) :
    Run.Spec (appendAll inum chunks) state
      (fun _ final => Grows state final contents inum chunks.flatten)
      (fun _ => MAXFILE * BSIZE < (contents inum).length + chunks.flatten.length) := by
  induction chunks generalizing state contents with
  | nil =>
    refine ⟨?_, rfl, rfl, fun _ => rfl⟩
    rw [List.flatten_nil, List.append_nil, update_eq_self]
    exact holds
  | cons chunk rest ih =>
    rw [List.flatten_cons, List.length_append] at room ⊢
    have grows := taken_mono (blocksOf_mono (show (contents inum).length + chunk.length ≤
        (contents inum).length + (chunk.length + rest.flatten.length) by omega))
    refine .bind ((iappend_spec holds bound live (by omega)).mono ?_ ?_)
    · intro _ middle first
      have length : (update contents inum (contents inum ++ chunk) inum).length =
          (contents inum).length + chunk.length := by
        rw [update_self, List.length_append]
      have freeblock := first.freeblock
      have later := ih first.holds (by rw [first.freeinode]; exact live)
        (by rw [length, Nat.add_assoc]; omega)
      refine later.mono ?_ ?_
      · intro _ final second
        have newHolds := second.holds
        have newFreeblock := second.freeblock
        rw [update_idem, update_self, List.append_assoc]
          at newHolds
        rw [length, Nat.add_assoc] at newFreeblock
        refine ⟨newHolds, ?_, second.freeinode.trans first.freeinode,
          fun other => (second.kinds other).trans (first.kinds other)⟩
        rw [List.length_append]
        omega
      · intro _ big
        rw [length] at big
        omega
    · intro _ big
      omega

/-- A new inode is empty. -/
theorem ialloc_eq
    (holds : Holds state contents)
    (bound : state.freeinode < sb.ninodes)
    (type : Int16) :
    ∃ final, ialloc type state = .ok (state.freeinode, final) ∧
      Holds final contents ∧ final.freeblock = state.freeblock ∧
      final.freeinode = state.freeinode + 1 ∧ ∀ other, kind (inodes final.disk other) =
        if other = state.freeinode then (type, 1)
        else kind (inodes state.disk other) := by
  have free := holds.fresh state.freeinode (le_refl _)
  have ran : ialloc type state = .ok (state.freeinode,
      State.store { state with freeinode := state.freeinode + 1 } state.freeinode
        { Dinode.zero with type := type, nlink := 1, size := 0 }) := by
    unfold ialloc
    rw [Run.bind_of_ok (Run.get_apply state), Run.bind_of_ok (Run.modify_apply _ _),
      Run.bind_of_ok (winode_eq bound _ _)]
    rfl
  have laid : Laid { state with freeinode := state.freeinode + 1 }
      (update (inodes state.disk) state.freeinode
        (inodes state.disk state.freeinode)) contents := by
    rw [update_eq_self]
    exact ⟨holds.laid.layout, holds.laid.filled, holds.laid.small⟩
  have stored := inodes_store bound
    { Dinode.zero with type := type, nlink := 1, size := 0 }
    { state with freeinode := state.freeinode + 1 }
  refine ⟨_, ran, ⟨laid.store bound (by rw [free]), ?_, ?_, holds.used⟩, rfl, rfl, ?_⟩
  · intro other
    have size := holds.sizes other
    rw [stored]
    by_cases here : other = state.freeinode
    · subst here
      rw [free] at size
      rw [update_self]
      exact size
    · rw [update_of_ne here]
      exact size
  · intro other behind
    have different : other ≠ state.freeinode := by
      intro same
      subst same
      exact absurd behind (Nat.not_succ_le_self _)
    rw [stored, update_of_ne different]
    exact holds.fresh other (Nat.le_of_succ_le behind)
  · intro other
    rw [stored]
    by_cases here : other = state.freeinode
    · subst here
      rw [update_self, if_pos rfl]
      rfl
    · rw [update_of_ne here, if_neg here]

/-! ## The input files -/

/-- The entries of the root directory. -/
def rootEntries (files : List Input) : List (Nat × Name) :=
  (ROOTINO, dot) :: (ROOTINO, dotdot) ::
    files.mapIdx fun index file => (index + 2, file.name)

/-- The contents of the root directory. -/
def rootContents (files : List Input) : List UInt8 :=
  (rootEntries files).flatMap fun entry => dirent entry.1 entry.2

/-- The contents of the inodes of an image of the input files. -/
def contentsOf (files : List Input) : Nat → List UInt8
  | 0 => []
  | 1 => rootContents files
  | index + 2 => ((files[index]?).map Input.contents).getD []

/-- The types and link counts of the inodes of an image with `count` files. -/
def kindOf (count inum : Nat) : Int16 × Int16 :=
  if inum = ROOTINO then (T_DIR, 1)
  else if 2 ≤ inum ∧ inum < count + 2 then (T_FILE, 1)
  else (0, 0)

/-- How many blocks the input files and the root directory take. -/
def blocksNeeded (files : List Input) : Nat :=
  taken (blocksOf (direntSize * (files.length + 2))) +
    (files.map fun file => taken (blocksOf file.contents.length)).sum

theorem length_rootEntries (files : List Input) :
    (rootEntries files).length = files.length + 2 := by
  simp [rootEntries]

theorem length_rootContents (files : List Input) :
    (rootContents files).length = direntSize * (files.length + 2) := by
  rw [rootContents, List.length_flatMap, ← length_rootEntries]
  simp [Nat.mul_comm]

theorem rootContents_append (files : List Input) (file : Input) :
    rootContents (files ++ [file]) = rootContents files ++ dirent (files.length + 2) file.name := by
  simp [rootContents, rootEntries, List.mapIdx_concat]

/-- The contents with one more file. -/
theorem contentsOf_append (files : List Input) (file : Input) :
    contentsOf (files ++ [file]) = update (update (contentsOf files) ROOTINO
        (rootContents files ++ dirent (files.length + 2) file.name))
        (files.length + 2) file.contents := by
  funext inum
  match inum with
  | 0 => simp [contentsOf]
  | 1 => simp [contentsOf, rootContents_append]
  | index + 2 =>
    by_cases last : index = files.length
    · subst last
      simp [contentsOf]
    have different : index + 2 ≠ files.length + 2 := by omega
    have notRoot : index + 2 ≠ ROOTINO := by
      unfold ROOTINO
      omega
    rw [update_of_ne different, update_of_ne notRoot]
    simp only [contentsOf]
    by_cases before : index < files.length
    · rw [List.getElem?_append_left before]
    · rw [List.getElem?_eq_none (by simp; omega), List.getElem?_eq_none (by omega)]

theorem blocksNeeded_append (files : List Input) (file : Input) :
    blocksNeeded (files ++ [file]) + taken (blocksOf (direntSize * (files.length + 2))) =
      blocksNeeded files + taken (blocksOf (direntSize * (files.length + 3))) +
        taken (blocksOf file.contents.length) := by
  simp only [blocksNeeded, List.length_append, List.length_singleton,
    List.map_append, List.map_singleton, List.sum_append, List.sum_singleton]
  have next : files.length + 1 + 2 = files.length + 3 := rfl
  rw [next]
  omega

theorem blocksNeeded_mono (files more : List Input) :
    blocksNeeded files ≤ blocksNeeded (files ++ more) := by
  simp only [blocksNeeded, List.length_append, List.map_append, List.sum_append]
  have grows := taken_mono (blocksOf_mono (show direntSize * (files.length + 2) ≤
    direntSize * (files.length + more.length + 2) by
      exact Nat.mul_le_mul_left _ (by omega)))
  omega

/-- The image of the input files that have been added so far. -/
structure Made (added : List Input) (state : State) : Prop where
  holds : Holds state (contentsOf added)
  /-- Their numbers. -/
  freeinode : state.freeinode = added.length + 2
  /-- The blocks they take. -/
  freeblock : state.freeblock = usedblocks + blocksNeeded added
  /-- Their types. -/
  kinds : ∀ inum, kind (inodes state.disk inum) = kindOf added.length inum

/-- Why an input file is not accepted. -/
def Rejected (file : Input) : Prop :=
  slash ∈ file.argument ∨ MAXFILE * BSIZE < file.contents.length

theorem kindOf_succ (count inum : Nat) :
    kindOf (count + 1) inum = if inum = count + 2 then (T_FILE, 1) else kindOf count inum := by
  unfold kindOf ROOTINO
  split_ifs <;> first | rfl | omega

theorem addFile_spec
    (made : Made added state)
    (file : Input)
    (number : added.length + 2 < sb.ninodes)
    (room : usedblocks + blocksNeeded (added ++ [file]) ≤ sb.size) :
    Run.Spec (addFile ROOTINO file) state (fun _ final => Made (added ++ [file]) final)
      (fun _ => Rejected file) := by
  have rootBound : ROOTINO < sb.ninodes := by decide
  have rootLength : (contentsOf added ROOTINO).length =
      direntSize * (added.length + 2) := length_rootContents added
  have rootGrown : direntSize * (added.length + 2) + direntSize =
      direntSize * (added.length + 3) := rfl
  have empty : contentsOf added (added.length + 2) = [] := by
    simp [contentsOf]
  have start := made.freeblock
  have needs := blocksNeeded_append added file
  by_cases slashes : slash ∈ file.argument
  · refine .bind (?_ : Run.Spec _ _ _ _)
    unfold assert
    rw [if_neg (not_not_intro slashes)]
    exact Or.inl slashes
  have checked : assert "index(argv[i], '/') == 0" (slash ∉ file.argument) state =
      .ok ((), state) := by
    rw [assert, if_pos slashes]
    rfl
  obtain ⟨middle, ran, holds, freeblock, freeinode, kinds⟩ :=
    ialloc_eq made.holds (by rw [made.freeinode]; exact number) T_FILE
  apply Run.Spec.bind_ok checked
  apply Run.Spec.bind_ok ran
  rw [made.freeinode] at freeinode kinds ⊢
  refine .bind ((iappend_spec holds rootBound (by unfold ROOTINO; omega) ?_).mono ?_ ?_)
  · rw [rootLength, length_dirent, rootGrown]
    omega
  · intro _ linked grows
    have rootFreeblock := grows.freeblock
    rw [rootLength, length_dirent, rootGrown] at rootFreeblock
    have notRoot : added.length + 2 ≠ ROOTINO := by
      unfold ROOTINO
      omega
    have stillEmpty : update (contentsOf added) ROOTINO
        (contentsOf added ROOTINO ++ dirent (added.length + 2) file.name)
        (added.length + 2) = [] := by
      rw [update_of_ne notRoot, empty]
    have none : taken (blocksOf 0) = 0 := rfl
    refine (appendAll_spec file.chunks grows.holds number
      (by rw [grows.freeinode]; omega) ?_).mono ?_ ?_
    · rw [stillEmpty, List.length_nil, none, Nat.zero_add]
      change _ + taken (blocksOf file.contents.length) ≤ _
      omega
    · intro _ final filled
      have newHolds := filled.holds
      have newFreeblock := filled.freeblock
      rw [stillEmpty, List.nil_append] at newHolds
      rw [stillEmpty, List.length_nil, none, Nat.zero_add] at newFreeblock
      change final.freeblock + 0 = _ + taken (blocksOf file.contents.length)
        at newFreeblock
      refine ⟨?_, ?_, by omega, ?_⟩
      · rw [contentsOf_append]
        exact newHolds
      · rw [filled.freeinode, grows.freeinode, freeinode, List.length_append, List.length_singleton]
      · intro inum
        rw [filled.kinds, grows.kinds, kinds, made.kinds, List.length_append,
          List.length_singleton, kindOf_succ]
    · intro _ big
      rw [stillEmpty, List.length_nil, Nat.zero_add] at big
      exact Or.inr big
  · intro _ big
    have inodeCount : sb.ninodes = 200 := rfl
    rw [rootLength, length_dirent] at big
    unfold MAXFILE NDIRECT NINDIRECT BSIZE direntSize at big
    omega

theorem addFiles_spec
    (files : List Input)
    (made : Made added state)
    (number : (added ++ files).length + 2 ≤ sb.ninodes)
    (room : usedblocks + blocksNeeded (added ++ files) ≤ sb.size) :
    Run.Spec (addFiles ROOTINO files) state (fun _ final => Made (added ++ files) final)
      (fun _ => ∃ file ∈ files, Rejected file) := by
  induction files generalizing added state with
  | nil =>
    rw [List.append_nil]
    exact made
  | cons file rest ih =>
    have split : added ++ file :: rest = (added ++ [file]) ++ rest := by simp
    rw [split] at number room ⊢
    have grows := blocksNeeded_mono (added ++ [file]) rest
    refine .bind ((addFile_spec made file ?_ (by omega)).mono ?_ ?_)
    · simp only [List.length_append, List.length_singleton] at number
      omega
    · intro _ middle middleMade
      refine (ih middleMade number room).mono (fun _ _ last => last) ?_
      rintro _ ⟨other, member, rejected⟩
      exact ⟨other, List.mem_cons_of_mem _ member, rejected⟩
    · intro _ rejected
      exact ⟨file, List.mem_cons_self, rejected⟩

/-! ## The finished image -/

/-- The size that `mkfs` gives the root directory. -/
def rootSize (files : List Input) : Nat :=
  (direntSize * (files.length + 2) / BSIZE + 1) * BSIZE

/-- The image that `mkfs` leaves behind. -/
structure Finished (files : List Input) (state : State) : Prop where
  laid : Laid state (inodes state.disk) (contentsOf files)
  /-- The sizes of the inodes. -/
  sizes : ∀ inum, (inodes state.disk inum).size.toNat =
    if inum = ROOTINO then rootSize files else (contentsOf files inum).length
  /-- Their types. -/
  kinds : ∀ inum, kind (inodes state.disk inum) = kindOf files.length inum
  /-- The blocks they take. -/
  freeblock : state.freeblock = usedblocks + blocksNeeded files
  /-- The bitmap. -/
  bitmap : state.disk (usedblocks - 1) = balloc state.freeblock

theorem getDinode_zero (position : Nat) :
    getDinode Cell.zero position = Dinode.zero := by
  have short : ∀ start, getShort Cell.zero start = 0 := by
    intro start
    have bytes : (Cell.zero : Block).slice start 2 = [0, 0] := by
      simp [Cell.slice, List.range_succ]
    rw [getShort, Cell.le, bytes]
    rfl
  simp only [getDinode, short, Cell.word_zero]
  rfl

/-- Writing a block before the data that holds no inodes. -/
theorem Laid.put_front
    (laid : Laid state (inodes state.disk) contents)
    (before : sec < usedblocks)
    (noInodes : sec < 2 ∨ usedblocks - 2 ≤ sec)
    (buf : Block) :
    inodes (state.put sec buf).disk = inodes state.disk ∧
      Laid (state.put sec buf) (inodes (state.put sec buf).disk) contents := by
  have agree : ∀ block, usedblocks ≤ block →
      (state.put sec buf).disk block = state.disk block := fun block behind =>
    update_of_ne (by omega) _ _
  have same : inodes (state.put sec buf).disk = inodes state.disk := by
    refine inodes_congr fun inum bound => update_of_ne ?_ _ _
    have front := i2b_lt bound
    have behind : 2 ≤ i2b inum := Nat.le_add_left _ _
    omega
  refine ⟨same, ?_⟩
  rw [same]
  refine ⟨laid.layout.congr agree fun _ => rfl, ?_, laid.small⟩
  rw [laid.layout.heldAt_congr agree fun _ => rfl]
  exact laid.filled

theorem inodes_initial : inodes initial.disk = fun _ => Dinode.zero := by
  funext inum
  unfold inodes Fs.dinode
  split
  · exact getDinode_zero _
  · rfl

theorem holds_initial (buf : Block) :
    Holds (initial.put 1 buf) (fun _ => []) ∧
      inodes (initial.put 1 buf).disk = fun _ => Dinode.zero := by
  have noBlocks : heldAt initial.disk (inodes initial.disk) = fun _ => 0 := by
    funext ⟨inum, place⟩
    rw [inodes_initial]
    cases place with
    | addr index => rfl
    | entry index => rfl
  have laid : Laid initial (inodes initial.disk) fun _ => [] := by
    refine ⟨⟨le_refl _, by decide, ?_, fun _ _ => rfl, ?_⟩, ?_, by simp⟩
    · rw [noBlocks]
      refine ⟨fun block behind => ?_, fun _ holds => absurd rfl holds,
        fun _ holds => absurd rfl holds, fun _ _ holds => absurd rfl holds,
        fun _ block behind before => ?_⟩
      · have positive := usedblocks_pos
        omega
      · have inFront := of_decide_eq_true before
        change block < usedblocks at inFront
        omega
    · intro inum off
      rw [List.getD_nil]
      unfold fileByte
      split
      · rfl
      · exact Cell.byte_zero _
    · intro inum place
      rw [noBlocks]
      exact ⟨fun holds => absurd rfl holds, fun below => absurd below (Nat.not_lt_zero _)⟩
  obtain ⟨same, newLaid⟩ :=
    laid.put_front (show 1 < usedblocks by decide) (Or.inl (by decide)) buf
  refine ⟨⟨newLaid, ?_, ?_, rfl⟩, same.trans inodes_initial⟩
  · intro inum
    rw [same, inodes_initial]
    rfl
  · intro inum _
    rw [same, inodes_initial]

/-- The root directory when no file has been added. -/
theorem root_spec
    (empty : Holds start fun _ => [])
    (free : inodes start.disk = fun _ => Dinode.zero)
    (firstBlock : start.freeblock = usedblocks)
    (firstInode : start.freeinode = ROOTINO) :
    ∃ state rooted, ialloc T_DIR start = .ok (ROOTINO, state) ∧ (do
        iappend ROOTINO (dirent ROOTINO dot)
        iappend ROOTINO (dirent ROOTINO dotdot) : MkfsM Unit) state = .ok ((), rooted) ∧
      Made [] rooted := by
  have rootBound : ROOTINO < sb.ninodes := by decide
  obtain ⟨state, ran, holds, freeblock, freeinode, kinds⟩ :=
    ialloc_eq empty (by rw [firstInode]; exact rootBound) T_DIR
  rw [firstInode] at ran freeinode kinds
  rw [firstBlock] at freeblock
  have live : ROOTINO < state.freeinode := by
    rw [freeinode]
    decide
  have first := iappend_spec holds rootBound live (p := dirent ROOTINO dot) (by
    rw [length_dirent, freeblock]
    decide)
  obtain ⟨_, middle, ranFirst, grows⟩ := first.exists_ok fun _ big => by
    rw [length_dirent] at big
    exact absurd big (by decide)
  have one : (update (fun _ => ([] : List UInt8)) ROOTINO
      ([] ++ dirent ROOTINO dot) ROOTINO).length = direntSize := by
    rw [update_self, List.nil_append, length_dirent]
  have middleFreeblock := grows.freeblock
  rw [length_dirent, freeblock] at middleFreeblock
  change middle.freeblock + 0 = usedblocks + 1 at middleFreeblock
  have second := iappend_spec grows.holds rootBound
    (by rw [grows.freeinode]; exact live) (p := dirent ROOTINO dotdot) (by
      rw [one, length_dirent, ← Nat.add_zero middle.freeblock, middleFreeblock]
      decide)
  obtain ⟨_, rooted, ranSecond, grown⟩ := second.exists_ok fun _ big => by
    rw [one, length_dirent] at big
    exact absurd big (by decide)
  refine ⟨state, rooted, ran, ?_, ?_, ?_, ?_, ?_⟩
  · rw [Run.bind_of_ok ranFirst, ranSecond]
  · have newHolds := grown.holds
    rw [update_idem, update_self, List.nil_append] at newHolds
    convert newHolds using 1
    funext inum
    match inum with
    | 0 => simp [contentsOf]
    | 1 => simp [contentsOf, rootContents, rootEntries]
    | index + 2 =>
      have notRoot : index + 2 ≠ ROOTINO := by
        unfold ROOTINO
        omega
      rw [update_of_ne notRoot]
      simp [contentsOf]
  · rw [grown.freeinode, grows.freeinode, freeinode]
    rfl
  · have rootedFreeblock := grown.freeblock
    rw [one, length_dirent] at rootedFreeblock
    change rooted.freeblock + 1 = middle.freeblock + 1 at rootedFreeblock
    have needs : blocksNeeded [] = 1 := rfl
    omega
  · intro inum
    rw [grown.kinds, grows.kinds, kinds, free]
    change (if inum = ROOTINO then (T_DIR, 1) else (0, 0)) = kindOf 0 inum
    unfold kindOf
    split_ifs
    · rfl
    · omega
    · rfl

theorem fixRoot_spec
    (made : Made files state)
    (number : files.length + 2 ≤ sb.ninodes) :
    ∃ final, fixRoot ROOTINO state = .ok ((), final) ∧
      Laid final (inodes final.disk) (contentsOf files) ∧
      (∀ inum, (inodes final.disk inum).size.toNat = if inum = ROOTINO then rootSize files
        else (contentsOf files inum).length) ∧
      (∀ inum, kind (inodes final.disk inum) = kindOf files.length inum) ∧
      final.freeblock = state.freeblock ∧ final.usedblocks = state.usedblocks := by
  have rootBound : ROOTINO < sb.ninodes := by decide
  have size : (inodes state.disk ROOTINO).size.toNat = direntSize * (files.length + 2) :=
    (made.holds.sizes ROOTINO).trans (length_rootContents files)
  have fits : (UInt32.ofNat (rootSize files)).toNat = rootSize files := by
    apply toNat_ofNat_length
    have inodeCount : sb.ninodes = 200 := rfl
    unfold rootSize direntSize MAXFILE NDIRECT NINDIRECT BSIZE
    omega
  have ran : fixRoot ROOTINO state = .ok ((), state.store ROOTINO
      { inodes state.disk ROOTINO with size := UInt32.ofNat (rootSize files) }) := by
    rw [fixRoot, Run.bind_of_ok (rinode_eq rootBound state), size]
    exact winode_eq rootBound _ _
  have laid : Laid state (update (inodes state.disk) ROOTINO
      (inodes state.disk ROOTINO)) (contentsOf files) := by
    rw [update_eq_self]
    exact made.holds.laid
  have stored := inodes_store rootBound
    { inodes state.disk ROOTINO with size := UInt32.ofNat (rootSize files) } state
  refine ⟨_, ran, laid.store rootBound rfl, ?_, ?_, rfl, rfl⟩
  · intro inum
    rw [stored]
    by_cases root : inum = ROOTINO
    · rw [root, update_self, if_pos rfl]
      exact fits
    · rw [update_of_ne root, if_neg root]
      exact made.holds.sizes inum
  · intro inum
    rw [stored, ← made.kinds inum]
    by_cases root : inum = ROOTINO
    · rw [root, update_self]
      rfl
    · rw [update_of_ne root]

/-- What `mkfs` makes of input files that fit on the disk. -/
theorem main_spec
    (files : List Input)
    (number : files.length + 2 ≤ sb.ninodes)
    (room : usedblocks + blocksNeeded files ≤ sb.size) :
    Run.Spec (main files) initial (fun _ final => Finished files final)
      (fun _ => ∃ file ∈ files, Rejected file) := by
  unfold main
  generalize superblock = buf
  obtain ⟨empty, free⟩ := holds_initial buf
  have firstBlock : (initial.put 1 buf).freeblock = usedblocks := rfl
  have firstInode : (initial.put 1 buf).freeinode = ROOTINO := rfl
  apply Run.Spec.bind_ok (wsect_eq 1 buf initial)
  generalize initial.put 1 buf = start at *
  obtain ⟨state, rooted, ran, entries, made⟩ :=
    root_spec empty free firstBlock firstInode
  have checked : assert "rootino == ROOTINO" (ROOTINO = ROOTINO) state = .ok ((), state) := by
    rw [assert, if_pos rfl]
    rfl
  obtain ⟨_, middle, first, second⟩ := Run.bind_eq_ok_iff.mp entries
  apply Run.Spec.bind_ok ran
  apply Run.Spec.bind_ok checked
  apply Run.Spec.bind_ok first
  apply Run.Spec.bind_ok second
  refine .bind ((addFiles_spec files made number room).mono ?_ fun _ rejected => rejected)
  intro _ filled filledMade
  rw [List.nil_append] at filledMade
  obtain ⟨fixed, ranFix, laid, sizes, kinds, freeblock, used⟩ :=
    fixRoot_spec filledMade number
  have usedEq : fixed.usedblocks = fixed.freeblock := by
    rw [used, freeblock, filledMade.holds.used]
  have written : writeBitmap fixed =
      .ok ((), fixed.put (usedblocks - 1) (balloc fixed.freeblock)) := by
    have inBitmap : fixed.usedblocks < BSIZE * 8 := by
      rw [usedEq]
      exact lt_of_le_of_lt laid.layout.bound (by decide)
    rw [writeBitmap, Run.bind_of_ok (Run.get_apply fixed), assert, if_pos inBitmap, usedEq]
    rfl
  obtain ⟨same, newLaid⟩ := laid.put_front (show usedblocks - 1 < usedblocks by decide)
    (Or.inr (by decide)) (balloc fixed.freeblock)
  apply Run.Spec.bind_ok ranFix
  refine .returns written ⟨newLaid, ?_, ?_, ?_, ?_⟩
  · rw [same]
    exact sizes
  · rw [same]
    exact kinds
  · change fixed.freeblock = _
    rw [freeblock, filledMade.freeblock]
  · simp only [State.put, update_self]

end Mkfs
end Xv6
