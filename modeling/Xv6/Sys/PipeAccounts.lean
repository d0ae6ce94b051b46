import Xv6.Sys.Accounts

/-!
# The accounts of pipes

An end of a pipe is open as long as there is an open file for it, or a call is
closing it; there is never more than one of these.  The page of a pipe is freed
when both ends have been closed, and only then.
-/

namespace Xv6

open Function
open Shares

/-- Who has an end of a pipe. -/
inductive EndHolder where
  | file (f : FileId)
  | call (pid : Pid)
  deriving DecidableEq

/-- The end of a pipe that a file is. -/
def File.pipeOf (entry : File) : Option (Nat × Bool) :=
  if entry.type = .pipe then some (entry.pipe, entry.writable) else none

/-- Whether an end of a pipe is open. -/
def PipeEnds.isOpen (ends : PipeEnds) (writable : Bool) : Bool :=
  if writable then ends.writeopen else ends.readopen

/-- How often the page of a pipe has to have been freed. -/
def PipeEnds.due (ends : PipeEnds) : Nat :=
  if ends.readopen = false ∧ ends.writeopen = false then 1 else 0

theorem PipeEnds.isOpen_close
    (ends : PipeEnds)
    (closed other : Bool) :
    (ends.close closed).isOpen other = if other = closed then false else ends.isOpen other := by
  obtain ⟨read, write, frees⟩ := ends
  cases closed <;> cases other <;> cases read <;> cases write <;> rfl

/-- Closing an open end frees the page exactly if the other end is closed. -/
theorem PipeEnds.frees_close {ends : PipeEnds}
    (isOpen : ends.isOpen writable = true)
    (freed : ends.frees = ends.due) :
    (ends.close writable).frees = (ends.close writable).due := by
  obtain ⟨read, write, frees⟩ := ends
  cases writable <;> cases read <;> cases write <;> simp_all [PipeEnds.isOpen, due, close]

namespace Books

/-- Whether an end is open, as a number. -/
def endCount (books : Books) (pipeEnd : Nat × Bool) : Nat :=
  ((books.pipes pipeEnd.1).isOpen pipeEnd.2).toNat

/-- The ends that a holder has. -/
def endShare (books : Books) (views : Pid → View) : EndHolder → Nat × Bool → Nat
  | .file f => single (books.file f).pipeOf
  | .call pid => single (views pid).closing

end Books

/-- The accounts of the pipes. -/
structure PipeAccounts (books : Books) (views : Pid → View) : Prop where
  /-- The open ends are those that are held, each of them once. -/
  balanced : Balanced books.endCount (books.endShare views)
  /-- Pipes that have not been made have no ends. -/
  unmade : ∀ p, books.npipes ≤ p → books.pipes p = PipeEnds.unmade
  /-- A page is freed once, when both ends are closed. -/
  freed : ∀ p, p < books.npipes → (books.pipes p).frees = (books.pipes p).due

namespace PipeAccounts

variable {books final : Books} {views : Pid → View} {pid : Pid} {own : View}

variable (accounts : PipeAccounts books views)

include accounts

/-- An end is open if and only if it is held. -/
theorem isOpen_iff
    (p : Nat)
    (writable : Bool) :
    (books.pipes p).isOpen writable = true ↔ (∃ f, (books.file f).pipeOf = some (p, writable)) ∨
        ∃ pid, (views pid).closing = some (p, writable) := by
  constructor
  · intro isOpen
    have counted : books.endCount (p, writable) ≠ 0 := by
      rw [Books.endCount, isOpen]
      exact Nat.one_ne_zero
    obtain ⟨holder, held⟩ := accounts.balanced.exists_share counted
    cases holder with
    | file f => exact Or.inl ⟨f, single_pos_iff.mp (Nat.pos_of_ne_zero held)⟩
    | call pid => exact Or.inr ⟨pid, single_pos_iff.mp (Nat.pos_of_ne_zero held)⟩
  · intro held
    have positive : ∃ holder, 0 < books.endShare views holder (p, writable) := by
      rcases held with ⟨f, found⟩ | ⟨pid, found⟩
      · exact ⟨.file f, single_pos_iff.mpr found⟩
      · exact ⟨.call pid, single_pos_iff.mpr found⟩
    obtain ⟨holder, share⟩ := positive
    have counted := share.trans_le (accounts.balanced.share_le holder (p, writable))
    by_contra closed
    rw [Books.endCount, Bool.eq_false_iff.mpr closed] at counted
    exact Nat.lt_irrefl 0 counted

/-- How often the page of a pipe has been freed. -/
theorem frees_eq (p : Nat) :
    (books.pipes p).frees = if p < books.npipes ∧ (books.pipes p).readopen = false ∧
        (books.pipes p).writeopen = false then 1 else 0 := by
  by_cases made : p < books.npipes
  · simp only [accounts.freed p made, PipeEnds.due, made, true_and]
  · rw [accounts.unmade p (Nat.le_of_not_lt made), if_neg fun both => made both.1]
    rfl

/-- What the accounts depend on. -/
theorem congr
    (pipes : final.pipes = books.pipes)
    (npipes : final.npipes = books.npipes)
    (files : ∀ f, (final.file f).pipeOf = (books.file f).pipeOf)
    (closing : own.closing = (views pid).closing) :
    PipeAccounts final (update views pid own) where
  balanced := by
    have counts : final.endCount = books.endCount := by
      funext pipeEnd
      rw [Books.endCount, pipes]
      rfl
    have shares : final.endShare (update views pid own) = books.endShare views := by
      funext holder
      cases holder with
      | file f => exact congrArg single (files f)
      | call other =>
        exact congrArg single (View.update_part View.closing closing other)
    rw [counts, shares]
    exact accounts.balanced
  unmade := by
    rw [npipes, pipes]
    exact accounts.unmade
  freed := by
    rw [npipes, pipes]
    exact accounts.freed

/-- The last reference to a file goes, and the call has to close the end. -/
theorem dropEnd
    (entry : File)
    (none : (views pid).closing = none)
    (before : (books.file f).pipeOf = own.closing)
    (after : entry.pipeOf = Option.none) :
    PipeAccounts (books.setFile f entry) (update views pid own) where
  balanced := by
    refine accounts.balanced.exchangeTwo (.file f) (.call pid) (fun same => by cases same) ?_ ?_
    · intro holder notFile notCall
      cases holder with
      | file other =>
        have different : other ≠ f := fun same => notFile (by rw [same])
        simp only [Books.endShare, Books.setFile, update_of_ne different]
      | call other =>
        have different : other ≠ pid := fun same => notCall (by rw [same])
        simp only [Books.endShare, update_of_ne different]
    · intro pipeEnd
      simp only [Books.endShare, Books.setFile, update_self, none, before,
        after, single_none, Pi.zero_apply, Nat.add_zero, Nat.zero_add]
      rfl
  unmade := accounts.unmade
  freed := accounts.freed

/-- `pipeclose`. -/
theorem closeEnd {p : Nat}
    (closing : (views pid).closing = some (p, writable))
    (done : own.closing = none) :
    PipeAccounts (books.closeEnd p writable) (update views pid own) := by
  have isOpen : (books.pipes p).isOpen writable = true :=
    (accounts.isOpen_iff p writable).mpr (Or.inr ⟨pid, closing⟩)
  have made : p < books.npipes := by
    by_contra notMade
    rw [accounts.unmade p (Nat.le_of_not_lt notMade)] at isOpen
    cases writable <;> cases isOpen
  refine ⟨?_, ?_, ?_⟩
  · refine accounts.balanced.exchangeOne (.call pid) ?_ ?_
    · intro holder different
      cases holder with
      | file f => rfl
      | call other =>
        have elsewhere : other ≠ pid := fun same => different (by rw [same])
        simp only [Books.endShare, update_of_ne elsewhere]
    rintro ⟨q, other⟩
    simp only [Books.endShare, Books.endCount, Books.closeEnd, update_self, closing, done, single]
    by_cases here : q = p
    · subst here
      simp only [update_self, PipeEnds.isOpen_close]
      by_cases same : other = writable
      · subst same
        simp [isOpen]
      · have different : ¬writable = other := fun equal => same equal.symm
        simp [same, different]
    · have different : ¬p = q := fun equal => here equal.symm
      simp [update_of_ne here, different]
  · intro q notMade
    have different : q ≠ p := by
      rintro rfl
      exact absurd made (Nat.not_lt.mpr notMade)
    simp only [Books.closeEnd, update_of_ne different]
    exact accounts.unmade q notMade
  · intro q isMade
    by_cases here : q = p
    · subst here
      simp only [Books.closeEnd, update_self]
      exact PipeEnds.frees_close isOpen (accounts.freed q isMade)
    · simp only [Books.closeEnd, update_of_ne here]
      exact accounts.freed q isMade

/-- The last step of `pipealloc`. -/
theorem openPipe
    (distinct : rf ≠ wf)
    (blankRead : (books.file rf).pipeOf = none)
    (blankWrite : (books.file wf).pipeOf = none)
    (closing : own.closing = (views pid).closing) :
    PipeAccounts (books.openPipe rf wf) (update views pid own) := by
  have readFile : (books.openPipe rf wf).file rf = (books.file rf).pipeEnd books.npipes false := by
    simp [Books.openPipe, Books.setFile, distinct]
  have writeFile : (books.openPipe rf wf).file wf = (books.file wf).pipeEnd books.npipes true := by
    simp [Books.openPipe, Books.setFile, distinct.symm, Books.newPipe]
  have otherFile : ∀ f, f ≠ rf → f ≠ wf → (books.openPipe rf wf).file f = books.file f := by
    intro f notRead notWrite
    simp [Books.openPipe, Books.setFile, notRead, notWrite, Books.newPipe]
  have pipes : (books.openPipe rf wf).pipes = update books.pipes books.npipes
      { readopen := true, writeopen := true, frees := 0 } := rfl
  have unmade := accounts.unmade books.npipes (Nat.le_refl _)
  refine ⟨?_, ?_, ?_⟩
  · refine accounts.balanced.exchangeTwo (.file rf) (.file wf)
      (fun same => distinct (EndHolder.file.inj same)) ?_ ?_
    · intro holder notRead notWrite
      cases holder with
      | file f =>
        refine congrArg (fun entry => single (File.pipeOf entry)) (otherFile f ?_ ?_)
        · exact fun same => notRead (by rw [same])
        · exact fun same => notWrite (by rw [same])
      | call other =>
        exact congrArg single (View.update_part View.closing closing other)
    · rintro ⟨p, writable⟩
      simp only [Books.endShare, Books.endCount, readFile, writeFile, blankRead,
        blankWrite, pipes, single_none, Pi.zero_apply]
      by_cases here : p = books.npipes
      · subst here
        simp only [update_self, unmade]
        cases writable <;> simp [File.pipeEnd, File.pipeOf, single, PipeEnds.isOpen,
          PipeEnds.unmade]
      · have different : ¬books.npipes = p := fun equal => here equal.symm
        simp [File.pipeEnd, File.pipeOf, single, different, update_of_ne here]
  · intro p notMade
    have later : books.npipes + 1 ≤ p := notMade
    rw [pipes, update_of_ne (by omega)]
    exact accounts.unmade p (by omega)
  · intro p made
    have earlier : p < books.npipes + 1 := made
    rw [pipes]
    by_cases here : p = books.npipes
    · subst here
      rw [update_self]
      rfl
    · rw [update_of_ne here]
      exact accounts.freed p (by omega)

end PipeAccounts
end Xv6
