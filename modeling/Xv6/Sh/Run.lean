import Mathlib.Data.List.Range
import Xv6.Sh.Parser

/-!
# Running a command tree

`runcmd` as the system calls it makes, and the processes that make them.  A
process has a descriptor table, a parent and the code it still has to run; the
code of `runcmd` is unfolded one tree node at a time.  Every interleaving of
the processes is a run, and a process whose `exec` succeeded does as it likes
with its own descriptors from then on.  `fork`, `pipe`, `dup` and `open` are
taken to succeed; the branches of `sh.c` for their failure are in the code all
the same.
-/

namespace Xv6
namespace Sh

open Function

/-! ## Descriptors -/

/-- What a descriptor refers to. -/
inductive File where
  /-- What the descriptor of the shell referred to at the start. -/
  | given (fd : Nat)
  | named (file : Text) (mode : UInt32)
  | readEnd (pipe : Nat)
  | writeEnd (pipe : Nat)
  deriving DecidableEq, Repr

/-- The open files of a process. -/
abbrev Table := Nat → Option File

/-- Exactly the descriptors 0, 1 and 2 are open. -/
def standard : Table :=
  fun fd => if fd < 3 then some (.given fd) else none

/-- The lowest free descriptor. -/
def fdalloc (table : Table) : Option Nat :=
  (List.range NOFILE).find? (fun fd => (table fd).isNone)

/-- Give a descriptor a file. -/
def Table.put (table : Table) (fd : Nat) (file : File) : Table :=
  update table fd (some file)

/-- Close a descriptor. -/
def Table.drop (table : Table) (fd : Nat) : Table :=
  update table fd none

/-! ## Code -/

/-- The way from a tree node to one below it. -/
inductive Branch where
  | left
  | right
  /-- The command in a redirection or in the background. -/
  | inner
  deriving DecidableEq, Repr

/-- A tree node, by the way to it from the root. -/
abbrev Site := List Branch

/-- The command below a tree node. -/
def Cmd.branch : Cmd ω → Branch → Option (Cmd ω)
  | .redir cmd _ _ _, .inner => some cmd
  | .pipe left _, .left => some left
  | .pipe _ right, .right => some right
  | .list left _, .left => some left
  | .list _ right, .right => some right
  | .back cmd, .inner => some cmd
  | _, _ => none

/-- The command at a tree node. -/
def Cmd.subtree (tree : Cmd ω) (site : Site) : Option (Cmd ω) :=
  site.foldlM Cmd.branch tree

/-- The argument of `close` or `dup`: a number, `p[0]` or `p[1]`. -/
inductive Operand where
  | lit (fd : Nat)
  | p0
  | p1
  deriving DecidableEq, Repr

/-- The value of an operand in a process with array `p`. -/
def Operand.value (p : Nat × Nat) : Operand → Nat
  | .lit fd => fd
  | .p0 => p.1
  | .p1 => p.2

/-- The system calls that a process of the shell still has to make. -/
inductive Code where
  | call (site : Site) (cmd : Cmd Text)
  | close (fd : Operand) (next : Code)
  | dup (fd : Operand) (next : Code)
  | openFile (file : Text) (mode : UInt32) (failed next : Code)
  | pipe (site : Site) (failed next : Code)
  /-- `fork1`, with the code of the child and of the parent. -/
  | fork (background : Bool) (failed child parent : Code)
  | wait (next : Code)
  | exec (argv : List Text) (failed : Code)
  | exit
  | program
  | zombie
  deriving DecidableEq, Repr

/-- `panic` of the shell: a message, and `exit`. -/
def Code.panic : Code := .exit

/-- `runcmd` on a tree node. -/
def runcmd (site : Site) : Cmd Text → Code
  | .exec argv => if argv = [] then .exit else .exec argv .exit
  | .redir cmd file mode fd =>
    .close (.lit fd) (.openFile file mode .exit (.call (site ++ [.inner]) cmd))
  | .list left right =>
    .fork false .panic (.call (site ++ [.left]) left) (.wait (.call (site ++ [.right]) right))
  | .pipe left right =>
    .pipe site .panic (.fork false .panic (.close (.lit 1) (.dup .p1 (.close .p0 (.close .p1
          (.call (site ++ [.left]) left)))))
        (.fork false .panic (.close (.lit 0) (.dup .p0 (.close .p0 (.close .p1
            (.call (site ++ [.right]) right)))))
          (.close .p0 (.close .p1 (.wait (.wait .exit))))))
  | .back cmd => .fork true .panic (.call (site ++ [.inner]) cmd) .exit

/-! ## Processes -/

/-- A process. -/
structure Proc where
  table : Table
  code : Code
  site : Site
  p : Nat × Nat
  /-- Its parent; `none` for a process outside the tree. -/
  parent : Option Nat
  background : Bool

/-- The processes, and the pipes made so far. -/
structure State where
  procs : Nat → Option Proc
  nextpid : Nat
  pipes : Nat
  made : Site → Option Nat

/-- Replace a process. -/
def State.setProc (s : State) (pid : Nat) (proc : Proc) : State :=
  { s with procs := update s.procs pid (some proc) }

/-- The children of a process that exits are passed to `init`. -/
def orphan (pid : Nat) (proc : Proc) : Proc :=
  if proc.parent = some pid then { proc with parent := none } else proc

/-- The state after a process has exited: its files are closed, it waits to be
reaped, and its children have another parent. -/
def State.exit (s : State) (pid : Nat) (proc : Proc) : State :=
  { s with
    procs := update (fun other => (s.procs other).map (orphan pid)) pid
      (some { orphan pid proc with table := fun _ => none, code := .zombie }) }

/-- The state after a process has forked. -/
def State.fork (s : State) (pid : Nat) (proc : Proc) (background : Bool)
    (child parent : Code) : State :=
  { s with
    procs := update (update s.procs pid (some { proc with code := parent }))
      s.nextpid (some { proc with code := child, parent := some pid, background := background })
    nextpid := s.nextpid + 1 }

/-- The state after a parent has reaped a child. -/
def State.reap (s : State) (pid : Nat) (proc : Proc) (child : Nat) (next : Code) : State :=
  { s with
    procs := update (update s.procs child none) pid (some { proc with code := next }) }

/-- One step of one process. -/
inductive Step : State → State → Prop where
  | call
      (running : s.procs pid = some proc)
      (code : proc.code = .call site cmd) :
      Step s (s.setProc pid { proc with code := runcmd site cmd, site := site })
  | close
      (running : s.procs pid = some proc)
      (code : proc.code = .close fd next) :
      Step s (s.setProc pid { proc with code := next, table := proc.table.drop (fd.value proc.p) })
  | dup
      (running : s.procs pid = some proc)
      (code : proc.code = .dup fd next)
      (isOpen : proc.table (fd.value proc.p) = some file)
      (found : fdalloc proc.table = some new) :
      Step s (s.setProc pid { proc with code := next, table := proc.table.put new file })
  | openFile
      (running : s.procs pid = some proc)
      (code : proc.code = .openFile file mode failed next)
      (found : fdalloc proc.table = some new) :
      Step s (s.setProc pid
        { proc with code := next, table := proc.table.put new (.named file mode) })
  | pipe
      (running : s.procs pid = some proc)
      (code : proc.code = .pipe site failed next)
      (first : fdalloc proc.table = some fd0)
      (second : fdalloc (proc.table.put fd0 (.readEnd s.pipes)) = some fd1) :
      Step s (State.setProc
        { s with pipes := s.pipes + 1, made := update s.made site (some s.pipes) } pid
        { proc with
          code := next
          p := (fd0, fd1)
          table := (proc.table.put fd0 (.readEnd s.pipes)).put fd1 (.writeEnd s.pipes) })
  | fork
      (running : s.procs pid = some proc)
      (code : proc.code = .fork background failed child parent) :
      Step s (s.fork pid proc background child parent)
  | wait
      (running : s.procs pid = some proc)
      (code : proc.code = .wait next)
      (exited : s.procs child = some dead)
      (zombie : dead.code = .zombie)
      (own : dead.parent = some pid) :
      Step s (s.reap pid proc child next)
  /-- `wait` returns at once in a process without children. -/
  | childless
      (running : s.procs pid = some proc)
      (code : proc.code = .wait next)
      (none : ∀ child other, s.procs child = some other → other.parent ≠ some pid) :
      Step s (s.setProc pid { proc with code := next })
  | exec
      (running : s.procs pid = some proc)
      (code : proc.code = .exec argv failed) :
      Step s (s.setProc pid { proc with code := .program })
  /-- `exec` returns: the command cannot be run. -/
  | execFailed
      (running : s.procs pid = some proc)
      (code : proc.code = .exec argv failed) :
      Step s (s.setProc pid { proc with code := failed })
  | exit
      (running : s.procs pid = some proc)
      (code : proc.code = .exit) :
      Step s (s.exit pid proc)
  /-- A program closes, duplicates and opens files and makes pipes. -/
  | act
      (running : s.procs pid = some proc)
      (code : proc.code = .program)
      (more : s.pipes ≤ pipes)
      (files : ∀ fd file, table fd = some file →
        (∃ old, proc.table old = some file) ∨ (∃ name mode, file = .named name mode) ∨
          ∃ pipe, s.pipes ≤ pipe ∧ pipe < pipes ∧ (file = .readEnd pipe ∨ file = .writeEnd pipe)) :
      Step s (State.setProc { s with pipes := pipes } pid { proc with table := table })
  | actFork
      (running : s.procs pid = some proc)
      (code : proc.code = .program) :
      Step s (s.fork pid proc background .program .program)
  | actWait
      (running : s.procs pid = some proc)
      (code : proc.code = .program)
      (exited : s.procs child = some dead)
      (zombie : dead.code = .zombie)
      (own : dead.parent = some pid) :
      Step s (s.reap pid proc child .program)
  | actExit
      (running : s.procs pid = some proc)
      (code : proc.code = .program) :
      Step s (s.exit pid proc)

/-- One process is about to run the tree. -/
def start (tree : Cmd Text) : State where
  procs := fun pid =>
    if pid = 0 then
      some
        { table := standard
          code := .call [] tree
          site := []
          p := (0, 0)
          parent := none
          background := false }
    else
      none
  nextpid := 1
  pipes := 0
  made := fun _ => none

/-- A state of some run of the tree. -/
def Reachable (tree : Cmd Text) (s : State) : Prop :=
  Relation.ReflTransGen Step (start tree) s

end Sh
end Xv6
