import Mathlib.Data.Finset.Card
import Xv6.Sh.Run
import Xv6.Sh.Strings

/-!
# The shell wires descriptors correctly

`Wired` says which file each descriptor of a process must refer to when the
process reaches a tree node, from the nodes on the way there.  `Good` executes
the code of a process on its table and asks for `Wired` at every node the code
can reach.  Both are kept by every step of every process, together with who
may hold the ends of a pipe and which children are still to be waited for.
-/

namespace Xv6
namespace Sh

open Function

/-! ## Descriptor tables -/

theorem fdalloc_eq_some
    (below : fd < NOFILE)
    (free : table fd = none)
    (used : ∀ lower < fd, (table lower).isSome) :
    fdalloc table = some fd := by
  rw [fdalloc, List.find?_range_eq_some]
  refine ⟨by rw [free]; rfl, List.mem_range.mpr below, ?_⟩
  intro lower less
  rw [Option.not_isNone]
  exact used lower less

@[simp] theorem Table.put_self (table : Table) (fd : Nat) (file : File) :
    table.put fd file fd = some file :=
  update_self _ _ _

theorem Table.put_of_ne
    (table : Table)
    (file : File)
    (apart : other ≠ fd) :
    table.put fd file other = table other :=
  update_of_ne apart _ _

@[simp] theorem Table.drop_self (table : Table) (fd : Nat) : table.drop fd fd = none :=
  update_self _ _ _

theorem Table.drop_of_ne
    (table : Table)
    (apart : other ≠ fd) :
    table.drop fd other = table other :=
  update_of_ne apart _ _

theorem Table.put_drop (table : Table) (fd : Nat) (file : File) :
    (table.drop fd).put fd file = table.put fd file :=
  update_idem _ _ _

/-- A file of a table after a change was put there or is an old one. -/
theorem Table.eq_of_put {table : Table}
    (held : table.put fd file other = some found) :
    found = file ∨ table other = some found := by
  by_cases same : other = fd
  · subst same
    rw [Table.put_self] at held
    exact .inl (Option.some.inj held).symm
  · rw [Table.put_of_ne _ _ same] at held
    exact .inr held

theorem Table.eq_of_drop {table : Table}
    (held : table.drop fd other = some found) :
    table other = some found := by
  by_cases same : other = fd
  · subst same
    rw [Table.drop_self] at held
    exact nomatch held
  · rwa [Table.drop_of_ne _ same] at held

/-! ## The files that a tree node is to find -/

/-- Every redirection of a tree replaces one of the descriptors 0, 1 and 2. -/
def Cmd.Low : Cmd ω → Prop
  | .exec _ => True
  | .redir cmd _ _ fd => fd < 3 ∧ cmd.Low
  | .pipe left right => left.Low ∧ right.Low
  | .list left right => left.Low ∧ right.Low
  | .back cmd => cmd.Low

/-- A process reaches a tree node with a command and a table: the table of the
start, changed by every redirection and every side of a pipe on the way. -/
inductive Wired (made : Site → Option Nat) (tree : Cmd Text) :
    Site → Cmd Text → Table → Prop where
  | root : Wired made tree [] tree standard
  | redir
      (above : Wired made tree site (.redir cmd file mode fd) table) :
      Wired made tree (site ++ [.inner]) cmd (table.put fd (.named file mode))
  | listLeft
      (above : Wired made tree site (.list left right) table) :
      Wired made tree (site ++ [.left]) left table
  | listRight
      (above : Wired made tree site (.list left right) table) :
      Wired made tree (site ++ [.right]) right table
  | back
      (above : Wired made tree site (.back cmd) table) :
      Wired made tree (site ++ [.inner]) cmd table
  | pipeLeft
      (above : Wired made tree site (.pipe left right) table)
      (pipe : made site = some k) :
      Wired made tree (site ++ [.left]) left (table.put 1 (.writeEnd k))
  | pipeRight
      (above : Wired made tree site (.pipe left right) table)
      (pipe : made site = some k) :
      Wired made tree (site ++ [.right]) right (table.put 0 (.readEnd k))

theorem Wired.mono
    (wired : Wired made tree site cmd table)
    (kept : ∀ node k, made node = some k → later node = some k) :
    Wired later tree site cmd table := by
  induction wired with
  | root => exact .root
  | redir _ ih => exact .redir ih
  | listLeft _ ih => exact .listLeft ih
  | listRight _ ih => exact .listRight ih
  | back _ ih => exact .back ih
  | pipeLeft _ pipe ih => exact .pipeLeft ih (kept _ _ pipe)
  | pipeRight _ pipe ih => exact .pipeRight ih (kept _ _ pipe)

theorem subtree_append {tree : Cmd ω}
    (here : tree.subtree site = some cmd)
    (branch : Branch) :
    tree.subtree (site ++ [branch]) = cmd.branch branch := by
  have steps : tree.subtree (site ++ [branch]) = (tree.subtree site).bind (·.subtree [branch]) :=
    List.foldlM_append
  rw [steps, here]
  simp [Cmd.subtree]

/-- The command is the one of the tree. -/
theorem Wired.subtree_eq (wired : Wired made tree site cmd table) :
    tree.subtree site = some cmd := by
  induction wired with
  | root => rfl
  | redir _ ih => exact subtree_append ih _
  | listLeft _ ih => exact subtree_append ih _
  | listRight _ ih => exact subtree_append ih _
  | back _ ih => exact subtree_append ih _
  | pipeLeft _ _ ih => exact subtree_append ih _
  | pipeRight _ _ ih => exact subtree_append ih _

/-- A side of a pipe finds the end of its node's pipe. -/
theorem Wired.side
    (wired : Wired made tree (node ++ [branch]) cmd table)
    (pipe : tree.subtree node = some (.pipe left right)) :
    (branch = .left → ∃ k, made node = some k ∧ table 1 = some (.writeEnd k)) ∧
      (branch = .right → ∃ k, made node = some k ∧ table 0 = some (.readEnd k)) := by
  generalize whole : node ++ [branch] = site at wired
  cases wired with
  | root => exact absurd whole (List.append_ne_nil_of_right_ne_nil _ (List.cons_ne_nil _ _))
  | redir above =>
    obtain ⟨rfl, rest⟩ := List.append_inj' whole rfl
    rw [above.subtree_eq] at pipe
    exact nomatch pipe
  | listLeft above =>
    obtain ⟨rfl, rest⟩ := List.append_inj' whole rfl
    rw [above.subtree_eq] at pipe
    exact nomatch pipe
  | listRight above =>
    obtain ⟨rfl, rest⟩ := List.append_inj' whole rfl
    rw [above.subtree_eq] at pipe
    exact nomatch pipe
  | back above =>
    obtain ⟨rfl, rest⟩ := List.append_inj' whole rfl
    rw [above.subtree_eq] at pipe
    exact nomatch pipe
  | pipeLeft above own =>
    obtain ⟨rfl, rest⟩ := List.append_inj' whole rfl
    obtain rfl := List.singleton_inj.mp rest
    exact ⟨fun _ => ⟨_, own, Table.put_self _ _ _⟩, nofun⟩
  | pipeRight above own =>
    obtain ⟨rfl, rest⟩ := List.append_inj' whole rfl
    obtain rfl := List.singleton_inj.mp rest
    exact ⟨nofun, fun _ => ⟨_, own, Table.put_self _ _ _⟩⟩

theorem isSome_put_iff {table : Table}
    (exact : ∀ fd, (table fd).isSome ↔ fd < 3)
    (low : new < 3)
    (file : File)
    (fd : Nat) :
    (table.put new file fd).isSome ↔ fd < 3 := by
  by_cases same : fd = new
  · subst same
    simpa using low
  · rw [Table.put_of_ne _ _ same]
    exact exact fd

/-- The descriptors 0, 1 and 2 are open at every tree node, and no others. -/
theorem Wired.exactly
    (wired : Wired made tree site cmd table)
    (low : tree.Low) :
    cmd.Low ∧ ∀ fd, (table fd).isSome ↔ fd < 3 := by
  induction wired with
  | root =>
    refine ⟨low, fun fd => ?_⟩
    unfold standard
    split <;> simp_all
  | redir _ ih => exact ⟨ih.1.2, isSome_put_iff ih.2 ih.1.1 _⟩
  | listLeft _ ih => exact ⟨ih.1.1, ih.2⟩
  | listRight _ ih => exact ⟨ih.1.2, ih.2⟩
  | back _ ih => exact ih
  | pipeLeft _ _ ih => exact ⟨ih.1.1, isSome_put_iff ih.2 (by decide) _⟩
  | pipeRight _ _ ih => exact ⟨ih.1.2, isSome_put_iff ih.2 (by decide) _⟩

/-- The ends of the pipes that tree nodes have made are where they belong: the
write end on the left side of its node, the read end on the right side. -/
def PipeEnds (made : Site → Option Nat) (site : Site) (table : Table) : Prop :=
  ∀ node k fd, made node = some k → (table fd = some (.writeEnd k) → node ++ [.left] <+: site) ∧
      (table fd = some (.readEnd k) → node ++ [.right] <+: site)

/-- No two tree nodes have made the same pipe. -/
def MadeOnce (made : Site → Option Nat) : Prop :=
  ∀ node other k, made node = some k → made other = some k → node = other

theorem PipeEnds.below
    (ends : PipeEnds made site table)
    (branch : Branch) :
    PipeEnds made (site ++ [branch]) table := by
  intro node k fd pipe
  obtain ⟨write, read⟩ := ends node k fd pipe
  exact ⟨fun held => (write held).trans (List.prefix_append _ _),
    fun held => (read held).trans (List.prefix_append _ _)⟩

theorem Wired.pipeEnds
    (wired : Wired made tree site cmd table)
    (once : MadeOnce made) :
    PipeEnds made site table := by
  induction wired with
  | root =>
    intro node k fd _
    unfold standard
    split <;> simp
  | redir _ ih =>
    intro node k fd pipe
    obtain ⟨write, read⟩ := ih.below .inner node k fd pipe
    refine ⟨fun held => ?_, fun held => ?_⟩
    · rcases Table.eq_of_put held with equal | old
      · exact nomatch equal
      · exact write old
    · rcases Table.eq_of_put held with equal | old
      · exact nomatch equal
      · exact read old
  | listLeft _ ih => exact ih.below _
  | listRight _ ih => exact ih.below _
  | back _ ih => exact ih.below _
  | pipeLeft _ own ih =>
    intro node k fd pipe
    obtain ⟨write, read⟩ := ih.below .left node k fd pipe
    refine ⟨fun held => ?_, fun held => ?_⟩
    · rcases Table.eq_of_put held with equal | old
      · obtain rfl := File.writeEnd.inj equal
        rw [once _ _ _ pipe own]
      · exact write old
    · rcases Table.eq_of_put held with equal | old
      · exact nomatch equal
      · exact read old
  | pipeRight _ own ih =>
    intro node k fd pipe
    obtain ⟨write, read⟩ := ih.below .right node k fd pipe
    refine ⟨fun held => ?_, fun held => ?_⟩
    · rcases Table.eq_of_put held with equal | old
      · exact nomatch equal
      · exact write old
    · rcases Table.eq_of_put held with equal | old
      · obtain rfl := File.readEnd.inj equal
        rw [once _ _ _ pipe own]
      · exact read old

/-! ## Code that wires descriptors -/

/-- The code, run on the table of a process, finds at every tree node it
reaches the files that the node is to find, and leaves no others open when it
waits, exits or executes a command. -/
def Good (tree : Cmd Text) :
    (Site → Option Nat) → Code → Site → Nat × Nat → Table → Prop
  | made, .call site cmd, _, _, table => Wired made tree site cmd table
  | made, .close fd next, site, p, table => Good tree made next site p (table.drop (fd.value p))
  | made, .dup fd next, site, p, table =>
    ∃ file new, table (fd.value p) = some file ∧ fdalloc table = some new ∧
      Good tree made next site p (table.put new file)
  | made, .openFile file mode _ next, site, p, table =>
    ∃ new, fdalloc table = some new ∧ Good tree made next site p (table.put new (.named file mode))
  | made, .pipe node _ next, site, _, table =>
    node = site ∧ (made node = none → ∀ k, ∃ fd0 fd1,
      fdalloc table = some fd0 ∧ fdalloc (table.put fd0 (.readEnd k)) = some fd1 ∧
        Good tree (update made node (some k)) next site (fd0, fd1)
          ((table.put fd0 (.readEnd k)).put fd1 (.writeEnd k)))
  | made, .fork _ _ child parent, site, p, table =>
    Good tree made child site p table ∧ Good tree made parent site p table
  | made, .wait next, site, p, table =>
    (∃ cmd, Wired made tree site cmd table) ∧ Good tree made next site p table
  | made, .exec argv failed, site, p, table =>
    Wired made tree site (.exec argv) table ∧ Good tree made failed site p table
  | made, .exit, site, _, table => ∃ cmd, Wired made tree site cmd table
  | _, .program, _, _, _ => True
  | _, .zombie, _, _, table => ∀ fd, table fd = none

theorem Good.mono
    (good : Good tree made code site p table)
    (kept : ∀ node k, made node = some k → later node = some k) :
    Good tree later code site p table := by
  induction code generalizing made later p table with
  | call node cmd => exact Wired.mono good kept
  | close fd next ih => exact ih good kept
  | dup fd next ih =>
    obtain ⟨file, new, held, found, rest⟩ := good
    exact ⟨file, new, held, found, ih rest kept⟩
  | openFile file mode failed next _ ih =>
    obtain ⟨new, found, rest⟩ := good
    exact ⟨new, found, ih rest kept⟩
  | pipe node failed next _ ih =>
    refine ⟨good.1, fun unmade k => ?_⟩
    have before : made node = none := by
      cases pipe : made node with
      | none => rfl
      | some old =>
        rw [kept node old pipe] at unmade
        exact nomatch unmade
    obtain ⟨fd0, fd1, first, second, rest⟩ := good.2 before k
    refine ⟨fd0, fd1, first, second, ih rest ?_⟩
    intro other old
    by_cases same : other = node
    · subst same
      rw [update_self, update_self]
      exact id
    · rw [update_of_ne same, update_of_ne same]
      exact kept other old
  | fork background failed child parent _ ihChild ihParent =>
    exact ⟨ihChild good.1 kept, ihParent good.2 kept⟩
  | wait next ih =>
    obtain ⟨⟨cmd, wired⟩, rest⟩ := good
    exact ⟨⟨cmd, wired.mono kept⟩, ih rest kept⟩
  | exec argv failed ih => exact ⟨good.1.mono kept, ih good.2 kept⟩
  | exit =>
    obtain ⟨cmd, wired⟩ := good
    exact ⟨cmd, wired.mono kept⟩
  | program => exact good
  | zombie => exact good

/-- The table of a process that has made a pipe with descriptors 3 and 4. -/
def Table.piped (table : Table) (k : Nat) : Table :=
  (table.put 3 (.readEnd k)).put 4 (.writeEnd k)

theorem isSome_piped_iff {table : Table}
    (exact : ∀ fd, (table fd).isSome ↔ fd < 3)
    (k fd : Nat) :
    (table.piped k fd).isSome ↔ fd < 5 := by
  unfold Table.piped
  by_cases four : fd = 4
  · rw [four, Table.put_self]
    simp
  · rw [Table.put_of_ne _ _ four]
    by_cases three : fd = 3
    · rw [three, Table.put_self]
      simp
    · rw [Table.put_of_ne _ _ three, exact]
      omega

/-- A side of a pipe closes one of its first three descriptors, and `dup` finds
that one. -/
theorem fdalloc_piped_drop {table : Table}
    (exact : ∀ fd, (table fd).isSome ↔ fd < 3)
    (low : fd < 3) :
    fdalloc ((table.piped k).drop fd) = some fd := by
  refine fdalloc_eq_some (lt_trans low (by decide)) (Table.drop_self _ _) ?_
  intro lower less
  rw [Table.drop_of_ne _ (Nat.ne_of_lt less), isSome_piped_iff exact]
  omega

/-- Closing both descriptors of the pipe leaves the table without it. -/
theorem piped_drop_drop {table : Table}
    (exact : ∀ fd, (table fd).isSome ↔ fd < 3) :
    ((table.piped k).drop 3).drop 4 = table := by
  funext fd
  have free : ∀ fd, 3 ≤ fd → table fd = none := fun fd above => by
    rw [← Option.not_isSome_iff_eq_none, exact]
    omega
  by_cases four : fd = 4
  · rw [four, Table.drop_self, free 4 (by decide)]
  · rw [Table.drop_of_ne _ four]
    by_cases three : fd = 3
    · rw [three, Table.drop_self, free 3 le_rfl]
    · rw [Table.drop_of_ne _ three, Table.piped, Table.put_of_ne _ _ four,
        Table.put_of_ne _ _ three]

/-- The table of a side of a pipe after its `close` and `dup` calls. -/
theorem piped_side {table : Table}
    (exact : ∀ fd, (table fd).isSome ↔ fd < 3)
    (low : fd < 3)
    (file : File) :
    ((((table.piped k).drop fd).put fd file).drop 3).drop 4 = table.put fd file := by
  rw [Table.put_drop]
  have swap : (table.piped k).put fd file = (table.put fd file).piped k := by
    unfold Table.piped Table.put
    rw [update_comm (by omega), update_comm (by omega : 3 ≠ fd)]
  rw [swap, piped_drop_drop (isSome_put_iff exact low file)]

/-- `runcmd` wires the descriptors of every kind of node. -/
theorem runcmd_good
    (wired : Wired made tree site cmd table)
    (low : tree.Low)
    (p : Nat × Nat) :
    Good tree made (runcmd site cmd) site p table := by
  obtain ⟨lowCmd, exactly⟩ := wired.exactly low
  have free : ∀ fd, 3 ≤ fd → table fd = none := fun fd above => by
    rw [← Option.not_isSome_iff_eq_none, exactly]
    omega
  cases cmd with
  | exec argv =>
    simp only [runcmd]
    by_cases empty : argv = []
    · rw [if_pos empty]
      exact ⟨_, wired⟩
    · rw [if_neg empty]
      exact ⟨wired, _, wired⟩
  | redir cmd file mode fd =>
    refine ⟨fd, ?_, ?_⟩
    · have below : fd < NOFILE := lt_trans lowCmd.1 (by decide)
      refine fdalloc_eq_some below (Table.drop_self _ _) ?_
      intro lower less
      have apart : lower ≠ Operand.value p (.lit fd) := Nat.ne_of_lt less
      rw [Table.drop_of_ne _ apart, exactly]
      exact less.trans lowCmd.1
    · change Wired made tree _ cmd ((table.drop fd).put fd _)
      rw [Table.put_drop]
      exact wired.redir
  | list left right => exact ⟨wired.listLeft, ⟨_, wired⟩, wired.listRight⟩
  | back cmd => exact ⟨wired.back, _, wired⟩
  | pipe left right =>
    refine ⟨rfl, fun unmade k => ⟨3, 4, ?_, ?_, ?_⟩⟩
    · refine fdalloc_eq_some (by decide) (free 3 le_rfl) ?_
      intro lower less
      exact (exactly lower).mpr less
    · refine fdalloc_eq_some (by decide) ?_ ?_
      · rw [Table.put_of_ne _ _ (by decide)]
        exact free 4 (by decide)
      · intro lower less
        by_cases same : lower = 3
        · rw [same, Table.put_self]
          rfl
        · rw [Table.put_of_ne _ _ same, exactly]
          omega
    have kept : ∀ node old, made node = some old → update made site (some k) node = some old := by
      intro node old pipe
      have apart : node ≠ site := by
        rintro rfl
        rw [unmade] at pipe
        exact nomatch pipe
      rw [update_of_ne apart]
      exact pipe
    have own : update made site (some k) site = some k := update_self _ _ _
    have later := wired.mono kept
    refine ⟨⟨.writeEnd k, 1, ?_, fdalloc_piped_drop exactly (by decide), ?_⟩,
      ⟨.readEnd k, 0, ?_, fdalloc_piped_drop exactly (by decide), ?_⟩, ?_⟩
    · exact (Table.drop_of_ne _ (by decide)).trans (Table.put_self _ _ _)
    · change Wired _ tree _ left (((((table.piped k).drop 1).put 1 _).drop 3).drop 4)
      rw [piped_side exactly (by decide)]
      exact later.pipeLeft own
    · refine (Table.drop_of_ne _ (by decide)).trans ?_
      exact (Table.put_of_ne _ _ (by decide)).trans (Table.put_self _ _ _)
    · change Wired _ tree _ right (((((table.piped k).drop 0).put 0 _).drop 3).drop 4)
      rw [piped_side exactly (by decide)]
      exact later.pipeRight own
    · change Good tree _ (.wait (.wait .exit)) site (3, 4) (((table.piped k).drop 3).drop 4)
      rw [piped_drop_drop exactly]
      exact ⟨⟨_, later⟩, ⟨_, later⟩, _, later⟩

end Sh
end Xv6
