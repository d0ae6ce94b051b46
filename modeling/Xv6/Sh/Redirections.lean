import Xv6.Sh.Family

/-!
# The order of redirections

`parseredirs` wraps each redirection around those before it, and `runcmd` performs the
outermost one first.  So the redirections of a command take effect from right to left, and
of several for one descriptor the first one in the text is the one that stays.
-/

namespace Xv6
namespace Sh

/-- A simple command or a block: its tokens, the command itself, and its redirections in
the order of the text. -/
inductive Command : List Token → Cmd Text → List (Redirection Text) → Prop where
  | block
      (inner : Derives .line ts cmd)
      (after : Redirs us redirs) :
      Command (.left :: ts ++ .right :: us) cmd redirs
  | simple
      (before : Redirs ts redirs)
      (args : Args us words others)
      (few : words.length ≤ MAXARGS - 1) :
      Command (ts ++ us) (.exec words) (redirs ++ others)

/-- The redirections of a descriptor. -/
def redirsOf (redirs : List (Redirection Text)) (fd : Nat) : List (Redirection Text) :=
  redirs.filter (·.fd = fd)

/-- The file that a redirection opens. -/
def Redirection.opened (redir : Redirection Text) : File :=
  .named redir.file redir.mode

/-- When a process of a run reaches the command itself, each redirected descriptor refers
to the file of its last redirection. -/
def LeftToRight (cmd : Cmd Text) (redirs : List (Redirection Text)) : Prop :=
  ∀ s, Reachable (wrap cmd redirs) s → ∀ pid proc, s.procs pid = some proc →
    proc.code = .call (List.replicate redirs.length .inner) cmd →
      ∀ fd redir, (redirsOf redirs fd).getLast? = some redir → proc.table fd = some redir.opened

/-! ## The table of the command -/

/-- The table after the redirections, the last one first. -/
def redirected (redirs : List (Redirection Text)) (table : Table) : Table :=
  redirs.foldr (fun redir table => table.put redir.fd redir.opened) table

theorem redirected_eq (redirs : List (Redirection Text)) (table : Table) (fd : Nat) :
    redirected redirs table fd =
      ((redirsOf redirs fd).head?.map Redirection.opened).or (table fd) := by
  induction redirs with
  | nil => rfl
  | cons redir redirs ih =>
    change (redirected redirs table).put redir.fd redir.opened fd = _
    by_cases same : fd = redir.fd
    · subst same
      simp [redirsOf]
    · rw [Table.put_of_ne _ _ same, ih, redirsOf, redirsOf,
        List.filter_cons_of_neg (by simpa using Ne.symm same)]

theorem wrap_concat (cmd : Cmd Text) (redirs : List (Redirection Text)) (redir : Redirection Text) :
    wrap cmd (redirs ++ [redir]) = .redir (wrap cmd redirs) redir.file redir.mode redir.fd := by
  simp [wrap]

/-- What a process finds below some of the redirections. -/
theorem Wired.redirected {inner : Cmd Text}
    (redirs done : List (Redirection Text))
    (wired : Wired made (wrap cmd (redirs ++ done)) (List.replicate done.length .inner) inner
      table) :
    inner = wrap cmd redirs ∧ table = Sh.redirected done standard := by
  induction done generalizing redirs inner table with
  | nil =>
    rw [List.append_nil] at wired
    generalize whole : List.replicate ([] : List (Redirection Text)).length Branch.inner = site
      at wired
    cases wired with
    | root => exact ⟨rfl, rfl⟩
    | _ => exact absurd whole (by simp)
  | cons redir done ih =>
    generalize whole : List.replicate (redir :: done).length Branch.inner = site at wired
    rw [List.length_cons, List.replicate_succ'] at whole
    rw [List.append_cons] at wired
    cases wired with
    | root => exact absurd whole (by simp)
    | redir above =>
      obtain ⟨rfl, _⟩ := List.append_inj' whole rfl
      obtain ⟨same, rfl⟩ := ih _ above
      rw [wrap_concat] at same
      obtain ⟨rfl, rfl, rfl, rfl⟩ := Cmd.redir.inj same
      exact ⟨rfl, rfl⟩
    | back above =>
      obtain ⟨rfl, _⟩ := List.append_inj' whole rfl
      have same := (ih _ above).1
      rw [wrap_concat] at same
      exact nomatch same
    | _ => exact nomatch (List.append_inj' whole rfl).2

section Reached

variable {s : State} {proc : Proc}

/-- `runcmd` performs a redirection. -/
theorem exists_redirected
    (running : s.procs pid = some proc)
    (code : proc.code = .call site (.redir cmd file mode fd))
    (low : fd < 3)
    (exactly : ∀ fd, (proc.table fd).isSome ↔ fd < 3) :
    ∃ t next, Relation.ReflTransGen Step s t ∧ t.procs pid = some next ∧
      next.code = .call (site ++ [.inner]) cmd ∧
      next.table = proc.table.put fd (.named file mode) := by
  have found : fdalloc (proc.table.drop fd) = some fd := by
    refine fdalloc_eq_some (lt_trans low (by decide)) (Table.drop_self _ _) ?_
    intro lower less
    rw [Table.drop_of_ne _ (Nat.ne_of_lt less), exactly]
    omega
  refine ⟨_, _, .tail (.tail (.single (.call running code))
    (.close (Function.update_self _ _ _) rfl)) (.openFile (Function.update_self _ _ _) rfl found),
    Function.update_self _ _ _, rfl, Table.put_drop _ _ _⟩

/-- The command is reached. -/
theorem exists_reached
    (redirs : List (Redirection Text))
    (low : ∀ redir ∈ redirs, redir.fd < 3)
    (running : s.procs pid = some proc)
    (code : proc.code = .call site (wrap cmd redirs))
    (exactly : ∀ fd, (proc.table fd).isSome ↔ fd < 3) :
    ∃ t next, Relation.ReflTransGen Step s t ∧ t.procs pid = some next ∧
      next.code = .call (site ++ List.replicate redirs.length .inner) cmd := by
  induction redirs using List.reverseRecOn generalizing s proc site with
  | nil => exact ⟨s, proc, .refl, running, by simpa [wrap] using code⟩
  | append_singleton redirs redir ih =>
    rw [wrap_concat] at code
    have below := low redir (by simp)
    obtain ⟨t, next, runs, there, code, table⟩ := exists_redirected running code below exactly
    obtain ⟨u, last, more, there, code⟩ := ih (fun other member => low other (by simp [member]))
      there code (table ▸ isSome_put_iff exactly below _)
    refine ⟨u, last, runs.trans more, there, ?_⟩
    simpa [List.replicate_succ] using code

end Reached

/-! ## The order -/

theorem Command.derives (command : Command ts cmd redirs) :
    Derives .line ts (wrap cmd redirs) ∧ ∀ redir ∈ redirs, redir.fd < 3 := by
  cases command with
  | block inner after =>
    exact ⟨by simpa using Derives.line (.single (.block inner after)) 0, after.low⟩
  | simple before args few =>
    refine ⟨by simpa using Derives.line (.single (.simple before args few)) 0, ?_⟩
    intro redir member
    rcases List.mem_append.mp member with member | member
    · exact before.low redir member
    · exact args.low redir member

/-- The first redirection of a descriptor is the one that stays. -/
theorem leftToRight_iff_first
    (lowTree : (wrap cmd redirs).Low)
    (low : ∀ redir ∈ redirs, redir.fd < 3) :
    LeftToRight cmd redirs ↔ ∀ fd, (redirsOf redirs fd).head?.map Redirection.opened =
      (redirsOf redirs fd).getLast?.map Redirection.opened := by
  have table : ∀ s, Reachable (wrap cmd redirs) s → ∀ pid proc, s.procs pid = some proc →
      proc.code = .call (List.replicate redirs.length .inner) cmd →
        proc.table = redirected redirs standard := by
    intro s reached pid proc running code
    have good := ((reached.inv lowTree).fits _ _ running).good
    rw [code] at good
    exact (Wired.redirected [] redirs good).2
  constructor
  · intro ordered fd
    have atRoot : Wired (fun _ => none) (wrap cmd redirs) [] (wrap cmd redirs) standard := .root
    have running : (start (wrap cmd redirs)).procs 0 = some
        ⟨standard, .call [] (wrap cmd redirs), [], (0, 0), none, false⟩ := rfl
    obtain ⟨t, next, runs, there, code⟩ :=
      exists_reached redirs low running rfl (atRoot.exactly lowTree).2
    cases last : (redirsOf redirs fd).getLast? with
    | none =>
      rw [List.getLast?_eq_none_iff.mp last]
      rfl
    | some redir =>
      have file := ordered t runs 0 next there code fd redir last
      rw [table t runs 0 next there code, redirected_eq] at file
      cases first : (redirsOf redirs fd).head? with
      | none =>
        rw [List.head?_eq_none_iff.mp first] at last
        exact nomatch last
      | some other =>
        rw [first] at file
        exact file
  · intro same s reached pid proc running code fd redir last
    rw [table s reached pid proc running code, redirected_eq, same fd, last]
    rfl

/-- A line that is a simple command or a block parses to the command with its redirections
wrapped around it, and these take effect from left to right if and only if the first and the
last one of each descriptor name the same file. -/
theorem leftToRight_iff
    (line : Line)
    (cmd : Cmd Text)
    (redirs : List (Redirection Text))
    (command : Command (tokens line.text) cmd redirs) :
    parsed line = .ok (wrap cmd redirs) ∧
      (LeftToRight cmd redirs ↔ ∀ fd, (redirsOf redirs fd).head?.map Redirection.opened =
        (redirsOf redirs fd).getLast?.map Redirection.opened) := by
  obtain ⟨derives, low⟩ := command.derives
  exact ⟨(parsed_iff line _).mpr derives, leftToRight_iff_first derives.low low⟩

/-- The line `a<f`. -/
theorem leftToRight_single :
    LeftToRight (.exec [[97]]) [⟨[102], O_RDONLY, 0⟩] := by
  have shape : tokens [97, 60, 102] = [.word [97], .input, .word [102]] := by
    simp [tokens_cons, tokens_nil, isPlain, strchr, whitespace, symbols, charAt]
  have command : Command (tokens [97, 60, 102]) (.exec [[97]]) [⟨[102], O_RDONLY, 0⟩] := by
    rw [shape]
    exact .simple .nil (.cons [97] (.cons (.input [102]) .nil) .nil) (by decide)
  refine (leftToRight_iff ⟨[97, 60, 102], by decide⟩ _ _ command).2.mpr fun fd => ?_
  by_cases zero : fd = 0
  · rw [zero]
    rfl
  · simp [redirsOf, Ne.symm zero]

/-- With `a<f<g` descriptor 0 does not refer to `g` when the command is reached. -/
theorem not_leftToRight :
    parsed ⟨[97, 60, 102, 60, 103], by decide⟩ =
        .ok (wrap (.exec [[97]]) [⟨[102], O_RDONLY, 0⟩, ⟨[103], O_RDONLY, 0⟩]) ∧
      ¬LeftToRight (.exec [[97]]) [⟨[102], O_RDONLY, 0⟩, ⟨[103], O_RDONLY, 0⟩] := by
  refine ⟨by decide +kernel, fun ordered => ?_⟩
  have low : (wrap (.exec [[97]]) [⟨[102], O_RDONLY, 0⟩, ⟨[103], O_RDONLY, 0⟩]).Low :=
    ⟨by decide, by decide, True.intro⟩
  have same := (leftToRight_iff_first low (by decide)).mp ordered 0
  exact absurd same (by decide)

end Sh
end Xv6
