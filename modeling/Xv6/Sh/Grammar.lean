import Mathlib.Data.List.DropRight
import Xv6.Sh.Parser

/-!
# The shell's grammar

What the parser is meant to recognise, stated without it: the token sequence
of a line, and the derivations

    line  ::= pipe '&'* [';' line]
    pipe  ::= exec ['|' pipe]
    exec  ::= '(' line ')' redir* | redir* (word redir*)*
    redir ::= ('<' | '>' | '>>') word

each with its tree.  The lemmas relate `peek` and `gettoken` to the token
sequence of the text at the cursor.
-/

namespace Xv6
namespace Sh

/-- A property of the characters of a text is decided along the text. -/
instance decidableForallMem (holds : UInt8 → Prop) [DecidablePred holds] (text : Text) :
    Decidable (∀ c ∈ text, holds c) :=
  List.decidableBAll holds text

/-! ## Tokens -/

/-- A token of a line. -/
inductive Token where
  | word (text : Text)
  | symbol (c : UInt8)
  | append
  deriving DecidableEq, Repr

namespace Token

@[inherit_doc Token]
abbrev input : Token := .symbol 60

@[inherit_doc Token]
abbrev output : Token := .symbol 62

@[inherit_doc Token]
abbrev bar : Token := .symbol 124

@[inherit_doc Token]
abbrev amp : Token := .symbol 38

@[inherit_doc Token]
abbrev semi : Token := .symbol 59

@[inherit_doc Token]
abbrev left : Token := .symbol 40

@[inherit_doc Token]
abbrev right : Token := .symbol 41

end Token

/-- The tokens of a text: words are maximal runs of plain characters, and two
adjacent `>` are one token. -/
def tokens (s : Text) : List Token :=
  match s with
  | [] => []
  | c :: rest =>
    if strchr whitespace c then
      tokens rest
    else if isPlain c then
      .word (c :: rest.takeWhile isPlain) :: tokens (rest.dropWhile isPlain)
    else if c = 62 ∧ charAt rest = 62 then
      .append :: tokens rest.tail
    else
      .symbol c :: tokens rest
termination_by s.length
decreasing_by
  · exact Nat.lt_succ_self _
  · exact Nat.lt_succ_of_le (List.dropWhile_suffix _).length_le
  · exact Nat.lt_succ_of_le ((List.tail_suffix _).length_le)
  · exact Nat.lt_succ_self _

/-! ## Derivations -/

/-- A redirection: its file, and the mode and the descriptor it opens it with. -/
structure Redirection (ω : Type) where
  file : ω
  mode : UInt32
  fd : Nat

/-- Wrap redirections around a command, the first one innermost. -/
def wrap (cmd : Cmd ω) (redirs : List (Redirection ω)) : Cmd ω :=
  redirs.foldl (fun cmd redir => .redir cmd redir.file redir.mode redir.fd) cmd

/-- `redir ::= ('<' | '>' | '>>') word`. -/
inductive Redir : List Token → Redirection Text → Prop where
  | input (file : Text) : Redir [.input, .word file] ⟨file, O_RDONLY, 0⟩
  | output (file : Text) : Redir [.output, .word file] ⟨file, O_WRONLY ||| O_CREATE, 1⟩
  | append (file : Text) : Redir [.append, .word file] ⟨file, O_WRONLY ||| O_CREATE, 1⟩

/-- `redir*`. -/
inductive Redirs : List Token → List (Redirection Text) → Prop where
  | nil : Redirs [] []
  | cons (first : Redir ts redir) (rest : Redirs us redirs) :
      Redirs (ts ++ us) (redir :: redirs)

/-- `(word redir*)*`, with its words and its redirections. -/
inductive Args : List Token → List Text → List (Redirection Text) → Prop where
  | nil : Args [] [] []
  | cons (word : Text) (first : Redirs ts redirs) (rest : Args us words others) :
      Args (.word word :: ts ++ us) (word :: words) (redirs ++ others)

/-- The nonterminals that have a tree. -/
inductive Category where
  | line
  | pipe
  | exec

/-- A token sequence derives from a nonterminal, with the derivation's tree. -/
inductive Derives : Category → List Token → Cmd Text → Prop where
  | line
      (first : Derives .pipe ts cmd)
      (backs : Nat) :
      Derives .line (ts ++ List.replicate backs .amp) (Cmd.back^[backs] cmd)
  | list
      (first : Derives .pipe ts cmd)
      (backs : Nat)
      (rest : Derives .line us next) :
      Derives .line (ts ++ List.replicate backs .amp ++ .semi :: us)
        (.list (Cmd.back^[backs] cmd) next)
  | single
      (only : Derives .exec ts cmd) :
      Derives .pipe ts cmd
  | pipe
      (first : Derives .exec ts cmd)
      (rest : Derives .pipe us next) :
      Derives .pipe (ts ++ .bar :: us) (.pipe cmd next)
  | block
      (inner : Derives .line ts cmd)
      (after : Redirs us redirs) :
      Derives .exec (.left :: ts ++ .right :: us) (wrap cmd redirs)
  | simple
      (before : Redirs ts redirs)
      (args : Args us words others)
      (few : words.length ≤ MAXARGS - 1) :
      Derives .exec (ts ++ us) (wrap (.exec words) (redirs ++ others))

/-! ## The token at the cursor -/

/-- The code `gettoken` returns for a token. -/
def Token.code : Token → UInt8
  | .word _ => 97
  | .symbol c => c
  | .append => 43

/-- The first character of a token. -/
def Token.first : Token → UInt8
  | .word text => charAt text
  | .symbol c => c
  | .append => 62

/-- A token that a text can have. -/
def Token.Valid : Token → Prop
  | .word text => isPlain (charAt text) = true
  | .symbol c => c ∈ symbols
  | .append => True

theorem tokens_nil : tokens [] = [] := by
  rw [tokens]

theorem tokens_cons (c : UInt8) (rest : Text) :
    tokens (c :: rest) = if strchr whitespace c then
        tokens rest
      else if isPlain c then
        .word (c :: rest.takeWhile isPlain) :: tokens (rest.dropWhile isPlain)
      else if c = 62 ∧ charAt rest = 62 then
        .append :: tokens rest.tail
      else
        .symbol c :: tokens rest := by
  rw [tokens]

theorem skipSpace_suffix (s : Text) : skipSpace s <:+ s :=
  List.dropWhile_suffix _

@[simp] theorem tokens_skipSpace (s : Text) : tokens (skipSpace s) = tokens s := by
  induction s with
  | nil => rfl
  | cons c rest ih =>
    unfold skipSpace
    by_cases space : strchr whitespace c = true
    · rw [List.dropWhile_cons_of_pos space, tokens_cons, if_pos space]
      exact ih
    · rw [List.dropWhile_cons_of_neg space]

/-- What stands at a cursor that is not at the end: the token there, and the
text after it. -/
structure Starts (ps : Text) (token : Token) (rest : Text) : Prop where
  /-- The token is the first one. -/
  tokens_eq : tokens ps = token :: tokens rest
  /-- `gettoken` finds it. -/
  scan : scanToken (skipSpace ps) = (token.code, rest)
  /-- Its first character is at the cursor. -/
  first : charAt (skipSpace ps) = token.first
  /-- It is a token that a text can have. -/
  valid : token.Valid
  /-- It is read. -/
  shorter : rest.length < ps.length
  /-- The text after it is a part of the line. -/
  suffix : rest <:+ ps
  /-- A word reaches up to the text after it, which does not continue it. -/
  word : ∀ text, token = .word text → skipSpace ps = text ++ rest ∧
    (∀ c ∈ text, isPlain c = true) ∧ ∀ c, rest.head? = some c → isPlain c = false

theorem isPlain_eq_false_of_mem : ∀ c ∈ symbols, isPlain c = false := by
  decide

theorem mem_symbols_of_not_plain
    (space : ¬strchr whitespace c = true)
    (plain : ¬isPlain c = true) :
    c ∈ symbols := by
  rw [isPlain, Bool.eq_false_of_not_eq_true space] at plain
  simpa [strchr] using plain

/-- A scan that starts at a character which does not separate tokens. -/
theorem starts_cons
    (c : UInt8)
    (rest : Text)
    (space : ¬strchr whitespace c = true) :
    ∃ token after, Starts (c :: rest) token after := by
  have stays : skipSpace (c :: rest) = c :: rest := List.dropWhile_cons_of_neg space
  have split := tokens_cons c rest
  rw [if_neg space] at split
  by_cases plain : isPlain c = true
  · -- a word: the scan and the token sequence stop at the same character
    rw [if_pos plain] at split
    have notSymbol : c ∉ symbols := fun symbol => by
      rw [isPlain_eq_false_of_mem c symbol] at plain
      exact Bool.false_ne_true plain
    have joined : c :: rest = (c :: rest.takeWhile isPlain) ++ rest.dropWhile isPlain := by
      rw [List.cons_append, List.takeWhile_append_dropWhile]
    refine ⟨_, _, split, ?_, ?_, plain, ?_, ?_, ?_⟩
    · rw [stays]
      simp only [symbols, List.mem_cons, List.not_mem_nil, or_false, not_or] at notSymbol
      simp [scanToken, Token.code, notSymbol, plain]
    · rw [stays]
      rfl
    · exact Nat.lt_succ_of_le (List.dropWhile_suffix _).length_le
    · exact (List.dropWhile_suffix _).trans (List.suffix_cons _ _)
    rintro text equal
    obtain rfl := Token.word.inj equal
    refine ⟨stays.trans joined, ?_, ?_⟩
    · intro d member
      rcases List.mem_cons.mp member with rfl | member
      · exact plain
      · exact List.all_eq_true.mp (List.all_takeWhile) d member
    · intro d head
      have stopped := List.head?_dropWhile_not isPlain rest
      rw [head] at stopped
      simpa using stopped
  · have symbol := mem_symbols_of_not_plain space plain
    rw [if_neg plain] at split
    by_cases double : c = 62 ∧ charAt rest = 62
    · rw [if_pos double] at split
      obtain ⟨rfl, next⟩ := double
      refine ⟨_, _, split, ?_, ?_, True.intro, ?_, ?_, ?_⟩
      · rw [stays]
        simp [scanToken, Token.code, next]
      · rw [stays]
        rfl
      · exact Nat.lt_succ_of_le (List.tail_suffix _).length_le
      · exact (List.tail_suffix _).trans (List.suffix_cons _ _)
      · rintro _ ⟨⟩
    · rw [if_neg double] at split
      refine ⟨_, _, split, ?_, ?_, symbol, Nat.lt_succ_self _, List.suffix_cons _ _, ?_⟩
      · rw [stays]
        have single : c = 62 → charAt rest ≠ 62 := fun equal next => double ⟨equal, next⟩
        simp only [symbols, List.mem_cons, List.not_mem_nil, or_false] at symbol
        rcases symbol with rfl | rfl | rfl | rfl | rfl | rfl | rfl
        · rfl
        · rfl
        · simp [scanToken, Token.code, single]
        · rfl
        · rfl
        · rfl
        · rfl
      · rw [stays]
        rfl
      · rintro _ ⟨⟩

theorem skipSpace_skipSpace (s : Text) : skipSpace (skipSpace s) = skipSpace s := by
  unfold skipSpace
  exact List.dropWhile_idempotent _ _

/-- The cursor is at the end, or at a token. -/
theorem starts_cases (ps : Text) :
    (tokens ps = [] ∧ skipSpace ps = []) ∨ ∃ token rest, Starts ps token rest := by
  cases shape : skipSpace ps with
  | nil =>
    left
    rw [← tokens_skipSpace, shape]
    exact ⟨tokens_nil, rfl⟩
  | cons c rest =>
    right
    have space : ¬strchr whitespace c = true := by
      have stopped := List.head?_dropWhile_not (strchr whitespace) ps
      unfold skipSpace at shape
      rw [shape] at stopped
      simpa using stopped
    obtain ⟨token, after, starts⟩ := starts_cons c rest space
    rw [← shape] at starts
    obtain ⟨tokens_eq, scan, first, valid, shorter, suffix, word⟩ := starts
    rw [skipSpace_skipSpace] at scan first
    refine ⟨token, after, ?_, scan, first, valid, ?_, suffix.trans (skipSpace_suffix ps), ?_⟩
    · rw [← tokens_skipSpace, tokens_eq]
    · exact shorter.trans_le (skipSpace_suffix ps).length_le
    · intro text equal
      rw [← skipSpace_skipSpace]
      exact word text equal

variable {ps : Text}

theorem starts_of_tokens (shape : tokens ps = token :: ts) :
    ∃ rest, Starts ps token rest ∧ tokens rest = ts := by
  rcases starts_cases ps with ⟨none, _⟩ | ⟨other, rest, starts⟩
  · rw [shape] at none
    exact absurd none (List.cons_ne_nil _ _)
  · obtain ⟨rfl, rfl⟩ := List.cons.inj (shape.symm.trans starts.tokens_eq)
    exact ⟨rest, starts, rfl⟩

theorem skipSpace_of_tokens_nil (shape : tokens ps = []) :
    skipSpace ps = [] := by
  rcases starts_cases ps with ⟨_, skipped⟩ | ⟨token, rest, starts⟩
  · exact skipped
  · rw [starts.tokens_eq] at shape
    exact absurd shape (List.cons_ne_nil _ _)

/-- Does a token sequence start with a symbol of a set? -/
def nextIn (toks : Text) : List Token → Bool
  | .symbol c :: _ => strchr toks c
  | .append :: _ => strchr toks 62
  | _ => false

theorem charAt_ne_zero {s ps : Text}
    (clean : 0 ∉ ps)
    (suffix : s <:+ ps)
    (nonempty : s ≠ []) :
    charAt s ≠ 0 := by
  obtain ⟨c, rest, rfl⟩ := List.exists_cons_of_ne_nil nonempty
  rintro rfl
  exact clean (suffix.subset List.mem_cons_self)

/-- `peek` tests the next token. -/
theorem peek_eq
    (clean : 0 ∉ ps)
    (toks : Text)
    (only : ∀ c ∈ toks, c ∈ symbols) :
    peek toks ps = .ok (nextIn toks (tokens ps), skipSpace ps) := by
  unfold peek
  rcases starts_cases ps with ⟨none, skipped⟩ | ⟨token, rest, starts⟩
  · rw [none, skipped]
    rfl
  have nonempty : skipSpace ps ≠ [] := fun skipped => by
    have equal := tokens_skipSpace ps
    rw [skipped, tokens_nil, starts.tokens_eq] at equal
    exact List.cons_ne_nil _ _ equal.symm
  have character := charAt_ne_zero clean (skipSpace_suffix ps) nonempty
  rw [starts.first] at character
  simp only [starts.first, bne_iff_ne.mpr character, Bool.true_and, starts.tokens_eq]
  cases token with
  | word text =>
    -- a word starts with a plain character, which is in no such set
    have absent : charAt text ∉ toks := fun member => by
      have plain := starts.valid
      rw [Token.Valid, isPlain_eq_false_of_mem _ (only _ member)] at plain
      exact Bool.false_ne_true plain
    simpa [Token.first, nextIn, strchr] using absent
  | symbol c => rfl
  | append => rfl

theorem gettoken_eq (starts : Starts ps token rest) :
    gettoken ps = .ok ((token.code, ⟨skipSpace ps, rest⟩), skipSpace rest) := by
  simp only [gettoken, starts.scan]

theorem gettoken_of_tokens_nil (shape : tokens ps = []) :
    gettoken ps = .ok ((0, ⟨[], []⟩), []) := by
  unfold gettoken
  rw [skipSpace_of_tokens_nil shape]
  rfl

/-- The codes of the tokens tell words apart. -/
theorem Token.code_eq_word {token : Token}
    (valid : token.Valid)
    (code : token.code = 97) :
    ∃ text, token = .word text := by
  cases token with
  | word text => exact ⟨text, rfl⟩
  | symbol c =>
    have absent : (97 : UInt8) ∉ symbols := by decide
    exact absurd (code ▸ valid : (97 : UInt8) ∈ symbols) absent
  | append => exact absurd code (by decide)

theorem Token.code_ne_zero {token : Token}
    (valid : token.Valid) :
    token.code ≠ 0 := by
  cases token with
  | word text => exact (by decide : (97 : UInt8) ≠ 0)
  | symbol c =>
    have absent : (0 : UInt8) ∉ symbols := by decide
    exact fun code => absent (code ▸ valid : (0 : UInt8) ∈ symbols)
  | append => exact (by decide : (43 : UInt8) ≠ 0)

end Sh
end Xv6
