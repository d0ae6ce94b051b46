import Xv6.Foundation.Faulting
import Xv6.Params

/-!
# The shell's parser

The second half of `sh.c`: `gettoken` and `peek` over one cursor, the five
mutually recursive procedures that build the command tree, and `nulterminate`.
A pointer into the line is given by the rest of the line from it on, so the
cursor is the text still to be read and `es` is the empty rest.  The recursion
carries fuel; running out of it is an outcome of its own.
-/

namespace Xv6
namespace Sh

open Faulting

/-- Slots of a command's argument vector, the closing null included. -/
abbrev MAXARGS : Nat := 10

/-- Characters of the line. -/
abbrev Text := List UInt8

/-- The characters that separate tokens: blank, tab, carriage return, newline,
vertical tab. -/
def whitespace : Text := [32, 9, 13, 10, 11]

/-- The characters that are tokens: `<|>&;()`. -/
def symbols : Text := [60, 124, 62, 38, 59, 40, 41]

/-- `strchr` as a test; the null that ends the set is not found. -/
def strchr (set : Text) (c : UInt8) : Bool :=
  set.contains c

/-- The character at a pointer; the line ends with a null. -/
def charAt (pointer : Text) : UInt8 :=
  pointer.headD 0

/-- The start and the end of a word of the line. -/
structure Span where
  start : Text
  stop : Text
  deriving DecidableEq, Repr

/-- The characters between the two ends. -/
def Span.text (span : Span) : Text :=
  span.start.take (span.start.length - span.stop.length)

/-! ## Command trees -/

/-- A parsed command over words of type `ω`. -/
inductive Cmd (ω : Type) where
  | exec (argv : List ω)
  | redir (cmd : Cmd ω) (file : ω) (mode : UInt32) (fd : Nat)
  | pipe (left right : Cmd ω)
  | list (left right : Cmd ω)
  | back (cmd : Cmd ω)
  deriving DecidableEq, Repr

/-- Change every word of a tree. -/
def Cmd.map (change : ω → ω') : Cmd ω → Cmd ω'
  | .exec argv => .exec (argv.map change)
  | .redir cmd file mode fd => .redir (cmd.map change) (change file) mode fd
  | .pipe left right => .pipe (left.map change) (right.map change)
  | .list left right => .list (left.map change) (right.map change)
  | .back cmd => .back (cmd.map change)

/-- Add an argument to the command at the bottom of a chain of redirections.
`parseexec` keeps a pointer to that command while `ret` is wrapped around it,
so the argument lands below every redirection seen so far. -/
def Cmd.addArg (word : ω) : Cmd ω → Cmd ω
  | .exec argv => .exec (argv ++ [word])
  | .redir cmd file mode fd => .redir (cmd.addArg word) file mode fd
  | other => other

/-! ## Tokens -/

/-- Why parsing stops. -/
inductive Stop where
  | panic (text : String)
  | fuel
  deriving DecidableEq, Repr

/-- A procedure of the parser over the cursor. -/
abbrev ParseM := Run Stop Text

/-- Stop in `panic`. -/
def panic (text : String) : ParseM α :=
  Run.fault (.panic text)

/-- The `while` loop that `gettoken` and `peek` begin with. -/
def skipSpace (s : Text) : Text :=
  s.dropWhile (strchr whitespace)

/-- A character that neither separates tokens nor is one. -/
def isPlain (c : UInt8) : Bool :=
  !strchr whitespace c && !strchr symbols c

/-- The `switch` of `gettoken`: the code of the token at a pointer, and the
pointer after it.  A word has the code of `a`, and `>>` the code of `+`. -/
def scanToken (s : Text) : UInt8 × Text :=
  match s with
  | [] => (0, [])
  | c :: rest =>
    if c = 124 ∨ c = 40 ∨ c = 41 ∨ c = 59 ∨ c = 38 ∨ c = 60 then
      (c, rest)
    else if c = 62 then
      if charAt rest = 62 then (43, rest.tail) else (62, rest)
    else
      (97, s.dropWhile isPlain)

/-- Read one token: its code and its two ends. -/
def gettoken : ParseM (UInt8 × Span) := fun ps =>
  let s := skipSpace ps
  let token := scanToken s
  .ok ((token.1, ⟨s, token.2⟩), skipSpace token.2)

/-- Is the next character one of a set? -/
def peek (toks : Text) : ParseM Bool := fun ps =>
  let s := skipSpace ps
  .ok (charAt s != 0 && strchr toks (charAt s), s)

/-! ## The procedures -/

/-- The `switch` of `parseredirs`: the mode and the descriptor of a redirection
by the code of its token. -/
def wrapRedir (cmd : Cmd Span) (tok : UInt8) (word : Span) : Cmd Span :=
  if tok = 60 then
    .redir cmd word O_RDONLY 0
  else if tok = 62 then
    .redir cmd word (O_WRONLY ||| O_CREATE) 1
  else if tok = 43 then
    .redir cmd word (O_WRONLY ||| O_CREATE) 1
  else
    cmd

/-- The redirections at the cursor, wrapped around a command. -/
def parseredirs : Nat → Cmd Span → ParseM (Cmd Span)
  | 0, _ => Run.fault .fuel
  | fuel + 1, cmd => do
      if ← peek [60, 62] then
        let (tok, _) ← gettoken
        let (ret, word) ← gettoken
        if ret ≠ 97 then
          panic "missing file for redirection"
        else
          parseredirs fuel (wrapRedir cmd tok word)
      else
        pure cmd

/-- The loop of `parseexec` over the words of a simple command. -/
def parseargs : Nat → Nat → Cmd Span → ParseM (Cmd Span)
  | 0, _, _ => Run.fault .fuel
  | fuel + 1, argc, ret => do
      if ← peek [124, 41, 38, 59] then
        pure ret
      else
        let (tok, word) ← gettoken
        if tok = 0 then
          pure ret
        else if tok ≠ 97 then
          panic "syntax"
        else if argc + 1 ≥ MAXARGS then
          panic "too many args"
        else
          let ret ← parseredirs fuel (ret.addArg word)
          parseargs fuel (argc + 1) ret

/-- The loop of `parseline` over the `&` after a pipeline. -/
def parsebacks : Nat → Cmd Span → ParseM (Cmd Span)
  | 0, _ => Run.fault .fuel
  | fuel + 1, cmd => do
      if ← peek [38] then
        let _ ← gettoken
        parsebacks fuel (.back cmd)
      else
        pure cmd

mutual

/-- A line: a pipeline, its `&`s, and the line after a `;`. -/
def parseline : Nat → ParseM (Cmd Span)
  | 0 => Run.fault .fuel
  | fuel + 1 => do
      let cmd ← parsepipe fuel
      let cmd ← parsebacks fuel cmd
      if ← peek [59] then
        let _ ← gettoken
        let right ← parseline fuel
        pure (.list cmd right)
      else
        pure cmd

/-- A pipeline: a command, and the pipeline after a `|`. -/
def parsepipe : Nat → ParseM (Cmd Span)
  | 0 => Run.fault .fuel
  | fuel + 1 => do
      let cmd ← parseexec fuel
      if ← peek [124] then
        let _ ← gettoken
        let right ← parsepipe fuel
        pure (.pipe cmd right)
      else
        pure cmd

/-- A block, or a simple command with its redirections. -/
def parseexec : Nat → ParseM (Cmd Span)
  | 0 => Run.fault .fuel
  | fuel + 1 => do
      if ← peek [40] then
        parseblock fuel
      else
        let ret ← parseredirs fuel (.exec [])
        parseargs fuel 0 ret

/-- A line in parentheses with its redirections. -/
def parseblock : Nat → ParseM (Cmd Span)
  | 0 => Run.fault .fuel
  | fuel + 1 => do
      if ← peek [40] then
        let _ ← gettoken
        let cmd ← parseline fuel
        if ← peek [41] then
          let _ ← gettoken
          parseredirs fuel cmd
        else
          panic "syntax - missing )"
      else
        panic "parseblock"

end

/-! ## The line buffer -/

/-- Store a null at a pointer into the line.  The buffer holds the line and the
null after it. -/
def putNul (buffer : Text) (pointer : Text) : Text :=
  buffer.set (buffer.length - 1 - pointer.length) 0

/-- Store a null after every word of the tree. -/
def nulterminate (buffer : Text) : Cmd Span → Text
  | .exec argv => argv.foldl (fun buffer word => putNul buffer word.stop) buffer
  | .redir cmd file _ _ => putNul (nulterminate buffer cmd) file.stop
  | .pipe left right => nulterminate (nulterminate buffer left) right
  | .list left right => nulterminate (nulterminate buffer left) right
  | .back cmd => nulterminate buffer cmd

/-- The C string at the start of a word: the characters of the buffer up to the
first null. -/
def stringAt (buffer : Text) (word : Span) : Text :=
  (buffer.drop (buffer.length - 1 - word.start.length)).takeWhile (· != 0)

/-- An input line: the characters before the null that ends it. -/
structure Line where
  text : Text
  terminated : 0 ∉ text

/-- Fuel that suffices for a text. -/
def fuelFor (text : Text) : Nat :=
  4 * text.length + 4

/-- What `parsecmd` does before `nulterminate`: a line, and nothing after it. -/
def parseAll (line : Line) : ParseM (Cmd Span) := do
  let cmd ← parseline (fuelFor line.text)
  let _ ← peek []
  let rest ← Run.get
  if rest ≠ [] then
    panic "syntax"
  else
    pure cmd

/-- Parse a whole line: the tree, its pointers into the buffer, and the buffer
as `nulterminate` leaves it. -/
def parsecmd (line : Line) : Except Stop (Cmd Span × Text) :=
  match parseAll line line.text with
  | .ok (cmd, _) => .ok (cmd, nulterminate (line.text ++ [0]) cmd)
  | .error reason => .error reason

end Sh
end Xv6
