import Xv6.Foundation.Monitor
import Xv6.Foundation.Ring

/-!
# The console's line discipline

`consoleintr` and `consoleread` of console.c as critical sections of
`input.lock`.  Beside them stands the terminal they implement: the text of the
line that is being edited, and the characters of the lines committed so far.
The sections say which characters a read has taken, so that a run has a history
to compare with the terminal's.
-/

namespace Xv6
namespace Console

open Monitor

/-- Characters of the input buffer. -/
abbrev INPUT_BUF : Nat := 128

/-- struct input, without its lock. -/
structure Input where
  buf : Fin INPUT_BUF → UInt8
  r : UInt32
  w : UInt32
  e : UInt32

/-- The place of an index in the buffer. -/
def place (index : UInt32) : Fin INPUT_BUF :=
  Ring.slot INPUT_BUF index.toNat

/-! ## Characters -/

/-- Newline. -/
abbrev newline : UInt8 := 10

/-- Carriage return. -/
abbrev carriageReturn : UInt8 := 13

/-- Control-D, the end of a file. -/
abbrev ctrlD : UInt8 := 4

/-- Control-P, the process listing. -/
abbrev ctrlP : UInt8 := 16

/-- Control-U, which kills the line. -/
abbrev ctrlU : UInt8 := 21

/-- Control-H, a backspace. -/
abbrev ctrlH : UInt8 := 8

/-- The other backspace. -/
abbrev delete : UInt8 := 127

/-! ## `consoleintr` -/

/-- The loop of control-U, with a bound on its passes. -/
def killLine : Nat → Input → Input
  | 0, input => input
  | passes + 1, input =>
    if input.e ≠ input.w ∧ input.buf (place (input.e - 1)) ≠ newline then
      killLine passes { input with e := input.e - 1 }
    else
      input

/-- Store a character, and commit the line if it ends; says whether readers are
woken. -/
def store (c : UInt8) (input : Input) : Input × Bool :=
  let c := if c = carriageReturn then newline else c
  let stored : Input :=
    { input with buf := Function.update input.buf (place input.e) c, e := input.e + 1 }
  if c = newline ∨ c = ctrlD ∨ stored.e = stored.r + 128 then
    ({ stored with w := stored.e }, true)
  else
    (stored, false)

/-- One pass of `consoleintr`'s loop. -/
def consolechar (c : UInt8) (input : Input) : Input × Bool :=
  if c = ctrlP then
    (input, false)
  else if c = ctrlU then
    (killLine (input.e - input.w).toNat input, false)
  else if c = ctrlH ∨ c = delete then
    (if input.e ≠ input.w then { input with e := input.e - 1 } else input, false)
  else if c ≠ 0 ∧ input.e - input.r < 128 then
    store c input
  else
    (input, false)

/-- `consoleintr` on the characters that `getc` returns; says whether readers are
woken. -/
def consoleintr : List UInt8 → Input → Input × Bool
  | [], input => (input, false)
  | c :: rest, input =>
    let first := consolechar c input
    let others := consoleintr rest first.1
    (others.1, first.2 || others.2)

/-! ## `consoleread` -/

/-- A call on the console, with what is left of it. -/
inductive Call where
  | intr (chars : List UInt8)
  /-- `consoleread`: target, n, and the characters copied so far. -/
  | read (target n : Int) (copied : List UInt8)
  deriving DecidableEq

/-- What a call returns: its value, and the characters copied to dst. -/
structure Result where
  value : Int
  bytes : List UInt8
  deriving DecidableEq

/-- What a section of `consoleread` does. -/
structure Reading where
  input : Input
  taken : List UInt8
  /-- How the section ends; readers sleep on `&input.r`. -/
  exit : Exit Unit Call Result

/-- The loop of `consoleread`, by the value of n. -/
def readLoop (target : Int) (killed : Bool) : Nat → List UInt8 → Input → Reading
  | 0, copied, input =>
    { input, taken := [], exit := .leave ⟨target, copied⟩ }
  | n + 1, copied, input =>
    if input.r = input.w then
      if killed then
        { input, taken := [], exit := .leave ⟨-1, copied⟩ }
      else
        { input, taken := [], exit := .sleep () (.read target (n + 1) copied) }
    else
      let c := input.buf (place input.r)
      let next : Input := { input with r := input.r + 1 }
      if c = ctrlD then
        if (n + 1 : Int) < target then
          -- saved for the next read, which gets a result of no bytes
          { input := { next with r := next.r - 1 }
            taken := []
            exit := .leave ⟨target - (n + 1), copied⟩ }
        else
          { input := next, taken := [c], exit := .leave ⟨target - (n + 1), copied⟩ }
      else if c = newline then
        { input := next, taken := [c], exit := .leave ⟨target - n, copied ++ [c]⟩ }
      else
        let rest := readLoop target killed n (copied ++ [c]) next
        { rest with taken := c :: rest.taken }

/-- A section of `consoleread`. -/
def consoleread (target n : Int) (copied : List UInt8) (killed : Bool) (input : Input) :
    Reading :=
  if n ≤ 0 then
    { input, taken := [], exit := .leave ⟨target - n, copied⟩ }
  else
    readLoop target killed n.toNat copied input

/-! ## The terminal -/

/-- A terminal as its users know it. -/
structure Terminal where
  /-- The characters of the lines committed so far. -/
  committed : List UInt8
  line : List UInt8

/-- The terminal after a character has been typed, if readers have taken some of
the committed characters. -/
def Terminal.type (terminal : Terminal) (taken : Nat) (c : UInt8) : Terminal :=
  if c = ctrlP then
    terminal
  else if c = ctrlU then
    { terminal with line := [] }
  else if c = ctrlH ∨ c = delete then
    { terminal with line := terminal.line.dropLast }
  else if c ≠ 0 ∧ terminal.committed.length + terminal.line.length < taken + INPUT_BUF then
    let c := if c = carriageReturn then newline else c
    let line := terminal.line ++ [c]
    if c = newline ∨ c = ctrlD ∨ terminal.committed.length + line.length = taken + INPUT_BUF then
      { committed := terminal.committed ++ line, line := [] }
    else
      { terminal with line := line }
  else
    terminal

/-- The console with its terminal and the history of its reads. -/
structure State where
  input : Input
  terminal : Terminal
  /-- The characters taken by reads, each with the reader, in order. -/
  taken : List (Nat × UInt8)
  /-- The bytes that the reads of each reader have returned, in order. -/
  returned : Nat → List UInt8
  /-- The reads of a positive size that have returned no bytes. -/
  empties : Nat

/-- The characters taken. -/
def State.chars (state : State) : List UInt8 :=
  state.taken.map Prod.snd

/-- The bytes delivered by the reads: the characters taken, except control-D. -/
def State.delivered (state : State) : List UInt8 :=
  state.chars.filter (· ≠ ctrlD)

/-- The history after a section of a read has ended. -/
def State.finish (state : State) (thread : Nat) (target : Int) (reading : Reading) : State :=
  match reading.exit with
  | .leave result =>
    { state with
      input := reading.input
      taken := state.taken ++ reading.taken.map (fun c => (thread, c))
      returned := Function.update state.returned thread
        (state.returned thread ++ if result.value = -1 then [] else result.bytes)
      empties := state.empties + if result.value = 0 ∧ 0 < target then 1 else 0 }
  | .sleep _ _ =>
    { state with
      input := reading.input
      taken := state.taken ++ reading.taken.map (fun c => (thread, c)) }

/-- The console as a monitor. -/
def behaviour : Behaviour State Unit Call Result where
  critical thread request killed state :=
    match request with
    | .intr chars =>
      { shared :=
          { state with
            input := (consoleintr chars state.input).1
            terminal := chars.foldl (·.type state.taken.length) state.terminal }
        wakes := if (consoleintr chars state.input).2 then [()] else []
        exit := .leave ⟨0, []⟩ }
    | .read target n copied =>
      { shared := state.finish thread target (consoleread target n copied killed state.input)
        wakes := []
        exit := (consoleread target n copied killed state.input).exit }
  starts _ _ request :=
    match request with
    | .intr _ => True
    | .read target n copied => target = n ∧ copied = []

/-- The console at boot, with some content of its buffer. -/
def boot (buf : Fin INPUT_BUF → UInt8) : Monitor.State State Unit Call where
  shared :=
    { input := { buf, r := 0, w := 0, e := 0 }
      terminal := { committed := [], line := [] }
      taken := []
      returned := fun _ => []
      empties := 0 }
  activity _ := .idle
  killed _ := false

/-- The states that the console reaches, by any interleaving of interrupts and
reads. -/
abbrev Reaches (buf : Fin INPUT_BUF → UInt8) (state : Monitor.State State Unit Call) : Prop :=
  Reachable behaviour (fun _ _ _ => True) (boot buf) state

end Console
end Xv6
