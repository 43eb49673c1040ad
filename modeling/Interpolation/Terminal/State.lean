import Interpolation.Text.Utf8

/-!
# Control sequences of a terminal

An escape character opens a sequence by which a text steers the terminal that shows it. The
character behind it says what follows: a control sequence, which runs up to its final character; a
device control, whose parameters lead to a string; a string of another kind; or a command to the
operating system, which ends with a bell. Cancel and substitute end whatever is open, and a further
escape character begins anew.
-/

namespace Interpolation.Terminal

/-- Where a terminal stands: in text, behind an escape character, or in what it has opened. -/
inductive State where
  | text
  | escape
  | intermediate
  | sequence
  | device
  | deviceParameter
  | deviceIntermediate
  | string
  | command
  deriving DecidableEq, Repr

def isIntermediate (c : Char) : Bool :=
  ' ' ≤ c && c ≤ '/'

def isParameter (c : Char) : Bool :=
  '0' ≤ c && c ≤ '?'

/-- The parameter characters that may only come first. -/
def isPrivate (c : Char) : Bool :=
  '<' ≤ c && c ≤ '?'

def isFinal (c : Char) : Bool :=
  '@' ≤ c && c ≤ '~'

/-- The octet that ends a string, also within the encoding of a character. -/
def stringEnd : UInt8 := 0x9C

namespace State

/-- The way through what is open; a character without a part in it changes nothing. -/
def continued (s : State) (c : Char) : State :=
  match s with
  | .text => .text
  | .escape =>
    if isIntermediate c then .intermediate
    else if c = '[' then .sequence
    else if c = ']' then .command
    else if c = 'P' then .device
    else if c = 'X' ∨ c = '^' ∨ c = '_' then .string
    else if isParameter c ∨ isFinal c then .text
    else .escape
  | .intermediate => if isParameter c ∨ isFinal c then .text else .intermediate
  | .sequence => if isFinal c then .text else .sequence
  | .device =>
    if isIntermediate c then .deviceIntermediate
    else if isParameter c then .deviceParameter
    else if isFinal c then .string
    else .device
  | .deviceParameter =>
    if isIntermediate c then .deviceIntermediate
    else if isPrivate c ∨ isFinal c then .string
    else .deviceParameter
  | .deviceIntermediate => if isParameter c ∨ isFinal c then .string else .deviceIntermediate
  | .string => if stringEnd ∈ String.utf8EncodeChar c then .text else .string
  | .command => if c = '\x07' then .text else .command

def next (s : State) (c : Char) : State :=
  if c = '\x18' ∨ c = '\x1a' then .text
  else if c = '\x1b' then .escape
  else s.continued c

end State

end Interpolation.Terminal
