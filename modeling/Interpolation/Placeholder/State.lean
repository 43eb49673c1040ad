import Interpolation.Text.Utf8

/-!
# The placeholder reader, one character at a time

A placeholder is written `${KEY}`. The reader keeps four buffers: `plain` holds ordinary characters
not yet written, `pending` the run of dollars just read, `key` the key of the placeholder that is
open, and `out` what has been written. With escapes on, a run of two or more dollars before a brace
loses one dollar and opens nothing. A step either leads to the next state or asks for the value of a
key; whoever has the value goes on with `emit`. The reader itself never sees a value, so no value
can steer it.
-/

namespace Interpolation.Placeholder

/-- Where the reader stands: outside every placeholder, after one dollar, after a run of two or more
dollars, or inside the key of a placeholder. -/
inductive Mode where
  | text
  | dollar
  | dollars
  | key
  deriving DecidableEq, Repr

structure State where
  mode : Mode := .text
  plain : Array Char := #[]
  pending : Array Char := #[]
  key : Array Char := #[]
  out : Array Char := #[]
  deriving DecidableEq, Repr

inductive Step where
  | next (s : State)
  | ask (key : Text) (s : State)

def opener : Text := ['$', '{']

def spell (key : Text) : Text :=
  opener ++ key ++ ['}']

def State.emit (s : State) (value : Text) : State :=
  { s with out := s.out ++ value }

def State.step (escapes : Bool) : State → Char → Step
  | ⟨.text, plain, pending, key, out⟩, c =>
    if c = '$' then .next ⟨.dollar, #[], pending.push c, key, out ++ plain⟩
    else .next ⟨.text, plain.push c, pending, key, out⟩
  | ⟨.dollar, plain, pending, key, out⟩, c =>
    if c = '$' then
      if escapes then .next ⟨.dollars, plain, pending.push c, key, out⟩
      else .next ⟨.dollar, plain, #[c], key, out ++ pending⟩
    else if c = '{' then .next ⟨.key, plain, #[], key, out⟩
    else .next ⟨.text, plain.push c, #[], key, out ++ pending⟩
  | ⟨.dollars, plain, pending, key, out⟩, c =>
    if c = '$' then .next ⟨.dollars, plain, pending.push c, key, out⟩
    else
      let run := if c = '{' then pending.pop else pending
      .next ⟨.text, plain, #[], key, out ++ run.push c⟩
  | ⟨.key, plain, pending, key, out⟩, c =>
    if c = '}' then .ask key.toList ⟨.text, plain, pending, #[], out⟩
    else .next ⟨.key, plain, pending, key.push c, out⟩

/-- The text written when the line ends: a placeholder that is still open stands for itself. -/
def State.finish (s : State) : Text :=
  let tail := if s.mode = .key then opener ++ s.key.toList else []
  (s.out ++ s.plain ++ s.pending).toListAppend tail

end Interpolation.Placeholder
