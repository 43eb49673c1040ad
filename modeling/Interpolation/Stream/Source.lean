import Interpolation.Fault
import Interpolation.Text.Lines

/-!
# Sources of lines

A source delivers its octets and then either ends or fails. Its lines are decoded one by one. When
it fails, what it delivered of an unterminated line is lost, and the failure stands in its place.
-/

namespace Interpolation.Stream

structure Source where
  bytes : Bytes
  failure : Option Text := none

def notUtf8 : Text := "stream did not contain valid UTF-8".toList

def readLine (line : Bytes) : Except Fault Text :=
  match Utf8.decode? line with
  | some text => .ok text
  | none => .error (.io notUtf8)

def Source.tail (s : Source) : List (Except Fault Text) :=
  match s.failure with
  | some reason => [.error (.io reason)]
  | none =>
    let rest := Lines.rest Lines.byteMarks s.bytes
    if rest.isEmpty then [] else [readLine rest]

def Source.lines (s : Source) : List (Except Fault Text) :=
  (Lines.complete Lines.byteMarks s.bytes).map readLine ++ s.tail

end Interpolation.Stream
