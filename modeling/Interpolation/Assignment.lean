import Interpolation.Fault

/-!
# Assignments

An assignment is written `KEY=VALUE`. The key ends at the first equals sign and must not be empty;
the value may hold further equals signs, line breaks, or nothing. Neither holds a NUL character.
-/

namespace Interpolation

structure Assignment where
  key : Text
  value : Text
  deriving DecidableEq, Repr

namespace Assignment

def write (a : Assignment) : Text :=
  a.key ++ '=' :: a.value

def parse (blob : Text) : Except Fault Assignment :=
  let key := blob.takeWhile (· ≠ '=')
  match blob.dropWhile (· ≠ '=') with
  | [] => .error (.invalidAssignment blob)
  | _ :: value =>
    if key = [] ∨ '\u0000' ∈ blob then .error (.invalidAssignment blob)
    else .ok ⟨key, value⟩

def display (a : Assignment) : Text :=
  ['\''] ++ a.key ++ "'='".toList ++ a.value ++ ['\'']

end Assignment

end Interpolation
