import Interpolation.Text.Utf8

/-!
# Lines

A line ends with a newline. A complete line is read without its newline and without one carriage
return directly before it; what follows the last newline is the unterminated rest, which keeps a
carriage return at its end. The same cut serves characters and octets, since the two marks are
parameters. The four lemmas on `complete` and `rest` determine both functions.
-/

namespace Interpolation.Lines

variable {α : Type} [DecidableEq α]

/-- The two marks that end a line. -/
structure Marks (α : Type) where
  newline : α
  carriageReturn : α

def textMarks : Marks Char := ⟨'\n', '\r'⟩

def byteMarks : Marks UInt8 := ⟨0x0A, 0x0D⟩

def dropReturn (m : Marks α) (line : List α) : List α :=
  if line.getLast? = some m.carriageReturn then line.dropLast else line

/-- The terminated lines, without their terminators. -/
def complete (m : Marks α) (s : List α) : List (List α) :=
  (s.splitOn m.newline).dropLast.map (dropReturn m)

/-- What follows the last newline. -/
def rest (m : Marks α) (s : List α) : List α :=
  (s.splitOn m.newline).getLast (List.splitOn_ne_nil m.newline s)

/-- All lines: an unterminated rest counts as a line if there is anything in it. -/
def all (m : Marks α) (s : List α) : List (List α) :=
  complete m s ++ if (rest m s).isEmpty then [] else [rest m s]

theorem complete_of_not_mem (m : Marks α) {s : List α} (h : m.newline ∉ s) : complete m s = [] := by
  simp [complete, List.splitOn_eq_singleton h]

theorem rest_of_not_mem (m : Marks α) {s : List α} (h : m.newline ∉ s) : rest m s = s := by
  simp [rest, List.splitOn_eq_singleton h]

theorem complete_append_newline (m : Marks α) {line : List α} (h : m.newline ∉ line) (s : List α) :
    complete m (line ++ m.newline :: s) = dropReturn m line :: complete m s := by
  simp [complete, List.splitOn_append_cons_self_of_not_mem h,
    List.dropLast_cons_of_ne_nil (List.splitOn_ne_nil m.newline s)]

theorem rest_append_newline (m : Marks α) {line : List α} (h : m.newline ∉ line) (s : List α) :
    rest m (line ++ m.newline :: s) = rest m s := by
  simp [rest, List.splitOn_append_cons_self_of_not_mem h,
    List.getLast_cons (List.splitOn_ne_nil m.newline s)]

end Interpolation.Lines
