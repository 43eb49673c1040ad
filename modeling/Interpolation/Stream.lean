import Interpolation.Line
import Interpolation.Stream.Source
import Interpolation.Stream.Outlets

/-!
# Substituting a stream

The lines of a source are substituted in order, and each is written with a newline once its warnings
are out. A line that stops on a key without a value is not written: its one warning is given and the
run ends. Listing reads the same lines and writes the keys of their placeholders instead.
-/

namespace Interpolation.Stream

/-- Substitutes one line and gives the number of its warnings. -/
def substituteLine (p : Policy) (look : Lookup) (number : Nat) (line : Text) : Run Nat := do
  let (result, requests) := Line.trace p look line
  requests.forM fun r => Run.note (r.event p)
  match result with
  | .error gap =>
    Run.warn gap.key
    Run.note (.aborting number gap.key)
    throw (.missingValue gap)
  | .ok s =>
    s.missing.forM Run.warn
    Run.writeLine s.text
    return s.missing.length

def substituteLines (p : Policy) (look : Lookup) :
    List (Except Fault Text) → Totals → Run Totals
  | [], totals => do
    Run.flush
    Run.note (.streamDone totals)
    return totals
  | .error fault :: _, _ => throw fault
  | .ok line :: lines, totals => do
    let warnings ← substituteLine p look (totals.lines + 1) line
    substituteLines p look lines ⟨totals.lines + 1, totals.warnings + warnings⟩

def substitute (p : Policy) (look : Lookup) (source : Source) : Run Totals :=
  substituteLines p look source.lines {}

def listLines (escapes : Bool) : List (Except Fault Text) → Nat → Run Nat
  | [], count => do
    Run.flush
    return count
  | .error fault :: _, _ => throw fault
  | .ok line :: lines, count => do
    let keys := Placeholder.keys escapes line
    keys.forM Run.writeLine
    listLines escapes lines (count + keys.length)

/-- Writes the key of every placeholder as a line of its own and gives their number. -/
def listKeys (escapes : Bool) (source : Source) : Run Nat :=
  listLines escapes source.lines 0

/-- The keys on the readable lines, in order and with duplicates. -/
def askedKeys (escapes : Bool) (lines : List (Except Fault Text)) : List Text :=
  (lines.filterMap Except.toOption).flatMap (Placeholder.keys escapes)

end Interpolation.Stream
