import Std.Data.TreeSet
import Interpolation.Placeholder.Scan
import Interpolation.Text.Lines

/-!
# References of a text

The keys that a text refers to, each once, in the order of their code points. Lines are read one by
one, so no placeholder reaches over a line end.
-/

namespace Interpolation

def references (t : Text) : List Text :=
  let keys := (Lines.all Lines.textMarks t).flatMap (Placeholder.keys true)
  (Std.TreeSet.ofList keys).toList

end Interpolation
