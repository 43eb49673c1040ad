/-!
# Policies

How a line is substituted: whether a key without a value is an error, and whether dollars can escape
a placeholder.
-/

namespace Interpolation

structure Policy where
  failOnMissing : Bool := true
  escapes : Bool := true
  deriving DecidableEq, Repr

/-- Placeholders without a value stay in place. -/
def Policy.lenient : Policy :=
  { failOnMissing := false }

end Interpolation
