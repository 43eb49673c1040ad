import Interpolation.Placeholder.Scan

/-!
# Faults and warnings

Everything that can stop a substitution, as causes, with one message for each. A warning speaks of a
key that has no value; it quotes the key as it stands.
-/

namespace Interpolation

inductive Fault where
  | missingValue (gap : Placeholder.Gap)
  | invalidAssignment (blob : Text)
  | io (reason : Text)
  deriving DecidableEq, Repr

def Fault.message : Fault → Text
  | .missingValue gap => "Undefined variable '".toList ++ gap.key ++ ['\'']
  | .invalidAssignment blob =>
    "Invalid key-value pair: '".toList ++ blob ++
      "'; expected KEY=VALUE with a non-empty KEY and no NUL characters".toList
  | .io reason => "IO Error: ".toList ++ reason

def warning (key : Text) : Text :=
  "WARNING: No value (environment variable) supplied for key \"".toList ++ key ++ ['"']

end Interpolation
