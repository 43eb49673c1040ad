import Interpolation.Policy
import Interpolation.Text.Quoted

/-!
# Reading a policy from structured data

A policy is read from a record with one Boolean field for each of its two settings, or from a list
with the two Booleans in a fixed order. Further fields of a record are passed over. The fields of a
record are visited in the order of their names: a field that is no Boolean is reported before one
that is missing.
-/

namespace Interpolation.Policy

inductive Data where
  | null
  | bool (b : Bool)
  | integer (n : Int)
  | text (t : Text)
  | list (items : List Data)
  | record (fields : List (Text × Data))
  deriving Inhabited

inductive ReadError where
  | notAPolicy (found : Data)
  | notABoolean (found : Data)
  | missingField (name : Text)
  | tooShort (length : Nat)
  | tooLong (length : Nat)

def failOnMissingField : Text := "fail_on_missing".toList

def escapesField : Text := "escapes".toList

def Data.describe : Data → Text
  | .null => "null".toList
  | .bool b => "boolean `".toList ++ (if b then "true" else "false").toList ++ "`".toList
  | .integer n => "integer `".toList ++ Numeral.signed n ++ "`".toList
  | .text t => "string ".toList ++ Quoted.write t
  | .list _ => "sequence".toList
  | .record _ => "map".toList

def ReadError.message : ReadError → Text
  | .notAPolicy found =>
    "invalid type: ".toList ++ found.describe ++ ", expected struct Config".toList
  | .notABoolean found =>
    "invalid type: ".toList ++ found.describe ++ ", expected a boolean".toList
  | .missingField name => "missing field `".toList ++ name ++ "`".toList
  | .tooShort length =>
    "invalid length ".toList ++ Numeral.decimal length ++
      ", expected struct Config with 2 elements".toList
  | .tooLong length =>
    "invalid length ".toList ++ Numeral.decimal length ++
      ", expected fewer elements in array".toList

def Data.toBool : Data → Except ReadError Bool
  | .bool b => .ok b
  | found => .error (.notABoolean found)

def field? (fields : List (Text × Data)) (name : Text) : Except ReadError (Option Bool) :=
  match fields.lookup name with
  | none => .ok none
  | some found => some <$> found.toBool

def require (name : Text) : Option Bool → Except ReadError Bool
  | some b => .ok b
  | none => .error (.missingField name)

def read : Data → Except ReadError Policy
  | .record fields => do
    let escapes ← field? fields escapesField
    let failOnMissing ← field? fields failOnMissingField
    let failOnMissing ← require failOnMissingField failOnMissing
    let escapes ← require escapesField escapes
    return ⟨failOnMissing, escapes⟩
  | .list [] => .error (.tooShort 0)
  | .list [first] => do
    let _ ← first.toBool
    .error (.tooShort 1)
  | .list (first :: second :: others) => do
    let failOnMissing ← first.toBool
    let escapes ← second.toBool
    if others.isEmpty then return ⟨failOnMissing, escapes⟩
    else .error (.tooLong (others.length + 2))
  | found => .error (.notAPolicy found)

end Interpolation.Policy
