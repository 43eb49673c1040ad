import Interpolation.Assignment
import Interpolation.Terminal.Neutral
import Interpolation.Text.Quoted

/-!
# Records

What a run reports besides its output: warnings, and events of a severity. Which events are shown is
chosen; a warning is always shown. Keys are quoted in the events of a single lookup and stand as they
are in all others. A message that holds a path or the reason of a failure is neutral to terminals.
-/

namespace Interpolation

structure Totals where
  lines : Nat := 0
  warnings : Nat := 0
  deriving DecidableEq, Repr

inductive Level where
  | off
  | error
  | warn
  | info
  | debug
  | trace
  deriving DecidableEq, Repr

def Level.rank : Level → Nat
  | .off => 0
  | .error => 1
  | .warn => 2
  | .info => 3
  | .debug => 4
  | .trace => 5

inductive Event where
  | resolved (key : Text)
  | unresolved (key : Text) (strict : Bool)
  | aborting (line : Nat) (key : Text)
  | streamDone (totals : Totals)
  | assigned (assignment : Assignment)
  | listed (count : Nat)
  | done (totals : Totals)
  | inputRefused (path reason : Text)
  | outputRefused (path reason : Text)
  | failed (fault : Fault)

inductive Record where
  | warning (key : Text)
  | event (e : Event)

namespace Event

def severity : Event → Level
  | .resolved _ => .trace
  | .unresolved _ _ | .aborting _ _ | .streamDone _ | .assigned _ | .listed _ | .done _ => .debug
  | .inputRefused _ _ | .outputRefused _ _ | .failed _ => .error

def totals (t : Totals) : Text :=
  " lines=".toList ++ Numeral.decimal t.lines ++ " warnings=".toList ++ Numeral.decimal t.warnings

def text : Event → Text
  | .resolved key => "TRACE resolved key=".toList ++ Quoted.write key
  | .unresolved key strict =>
    "DEBUG no value supplied key=".toList ++ Quoted.write key ++
      (if strict then " strict=true" else " strict=false").toList
  | .aborting line key =>
    "DEBUG aborting on missing value line=".toList ++ Numeral.decimal line ++ " key=".toList ++ key
  | .streamDone t => "DEBUG stream done".toList ++ totals t
  | .assigned a => "DEBUG variable from command line pair=".toList ++ a.display
  | .listed count => "DEBUG listed keys count=".toList ++ Numeral.decimal count
  | .done t => "DEBUG done".toList ++ totals t
  | .inputRefused path reason =>
    "ERROR ".toList ++
      Terminal.neutral ("failed to open input '".toList ++ path ++ "': ".toList ++ reason)
  | .outputRefused path reason =>
    "ERROR ".toList ++
      Terminal.neutral ("failed to open output '".toList ++ path ++ "': ".toList ++ reason)
  | .failed (.missingValue gap) => "ERROR missing value, aborting key=".toList ++ gap.key
  | .failed fault => "ERROR ".toList ++ Terminal.neutral fault.message

end Event

namespace Record

def shownBy (shows : Event → Bool) : Record → Bool
  | .warning _ => true
  | .event e => shows e

def text : Record → Text
  | .warning key => Interpolation.warning key
  | .event e => e.text

end Record

end Interpolation
