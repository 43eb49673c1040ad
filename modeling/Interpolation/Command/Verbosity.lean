import Interpolation.Command.Options
import Interpolation.Store

/-!
# What a run shows of its events

The environment may name the level of the events to show, or give directives of another kind. How these
are read is no part of the command: the reading comes with the run. Where the environment has nothing,
or nothing that is read as a filter, the options decide.
-/

namespace Interpolation.Command

def levelVariable : Text := "RUST_LOG".toList

def levelWords : List (Text × Level) :=
  [("off".toList, .off), ("error".toList, .error), ("warn".toList, .warn), ("info".toList, .info),
    ("debug".toList, .debug), ("trace".toList, .trace)]

def levelDigits : List (Text × Level) :=
  [("0".toList, .off), ("1".toList, .error), ("2".toList, .warn), ("3".toList, .info),
    ("4".toList, .debug), ("5".toList, .trace)]

/-- Words count in either case. -/
def levelNamed? (t : Text) : Option Level :=
  (levelWords ++ levelDigits).lookup (t.map Char.toLower)

/-- How directives are read that are not the name of a level: the events that they let through, or
nothing where they are refused. -/
abbrev Directives := Text → Option (Event → Bool)

inductive Filter where
  | level (l : Level)
  | directives (shows : Event → Bool)

namespace Filter

def shows : Filter → Event → Bool
  | .level l, e => e.severity.rank ≤ l.rank
  | .directives shows, e => shows e

def read? (directives : Directives) (t : Text) : Option Filter :=
  match levelNamed? t with
  | some l => some (.level l)
  | none => (directives t).map .directives

end Filter

def Options.filterIn (o : Options) (directives : Directives) (env : Environment) : Filter :=
  let given := (env.value? (Utf8.encode levelVariable)).bind Utf8.decode?
  (given.bind (Filter.read? directives)).getD (.level o.level)

end Interpolation.Command
