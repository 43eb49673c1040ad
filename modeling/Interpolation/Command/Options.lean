import Interpolation.Assignment
import Interpolation.Command.Misuse
import Interpolation.Policy
import Interpolation.Record

/-!
# Options of the command

Arguments are read from left to right. A long name may carry its value after an equals sign, a short
one directly behind it; short names can be bundled. A value that stands alone in the next argument
is only kept until the next choice takes effect or the arguments end: then it is checked. So an
unknown argument is reported before a bad value that is still being kept, but after one that was
attached.
-/

namespace Interpolation.Command

structure Options where
  input : Text := ['-']
  output : Text := ['-']
  assignments : List Assignment := []
  environment : Bool := true
  list : Bool := false
  policy : Policy := {}
  level : Level := .warn
  deriving DecidableEq, Repr

inductive Stop where
  | help
  | version
  | misuse (m : Misuse)

/-- What has been read so far: the choices that took effect, the switches in the order of their
appearance, and the setting that waits for its value or keeps one unchecked. -/
structure Draft where
  switches : List Switch := []
  input : Option Text := none
  output : Option Text := none
  assignments : List Assignment := []
  waiting : Option (Setting × Option Bytes) := none
  deriving DecidableEq, Repr

def dash : UInt8 := 0x2D

def equalsSign : UInt8 := 0x3D

namespace Draft

def refuse {α : Type} (m : Misuse) : Except Stop α :=
  .error (.misuse m)

def decode (value : Bytes) : Except Stop Text :=
  match Utf8.decode? value with
  | some t => .ok t
  | none => refuse .notUtf8

/-- Only an assignment can be given more than once. -/
def assign (d : Draft) (s : Setting) (value : Bytes) : Except Stop Draft :=
  match s with
  | .input =>
    if d.input.isSome then refuse (.repeated (.setting s))
    else do
      let t ← decode value
      return { d with input := some t }
  | .output =>
    if d.output.isSome then refuse (.repeated (.setting s))
    else do
      let t ← decode value
      return { d with output := some t }
  | .assignment => do
    let t ← decode value
    match Assignment.parse t with
    | .ok a => return { d with assignments := d.assignments ++ [a] }
    | .error fault => refuse (.valueRefused s t fault)

def settle (d : Draft) : Except Stop Draft :=
  match d.waiting with
  | none => .ok d
  | some (s, none) => refuse (.valueMissing s)
  | some (s, some value) => { d with waiting := none }.assign s value

def choose (d : Draft) : Choice → Option Bytes → Except Stop Draft
  | .setting s, none => do
    let d ← d.settle
    return { d with waiting := some (s, none) }
  | .setting s, some value => do
    let d ← d.settle
    d.assign s value
  | choice, some value => refuse (.valueUnexpected choice (Utf8.decodeLossy value))
  | .switch s, none => do
    let d ← d.settle
    if s ∈ d.switches then refuse (.repeated (.switch s))
    else return { d with switches := d.switches ++ [s] }
  | .help, none => do
    let _ ← d.settle
    .error .help
  | .version, none => do
    let _ ← d.settle
    .error .version

def readLong (d : Draft) (body : Bytes) : Except Stop Draft :=
  let name := body.takeWhile (· ≠ equalsSign)
  let value := match body.dropWhile (· ≠ equalsSign) with
    | [] => none
    | _ :: value => some value
  match (Utf8.decode? name).bind Choice.ofLongName? with
  | some choice => d.choose choice value
  | none => refuse (.unknownArgument ("--".toList ++ Utf8.decodeLossy name))

/-- A value directly behind a short name loses one equals sign in front. -/
def attached : Bytes → Bytes
  | [] => []
  | b :: rest => if b = equalsSign then rest else b :: rest

/-- Reads bundled short names, and octets behind them that are no text. -/
def readShort (d : Draft) : Text → Bytes → Except Stop Draft
  | [], [] => .ok d
  | [], rest => refuse (.unknownArgument ('-' :: Utf8.decodeLossy rest))
  | c :: names, rest =>
    match Choice.ofShortName? c with
    | none => refuse (.unknownArgument ['-', c])
    | some (.setting s) =>
      let value := Utf8.encode names ++ rest
      d.choose (.setting s) (if value.isEmpty then none else some (attached value))
    | some choice => do
      let d ← d.choose choice none
      d.readShort names rest

def readPlain (d : Draft) (argument : Bytes) : Except Stop Draft :=
  match d.waiting with
  | some (s, none) => .ok { d with waiting := some (s, some argument) }
  | _ => refuse (.unknownArgument (Utf8.decodeLossy argument))

/-- An argument of one octet is plain, a single dash included. -/
def readArgument (d : Draft) : Bytes → Except Stop Draft
  | first :: second :: body =>
    if first ≠ dash then d.readPlain (first :: second :: body)
    else if second = dash then d.readLong body
    else
      let (names, rest) := Utf8.splitText (second :: body)
      d.readShort names rest
  | argument => d.readPlain argument

/-- After two dashes that stand alone there must be no argument left. -/
def read (d : Draft) : List Bytes → Except Stop Draft
  | [] => .ok d
  | argument :: arguments =>
    if argument = [dash, dash] then
      match arguments with
      | [] => .ok d
      | argument :: _ => refuse (.unknownArgument (Utf8.decodeLossy argument))
    else do
      let d ← d.readArgument argument
      d.read arguments

def options (d : Draft) : Options where
  input := d.input.getD ['-']
  output := d.output.getD ['-']
  assignments := d.assignments
  environment := .noEnvironment ∉ d.switches
  list := .list ∈ d.switches
  policy := ⟨.keepMissing ∉ d.switches, .noEscapes ∉ d.switches⟩
  level :=
    if .verbose ∈ d.switches then .trace
    else if .quiet ∈ d.switches then .error
    else .warn

/-- Verbose and quiet exclude each other; the message names the one given first. -/
def checked (d : Draft) : Except Stop Draft :=
  match d.switches.filter fun s => s = .verbose ∨ s = .quiet with
  | first :: second :: _ => refuse (.conflict first second)
  | _ => .ok d

end Draft

def Options.parse (arguments : List Bytes) : Except Stop Options := do
  let d ← Draft.read {} arguments
  let d ← d.settle
  let d ← d.checked
  return d.options

end Interpolation.Command
