import Interpolation.Command.Run

/-!
# The program

Opens what the options name, does the work on the octets it reads, and writes what the work left
behind. The process environment is asked for the level and for the keys that the input names. Of
directives the program reads none but the names of levels.
-/

namespace Interpolation.Command

def reasonOf : IO.Error → Text
  | .noFileOrDirectory .. => OpenError.noSuchFile.message
  | .inappropriateType _ 20 _ => OpenError.notADirectory.message
  | .inappropriateType _ 21 _ => OpenError.isADirectory.message
  | e => (toString e).toList

def ask (names : List Text) : IO Environment := do
  let canBeSet := fun name : Text =>
    !name.isEmpty && !name.tail.contains '=' && !name.contains '\u0000'
  let entries ← (names.filter canBeSet).mapM fun name => do
    let value ← IO.getEnv (String.ofList name)
    return value.map fun value => (Utf8.encode name, Utf8.encode value.toList)
  return entries.filterMap id

def report (o : Options) (env : Environment) (records : List Record) : IO Unit := do
  let lines := (o.visible (fun _ => none) env records).flatMap fun r => r.text ++ ['\n']
  (← IO.getStderr).putStr (String.ofList lines)

def readSource (input : IO.FS.Stream) : IO Stream.Source := do
  try
    let bytes ← input.readBinToEnd
    return ⟨bytes.toList, none⟩
  catch e =>
    return ⟨[], some (reasonOf e)⟩

def work (o : Options) (env : Environment) (input output : IO.FS.Stream) : IO UInt32 := do
  let source ← readSource input
  let named ← ask (Stream.askedKeys o.policy.escapes source.lines)
  let (status, written, records) := o.perform (named ++ env) source
  output.write written.toByteArray
  output.flush
  report o env records
  return status.toUInt32

def openStream (path : Text) (mode : IO.FS.Mode) (standard : IO.FS.Stream) :
    IO (Except IO.Error IO.FS.Stream) := do
  if path = Command.standard then return .ok standard
  try
    let handle ← IO.FS.Handle.mk (String.ofList path) mode
    return .ok (IO.FS.Stream.ofHandle handle)
  catch e =>
    return .error e

def execute (o : Options) : IO UInt32 := do
  let env ← ask [levelVariable]
  match ← openStream o.input .read (← IO.getStdin) with
  | .error e =>
    report o env [.event (.inputRefused o.input (reasonOf e))]
    return 1
  | .ok input =>
    match ← openStream o.output .write (← IO.getStdout) with
    | .error e =>
      report o env [.event (.outputRefused o.output (reasonOf e))]
      return 1
    | .ok output => work o env input output

end Interpolation.Command

open Interpolation Interpolation.Command in
def main (arguments : List String) : IO UInt32 := do
  match Options.parse (arguments.map fun a => Utf8.encode a.toList) with
  | .ok o => execute o
  | .error .help =>
    IO.print (String.ofList helpText)
    return 0
  | .error .version =>
    IO.print (String.ofList versionText)
    return 0
  | .error (.misuse m) =>
    IO.eprintln (String.ofList m.report)
    return 2
