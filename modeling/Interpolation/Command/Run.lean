import Interpolation.Command.Files
import Interpolation.Command.Help
import Interpolation.Command.Verbosity
import Interpolation.Engine

/-!
# Running the command

A run is a function of the arguments, the environment, the standard input and the files, and of the
reading of directives. The input is opened before the output is created or emptied, and is read after
that. All that the run writes before it ends or fails reaches its output, and the exit status tells the
two apart. The records are those that the filter of the run shows, in the order of their occurrence.
-/

namespace Interpolation.Command

structure Invocation where
  arguments : List Bytes := []
  environment : Environment := []
  stdin : Bytes := []
  files : Files
  directives : Directives := fun _ => none

/-- What a run leaves behind. A complaint is about the arguments, so no records stand beside it. -/
structure Outcome where
  status : Nat
  stdout : Bytes := []
  complaint : Text := []
  records : List Record := []
  files : Files

def Outcome.stderr (o : Outcome) : Bytes :=
  Utf8.encode (o.complaint ++ o.records.flatMap fun r => r.text ++ ['\n'])

/-- The engine of a run: variables given as arguments come over those of the environment. -/
def Options.engine (o : Options) (env : Environment) : Engine :=
  let start : Engine :=
    if o.environment then Engine.ofEnvironment o.policy env else { policy := o.policy }
  start.addAll (o.assignments.map fun a => (a.key, a.value))

/-- The work of a run, once its input and output are open. -/
def Options.work (o : Options) (env : Environment) (source : Stream.Source) : Stream.Run Unit := do
  if o.list then
    let count ← Stream.listKeys o.policy.escapes source
    Stream.Run.note (.listed count)
  else
    o.assignments.forM fun a => Stream.Run.note (.assigned a)
    let totals ← (o.engine env).substituteStream source
    Stream.Run.note (.done totals)

def Options.perform (o : Options) (env : Environment) (source : Stream.Source) :
    Nat × Bytes × List Record :=
  let (result, outlets) := (o.work env source).perform {}
  let written := outlets.out.taken.toList
  let records := outlets.journal.toList
  match result with
  | .ok _ => (0, written, records)
  | .error fault => (1, written, records ++ [.event (.failed fault)])

/-- One dash stands for the standard input or output. -/
def standard : Text := ['-']

inductive Input where
  | stdin
  | file (p : Path)
  | directory

inductive Output where
  | stdout
  | file (p : Path)

def openInput (fs : Files) (path : Text) : Except OpenError Input :=
  if path = standard then .ok .stdin
  else do
    match ← fs.openInput path with
    | some p => return .file p
    | none => return .directory

def openOutput (fs : Files) (path : Text) : Except OpenError Output :=
  if path = standard then .ok .stdout
  else do
    let p ← fs.openOutput path
    return .file p

def Output.deliver (target : Output) (fs : Files) (bs : Bytes) : Files :=
  match target with
  | .stdout => fs
  | .file p => fs.write p bs

def Output.shown (target : Output) (bs : Bytes) : Bytes :=
  match target with
  | .stdout => bs
  | .file _ => []

def Input.source (input : Input) (fs : Files) (stdin : Bytes) : Stream.Source :=
  match input with
  | .stdin => ⟨stdin, none⟩
  | .file p => ⟨(fs.read? p).getD [], none⟩
  | .directory => ⟨[], some OpenError.isADirectory.message⟩

def Options.visible (o : Options) (directives : Directives) (env : Environment)
    (records : List Record) : List Record :=
  records.filter (Record.shownBy (o.filterIn directives env).shows)

def refuse (o : Options) (i : Invocation) (e : Event) : Outcome :=
  { status := 1, records := o.visible i.directives i.environment [.event e], files := i.files }

def runWith (o : Options) (i : Invocation) : Outcome :=
  match openInput i.files o.input with
  | .error e => refuse o i (.inputRefused o.input e.message)
  | .ok input =>
    match openOutput i.files o.output with
    | .error e => refuse o i (.outputRefused o.output e.message)
    | .ok output =>
      let opened := output.deliver i.files []
      let (status, written, records) := o.perform i.environment (input.source opened i.stdin)
      { status, stdout := output.shown written
        records := o.visible i.directives i.environment records
        files := output.deliver opened written }

def run (i : Invocation) : Outcome :=
  match Options.parse i.arguments with
  | .ok o => runWith o i
  | .error .help => { status := 0, stdout := Utf8.encode helpText, files := i.files }
  | .error .version => { status := 0, stdout := Utf8.encode versionText, files := i.files }
  | .error (.misuse m) => { status := 2, complaint := m.report, files := i.files }

end Interpolation.Command
