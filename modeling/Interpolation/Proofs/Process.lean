import Interpolation.Proofs.Acceptance
import Interpolation.Proofs.Work

/-!
# Processes that mirror a stream

A process with nothing to report but warnings, reading the standard input and writing the standard
output, mirrors a run over a stream: the output of the run is what it writes, the diagnostics are its
errors, and its status tells how the run ended. The arguments and the environment only settle the
policy of the run and the values of its keys; a listing does not even depend on the values.
-/

namespace Interpolation.Command

open Interpolation.Stream

theorem runWith_of_input_refused {o : Options} {i : Invocation} {e : OpenError}
    (h : openInput i.files o.input = .error e) :
    runWith o i = refuse o i (.inputRefused o.input e.message) := by
  rw [runWith, h]

theorem runWith_of_output_refused {o : Options} {i : Invocation} {input : Input} {e : OpenError}
    (hInput : openInput i.files o.input = .ok input)
    (hOutput : openOutput i.files o.output = .error e) :
    runWith o i = refuse o i (.outputRefused o.output e.message) := by
  rw [runWith, hInput]
  dsimp only
  rw [hOutput]

theorem runWith_of_opened {o : Options} {i : Invocation} {input : Input} {output : Output}
    (hInput : openInput i.files o.input = .ok input)
    (hOutput : openOutput i.files o.output = .ok output) :
    let opened := output.deliver i.files []
    let performed := o.perform i.environment (input.source opened i.stdin)
    runWith o i =
      { status := performed.1, stdout := output.shown performed.2.1,
        records := o.visible i.directives i.environment performed.2.2,
        files := output.deliver opened performed.2.1 } := by
  rw [runWith, hInput]
  dsimp only
  rw [hOutput]

theorem filterIn_of_named (o : Options) (directives : Directives) {env : Environment} {word : Text}
    {level : Level} (hNamed : levelNamed? word = some level)
    (h : env.value? (Utf8.encode levelVariable) = some (Utf8.encode word)) :
    o.filterIn directives env = .level level := by
  simp only [Options.filterIn, h, Option.bind_some, Utf8.decode?_encode, Filter.read?, hNamed,
    Option.getD_some]

structure Mirrors {α : Type} (outcome : Outcome) (run : Except Fault α × Outlets) : Prop where
  status : outcome.status = if run.1.isOk then 0 else 1
  stdout : outcome.stdout = run.2.out.taken.toList
  stderr : outcome.stderr = run.2.diagnostics.taken.toList

theorem mirrors_of_annotates {α : Type} {o : Options} {i : Invocation} {r : Run α}
    (hInput : o.input = standard) (hOutput : o.output = standard)
    (hFilter : o.filterIn i.directives i.environment = .level .off)
    (hWork : Annotates (o.work i.environment ⟨i.stdin, none⟩) r) :
    Mirrors (runWith o i) (Run.perform r {}) := by
  have hStdin : openInput i.files o.input = .ok .stdin := by rw [openInput, if_pos hInput]
  have hStdout : openOutput i.files o.output = .ok .stdout := by rw [openOutput, if_pos hOutput]
  obtain ⟨hStatus, hWritten, hWarnings⟩ := perform_of_annotates hWork
  rw [runWith_of_opened hStdin hStdout]
  refine ⟨hStatus, hWritten, ?_⟩
  rw [← hWarnings, Outcome.stderr, Options.visible, hFilter, Record.shownBy_off]
  rfl

theorem diagnostics_listScript (escapes : Bool) (lines : List (Except Fault Text)) (count : Nat) :
    (listScript escapes lines count).1.flatMap Action.diagnostics = [] := by
  induction lines generalizing count with
  | nil => rfl
  | cons item lines ih =>
    cases item with
    | error fault => rfl
    | ok line =>
      rw [listScript]
      simp only [List.flatMap_append, ih, List.append_nil]
      induction Placeholder.keys escapes line with
      | nil => rfl
      | cons key keys ihKeys =>
        rw [List.flatMap_cons, List.flatMap_append, ihKeys]
        rfl

theorem diagnostics_listKeys (escapes : Bool) (source : Source) :
    (Run.perform (listKeys escapes source) {}).2.diagnostics.taken.toList = [] := by
  have hRun := (follows_listLines escapes source.lines 0).perform_of_unfailing (o := {}) ⟨rfl, rfl, rfl⟩
  rw [listKeys, hRun]
  simp [Outlets.after, diagnostics_listScript]

theorem head?_getD_standard {paths : List Text} (h : ∀ path ∈ paths, path = standard) :
    paths.head?.getD ['-'] = standard := by
  cases paths with
  | nil => rfl
  | cons path paths => exact h path List.mem_cons_self

/-- A process that only reports warnings does what its options ask of the stream. -/
theorem run_mirrors_stream {i : Invocation} {parts : List Part}
    (hArguments : Accepted i.arguments parts) (hInput : ∀ path ∈ inputs parts, path = standard)
    (hOutput : ∀ path ∈ outputs parts, path = standard)
    (hLevel : i.environment.value? (Utf8.encode levelVariable) = some (Utf8.encode "off".toList)) :
    let source : Source := ⟨i.stdin, none⟩
    let policy : Policy := ⟨.switch .keepMissing ∉ parts, .switch .noEscapes ∉ parts⟩
    let look := bindings (assignments parts) (.switch .noEnvironment ∉ parts) i.environment
    (.switch .list ∉ parts → Mirrors (run i) (Run.perform (substitute policy look source) {})) ∧
      (.switch .list ∈ parts →
        Mirrors (run i) (Run.perform (listKeys policy.escapes source) {}) ∧ (run i).stderr = []) := by
  intro source policy look
  have hRun : run i = runWith (Options.ofParts parts) i := by
    rw [run, parse_of_accepted hArguments]
  have hMirrors : ∀ {α : Type} {r : Run α},
      Annotates ((Options.ofParts parts).work i.environment source) r →
        Mirrors (run i) (Run.perform r {}) := by
    intro α r hWork
    rw [hRun]
    exact mirrors_of_annotates (head?_getD_standard hInput) (head?_getD_standard hOutput)
      (filterIn_of_named _ _ (by decide) hLevel) hWork
  constructor
  · intro hList
    exact hMirrors (annotates_substitute (by simpa [Options.ofParts] using hList) i.environment source)
  · intro hList
    have hListed := hMirrors
      (annotates_listKeys (by simpa [Options.ofParts] using hList) i.environment source)
    exact ⟨hListed, hListed.stderr.trans (diagnostics_listKeys policy.escapes source)⟩

/-- The last of two assignments counts, and before the environment. -/
theorem run_mirrors_stream_reassigned :
    let first : Given := .assignment ⟨['A'], ['1']⟩ ⟨by decide, by decide, by decide⟩
    let last : Given := .assignment ⟨['A'], ['2']⟩ ⟨by decide, by decide, by decide⟩
    let parts : List Part := [.given first, .given last, .switch .keepMissing]
    let i : Invocation :=
      { arguments := ["-DA=1", "--variable", "A=2", "-k"].map fun a => Utf8.encode a.toList
        environment := [("A", "0"), ("RUST_LOG", "off")].map fun entry =>
          (Utf8.encode entry.1.toList, Utf8.encode entry.2.toList)
        stdin := Utf8.encode "${A} ${B}".toList
        files := ⟨[], [], []⟩ }
    let look := bindings (assignments parts) true i.environment
    Accepted i.arguments parts ∧ inputs parts = [] ∧ outputs parts = [] ∧
      i.environment.value? (Utf8.encode levelVariable) = some (Utf8.encode "off".toList) ∧
      look ['A'] = some ['2'] ∧
      Mirrors (run i) (Run.perform (substitute .lenient look ⟨i.stdin, none⟩) {}) := by
  intro first last parts i look
  have hArguments : Accepted i.arguments parts :=
    ⟨⟨[.short [] first .direct, .long last .next, .bundle .keepMissing []], [], by decide, rfl,
      .inl rfl, by decide⟩, ⟨by decide, by decide, by decide⟩, by decide⟩
  have hLevel : i.environment.value? (Utf8.encode levelVariable) =
      some (Utf8.encode "off".toList) := by decide
  have hMirrors := (run_mirrors_stream hArguments (by decide) (by decide) hLevel).1 (by decide)
  exact ⟨hArguments, rfl, rfl, hLevel, by decide, hMirrors⟩

end Interpolation.Command
