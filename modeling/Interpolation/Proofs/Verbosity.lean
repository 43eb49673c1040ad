import Interpolation.Proofs.Effects
import Interpolation.Proofs.Omissions

/-!
# What the filter of a run decides

The filter decides which events are shown, and nothing else. So two runs that differ in their filter
alone leave the same files, output and status, and show the same warnings. If a level is the filter of
both, the lower one shows a part of the records that the higher one shows, in the same order.
-/

namespace Interpolation.Command

/-- What is left of an outcome when a filter is put on its events. -/
def Outcome.within (o : Outcome) (filter : Filter) : Outcome :=
  { o with records := o.records.filter (Record.shownBy filter.shows) }

theorem warnings_within (o : Outcome) (filter : Filter) :
    (o.within filter).records.filter Record.isWarning = o.records.filter Record.isWarning := by
  rw [Outcome.within, List.filter_filter]
  congr 1
  funext r
  cases r with
  | warning key => rfl
  | event e => rfl

theorem shownBy_of_rank_le {low high : Level} (h : low.rank ≤ high.rank) (r : Record)
    (hShown : r.shownBy (Filter.level low).shows = true) :
    r.shownBy (Filter.level high).shows = true := by
  cases r with
  | warning key => rfl
  | event e => exact decide_eq_true (Nat.le_trans (of_decide_eq_true hShown) h)

theorem records_within_sublist (o : Outcome) {low high : Level} (h : low.rank ≤ high.rank) :
    (o.within (.level low)).records.Sublist (o.within (.level high)).records :=
  List.monotone_filter_right o.records (shownBy_of_rank_le h)

/-- The level is not given, or given by name. -/
def LevelOrUnset (env : Environment) : Prop :=
  env.value? (Utf8.encode levelVariable) = none ∨
    ∃ word level, levelNamed? word = some level ∧
      env.value? (Utf8.encode levelVariable) = some (Utf8.encode word)

theorem exists_level_of_unset {env : Environment} (h : LevelOrUnset env) (o : Options)
    (directives : Directives) : ∃ level, o.filterIn directives env = .level level := by
  obtain hUnset | ⟨word, level, hNamed, hWord⟩ := h
  · exact ⟨o.level, by simp [Options.filterIn, hUnset]⟩
  · exact ⟨level, filterIn_of_named o directives hNamed hWord⟩

/-- A filter that the environment gives does not depend on the options; else their level counts. -/
theorem filterIn_eq_or_level (o o' : Options) (directives : Directives) (env : Environment) :
    o.filterIn directives env = o'.filterIn directives env ∨
      o.filterIn directives env = .level o.level ∧ o'.filterIn directives env = .level o'.level := by
  simp only [Options.filterIn]
  cases ((env.value? (Utf8.encode levelVariable)).bind Utf8.decode?).bind (Filter.read? directives) with
  | none => exact .inr ⟨rfl, rfl⟩
  | some filter => exact .inl rfl

theorem perform_congr {o : Options} {env env' : Environment} (h : o.environment → env = env')
    (source : Stream.Source) : o.perform env source = o.perform env' source := by
  cases hEnvironment : o.environment with
  | true => rw [h hEnvironment]
  | false =>
    have hEngine : o.engine env = o.engine env' := by simp [Options.engine, hEnvironment]
    rw [Options.perform, Options.perform, Options.work, Options.work, hEngine]

/-- What a run leaves is the same at every level, but for the records that are shown of it. -/
theorem exists_outcome_within (o : Options) (i : Invocation) :
    ∃ outcome : Outcome, outcome.complaint = [] ∧
      ∀ (level : Level) (i' : Invocation), i.stdin = i'.stdin → i.files = i'.files →
        (o.environment → i.environment = i'.environment) →
          runWith { o with level } i' =
            outcome.within (Options.filterIn { o with level } i'.directives i'.environment) := by
  cases hInput : openInput i.files o.input with
  | error e =>
    refine ⟨⟨1, [], [], [.event (.inputRefused o.input e.message)], i.files⟩, rfl, ?_⟩
    intro level i' hStdin hFiles hEnvironment
    rw [hFiles] at hInput ⊢
    exact runWith_of_input_refused (o := { o with level }) hInput
  | ok input =>
    cases hOutput : openOutput i.files o.output with
    | error e =>
      refine ⟨⟨1, [], [], [.event (.outputRefused o.output e.message)], i.files⟩, rfl, ?_⟩
      intro level i' hStdin hFiles hEnvironment
      rw [hFiles] at hInput hOutput ⊢
      exact runWith_of_output_refused (o := { o with level }) hInput hOutput
    | ok output =>
      let opened := output.deliver i.files []
      let performed := o.perform i.environment (input.source opened i.stdin)
      refine ⟨⟨performed.1, output.shown performed.2.1, [], performed.2.2,
        output.deliver opened performed.2.1⟩, rfl, ?_⟩
      intro level i' hStdin hFiles hEnvironment
      have hPerformed : performed =
          Options.perform { o with level } i'.environment
            (input.source (output.deliver i'.files []) i'.stdin) := by
        rw [← hStdin, ← hFiles]
        exact perform_congr hEnvironment _
      rw [hFiles] at hInput hOutput
      rw [runWith_of_opened (o := { o with level }) hInput hOutput, ← hPerformed, ← hFiles]
      rfl

/-- Runs whose arguments differ in the switches about the level only: what they leave is the same but
for the records shown. Records of two levels are part of each other; and a level is what both runs go
by, unless the environment has the same directives for both. -/
theorem run_verbosity {i i' : Invocation} {o o' : Options}
    (hParsed : Options.parse i.arguments = .ok o) (hParsed' : Options.parse i'.arguments = .ok o')
    (hArguments : withoutVerbosity i.arguments = withoutVerbosity i'.arguments)
    (hStdin : i.stdin = i'.stdin) (hFiles : i.files = i'.files)
    (hDirectives : i.directives = i'.directives)
    (hEnvironment : o.environment → i.environment = i'.environment) :
    let filter := o.filterIn i.directives i.environment
    let filter' := o'.filterIn i'.directives i'.environment
    (run i).status = (run i').status ∧ (run i).stdout = (run i').stdout ∧
      (run i).files = (run i').files ∧ (run i).complaint = [] ∧ (run i').complaint = [] ∧
      (run i).records.filter Record.isWarning = (run i').records.filter Record.isWarning ∧
      (∀ low high, filter = .level low → filter' = .level high → low.rank ≤ high.rank →
        (run i).records.Sublist (run i').records) ∧
      (filter = filter' → (run i).records = (run i').records) ∧
      (i.environment = i'.environment ∨ LevelOrUnset i.environment ∧ LevelOrUnset i'.environment →
        filter = filter' ∨ ∃ low high, filter = .level low ∧ filter' = .level high) := by
  intro filter filter'
  have hOptions : o' = { o with level := o'.level } := by
    have hLeft := parse_withoutVerbosity hParsed
    rw [hArguments, parse_withoutVerbosity hParsed'] at hLeft
    exact congrArg (fun left : Options => { left with level := o'.level }) (Except.ok.inj hLeft)
  obtain ⟨outcome, hComplaint, hWithin⟩ := exists_outcome_within o i
  have hRun := hWithin o.level i rfl rfl fun _ => rfl
  have hRun' := hWithin o'.level i' hStdin hFiles hEnvironment
  rw [← hOptions] at hRun'
  rw [run_of_parsed hParsed, run_of_parsed hParsed', hRun, hRun', warnings_within, warnings_within]
  refine ⟨rfl, rfl, rfl, hComplaint, hComplaint, rfl, ?_, ?_, ?_⟩
  · intro low high hLow hHigh hRank
    change (outcome.within filter).records.Sublist (outcome.within filter').records
    rw [hLow, hHigh]
    exact records_within_sublist outcome hRank
  · intro hSame
    change (outcome.within filter).records = (outcome.within filter').records
    rw [hSame]
  · rintro (hSame | ⟨hLevel, hLevel'⟩)
    · have hFilter' : filter' = o'.filterIn i.directives i.environment := by
        rw [hSame, hDirectives]
      rw [hFilter']
      exact (filterIn_eq_or_level o o' i.directives i.environment).imp_right
        fun hLevels => ⟨o.level, o'.level, hLevels⟩
    · obtain ⟨low, hLow⟩ := exists_level_of_unset hLevel o i.directives
      obtain ⟨high, hHigh⟩ := exists_level_of_unset hLevel' o' i'.directives
      exact .inr ⟨low, high, hLow, hHigh⟩

/-- A quiet run and a verbose one, where the environment has directives that are refused. -/
theorem run_verbosity_refused :
    let i : Invocation :=
      { arguments := ["-kq"].map fun a => Utf8.encode a.toList
        environment := [(Utf8.encode levelVariable, Utf8.encode "substvar=verbose".toList)]
        stdin := Utf8.encode "${A}".toList
        files := ⟨[], [], []⟩ }
    let i' : Invocation := { i with arguments := ["-v", "-k"].map fun a => Utf8.encode a.toList }
    let o : Options := { policy := .lenient, level := .error }
    let o' : Options := { o with level := .trace }
    Options.parse i.arguments = .ok o ∧ Options.parse i'.arguments = .ok o' ∧
      withoutVerbosity i.arguments = withoutVerbosity i'.arguments ∧
      o.filterIn i.directives i.environment = .level .error ∧
      o'.filterIn i'.directives i'.environment = .level .trace ∧
      (run i).status = (run i').status ∧ (run i).records.Sublist (run i').records ∧
      (run i).records.length = 1 ∧ (run i').records.length = 4 := by
  intro i i' o o'
  have hParsed : Options.parse i.arguments = .ok o := rfl
  have hParsed' : Options.parse i'.arguments = .ok o' := rfl
  have hArguments : withoutVerbosity i.arguments = withoutVerbosity i'.arguments := by decide
  have hFilter : o.filterIn i.directives i.environment = .level .error := rfl
  have hFilter' : o'.filterIn i'.directives i'.environment = .level .trace := rfl
  obtain ⟨hStatus, -, -, -, -, -, hRecords, -, -⟩ :=
    run_verbosity hParsed hParsed' hArguments rfl rfl rfl fun _ => rfl
  exact ⟨hParsed, hParsed', hArguments, hFilter, hFilter', hStatus,
    hRecords _ _ hFilter hFilter' (by decide), by decide +kernel, by decide +kernel⟩

end Interpolation.Command
