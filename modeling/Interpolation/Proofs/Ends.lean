import Interpolation.Proofs.Limits

/-!
# The ends of a run with limits

A sink that is full ends the run at the line that does not fit, and always in the same way. If the
output is full, the warnings of that line are all out; if the diagnostics are full, nothing of that
line is written. `substituteLines_ends` follows the run line by line to one of these ends or to the
end of the stream.
-/

namespace Interpolation.Stream

open Run

def written (lines : List Line.Substitution) : Bytes :=
  lines.flatMap outputLine

def warned (lines : List Line.Substitution) : Bytes :=
  (lines.flatMap Line.Substitution.missing).flatMap warningLine

/-- The warnings of one line, also of one that stops the run. -/
def lineWarnings : Except Fault Line.Substitution → Bytes
  | .ok s => s.missing.flatMap warningLine
  | .error fault => lastWarning fault

@[simp] theorem written_nil : written [] = [] := rfl

@[simp] theorem warned_nil : warned [] = [] := rfl

@[simp] theorem written_cons (s : Line.Substitution) (lines : List Line.Substitution) :
    written (s :: lines) = outputLine s ++ written lines := rfl

@[simp] theorem warned_cons (s : Line.Substitution) (lines : List Line.Substitution) :
    warned (s :: lines) = lineWarnings (.ok s) ++ warned lines := by
  simp [warned, lineWarnings]

/-- The output is full at the line `s`: its warnings are out and a part of its text is. -/
structure FullOutput (o : Outlets) (outcomes : List (Except Fault Line.Substitution))
    (run : Except Fault Totals × Outlets) (before : List Line.Substitution) (s : Line.Substitution)
    (after : List (Except Fault Line.Substitution)) : Prop where
  lines : outcomes = before.map .ok ++ .ok s :: after
  written_fits : o.out.Admits (written before)
  warned_fits : o.diagnostics.Admits (warned (before ++ [s]))
  exceeded : ¬o.out.Admits (written (before ++ [s]))
  result : run.1 = .error (.io o.out.refusal)
  out : ∃ part, part <+: outputLine s ∧ run.2.out = o.out.append (written before ++ part)
  full : o.out.limit = some run.2.out.taken.size
  diagnostics : run.2.diagnostics = o.diagnostics.append (warned (before ++ [s]))

/-- The diagnostics are full at a line: a part of its warnings is out and nothing of its text. -/
structure FullDiagnostics (o : Outlets) (outcomes : List (Except Fault Line.Substitution))
    (run : Except Fault Totals × Outlets) (before : List Line.Substitution)
    (current : Except Fault Line.Substitution)
    (after : List (Except Fault Line.Substitution)) : Prop where
  lines : outcomes = before.map .ok ++ current :: after
  written_fits : o.out.Admits (written before)
  warned_fits : o.diagnostics.Admits (warned before)
  exceeded : ¬o.diagnostics.Admits (warned before ++ lineWarnings current)
  result : run.1 = .error (.io o.diagnostics.refusal)
  out : run.2.out = o.out.append (written before)
  diagnostics : ∃ part, part <+: lineWarnings current ∧
    run.2.diagnostics = o.diagnostics.append (warned before ++ part)
  full : o.diagnostics.limit = some run.2.diagnostics.taken.size

/-- A run that ends well has flushed its output. -/
def flushed (o : Outlets) : Except Fault Totals → Except Fault Totals
  | .ok totals => o.out.flush.map fun _ => totals
  | .error fault => .error fault

structure Uncut (o : Outlets) (outcomes : List (Except Fault Line.Substitution)) (totals : Totals)
    (run : Except Fault Totals × Outlets) : Prop where
  written_fits : o.out.Admits (Report.ofOutcomes outcomes).out
  warned_fits : o.diagnostics.Admits (Report.ofOutcomes outcomes).diagnostics
  result : run.1 = flushed o ((Report.ofOutcomes outcomes).result.map (Totals.add totals))
  out : run.2.out = o.out.append (Report.ofOutcomes outcomes).out
  diagnostics : run.2.diagnostics = o.diagnostics.append (Report.ofOutcomes outcomes).diagnostics

/-- The outlets behind a line that fits. -/
def Outlets.behind (o : Outlets) (s : Line.Substitution) (journal : Array Record) : Outlets :=
  ⟨o.out.append (outputLine s), o.diagnostics.append (lineWarnings (.ok s)), journal⟩

section

variable {o : Outlets} {s : Line.Substitution} {journal : Array Record}
  {outcomes : List (Except Fault Line.Substitution)} {run : Except Fault Totals × Outlets}

theorem FullOutput.cons {before : List Line.Substitution} {t : Line.Substitution}
    {after : List (Except Fault Line.Substitution)}
    (h : FullOutput (o.behind s journal) outcomes run before t after) :
    FullOutput o (.ok s :: outcomes) run (s :: before) t after where
  lines := by rw [h.lines, List.map_cons, List.cons_append]
  written_fits := (Sink.admits_append_iff _ _ _).mp h.written_fits
  warned_fits := by
    rw [List.cons_append, warned_cons]
    exact (Sink.admits_append_iff _ _ _).mp h.warned_fits
  exceeded := fun hFits => h.exceeded ((Sink.admits_append_iff _ _ _).mpr hFits)
  result := h.result
  out := by
    obtain ⟨part, hPart, hOut⟩ := h.out
    refine ⟨part, hPart, ?_⟩
    rw [hOut, written_cons, List.append_assoc]
    exact Sink.append_append _ _ _
  full := h.full
  diagnostics := by
    rw [h.diagnostics, List.cons_append, warned_cons]
    exact Sink.append_append _ _ _

theorem FullDiagnostics.cons {before : List Line.Substitution}
    {current : Except Fault Line.Substitution} {after : List (Except Fault Line.Substitution)}
    (h : FullDiagnostics (o.behind s journal) outcomes run before current after) :
    FullDiagnostics o (.ok s :: outcomes) run (s :: before) current after where
  lines := by rw [h.lines, List.map_cons, List.cons_append]
  written_fits := (Sink.admits_append_iff _ _ _).mp h.written_fits
  warned_fits := by
    rw [warned_cons]
    exact (Sink.admits_append_iff _ _ _).mp h.warned_fits
  exceeded := by
    rw [warned_cons, List.append_assoc]
    exact fun hFits => h.exceeded ((Sink.admits_append_iff _ _ _).mpr hFits)
  result := h.result
  out := by
    rw [h.out]
    exact Sink.append_append _ _ _
  diagnostics := by
    obtain ⟨part, hPart, hDiagnostics⟩ := h.diagnostics
    refine ⟨part, hPart, ?_⟩
    rw [hDiagnostics, warned_cons, List.append_assoc]
    exact Sink.append_append _ _ _
  full := h.full

theorem Uncut.cons {totals : Totals}
    (h : Uncut (o.behind s journal) outcomes
      ⟨totals.lines + 1, totals.warnings + s.missing.length⟩ run) :
    Uncut o (.ok s :: outcomes) totals run where
  written_fits := by
    rw [ofOutcomes_ok]
    exact (Sink.admits_append_iff _ _ _).mp h.written_fits
  warned_fits := by
    rw [ofOutcomes_ok]
    exact (Sink.admits_append_iff _ _ _).mp h.warned_fits
  result := by
    rw [h.result, ofOutcomes_ok, Report.push]
    cases (Report.ofOutcomes outcomes).result with
    | error fault => rfl
    | ok rest =>
      have hTotals : Totals.add ⟨totals.lines + 1, totals.warnings + s.missing.length⟩ rest =
          Totals.add totals ⟨rest.lines + 1, rest.warnings + s.missing.length⟩ := by
        simp [Totals.add]
        omega
      simp only [Except.map, hTotals]
      rfl
  out := by
    rw [h.out, ofOutcomes_ok]
    exact Sink.append_append _ _ _
  diagnostics := by
    rw [h.diagnostics, ofOutcomes_ok]
    exact Sink.append_append _ _ _

end

/-- A line that stops warns once, and nothing of it is written. -/
theorem ends_of_error {p : Policy} {look : Lookup} {line : Text} {gap : Placeholder.Gap}
    (h : Line.substitute p look line = .error gap) (lines : List (Except Fault Text))
    (totals : Totals) {o : Outlets} (hOut : o.out.Admits []) (hDiagnostics : o.diagnostics.Admits []) :
    let outcomes := .error (.missingValue gap) :: lines.map (lineOutcome p look)
    let run := perform (substituteLines p look (.ok line :: lines) totals) o
    (∃ before current after, FullDiagnostics o outcomes run before current after) ∨
      Uncut o outcomes totals run := by
  intro outcomes run
  obtain ⟨journal, hRun⟩ := perform_substituteLines_error h lines totals o
  change run = _ at hRun
  rcases Classical.em (o.diagnostics.Admits (warningLine gap.key)) with hFits | hOver
  · rw [Sink.put_of_admits hFits] at hRun
    right
    rw [hRun]
    exact ⟨hOut, hFits, rfl, by simp [outcomes, ofOutcomes_error], rfl⟩
  · obtain ⟨part, hPart, hPut, hFull⟩ := Sink.put_of_not_admits hDiagnostics hOver
    rw [hPut] at hRun
    left
    rw [hRun]
    exact ⟨[], .error (.missingValue gap), _, rfl, hOut, hDiagnostics, hOver, rfl, by simp,
      ⟨part, hPart, rfl⟩, hFull⟩

/-- A line that is substituted either ends the run or leaves it to the next line. -/
theorem ends_of_ok {p : Policy} {look : Lookup} {line : Text} {s : Line.Substitution}
    (h : Line.substitute p look line = .ok s) (lines : List (Except Fault Text))
    (totals : Totals) {o : Outlets} (hOut : o.out.Admits []) (hDiagnostics : o.diagnostics.Admits []) :
    let outcomes := .ok s :: lines.map (lineOutcome p look)
    let run := perform (substituteLines p look (.ok line :: lines) totals) o
    (∃ before t after, FullOutput o outcomes run before t after) ∨
      (∃ before current after, FullDiagnostics o outcomes run before current after) ∨
      ∃ journal, (o.behind s journal).out.Admits [] ∧ (o.behind s journal).diagnostics.Admits [] ∧
        run = perform (substituteLines p look lines
          ⟨totals.lines + 1, totals.warnings + s.missing.length⟩) (o.behind s journal) := by
  intro outcomes run
  obtain ⟨journal, hRun⟩ := perform_substituteLines_ok h lines totals o
  change run = _ at hRun
  rcases Classical.em (o.diagnostics.Admits (s.missing.flatMap warningLine)) with hWarned | hOver
  · rw [Sink.put_of_admits hWarned] at hRun
    have hWarned' : o.diagnostics.Admits (warned [s]) := by simpa [lineWarnings] using hWarned
    rcases Classical.em (o.out.Admits (outputLine s)) with hWritten | hOver
    · rw [Sink.put_of_admits hWritten] at hRun
      refine .inr (.inr ⟨journal, ?_, ?_, hRun⟩)
      · rw [Outlets.behind, Sink.admits_append_iff, List.append_nil]
        exact hWritten
      · rw [Outlets.behind, Sink.admits_append_iff, List.append_nil]
        exact hWarned
    · obtain ⟨part, hPart, hPut, hFull⟩ := Sink.put_of_not_admits hOut hOver
      rw [hPut] at hRun
      left
      rw [hRun]
      exact ⟨[], s, _, rfl, hOut, hWarned', by simpa using hOver, rfl, ⟨part, hPart, rfl⟩, hFull,
        by simp [lineWarnings]⟩
  · obtain ⟨part, hPart, hPut, hFull⟩ := Sink.put_of_not_admits hDiagnostics hOver
    rw [hPut] at hRun
    refine .inr (.inl ?_)
    rw [hRun]
    exact ⟨[], .ok s, _, rfl, hOut, hDiagnostics, hOver, rfl, by simp, ⟨part, hPart, rfl⟩, hFull⟩

/-- A run over outlets with limits comes to one of the three ends. -/
theorem substituteLines_ends (p : Policy) (look : Lookup) {lines : List (Except Fault Text)}
    (hLines : ∀ fault, .error fault ∈ lines → lastWarning fault = []) (totals : Totals)
    {o : Outlets} (hOut : o.out.Admits []) (hDiagnostics : o.diagnostics.Admits []) :
    let outcomes := lines.map (lineOutcome p look)
    let run := perform (substituteLines p look lines totals) o
    (∃ before s after, FullOutput o outcomes run before s after) ∨
      (∃ before current after, FullDiagnostics o outcomes run before current after) ∨
      Uncut o outcomes totals run := by
  induction lines generalizing totals o with
  | nil =>
    intro outcomes run
    obtain ⟨journal, hRun⟩ := perform_substituteLines_nil p look totals o
    change run = _ at hRun
    refine .inr (.inr ?_)
    rw [hRun]
    exact ⟨hOut, hDiagnostics, rfl, by simp [outcomes, Report.ofOutcomes, firstFault, substituted],
      by simp [outcomes, Report.ofOutcomes, firstFault, substituted]⟩
  | cons item lines ih =>
    intro outcomes run
    cases item with
    | error fault =>
      have hOutcomes : Report.ofOutcomes outcomes = ⟨.error fault, [], []⟩ :=
        (ofOutcomes_error fault _).trans (by rw [hLines fault List.mem_cons_self])
      refine .inr (.inr ?_)
      constructor <;> rw [hOutcomes]
      · exact hOut
      · exact hDiagnostics
      · rfl
      · exact (Sink.append_nil _).symm
      · exact (Sink.append_nil _).symm
    | ok line =>
      have hRest : ∀ fault, .error fault ∈ lines → lastWarning fault = [] :=
        fun fault hFault => hLines fault (List.mem_cons_of_mem _ hFault)
      cases hLine : Line.substitute p look line with
      | error gap =>
        have hOutcomes : outcomes = .error (.missingValue gap) :: lines.map (lineOutcome p look) := by
          rw [← lineOutcome_of_error hLine]
          rfl
        rw [hOutcomes]
        exact .inr (ends_of_error hLine lines totals hOut hDiagnostics)
      | ok s =>
        have hOutcomes : outcomes = .ok s :: lines.map (lineOutcome p look) := by
          rw [← lineOutcome_of_ok hLine]
          rfl
        rw [hOutcomes]
        rcases ends_of_ok hLine lines totals hOut hDiagnostics with
          hFull | hFull | ⟨journal, hOut', hDiagnostics', hRun⟩
        · exact .inl hFull
        · exact .inr (.inl hFull)
        · change run = _ at hRun
          rw [hRun]
          rcases ih hRest ⟨totals.lines + 1, totals.warnings + s.missing.length⟩ hOut'
            hDiagnostics' with ⟨before, t, after, hFull⟩ | ⟨before, current, after, hFull⟩ | hUncut
          · exact .inl ⟨s :: before, t, after, hFull.cons⟩
          · exact .inr (.inl ⟨s :: before, current, after, hFull.cons⟩)
          · exact .inr (.inr hUncut.cons)

/-- The report on lines of which the first ones are substituted. -/
theorem ofOutcomes_append (before : List Line.Substitution)
    (outcomes : List (Except Fault Line.Substitution)) :
    (Report.ofOutcomes (before.map .ok ++ outcomes)).out =
        written before ++ (Report.ofOutcomes outcomes).out ∧
      (Report.ofOutcomes (before.map .ok ++ outcomes)).diagnostics =
        warned before ++ (Report.ofOutcomes outcomes).diagnostics := by
  induction before with
  | nil => exact ⟨rfl, rfl⟩
  | cons s before ih =>
    rw [List.map_cons, List.cons_append, ofOutcomes_ok, Report.push, ih.1, ih.2, written_cons,
      warned_cons, List.append_assoc, List.append_assoc]
    exact ⟨rfl, rfl⟩

theorem lineWarnings_initial (current : Except Fault Line.Substitution)
    (after : List (Except Fault Line.Substitution)) :
    lineWarnings current <+: (Report.ofOutcomes (current :: after)).diagnostics := by
  cases current with
  | error fault =>
    rw [ofOutcomes_error]
    exact List.prefix_rfl
  | ok s =>
    rw [ofOutcomes_ok]
    exact List.prefix_append _ _

/-- At each of the three ends the sinks hold the front of what the report says. -/
theorem exists_taken_of_ends {o : Outlets} {outcomes : List (Except Fault Line.Substitution)}
    {totals : Totals} {run : Except Fault Totals × Outlets}
    (h : (∃ before s after, FullOutput o outcomes run before s after) ∨
      (∃ before current after, FullDiagnostics o outcomes run before current after) ∨
      Uncut o outcomes totals run) :
    ∃ out diagnostics, run.2.out = o.out.append out ∧
      run.2.diagnostics = o.diagnostics.append diagnostics ∧
      out <+: (Report.ofOutcomes outcomes).out ∧
      diagnostics <+: (Report.ofOutcomes outcomes).diagnostics := by
  rcases h with ⟨before, s, after, h⟩ | ⟨before, current, after, h⟩ | h
  · obtain ⟨part, hPart, hOut⟩ := h.out
    obtain ⟨hWritten, hWarned⟩ := ofOutcomes_append before (.ok s :: after)
    refine ⟨_, _, hOut, h.diagnostics, ?_, ?_⟩
    · rw [h.lines, hWritten, List.prefix_append_right_inj, ofOutcomes_ok]
      exact hPart.trans (List.prefix_append _ _)
    · have hSplit : outcomes = (before ++ [s]).map .ok ++ after := by simp [h.lines]
      rw [hSplit, (ofOutcomes_append _ _).2]
      exact List.prefix_append _ _
  · obtain ⟨part, hPart, hDiagnostics⟩ := h.diagnostics
    obtain ⟨hWritten, hWarned⟩ := ofOutcomes_append before (current :: after)
    refine ⟨_, _, h.out, hDiagnostics, ?_, ?_⟩
    · rw [h.lines, hWritten]
      exact List.prefix_append _ _
    · rw [h.lines, hWarned, List.prefix_append_right_inj]
      exact hPart.trans (lineWarnings_initial current after)
  · exact ⟨_, _, h.out, h.diagnostics, List.prefix_rfl, List.prefix_rfl⟩

end Interpolation.Stream
