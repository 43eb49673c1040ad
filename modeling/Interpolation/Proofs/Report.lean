import Interpolation.Proofs.Lines
import Interpolation.Proofs.Script

/-!
# The report on a stream

What a substituted stream leaves behind, said line by line and without outlets: the lines before the
first that comes to a fault give the output and the warnings, and the fault itself adds at most one
warning. `substitute_eq_report` compares a run over outlets that never fail with this report.
-/

namespace Interpolation.Stream

structure Report where
  result : Except Fault Totals
  out : Bytes
  diagnostics : Bytes

def outcome (p : Policy) (look : Lookup) (line : Bytes) : Except Fault Line.Substitution :=
  match Utf8.decode? line with
  | none => .error (.io notUtf8)
  | some line => (Line.substitute p look line).mapError .missingValue

def outputLine (s : Line.Substitution) : Bytes :=
  Utf8.encode (s.text ++ ['\n'])

/-- A missing value is warned about before the run ends; no other fault is. -/
def lastWarning : Fault → Bytes
  | .missingValue gap => warningLine gap.key
  | _ => []

def firstFault (outcomes : List (Except Fault Line.Substitution)) : Option Fault :=
  outcomes.findSome? fun outcome =>
    match outcome with
    | .error fault => some fault
    | .ok _ => none

def substituted (outcomes : List (Except Fault Line.Substitution)) : List Line.Substitution :=
  (outcomes.takeWhile Except.isOk).filterMap Except.toOption

def Report.ofOutcomes (outcomes : List (Except Fault Line.Substitution)) : Report :=
  let lines := substituted outcomes
  let missing := lines.flatMap Line.Substitution.missing
  let out := lines.flatMap outputLine
  let diagnostics := missing.flatMap warningLine
  match firstFault outcomes with
  | none => ⟨.ok ⟨lines.length, missing.length⟩, out, diagnostics⟩
  | some fault => ⟨.error fault, out, diagnostics ++ lastWarning fault⟩

/-- The report on given lines; a source that fails stops the run when its lines are through. -/
def report (p : Policy) (look : Lookup) (lines : List Bytes) (failure : Option Text) : Report :=
  Report.ofOutcomes (lines.map (outcome p look) ++ (failure.map fun reason => .error (.io reason)).toList)

theorem ofOutcomes_error (fault : Fault) (outcomes : List (Except Fault Line.Substitution)) :
    Report.ofOutcomes (.error fault :: outcomes) = ⟨.error fault, [], lastWarning fault⟩ := rfl

def Report.push (s : Line.Substitution) (r : Report) : Report where
  result := r.result.map fun totals => ⟨totals.lines + 1, totals.warnings + s.missing.length⟩
  out := outputLine s ++ r.out
  diagnostics := s.missing.flatMap warningLine ++ r.diagnostics

theorem ofOutcomes_ok (s : Line.Substitution) (outcomes : List (Except Fault Line.Substitution)) :
    Report.ofOutcomes (.ok s :: outcomes) = (Report.ofOutcomes outcomes).push s := by
  have hLines : substituted (.ok s :: outcomes) = s :: substituted outcomes := rfl
  have hFault : firstFault (.ok s :: outcomes) = firstFault outcomes := rfl
  rw [Report.ofOutcomes, Report.ofOutcomes, hLines, hFault]
  cases firstFault outcomes with
  | none => simp [Report.push, Except.map, Nat.add_comm]
  | some fault => simp [Report.push, Except.map]

theorem ofOutcomes_map_ok (lines : List Line.Substitution) :
    Report.ofOutcomes (lines.map .ok) =
      ⟨.ok ⟨lines.length, (lines.flatMap Line.Substitution.missing).length⟩,
        lines.flatMap outputLine,
        (lines.flatMap Line.Substitution.missing).flatMap warningLine⟩ := by
  induction lines with
  | nil => rfl
  | cons s lines ih =>
    rw [List.map_cons, ofOutcomes_ok, ih]
    simp [Report.push, Except.map, Nat.add_comm]

theorem ofOutcomes_stopped (lines : List Line.Substitution) (fault : Fault)
    (unread : List (Except Fault Line.Substitution)) :
    Report.ofOutcomes (lines.map .ok ++ .error fault :: unread) =
      ⟨.error fault, lines.flatMap outputLine,
        (lines.flatMap Line.Substitution.missing).flatMap warningLine ++ lastWarning fault⟩ := by
  induction lines with
  | nil => rfl
  | cons s lines ih =>
    rw [List.map_cons, List.cons_append, ofOutcomes_ok, ih]
    simp [Report.push, Except.map]

theorem encode_newline (t : Text) : Utf8.encode (t ++ ['\n']) = Utf8.encode t ++ [0x0A] :=
  Utf8.encode_append_cons (by decide) t []

theorem flatMap_map_nil {ι : Type} {f : Action → Bytes} {a : ι → Action}
    (h : ∀ i, f (a i) = []) (is : List ι) : (is.map a).flatMap f = [] := by
  rw [List.flatMap_map]
  exact List.flatMap_eq_nil_iff.mpr fun i _ => h i

theorem output_lineScript (p : Policy) (look : Lookup) (number : Nat) (line : Text) :
    (lineScript p look number line).flatMap Action.output =
      match Line.substitute p look line with
      | .error _ => []
      | .ok s => outputLine s := by
  rw [lineScript, Line.substitute]
  cases hTrace : Line.trace p look line with
  | mk result requests =>
    have hNotes := flatMap_map_nil (f := Action.output) (a := fun r : Line.Request =>
      .note (r.event p)) (fun _ => rfl) requests
    cases result with
    | error gap => simp [hNotes, Action.output]
    | ok s =>
      have hWarnings := flatMap_map_nil (f := Action.output) (a := .warn) (fun _ => rfl) s.missing
      change _ = outputLine s
      rw [outputLine, encode_newline]
      simp [hNotes, hWarnings, Action.output]

theorem diagnostics_lineScript (p : Policy) (look : Lookup) (number : Nat) (line : Text) :
    (lineScript p look number line).flatMap Action.diagnostics =
      match Line.substitute p look line with
      | .error gap => warningLine gap.key
      | .ok s => s.missing.flatMap warningLine := by
  rw [lineScript, Line.substitute]
  cases hTrace : Line.trace p look line with
  | mk result requests =>
    have hNotes := flatMap_map_nil (f := Action.diagnostics) (a := fun r : Line.Request =>
      .note (r.event p)) (fun _ => rfl) requests
    cases result with
    | error gap => simp [hNotes, Action.diagnostics]
    | ok s => simp [hNotes, List.flatMap_map, Action.diagnostics]

def lineOutcome (p : Policy) (look : Lookup) : Except Fault Text → Except Fault Line.Substitution
  | .error fault => .error fault
  | .ok line => (Line.substitute p look line).mapError .missingValue

theorem lineOutcome_of_ok {p : Policy} {look : Lookup} {line : Text} {s : Line.Substitution}
    (h : Line.substitute p look line = .ok s) : lineOutcome p look (.ok line) = .ok s := by
  rw [lineOutcome, h]
  rfl

theorem lineOutcome_of_error {p : Policy} {look : Lookup} {line : Text} {gap : Placeholder.Gap}
    (h : Line.substitute p look line = .error gap) :
    lineOutcome p look (.ok line) = .error (.missingValue gap) := by
  rw [lineOutcome, h]
  rfl

theorem map_lineOutcome {p : Policy} {look : Lookup} {lines : List Text}
    {done : List Line.Substitution} (h : lines.map (Line.substitute p look) = done.map .ok) :
    (lines.map .ok).map (lineOutcome p look) = done.map .ok := by
  have hOk : Except.mapError Fault.missingValue ∘ (Except.ok : Line.Substitution → _) = .ok := rfl
  have hMap := congrArg (List.map (Except.mapError Fault.missingValue)) h
  rw [List.map_map, List.map_map, hOk] at hMap
  rw [List.map_map]
  exact hMap

theorem report_stopped {p : Policy} {look : Lookup} {before : List Text} {line : Text}
    {done : List Line.Substitution} {gap : Placeholder.Gap}
    (hDone : before.map (Line.substitute p look) = done.map .ok)
    (hGap : Line.substitute p look line = .error gap) (after : List Text) :
    Report.ofOutcomes (((before ++ line :: after).map .ok).map (lineOutcome p look)) =
      ⟨.error (.missingValue gap), done.flatMap outputLine,
        (done.flatMap Line.Substitution.missing).flatMap warningLine ++ warningLine gap.key⟩ := by
  rw [List.map_append, List.map_append, map_lineOutcome hDone, List.map_cons, List.map_cons,
    lineOutcome_of_error hGap, ofOutcomes_stopped]
  rfl

def Totals.add (s t : Totals) : Totals :=
  ⟨s.lines + t.lines, s.warnings + t.warnings⟩

theorem script_eq_report (p : Policy) (look : Lookup) {lines : List (Except Fault Text)}
    (hLines : ∀ fault, .error fault ∈ lines → lastWarning fault = []) (totals : Totals) :
    (script p look lines totals).2 =
        (Report.ofOutcomes (lines.map (lineOutcome p look))).result.map (Totals.add totals) ∧
      (script p look lines totals).1.flatMap Action.output =
        (Report.ofOutcomes (lines.map (lineOutcome p look))).out ∧
      (script p look lines totals).1.flatMap Action.diagnostics =
        (Report.ofOutcomes (lines.map (lineOutcome p look))).diagnostics := by
  induction lines generalizing totals with
  | nil => exact ⟨rfl, rfl, rfl⟩
  | cons item lines ih =>
    cases item with
    | error fault =>
      rw [List.map_cons, lineOutcome, ofOutcomes_error, hLines fault List.mem_cons_self]
      exact ⟨rfl, rfl, rfl⟩
    | ok line =>
      have hOutput := output_lineScript p look (totals.lines + 1) line
      have hDiagnostics := diagnostics_lineScript p look (totals.lines + 1) line
      rw [script, lineResult, List.map_cons]
      cases hLine : Line.substitute p look line with
      | error gap =>
        rw [hLine] at hOutput hDiagnostics
        rw [lineOutcome_of_error hLine]
        exact ⟨rfl, hOutput, hDiagnostics⟩
      | ok s =>
        rw [hLine] at hOutput hDiagnostics
        obtain ⟨hResult, hOut, hDiag⟩ := ih
          (fun fault hFault => hLines fault (List.mem_cons_of_mem _ hFault))
          ⟨totals.lines + 1, totals.warnings + s.missing.length⟩
        rw [lineOutcome_of_ok hLine, ofOutcomes_ok]
        refine ⟨?_, ?_, ?_⟩
        · change (script p look lines _).2 = _
          rw [hResult, Report.push]
          cases (Report.ofOutcomes (lines.map (lineOutcome p look))).result with
          | error fault => rfl
          | ok rest => simp [Except.map, Totals.add]; omega
        · change (_ ++ (script p look lines _).1).flatMap Action.output = _
          rw [List.flatMap_append, hOutput, hOut, Report.push]
        · change (_ ++ (script p look lines _).1).flatMap Action.diagnostics = _
          rw [List.flatMap_append, hDiagnostics, hDiag, Report.push]

/-- The lines of a source as octets: without its last line if the source fails. -/
def Source.rows (source : Source) : List Bytes :=
  Lines.complete Lines.byteMarks source.bytes ++
    if source.failure.isSome ∨ Lines.rest Lines.byteMarks source.bytes = [] then []
    else [Lines.rest Lines.byteMarks source.bytes]

theorem lines_eq (source : Source) :
    source.lines = source.rows.map readLine ++
      (source.failure.map fun reason => .error (.io reason)).toList := by
  rw [Source.lines, Source.tail, Source.rows]
  cases source.failure with
  | some reason => simp
  | none => cases hRest : Lines.rest Lines.byteMarks source.bytes <;> simp

theorem lastWarning_of_mem_lines (source : Source) (fault : Fault)
    (h : .error fault ∈ source.lines) : lastWarning fault = [] := by
  rw [lines_eq] at h
  rcases List.mem_append.mp h with h | h
  · obtain ⟨line, -, hLine⟩ := List.mem_map.mp h
    rw [readLine] at hLine
    split at hLine
    · cases hLine
    · cases hLine
      rfl
  · obtain ⟨reason, -, hReason⟩ := Option.map_eq_some_iff.mp (Option.mem_toList.mp h)
    cases hReason
    rfl

def Source.ofText (t : Text) : Source :=
  ⟨Utf8.encode t, none⟩

theorem lines_of_no_failure (bs : Bytes) :
    (Source.mk bs none).lines = (Lines.all Lines.byteMarks bs).map readLine := by
  rw [Source.lines, Source.tail, Lines.all, List.map_append]
  congr 1
  dsimp only
  split <;> rfl

theorem lines_ofText (t : Text) :
    (Source.ofText t).lines = (Lines.all Lines.textMarks t).map .ok := by
  have hRead : readLine ∘ Utf8.encode = .ok := by
    funext s
    rw [Function.comp_apply, readLine, Utf8.decode?_encode]
  rw [Source.ofText, lines_of_no_failure, Lines.all_encode, List.map_map, hRead]

theorem perform_substitute (p : Policy) (look : Lookup) (source : Source) {o : Outlets}
    (h : o.Unfailing) :
    let told := Report.ofOutcomes (source.lines.map (lineOutcome p look))
    let run := Run.perform (substitute p look source) o
    run.1 = told.result ∧
      run.2.out.taken.toList = o.out.taken.toList ++ told.out ∧
      run.2.diagnostics.taken.toList = o.diagnostics.taken.toList ++ told.diagnostics := by
  intro told run
  obtain ⟨hResult, hOut, hDiagnostics⟩ :=
    script_eq_report p look (lastWarning_of_mem_lines source) {}
  have hRun : run = ((script p look source.lines {}).2, o.after (script p look source.lines {}).1) :=
    (follows_substituteLines p look source.lines {}).perform_of_unfailing h
  rw [hRun]
  refine ⟨?_, ?_, ?_⟩
  · rw [hResult]
    change told.result.map (Totals.add {}) = told.result
    cases told.result with
    | error fault => rfl
    | ok totals => simp [Except.map, Totals.add]
  · simp [Outlets.after, hOut, told]
  · simp [Outlets.after, hDiagnostics, told]

end Interpolation.Stream
