import Interpolation.Proofs.Report
import Interpolation.Proofs.Variables

/-!
# The work of a run

The work of a run is a listing or a substitution with notes around it. Notes leave the output and the
diagnostics as they are, so both are those of the listing or the substitution, and the warnings among
the records are the lines of the diagnostics.
-/

namespace Interpolation

open Interpolation.Stream

def Record.isWarning : Record → Bool
  | .warning _ => true
  | .event _ => false

def Record.line (r : Record) : Text :=
  r.text ++ ['\n']

/-- Below all levels, warnings are all that is shown. -/
theorem Record.shownBy_off : Record.shownBy (Command.Filter.level .off).shows = Record.isWarning := by
  funext r
  cases r with
  | warning key => rfl
  | event e => cases e <;> rfl

theorem encode_warnings (script : List Action) :
    Utf8.encode (((script.flatMap Action.records).filter Record.isWarning).flatMap Record.line) =
      script.flatMap Action.diagnostics := by
  induction script with
  | nil => rfl
  | cons a script ih =>
    rw [List.flatMap_cons, List.flatMap_cons, List.filter_append, List.flatMap_append,
      Utf8.encode_append, ih]
    congr 1
    cases a with
    | warn key =>
      have hWarning : [Record.warning key].filter Record.isWarning = [.warning key] := rfl
      rw [Action.records, hWarning, Action.diagnostics, warningLine, List.flatMap_singleton]
      rfl
    | write bs => rfl
    | note e => rfl
    | flush => rfl

namespace Command

/-- The work does what the run does, with notes before and after it. -/
def Annotates {α : Type} (work : Run Unit) (r : Run α) : Prop :=
  ∃ (script : List Action) (result : Except Fault α) (before after : List Event),
    Follows r script result ∧
      Follows work (before.map .note ++ script ++ after.map .note) (result.map fun _ => ())

theorem annotates_of_follows {α : Type} {r : Run α} {script : List Action}
    {result : Except Fault α} (h : Follows r script result) {notes : Run Unit} {before : List Event}
    (hNotes : Follows notes (before.map .note) (.ok ())) (event : α → Event) :
    Annotates (do notes; let a ← r; Run.note (event a)) r := by
  cases result with
  | error fault =>
    refine ⟨script, .error fault, before, [], h, ?_⟩
    rw [List.map_nil, List.append_nil]
    exact hNotes.bind h.bind_error
  | ok a =>
    refine ⟨script, .ok a, before, [event a], h, ?_⟩
    rw [List.append_assoc]
    exact hNotes.bind (h.bind (Follows.action (.note (event a))))

theorem annotates_listKeys {o : Options} (h : o.list) (env : Environment) (source : Source) :
    Annotates (o.work env source) (listKeys o.policy.escapes source) := by
  have hNotes : Follows (pure ()) (([] : List Event).map .note) (.ok ()) := Follows.pure ()
  have hWork := annotates_of_follows (follows_listLines o.policy.escapes source.lines 0) hNotes .listed
  rw [Options.work, if_pos h]
  exact hWork

theorem annotates_substitute {o : Options} (h : ¬o.list) (env : Environment) (source : Source) :
    Annotates (o.work env source)
      (substitute o.policy (bindings o.assignments o.environment env) source) := by
  have hNotes := Follows.forM_action (fun a : Assignment => .note (.assigned a)) o.assignments
  have hMap : (o.assignments.map fun a => Action.note (.assigned a)) =
      (o.assignments.map Event.assigned).map .note := by
    rw [List.map_map]
    rfl
  rw [hMap] at hNotes
  have hPolicy : (o.engine env).policy = o.policy := by
    rw [Options.engine, Engine.addAll]
    split <;> rfl
  rw [Options.work, if_neg h, Engine.substituteStream, hPolicy, get?_engine]
  exact annotates_of_follows (follows_substituteLines o.policy _ source.lines {}) hNotes .done

/-- What a run of the command leaves, in terms of the run that it does: the status tells how it ended,
its output is delivered, and the warnings are the lines of its diagnostics. -/
theorem perform_of_annotates {α : Type} {o : Options} {env : Environment} {source : Source}
    {r : Run α} (h : Annotates (o.work env source) r) :
    let run := Run.perform r {}
    (o.perform env source).1 = (if run.1.isOk then 0 else 1) ∧
      (o.perform env source).2.1 = run.2.out.taken.toList ∧
      Utf8.encode (((o.perform env source).2.2.filter Record.isWarning).flatMap Record.line) =
        run.2.diagnostics.taken.toList := by
  intro run
  obtain ⟨script, result, before, after, hRun, hWork⟩ := h
  have hUnfailing : ({} : Outlets).Unfailing := ⟨rfl, rfl, rfl⟩
  have hRan : run = (result, ({} : Outlets).after script) := hRun.perform_of_unfailing hUnfailing
  have hNoOutput := flatMap_map_nil (f := Action.output) (a := .note) fun _ => rfl
  have hNoDiagnostics := flatMap_map_nil (f := Action.diagnostics) (a := .note) fun _ => rfl
  have hOutput : (before.map Action.note ++ script ++ after.map Action.note).flatMap Action.output =
      script.flatMap Action.output := by
    simp [hNoOutput]
  have hDiagnostics : (before.map Action.note ++ script ++ after.map Action.note).flatMap Action.diagnostics =
      script.flatMap Action.diagnostics := by
    simp [hNoDiagnostics]
  have hWarnings := encode_warnings (before.map Action.note ++ script ++ after.map Action.note)
  rw [hDiagnostics] at hWarnings
  generalize before.map Action.note ++ script ++ after.map Action.note = whole
    at hWork hOutput hWarnings
  rw [Options.perform, hWork.perform_of_unfailing hUnfailing, hRan]
  cases result with
  | ok a =>
    refine ⟨rfl, ?_, ?_⟩
    · simp [Except.map, Outlets.after, hOutput]
    · simpa [Except.map, Outlets.after] using hWarnings
  | error fault =>
    refine ⟨rfl, ?_, ?_⟩
    · simp [Except.map, Outlets.after, hOutput]
    · -- The record of the fault itself is no warning.
      simpa [Except.map, Outlets.after, List.filter_append, Record.isWarning] using hWarnings

end Command

end Interpolation
