import Interpolation.Command.Choice
import Interpolation.Fault
import Interpolation.Terminal.Span

/-!
# Misuses of the command line

The ways in which a list of arguments can be wrong, with the message for each. Arguments and the
names of choices are marked in a message; the reason for which a value was refused is not. What is
reported is the first line of what a terminal would show, so no argument can steer the terminal of
the reader. `report_eq_message` says that a message on one line without control characters is
reported as it is.
-/

namespace Interpolation.Command

open Terminal (Span)

inductive Misuse where
  | unknownArgument (argument : Text)
  | valueMissing (s : Setting)
  | valueRefused (s : Setting) (value : Text) (fault : Fault)
  | valueUnexpected (choice : Choice) (value : Text)
  | repeated (choice : Choice)
  | conflict (first second : Switch)
  | notUtf8

def Choice.span (choice : Choice) : Span :=
  .marked choice.describe

namespace Misuse

def spans : Misuse → List Span
  | .unknownArgument argument =>
    [.plain "error: unexpected argument '".toList, .marked argument, .plain "' found".toList]
  | .valueMissing s =>
    [.plain "error: a value is required for '".toList, (Choice.setting s).span,
      .plain "' but none was supplied".toList]
  | .valueRefused s value fault =>
    [.plain "error: invalid value '".toList, .marked value, .plain "' for '".toList,
      (Choice.setting s).span, .plain ("': ".toList ++ fault.message)]
  | .valueUnexpected choice value =>
    [.plain "error: unexpected value '".toList, .marked value, .plain "' for '".toList,
      choice.span, .plain "' found; no more were expected".toList]
  | .repeated choice =>
    [.plain "error: the argument '".toList, choice.span,
      .plain "' cannot be used multiple times".toList]
  | .conflict first second =>
    [.plain "error: the argument '".toList, (Choice.switch first).span,
      .plain "' cannot be used with '".toList, (Choice.switch second).span, .plain "'".toList]
  | .notUtf8 => [.plain "error: invalid UTF-8 was detected in one or more arguments".toList]

def message (m : Misuse) : Text :=
  m.spans.flatMap Span.text

def hint : List Span :=
  [.plain "\n\nFor more information, try '".toList, Choice.help.span, .plain "'.\n".toList]

/-- The hint counts: a string that the message leaves open swallows the line breaks before it. -/
def report (m : Misuse) : Text :=
  let shown := Terminal.visible ((m.spans ++ hint).flatMap Span.styled)
  shown.takeWhile (· ≠ '\n')

theorem report_eq_message (m : Misuse) (h : ∀ c ∈ m.message, Terminal.shown c ∧ c ≠ '\n') :
    m.report = m.message := by
  have hLine : ∀ c ∈ m.message, decide (c ≠ '\n') = true := fun c hc => by simpa using (h c hc).2
  obtain ⟨rest, hRest⟩ : ∃ rest, hint.flatMap Span.styled = ['\n'] ++ rest := ⟨_, rfl⟩
  have hHint : Terminal.visible (['\n'] ++ rest) = '\n' :: Terminal.visible rest :=
    Terminal.visible_append ['\n'] rest (by simp [Terminal.shown, Terminal.blank])
  rw [report, List.flatMap_append, Span.visible_styled_append _ _ fun c hc => (h c hc).1, hRest,
    hHint]
  change (m.message ++ '\n' :: Terminal.visible rest).takeWhile (· ≠ '\n') = m.message
  rw [List.takeWhile_append_of_pos hLine, List.takeWhile_cons_of_neg (by simp), List.append_nil]

end Misuse

end Interpolation.Command
