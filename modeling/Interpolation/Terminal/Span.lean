import Interpolation.Terminal.Screen

/-!
# Spans

A message for a terminal is a list of spans. Marked spans stand between two control sequences, which
set a style and take it back. Of spans without control characters a terminal shows just their text
(`visible_styled_append`); a sequence that is left open in a marked span ends with the span.
-/

namespace Interpolation.Terminal

inductive Span where
  | plain (t : Text)
  | marked (t : Text)

namespace Span

def text : Span → Text
  | .plain t => t
  | .marked t => t

def styled : Span → Text
  | .plain t => t
  | .marked t => "\x1b[1m".toList ++ t ++ "\x1b[0m".toList

theorem visible_set_append (rest : Text) : visible ("\x1b[1m".toList ++ rest) = visible rest := by
  have hSet : "\x1b[1m".toList = ['\x1b', '[', '1', 'm'] := rfl
  rw [hSet, ← Screen.visible_text false rest]
  rfl

theorem visible_reset_append (rest : Text) : visible ("\x1b[0m".toList ++ rest) = visible rest := by
  have hReset : "\x1b[0m".toList = ['\x1b', '[', '0', 'm'] := rfl
  rw [hReset, ← Screen.visible_text false rest]
  rfl

theorem visible_styled_append (spans : List Span) (rest : Text)
    (h : ∀ c ∈ spans.flatMap text, shown c) :
    visible (spans.flatMap styled ++ rest) = spans.flatMap text ++ visible rest := by
  induction spans with
  | nil => rfl
  | cons span spans ih =>
    rw [List.flatMap_cons] at h
    have hSpan : ∀ c ∈ span.text, shown c := fun c hc => h c (List.mem_append_left _ hc)
    have hSpans := ih fun c hc => h c (List.mem_append_right _ hc)
    rw [List.flatMap_cons, List.flatMap_cons, List.append_assoc, List.append_assoc, ← hSpans]
    cases span with
    | plain t => exact visible_append t _ hSpan
    | marked t =>
      rw [styled, List.append_assoc, List.append_assoc, visible_set_append,
        visible_append t _ hSpan, visible_reset_append, text]

end Span

end Interpolation.Terminal
