import Interpolation.Terminal.State

/-!
# What a terminal shows

The visible part of a text is what is left without its control sequences and control characters.
Tabs and line breaks stay, and so does all beyond ASCII. Text that holds nothing else stays as it is
(`visible_eq_self`), whatever comes behind it (`visible_append`).
-/

namespace Interpolation.Terminal

def blank (c : Char) : Bool :=
  c = '\t' || c = '\n' || c = '\x0c' || c = '\r'

/-- The characters that text is made of. -/
def shown (c : Char) : Bool :=
  blank c || (' ' ≤ c && c ≠ '\x7f')

/-- Blanks have their effect also in the middle of a sequence, but not in a string. -/
def State.shows : State → Char → Bool
  | .text => shown
  | .escape | .intermediate | .sequence => blank
  | _ => fun _ => false

/-- A terminal with what it has just done: once it has shown a character it goes on showing text up
to the next control character, and a sequence that a blank has interrupted waits so long. -/
structure Screen where
  state : State := .text
  showing : Bool := false

/-- A character beyond ASCII ends the sequence that waits. -/
def Screen.visible : Screen → Text → Text
  | _, [] => []
  | screen, c :: rest =>
    if screen.showing && shown c then
      c :: visible ⟨if c ≤ '\x7f' then screen.state else .text, true⟩ rest
    else if screen.state.shows c then c :: visible ⟨screen.state, true⟩ rest
    else visible ⟨screen.state.next c, false⟩ rest

def visible (t : Text) : Text :=
  Screen.visible {} t

/-- In text it does not matter what came last. -/
theorem Screen.visible_text (showing : Bool) (t : Text) :
    Screen.visible ⟨.text, showing⟩ t = Terminal.visible t := by
  cases t with
  | nil => rfl
  | cons c rest =>
    by_cases h : shown c
    · simp [Terminal.visible, Screen.visible, State.shows, h]
    · simp [Terminal.visible, Screen.visible, State.shows, h]

theorem visible_append (t rest : Text) (h : ∀ c ∈ t, shown c) :
    visible (t ++ rest) = t ++ visible rest := by
  induction t with
  | nil => rfl
  | cons c t ih =>
    have hc : shown c := h c (by simp)
    have hStep : visible (c :: (t ++ rest)) = c :: Screen.visible ⟨.text, true⟩ (t ++ rest) := by
      simp [visible, Screen.visible, State.shows, hc]
    rw [List.cons_append, hStep, Screen.visible_text, ih fun d hd => h d (by simp [hd]),
      List.cons_append]

theorem visible_eq_self (t : Text) (h : ∀ c ∈ t, shown c) : visible t = t := by
  simpa [visible, Screen.visible] using visible_append t [] h

end Interpolation.Terminal
