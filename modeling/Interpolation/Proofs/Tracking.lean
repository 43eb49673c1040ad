import Interpolation.Proofs.Openers

/-!
# What a state says of its line

After any part of a line the mode of the reader is settled by that part: it tells whether an opener is
left unclosed and how many dollars stand at the end. The mode in turn settles which buffers hold
anything. Both are kept by every step, so they hold after every run from the initial state.
-/

namespace Interpolation.Placeholder

open Template

universe u

/-- The state that a line leads to, by its mode. -/
inductive Tracks (escapes : Bool) (line : Text) : State → Prop
  | text {plain out : Array Char} (hLast : line.getLast? ≠ some '$')
    (hClosed : ¬Unclosed escapes line) : Tracks escapes line ⟨.text, plain, #[], #[], out⟩
  | dollar {out : Array Char} (hOpening : Opening escapes line)
    (hClosed : ¬Unclosed escapes line) : Tracks escapes line ⟨.dollar, #[], #['$'], #[], out⟩
  | dollars {n : Nat} {out : Array Char} (hEscapes : escapes = true)
    (hRun : ∃ before, line = before ++ ['$', '$']) (hClosed : ¬Unclosed escapes line) :
    Tracks escapes line ⟨.dollars, #[], (Template.dollars (n + 2)).toArray, #[], out⟩
  | key {key out : Array Char} (hOpen : Unclosed escapes line) (hKey : '}' ∉ key) :
    Tracks escapes line ⟨.key, #[], #[], key, out⟩

namespace Tracks

variable {escapes : Bool} {line : Text} {s : State}

theorem initial (escapes : Bool) : Tracks escapes [] {} :=
  .text (by simp) (not_unclosed_nil escapes)

theorem emit (h : Tracks escapes line s) (value : Text) : Tracks escapes line (s.emit value) := by
  cases h with
  | text hLast hClosed => exact .text hLast hClosed
  | dollar hOpening hClosed => exact .dollar hOpening hClosed
  | dollars hEscapes hRun hClosed => exact .dollars hEscapes hRun hClosed
  | key hOpen hKey => exact .key hOpen hKey

theorem mode_eq_text_iff (h : Tracks escapes line s) :
    s.mode = .text ↔ line.getLast? ≠ some '$' ∧ ¬Unclosed escapes line := by
  cases h with
  | text hLast hClosed => simp [hLast, hClosed]
  | dollar hOpening hClosed => simp [hOpening.getLast?]
  | dollars hEscapes hRun hClosed =>
    obtain ⟨before, rfl⟩ := hRun
    simp
  | key hOpen hKey => simp [hOpen]

theorem eq_of_mode_eq_text (h : Tracks escapes line s) (hMode : s.mode = .text) :
    ∃ plain out, s = ⟨.text, plain, #[], #[], out⟩ := by
  cases h with
  | text hLast hClosed => exact ⟨_, _, rfl⟩
  | dollar | dollars | key => cases hMode

theorem text_step {plain out : Array Char} (hLast : line.getLast? ≠ some '$')
    (hClosed : ¬Unclosed escapes line) (c : Char) :
    ∃ s, State.step escapes ⟨.text, plain, #[], #[], out⟩ c = .next s ∧
      Tracks escapes (line ++ [c]) s := by
  have hNoOpening : ¬Opening escapes line := fun h => hLast h.getLast?
  have hClosed' : ¬Unclosed escapes (line ++ [c]) :=
    not_unclosed_concat hClosed fun h => absurd h hNoOpening
  rcases eq_or_ne c '$' with rfl | hc
  · exact ⟨_, by rw [State.step, if_pos rfl]; rfl, .dollar ⟨line, rfl, fun _ => hLast⟩ hClosed'⟩
  · exact ⟨_, by rw [State.step, if_neg hc], .text (by simpa using hc) hClosed'⟩

theorem dollar_step {out : Array Char} (hOpening : Opening escapes line)
    (hClosed : ¬Unclosed escapes line) (c : Char) :
    ∃ s, State.step escapes ⟨.dollar, #[], #['$'], #[], out⟩ c = .next s ∧
      Tracks escapes (line ++ [c]) s := by
  rcases eq_or_ne c '$' with rfl | hc
  · have hClosed' : ¬Unclosed escapes (line ++ ['$']) := not_unclosed_concat hClosed fun _ => by decide
    obtain ⟨before, rfl, -⟩ := hOpening
    cases escapes with
    | false => exact ⟨_, rfl, .dollar ⟨before ++ ['$'], rfl, nofun⟩ hClosed'⟩
    | true => exact ⟨_, rfl, .dollars (n := 0) rfl ⟨before, by simp⟩ hClosed'⟩
  · rcases eq_or_ne c '{' with rfl | hc'
    · exact ⟨_, rfl, .key (unclosed_concat_iff.mpr (.inr ⟨hOpening, rfl⟩)) (by simp)⟩
    · exact ⟨_, by rw [State.step, if_neg hc, if_neg hc'], .text (by simpa using hc)
        (not_unclosed_concat hClosed fun _ => hc')⟩

theorem dollars_step {n : Nat} {out : Array Char} (hEscapes : escapes = true)
    (hRun : ∃ before, line = before ++ ['$', '$']) (hClosed : ¬Unclosed escapes line) (c : Char) :
    ∃ s, State.step escapes ⟨.dollars, #[], (Template.dollars (n + 2)).toArray, #[], out⟩ c = .next s ∧
      Tracks escapes (line ++ [c]) s := by
  obtain ⟨before, rfl⟩ := hRun
  -- The dollar at the end has another one before it, so it opens nothing.
  have hNoOpening : ¬Opening escapes (before ++ ['$', '$']) := by
    rintro ⟨front, hFront, hSingle⟩
    have hSplit : (before ++ ['$']) ++ ['$'] = front ++ ['$'] := by simpa using hFront
    obtain ⟨rfl, -⟩ := List.append_inj' hSplit rfl
    exact hSingle hEscapes List.getLast?_concat
  have hClosed' : ¬Unclosed escapes (before ++ ['$', '$'] ++ [c]) :=
    not_unclosed_concat hClosed fun h => absurd h hNoOpening
  rcases eq_or_ne c '$' with rfl | hc
  · have hPending : (Template.dollars (n + 2)).toArray.push '$' =
        (Template.dollars (n + 1 + 2)).toArray := by
      rw [List.push_toArray, ← dollars_succ_right]
    refine ⟨_, by rw [State.step, if_pos rfl, hPending], ?_⟩
    exact .dollars hEscapes ⟨before ++ ['$'], by simp⟩ hClosed'
  · exact ⟨_, by rw [State.step, if_neg hc], .text (by simpa using hc) hClosed'⟩

theorem key_step {key out : Array Char} (hOpen : Unclosed escapes line) (hKey : '}' ∉ key)
    (c : Char) :
    (∃ s, State.step escapes ⟨.key, #[], #[], key, out⟩ c = .next s ∧
        Tracks escapes (line ++ [c]) s) ∨
      ∃ s, State.step escapes ⟨.key, #[], #[], key, out⟩ c = .ask key.toList s ∧
        Tracks escapes (line ++ [c]) s := by
  rcases eq_or_ne c '}' with rfl | hc
  · refine .inr ⟨_, by rw [State.step, if_pos rfl], .text (by simp) ?_⟩
    rw [unclosed_concat_iff]
    simp
  · refine .inl ⟨_, by rw [State.step, if_neg hc], .key (unclosed_concat_iff.mpr (.inl ⟨hOpen, hc⟩)) ?_⟩
    simpa [eq_comm] using ⟨hKey, hc⟩

/-- A step goes on along the line, and so does whoever has the value that a step asks for. -/
theorem step (h : Tracks escapes line s) (c : Char) :
    (∃ s', s.step escapes c = .next s' ∧ Tracks escapes (line ++ [c]) s') ∨
      ∃ key s', s.step escapes c = .ask key s' ∧ Tracks escapes (line ++ [c]) s' := by
  cases h with
  | text hLast hClosed => exact .inl (text_step hLast hClosed c)
  | dollar hOpening hClosed => exact .inl (dollar_step hOpening hClosed c)
  | dollars hEscapes hRun hClosed => exact .inl (dollars_step hEscapes hRun hClosed c)
  | key hOpen hKey => exact (key_step hOpen hKey c).imp_right fun h => ⟨_, h⟩

theorem run {σ : Type u} {ask : Resolver σ} {rest : Text} {w w' : σ} {s' : State}
    (h : Tracks escapes line s) (hRun : Placeholder.run escapes ask rest s w = (.ok s', w')) :
    Tracks escapes (line ++ rest) s' := by
  induction rest generalizing line s w with
  | nil =>
    obtain ⟨hEq, -⟩ := Prod.mk.inj hRun
    rw [List.append_nil, ← Except.ok.inj hEq]
    exact h
  | cons c rest ih =>
    rw [List.append_cons]
    rcases h.step c with ⟨next, hStep, hNext⟩ | ⟨key, asked, hStep, hAsked⟩
    · simp only [Placeholder.run, hStep] at hRun
      exact ih hNext hRun
    · simp only [Placeholder.run, hStep] at hRun
      cases hAnswer : ask key w with
      | mk answer w'' =>
        rw [hAnswer] at hRun
        cases answer with
        | value value => exact ih (hAsked.emit value) hRun
        | missing reported => cases hRun

end Tracks

end Interpolation.Placeholder
