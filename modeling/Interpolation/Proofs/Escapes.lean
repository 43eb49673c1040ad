import Interpolation.Proofs.Substitution

/-!
# Lines without an escape

Dollars escape only where two of them stand before a brace. A line without these three characters in
a row stands for one template, whether dollars can escape or not; so the setting makes no difference
to the questions that are asked of it, to what it gives, or to the state that is left.
-/

namespace Interpolation

open Placeholder

universe u

namespace Template

theorem infix_of_escaped {n : Nat} (h : n ≠ 0) (after : Text) :
    ['$', '$', '{'] <:+: dollars (n + 1) ++ '{' :: after := by
  obtain ⟨m, rfl⟩ := Nat.exists_eq_succ_of_ne_zero h
  exact ⟨dollars m, after, by simp [dollars_succ_right]⟩

theorem ofLine_of_no_escape {line : Text} (h : ¬['$', '$', '{'] <:+: line) :
    ofLine true line = ofLine false line := by
  induction line using line_induction false with
  | nil => simp
  | char c line hc ih =>
    have hLine := ih fun hInfix => h (hInfix.trans (List.suffix_cons c line).isInfix)
    rw [ofLine_char _ hc, ofLine_char _ hc, hLine]
  | run n rest hDollar hBrace ih =>
    have hRest := ih fun hInfix => h (hInfix.trans (List.suffix_append _ rest).isInfix)
    rw [ofLine_run _ _ hDollar hBrace, ofLine_run _ _ hDollar hBrace, hRest]
  | escaped n after hEscaped ih => exact absurd hEscaped.1 (by simp)
  | closed n key behind hEscaped hKey ih =>
    have hBehind := ih fun hInfix => h (hInfix.trans (suffix_behind n key behind).isInfix)
    have hSingle : ¬(true = true ∧ n ≠ 0) := fun hn => h (infix_of_escaped hn.2 _)
    rw [ofLine_closed _ hSingle hKey, ofLine_closed _ hEscaped hKey, hBehind]
  | unclosed n after hEscaped hAfter =>
    have hSingle : ¬(true = true ∧ n ≠ 0) := fun hn => h (infix_of_escaped hn.2 _)
    rw [ofLine_unclosed _ hSingle hAfter, ofLine_unclosed _ hEscaped hAfter]

end Template

namespace Line

open Template

/-- A line without two dollars before a brace is read alike in both settings. -/
theorem escapes_immaterial {line : Text} (h : ¬['$', '$', '{'] <:+: line) :
    (∀ {σ : Type u} (ask : Resolver σ) (w : σ),
      calls true ask line w = calls false ask line w ∧
        scan true ask line w = scan false ask line w) ∧
    keys true line = keys false line ∧
    ∀ (failOnMissing : Bool) (look : Lookup),
      trace ⟨failOnMissing, true⟩ look line = trace ⟨failOnMissing, false⟩ look line := by
  have hLine : ofLine true line = ofLine false line := ofLine_of_no_escape h
  refine ⟨fun ask w => ⟨?_, ?_⟩, ?_, fun failOnMissing look => ?_⟩
  · rw [calls_eq_transcript, calls_eq_transcript, hLine]
  · rw [scan_eq_fill, scan_eq_fill, hLine]
  · rw [keys_eq, keys_eq, hLine]
  · rw [trace_eq_fill, trace_eq_fill]
    simp only [hLine]
    rfl

/-- Runs of dollars at both ends and between the placeholders, the second of which stops the scan. -/
theorem escapes_immaterial_runs :
    let line := dollars 3 ++ ' ' :: spell ['A'] ++ dollars 2 ++ 'x' :: spell ['B'] ++ dollars 2
    let ask : Resolver Nat := fun key n => (if n = 0 then .value key else .missing key, n + 1)
    let stopped : Except Gap Text := .error ⟨['B'], dollars 3 ++ [' ', 'A', '$', '$', 'x']⟩
    ¬['$', '$', '{'] <:+: line ∧
      scan true ask line 0 = (stopped, 2) ∧ scan false ask line 0 = (stopped, 2) := by
  intro line ask stopped
  have hLine : ¬['$', '$', '{'] <:+: line := by decide
  have hScan : scan true ask line 0 = (stopped, 2) := by decide
  obtain ⟨hAsk, -, -⟩ := escapes_immaterial hLine
  exact ⟨hLine, hScan, (hAsk ask 0).2.symm.trans hScan⟩

end Line

end Interpolation
