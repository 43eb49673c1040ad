import Interpolation.Proofs.Pieces

/-!
# Unclosed openers

An opener is unclosed if no closing brace follows and nothing escapes it. One more character closes it,
opens another, or leaves all as it is; and where a line is cut into pieces, an unclosed opener is the
piece that takes all the rest.
-/

namespace Interpolation.Placeholder

open Template

/-- An opener is left: no closing brace stands behind it and, where dollars escape, no further dollar
before it. A placeholder around it would have to end behind it, so it lies outside all of them. -/
def Unclosed (escapes : Bool) (line : Text) : Prop :=
  ∃ before after, line = before ++ opener ++ after ∧ '}' ∉ after ∧
    (escapes = true → before.getLast? ≠ some '$')

/-- The line ends with a dollar that opens a placeholder if a brace follows. -/
def Opening (escapes : Bool) (line : Text) : Prop :=
  ∃ before, line = before ++ ['$'] ∧ (escapes = true → before.getLast? ≠ some '$')

theorem Opening.getLast? {escapes : Bool} {line : Text} (h : Opening escapes line) :
    line.getLast? = some '$' := by
  obtain ⟨before, rfl, -⟩ := h
  exact List.getLast?_concat

theorem not_unclosed_nil (escapes : Bool) : ¬Unclosed escapes [] := by
  rintro ⟨before, after, h, -⟩
  simp [opener] at h

/-- One more character closes an opener, opens one, or leaves all as it is. -/
theorem unclosed_concat_iff {escapes : Bool} {line : Text} {c : Char} :
    Unclosed escapes (line ++ [c]) ↔
      (Unclosed escapes line ∧ c ≠ '}') ∨ (Opening escapes line ∧ c = '{') := by
  constructor
  · rintro ⟨before, after, hLine, hAfter, hBefore⟩
    rcases List.eq_nil_or_concat after with rfl | ⟨others, d, rfl⟩
    · have hSplit : line ++ [c] = (before ++ ['$']) ++ ['{'] := by simpa [opener] using hLine
      obtain ⟨rfl, hc⟩ := List.append_inj' hSplit rfl
      exact .inr ⟨⟨before, rfl, hBefore⟩, List.singleton_inj.mp hc⟩
    · rw [List.concat_eq_append] at hLine hAfter
      rw [← List.append_assoc] at hLine
      obtain ⟨rfl, hc⟩ := List.append_inj' hLine rfl
      obtain rfl := List.singleton_inj.mp hc
      obtain ⟨hOthers, hc⟩ : '}' ∉ others ∧ c ≠ '}' := by simpa [eq_comm] using hAfter
      exact .inl ⟨⟨before, others, rfl, hOthers, hBefore⟩, hc⟩
  · rintro (⟨⟨before, after, rfl, hAfter, hBefore⟩, hc⟩ | ⟨⟨before, rfl, hBefore⟩, rfl⟩)
    · exact ⟨before, after ++ [c], by simp, by simpa [eq_comm] using ⟨hAfter, hc⟩, hBefore⟩
    · exact ⟨before, [], by simp [opener], List.not_mem_nil, hBefore⟩

theorem not_unclosed_concat {escapes : Bool} {line : Text} {c : Char}
    (hClosed : ¬Unclosed escapes line) (hc : Opening escapes line → c ≠ '{') :
    ¬Unclosed escapes (line ++ [c]) := by
  rw [unclosed_concat_iff]
  rintro (⟨hOpen, -⟩ | ⟨hOpening, hBrace⟩)
  · exact hClosed hOpen
  · exact hc hOpening hBrace

section

variable {escapes : Bool} {rest : Text}

/-- An opener that begins in the front of a line must be ruled out to find one behind it. -/
theorem unclosed_of_append {front : Text} (h : Unclosed escapes (front ++ rest))
    (hFront : ∀ before more after, front = before ++ '$' :: more → more ++ rest = '{' :: after →
      '}' ∉ after → ¬(escapes = true → before.getLast? ≠ some '$')) : Unclosed escapes rest := by
  obtain ⟨before, after, hLine, hAfter, hBefore⟩ := h
  rw [List.append_assoc] at hLine
  rcases List.append_eq_append_iff.mp hLine with ⟨own, rfl, rfl⟩ | ⟨begun, rfl, hBegun⟩
  · refine ⟨own, after, by simp, hAfter, fun hEscapes hLast => hBefore hEscapes ?_⟩
    rw [List.getLast?_append, hLast, Option.some_or]
  · cases begun with
    | nil => exact ⟨[], after, hBegun.symm, hAfter, by simp⟩
    | cons c more =>
      obtain ⟨rfl, hMore⟩ := List.cons.inj hBegun
      exact absurd hBefore (hFront before more after rfl hMore.symm hAfter)

theorem eq_dollar_of_mem_dollars {n : Nat} {c : Char} (h : c ∈ dollars n) : c = '$' :=
  List.eq_of_mem_replicate h

/-- A dollar inside a text that ends otherwise has the end of the text behind it. -/
theorem exists_of_concat_eq {front before more : Text} {d : Char} (hd : d ≠ '$')
    (h : front ++ [d] = before ++ '$' :: more) :
    ∃ others, more = others ++ [d] ∧ front = before ++ '$' :: others := by
  rcases List.eq_nil_or_concat more with rfl | ⟨others, e, rfl⟩
  · exact absurd (List.singleton_inj.mp (List.append_inj' h rfl).2) hd
  · have hSplit : front ++ [d] = (before ++ '$' :: others) ++ [e] := by simpa using h
    obtain ⟨hFront, hEnd⟩ := List.append_inj' hSplit rfl
    obtain rfl := List.singleton_inj.mp hEnd
    exact ⟨others, by simp, hFront⟩

theorem unclosed_of_source_append {p : Piece} (hFits : p.Fits escapes rest)
    (hPiece : ∀ n after, p ≠ .unclosed n after) (h : Unclosed escapes (p.source ++ rest)) :
    Unclosed escapes rest := by
  refine unclosed_of_append h fun before more after hSource hMore hAfter hBefore => ?_
  cases p with
  | char c =>
    obtain ⟨-, hc, -⟩ : before = [] ∧ '$' = c ∧ more = [] := by
      simpa [Piece.source, List.singleton_eq_append_iff] using hSource
    exact hFits hc.symm
  | run n =>
    cases more with
    | nil =>
      rw [List.nil_append] at hMore
      exact hFits.2 (by rw [hMore, List.head?_cons])
    | cons d more =>
      obtain ⟨rfl, -⟩ := List.cons.inj hMore
      have hMem : '{' ∈ dollars (n + 1) := by
        change dollars (n + 1) = _ at hSource
        simp [hSource]
      exact absurd (eq_dollar_of_mem_dollars hMem) (by decide)
  | escaped n =>
    obtain ⟨others, rfl, hDollars⟩ := exists_of_concat_eq (by decide) hSource
    cases others with
    | nil =>
      rw [dollars_succ_right] at hDollars
      obtain ⟨rfl, -⟩ := List.append_inj' hDollars rfl
      exact hBefore hFits (by rw [dollars_succ_right, List.getLast?_concat])
    | cons e others =>
      obtain ⟨rfl, -⟩ := List.cons.inj hMore
      have hMem : '{' ∈ dollars (n + 2) := by simp [hDollars]
      exact absurd (eq_dollar_of_mem_dollars hMem) (by decide)
  | placeholder n key =>
    have hEnd : (dollars n ++ (opener ++ key)) ++ ['}'] = before ++ '$' :: more := by
      simpa [Piece.source, spell] using hSource
    obtain ⟨others, rfl, -⟩ := exists_of_concat_eq (by decide) hEnd
    have hMem : '}' ∈ '{' :: after := by
      rw [← hMore]
      simp
    exact hAfter (by simpa using hMem)
  | unclosed n after => exact hPiece n after rfl

theorem Unclosed.source_append {p : Piece} (hFits : p.Fits escapes rest)
    (hPiece : ∀ n after, p ≠ .unclosed n after) (h : Unclosed escapes rest) :
    Unclosed escapes (p.source ++ rest) := by
  -- A dollar at the end of a piece never stands before a further dollar.
  have hSeam : p.source.getLast? = some '$' → rest.head? ≠ some '$' := by
    cases p with
    | char c => exact fun hc => absurd (Option.some.inj hc) hFits
    | run n => exact fun _ => hFits.1
    | escaped n => simp [Piece.source]
    | placeholder n key => simp [Piece.source, spell, List.getLast?_append]
    | unclosed n after => exact absurd rfl (hPiece n after)
  obtain ⟨before, after, rfl, hAfter, hBefore⟩ := h
  refine ⟨p.source ++ before, after, by simp, hAfter, fun hEscapes hLast => ?_⟩
  rw [List.getLast?_append] at hLast
  cases hOwn : before.getLast? with
  | none =>
    obtain rfl := List.getLast?_eq_none_iff.mp hOwn
    exact hSeam (by simpa using hLast) rfl
  | some c =>
    rw [hOwn, Option.some_or] at hLast
    exact hBefore hEscapes (hOwn.trans hLast)

/-- An opener is unclosed if and only if a cut of the line into pieces ends with it. -/
theorem unclosed_iff_of_cut {line : Text} {pieces : List Piece} (h : Cut escapes line pieces) :
    Unclosed escapes line ↔ ∃ n after, .unclosed n after ∈ pieces := by
  induction h with
  | done => simp [not_unclosed_nil]
  | @piece p rest pieces hFits _ ih =>
    rcases Classical.em (∃ n after, p = .unclosed n after) with ⟨n, after, rfl⟩ | hNone
    · obtain ⟨hSingle, hAfter, rfl⟩ := hFits
      refine iff_of_true ⟨dollars n, after, by simp [Piece.source], hAfter, fun hEscapes => ?_⟩
        ⟨n, after, List.mem_cons_self⟩
      simp [hSingle hEscapes]
    · have hPiece : ∀ n after, p ≠ .unclosed n after := fun n after hEq => hNone ⟨n, after, hEq⟩
      have hOthers : (∃ n after, .unclosed n after ∈ p :: pieces) ↔
          ∃ n after, .unclosed n after ∈ pieces := by
        simp [fun n after => (hPiece n after).symm]
      rw [hOthers, ← ih]
      exact ⟨unclosed_of_source_append hFits hPiece, Unclosed.source_append hFits hPiece⟩

end

end Interpolation.Placeholder
