import Interpolation.Proofs.Reading

/-!
# The grammar of lines

The rules by which a line stands for a template, as two relations: one where dollars escape and one
where they do not. `reads_iff` says that every line has exactly one template by its rules and that
this is the one found by searching; so the scan fills the template that the grammar names.
-/

namespace Interpolation.Template

open Placeholder

universe u

/-- The reading of a line where dollars escape. A rule for a run of dollars takes the whole run: what
follows a run that stands for itself begins with neither a dollar nor a brace. -/
inductive ReadsEscaped : Text → Template → Prop
  | done : ReadsEscaped [] (.literal [])
  | char {c : Char} {line : Text} {t : Template} (hc : c ≠ '$') (h : ReadsEscaped line t) :
    ReadsEscaped (c :: line) (t.prepend [c])
  | run {n : Nat} {rest : Text} {t : Template} (hDollar : rest.head? ≠ some '$')
    (hBrace : rest.head? ≠ some '{') (h : ReadsEscaped rest t) :
    ReadsEscaped (dollars (n + 1) ++ rest) (t.prepend (dollars (n + 1)))
  | escaped {n : Nat} {after : Text} {t : Template} (h : ReadsEscaped after t) :
    ReadsEscaped (dollars (n + 2) ++ '{' :: after) (t.prepend (dollars (n + 1) ++ ['{']))
  | closed {key behind : Text} {t : Template} (hKey : '}' ∉ key) (h : ReadsEscaped behind t) :
    ReadsEscaped (opener ++ key ++ '}' :: behind) (.hole [] key t)
  | unclosed {after : Text} (hAfter : '}' ∉ after) :
    ReadsEscaped (opener ++ after) (.literal (opener ++ after))

/-- The text before an opener, if no other opener begins earlier. -/
def Leftmost (before : Text) : Prop :=
  ¬opener <:+: before ++ ['$']

inductive ReadsUnescaped : Text → Template → Prop
  | literal {line : Text} (h : ¬opener <:+: line) : ReadsUnescaped line (.literal line)
  | closed {before key behind : Text} {t : Template} (hBefore : Leftmost before) (hKey : '}' ∉ key)
    (h : ReadsUnescaped behind t) :
    ReadsUnescaped (before ++ opener ++ key ++ '}' :: behind) (.hole before key t)
  | unclosed {before after : Text} (hBefore : Leftmost before) (hAfter : '}' ∉ after) :
    ReadsUnescaped (before ++ opener ++ after) (.literal (before ++ opener ++ after))

def Reads : Bool → Text → Template → Prop
  | true => ReadsEscaped
  | false => ReadsUnescaped

theorem ReadsEscaped.eq_ofLine {line : Text} {t : Template} (h : ReadsEscaped line t) :
    t = ofLine true line := by
  induction h with
  | done => simp
  | char hc _ ih => rw [ofLine_char _ hc, ← ih]
  | run hDollar hBrace _ ih => rw [ofLine_run _ _ hDollar hBrace, ← ih]
  | @escaped n after t _ ih => rw [ofLine_escaped true (n := n + 1) (by simp), ← ih]
  | @closed key behind t hKey _ ih =>
    rw [ih]
    exact (ofLine_closed true (n := 0) (by simp) hKey behind).symm
  | unclosed hAfter =>
    simpa [dollars, opener] using (ofLine_unclosed true (n := 0) (by simp) hAfter).symm

theorem readsEscaped_ofLine (line : Text) : ReadsEscaped line (ofLine true line) := by
  induction line using line_induction true with
  | nil => simpa using ReadsEscaped.done
  | char c line hc ih =>
    rw [ofLine_char _ hc]
    exact .char hc ih
  | run n rest hDollar hBrace ih =>
    rw [ofLine_run _ _ hDollar hBrace]
    exact .run hDollar hBrace ih
  | escaped n after hEscaped ih =>
    rw [ofLine_escaped _ hEscaped]
    obtain ⟨m, rfl⟩ := Nat.exists_eq_succ_of_ne_zero hEscaped.2
    exact .escaped ih
  | closed n key behind hEscaped hKey ih =>
    obtain rfl : n = 0 := by simpa using hEscaped
    rw [ofLine_closed _ hEscaped hKey]
    simpa [dollars, opener] using ReadsEscaped.closed hKey ih
  | unclosed n after hEscaped hAfter =>
    obtain rfl : n = 0 := by simpa using hEscaped
    rw [ofLine_unclosed _ hEscaped hAfter]
    exact .unclosed hAfter

theorem leftmost_dollars (n : Nat) : Leftmost (dollars n) := by
  intro h
  have hMem : '{' ∈ dollars n ++ ['$'] := h.subset (by simp [opener])
  simp [dollars] at hMem

theorem Leftmost.of_cons {c : Char} {before : Text} (h : Leftmost (c :: before)) :
    Leftmost before :=
  fun hInfix => h (hInfix.trans (List.suffix_cons c _).isInfix)

theorem leftmost_cons {c : Char} {before after : Text} (h : Leftmost before)
    (hc : ¬opener <+: c :: (before ++ opener ++ after)) : Leftmost (c :: before) := by
  intro hInfix
  rcases List.infix_cons_iff.mp hInfix with hPrefix | hInfix
  · refine hc (hPrefix.trans ?_)
    exact ⟨'{' :: after, by simp [opener]⟩
  · exact h hInfix

theorem Leftmost.not_start {c : Char} {before : Text} (h : Leftmost (c :: before)) (after : Text) :
    ¬opener <+: c :: (before ++ opener ++ after) := by
  intro hPrefix
  have hBefore : c :: before ++ ['$'] <+: c :: (before ++ opener ++ after) :=
    ⟨'{' :: after, by simp [opener]⟩
  have hLength : opener.length ≤ (c :: before ++ ['$']).length := by simp [opener]
  exact h (List.prefix_of_prefix_length_le hPrefix hBefore hLength).isInfix

theorem not_opener_start (c : Char) {line : Text} (h : line.head? ≠ some '{') :
    ¬opener <+: c :: line := by
  rintro ⟨after, hAfter⟩
  obtain ⟨-, rfl⟩ := List.cons.inj hAfter
  exact h rfl

theorem ofLine_false_cons {c : Char} {line : Text} (h : ¬opener <+: c :: line) :
    ofLine false (c :: line) = (ofLine false line).prepend [c] := by
  rcases eq_or_ne c '$' with rfl | hc
  · obtain ⟨n, rest, rfl, hDollar⟩ := exists_run line
    rw [← List.cons_append, ← dollars_succ]
    rcases eq_or_ne rest.head? (some '{') with hBrace | hBrace
    · obtain ⟨after, rfl⟩ := List.head?_eq_some_iff.mp hBrace
      cases n with
      | zero => exact absurd (by simp [opener]) h
      | succ n =>
        rcases Decidable.em ('}' ∈ after) with hClosed | hClosed
        · obtain ⟨key, behind, rfl, hKey⟩ := List.eq_append_cons_of_mem hClosed
          rw [ofLine_closed _ (by simp) hKey, ofLine_closed _ (by simp) hKey]
          rfl
        · rw [ofLine_unclosed _ (by simp) hClosed, ofLine_unclosed _ (by simp) hClosed]
          rfl
    · rw [ofLine_run _ _ hDollar hBrace]
      cases n with
      | zero => rfl
      | succ n =>
        rw [ofLine_run _ _ hDollar hBrace, prepend_prepend]
        rfl
  · exact ofLine_char _ hc line

theorem ReadsUnescaped.cons {c : Char} {line : Text} {t : Template} (h : ReadsUnescaped line t)
    (hc : ¬opener <+: c :: line) : ReadsUnescaped (c :: line) (t.prepend [c]) := by
  cases h with
  | literal h =>
    refine .literal ?_
    rw [List.infix_cons_iff]
    exact fun hInfix => hInfix.elim hc h
  | @closed before key behind t hBefore hKey h =>
    rw [List.append_assoc (before ++ opener)] at hc
    exact .closed (leftmost_cons hBefore hc) hKey h
  | @unclosed before after hBefore hAfter =>
    exact .unclosed (leftmost_cons hBefore hc) hAfter

theorem readsUnescaped_ofLine (line : Text) : ReadsUnescaped line (ofLine false line) := by
  induction line using line_induction false with
  | nil =>
    rw [ofLine_nil]
    exact .literal (by simp [opener])
  | char c line hc ih =>
    rw [ofLine_char _ hc]
    exact ih.cons (by simp [opener, Ne.symm hc])
  | run n rest hDollar hBrace ih =>
    -- The relation has no rule for runs: each dollar of the run is a character that opens nothing.
    have hRun : ∀ m, ReadsUnescaped (dollars m ++ rest) ((ofLine false rest).prepend (dollars m)) := by
      intro m
      induction m with
      | zero => simpa using ih
      | succ m ih =>
        have hHead : (dollars m ++ rest).head? ≠ some '{' := by
          cases m with
          | zero => simpa using hBrace
          | succ m => simp [dollars_succ]
        have hSplit : (ofLine false rest).prepend (dollars (m + 1)) =
            ((ofLine false rest).prepend (dollars m)).prepend ['$'] := by
          rw [prepend_prepend]
          rfl
        rw [hSplit, dollars_succ, List.cons_append]
        exact ih.cons (not_opener_start _ hHead)
    rw [ofLine_run _ _ hDollar hBrace]
    exact hRun (n + 1)
  | escaped n after hEscaped ih => exact absurd hEscaped.1 (by simp)
  | closed n key behind hEscaped hKey ih =>
    rw [ofLine_closed _ hEscaped hKey]
    simpa [opener, dollars_succ_right] using ReadsUnescaped.closed (leftmost_dollars n) hKey ih
  | unclosed n after hEscaped hAfter =>
    rw [ofLine_unclosed _ hEscaped hAfter]
    simpa [opener, dollars_succ_right] using ReadsUnescaped.unclosed (leftmost_dollars n) hAfter

theorem ofLine_false_of_no_opener {line : Text} (h : ¬opener <:+: line) :
    ofLine false line = .literal line := by
  induction line with
  | nil => simp
  | cons c line ih =>
    have hPrefix : ¬opener <+: c :: line := fun hPrefix => h hPrefix.isInfix
    have hInfix : ¬opener <:+: line := fun hInfix => h (hInfix.trans (List.suffix_cons c _).isInfix)
    rw [ofLine_false_cons hPrefix, ih hInfix]
    rfl

theorem ofLine_false_leftmost {before : Text} (h : Leftmost before) (after : Text) :
    ofLine false (before ++ opener ++ after) = (ofLine false (opener ++ after)).prepend before := by
  induction before with
  | nil => simp
  | cons c before ih =>
    rw [List.cons_append, List.cons_append, ofLine_false_cons (h.not_start after), ih h.of_cons,
      prepend_prepend]
    rfl

theorem ReadsUnescaped.eq_ofLine {line : Text} {t : Template} (h : ReadsUnescaped line t) :
    t = ofLine false line := by
  induction h with
  | literal h => exact (ofLine_false_of_no_opener h).symm
  | @closed before key behind t hBefore hKey _ ih =>
    have hHole : ofLine false (opener ++ (key ++ '}' :: behind)) =
        .hole [] key (ofLine false behind) := ofLine_closed false (n := 0) (by simp) hKey behind
    rw [List.append_assoc (before ++ opener), ofLine_false_leftmost hBefore, hHole, ih]
    simp [prepend]
  | @unclosed before after hBefore hAfter =>
    have hLiteral : ofLine false (opener ++ after) = .literal (opener ++ after) :=
      ofLine_unclosed false (n := 0) (by simp) hAfter
    rw [ofLine_false_leftmost hBefore, hLiteral]
    simp [prepend]

/-- By the rules a line stands for one template, the one that is found by searching. -/
theorem reads_iff (escapes : Bool) (line : Text) (t : Template) :
    Reads escapes line t ↔ t = ofLine escapes line := by
  cases escapes with
  | true =>
    constructor
    · exact ReadsEscaped.eq_ofLine
    · rintro rfl
      exact readsEscaped_ofLine line
  | false =>
    constructor
    · exact ReadsUnescaped.eq_ofLine
    · rintro rfl
      exact readsUnescaped_ofLine line

/-- Every line has one template by its grammar, and a scan fills that template. -/
theorem existsUnique_reads_scan (escapes : Bool) (line : Text) :
    ∃ t, (∀ other, Reads escapes line other ↔ other = t) ∧
      ∀ {σ : Type u} (ask : Resolver σ) (w : σ), scan escapes ask line w = t.fill ask w :=
  ⟨ofLine escapes line, reads_iff escapes line, fun ask w => scan_eq_fill escapes ask line w⟩

end Interpolation.Template
