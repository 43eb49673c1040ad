import Interpolation.Proofs.Calls

/-!
# Printing a template

A template is printed by spelling its placeholders and escaping its literals, where each run of
dollars before an opening brace becomes longer by one. A literal before a placeholder must not end
with a dollar, which would join the run of the opener, and a key must not hold its closing brace.
Under these conditions the line that is printed stands for the template again.
-/

namespace Interpolation.Template

open Placeholder

universe u

/-- Lengthens by one dollar every maximal run of dollars that is directly before an opening brace. -/
def escape : Text → Text
  | [] => []
  | c :: text =>
    if c ≠ '$' then c :: escape text
    else
      let others := text.takeWhile (· = '$')
      let rest := text.dropWhile (· = '$')
      if rest.head? = some '{' then '$' :: '$' :: others ++ escape rest
      else '$' :: others ++ escape rest
termination_by text => text.length
decreasing_by
  · exact Nat.lt_succ_self _
  all_goals exact Nat.lt_succ_of_le (List.length_dropWhile_le _ text)

def write : Template → Text
  | .literal text => escape text
  | .hole before key rest => escape before ++ spell key ++ rest.write

@[simp] theorem escape_nil : escape [] = [] := by rw [escape]

theorem escape_char {c : Char} (hc : c ≠ '$') (text : Text) :
    escape (c :: text) = c :: escape text := by
  rw [escape, if_pos hc]

theorem escape_run (n : Nat) {rest : Text} (hDollar : rest.head? ≠ some '$')
    (hBrace : rest.head? ≠ some '{') :
    escape (dollars (n + 1) ++ rest) = dollars (n + 1) ++ escape rest := by
  change escape ('$' :: (dollars n ++ rest)) = _
  rw [escape, takeWhile_dollars n hDollar, dropWhile_dollars n hDollar, if_neg (by simp),
    if_neg hBrace]
  rfl

theorem escape_brace (n : Nat) (after : Text) :
    escape (dollars (n + 1) ++ '{' :: after) = dollars (n + 2) ++ '{' :: escape after := by
  change escape ('$' :: (dollars n ++ '{' :: after)) = _
  rw [escape, takeWhile_dollars _ (by simp), dropWhile_dollars _ (by simp), if_neg (by simp)]
  simp only [List.head?_cons, if_true]
  rw [escape_char (by decide)]
  rfl

theorem head?_escape (text : Text) : (escape text).head? = text.head? := by
  cases text with
  | nil => simp
  | cons c text =>
    rw [escape]
    split
    · rfl
    · rename_i hc
      obtain rfl : c = '$' := by simpa using hc
      dsimp only
      split
      · rfl
      · rfl

/-- Every text falls into single characters and maximal runs of dollars. -/
@[elab_as_elim]
theorem run_induction {motive : Text → Prop} (nil : motive [])
    (char : ∀ (c : Char) (text : Text), c ≠ '$' → motive text → motive (c :: text))
    (run : ∀ (n : Nat) (rest : Text), rest.head? ≠ some '$' → rest.head? ≠ some '{' → motive rest →
      motive (dollars (n + 1) ++ rest))
    (brace : ∀ (n : Nat) (after : Text), motive after → motive (dollars (n + 1) ++ '{' :: after))
    (text : Text) : motive text := by
  induction hLength : text.length using Nat.strongRecOn generalizing text with
  | ind length ih =>
    cases text with
    | nil => exact nil
    | cons c text =>
      rcases eq_or_ne c '$' with rfl | hc
      · obtain ⟨n, rest, rfl, hDollar⟩ := exists_run text
        rw [← List.cons_append, ← dollars_succ]
        rcases eq_or_ne rest.head? (some '{') with hBrace | hBrace
        · obtain ⟨after, rfl⟩ := List.head?_eq_some_iff.mp hBrace
          exact brace n after (ih after.length (by grind) after rfl)
        · exact run n rest hDollar hBrace (ih rest.length (by grind) rest rfl)
      · exact char c text hc (ih text.length (by grind) text rfl)

/-- An escaped text is read as itself, unless its last run of dollars goes on behind it. -/
theorem ofLine_escape_append {text line : Text} (h : line ≠ [] → text.getLast? ≠ some '$') :
    ofLine true (escape text ++ line) = (ofLine true line).prepend text := by
  induction text using run_induction with
  | nil => simp
  | char c text hc ih =>
    have hText : line ≠ [] → text.getLast? ≠ some '$' := by
      intro hLine hLast
      exact h hLine (by rw [List.getLast?_cons, hLast, Option.getD_some])
    rw [escape_char hc, List.cons_append, ofLine_char _ hc, ih hText, prepend_prepend]
    rfl
  | run n rest hDollar hBrace ih =>
    have hRest : line ≠ [] → rest.getLast? ≠ some '$' := by
      intro hLine hLast
      exact h hLine (by rw [List.getLast?_append, hLast, Option.some_or])
    -- A run at the end of the text has nothing behind it.
    have hHead : (escape rest ++ line).head? = rest.head? := by
      cases rest with
      | nil =>
        have hEmpty : line = [] := by
          by_contra hLine
          exact h hLine (by simp [dollars_succ_right])
        rw [hEmpty]
        simp
      | cons c rest =>
        rw [List.head?_append, head?_escape]
        rfl
    rw [escape_run n hDollar hBrace, List.append_assoc, ofLine_run _ _ (hHead ▸ hDollar)
      (hHead ▸ hBrace), ih hRest, prepend_prepend]
  | brace n after ih =>
    have hAfter : line ≠ [] → after.getLast? ≠ some '$' := by
      intro hLine hLast
      exact h hLine (by rw [List.getLast?_append, List.getLast?_cons, hLast]; rfl)
    have hEscaped : true = true ∧ n + 1 ≠ 0 := ⟨rfl, Nat.succ_ne_zero n⟩
    rw [escape_brace, List.append_assoc, List.cons_append, ofLine_escaped true hEscaped, ih hAfter,
      prepend_prepend]
    simp

theorem ofLine_escape (text : Text) : ofLine true (escape text) = .literal text := by
  have hEnd := @ofLine_escape_append text [] (fun hLine => absurd rfl hLine)
  rw [List.append_nil] at hEnd
  rw [hEnd, ofLine_nil]
  simp [prepend]

/-- A printed line stands for its template. -/
theorem ofLine_write {t : Template} (hKeys : ∀ key ∈ t.keys, '}' ∉ key)
    (hLiterals : ∀ text ∈ t.literals.dropLast, text.getLast? ≠ some '$') :
    ofLine true t.write = t := by
  induction t with
  | literal text => exact ofLine_escape text
  | hole before key rest ih =>
    have hInner : (before :: rest.literals).dropLast = before :: rest.literals.dropLast :=
      List.dropLast_cons_of_ne_nil (List.ne_nil_of_length_pos (by simp [length_literals]))
    rw [literals, hInner] at hLiterals
    have hBefore : before.getLast? ≠ some '$' := hLiterals before List.mem_cons_self
    have hRest : ofLine true rest.write = rest :=
      ih (fun key hKey => hKeys key (List.mem_cons_of_mem _ hKey))
        (fun text hText => hLiterals text (List.mem_cons_of_mem _ hText))
    have hHole : ofLine true (spell key ++ rest.write) = .hole [] key (ofLine true rest.write) := by
      rw [spell, List.append_assoc, List.append_assoc]
      exact ofLine_closed true (n := 0) (by simp) (hKeys key List.mem_cons_self) rest.write
    rw [write, List.append_assoc, ofLine_escape_append (fun _ => hBefore), hHole, hRest]
    simp [prepend]

/-- Printing a template and scanning the line gives its keys and its literals back, with the answers
between them; any text at all can be printed, and is then scanned without a question. -/
theorem scan_write :
    (∀ t : Template, (∀ key ∈ t.keys, '}' ∉ key) →
      (∀ text ∈ t.literals.dropLast, text.getLast? ≠ some '$') →
        Placeholder.keys true t.write = t.keys ∧
        ∀ {σ : Type u} (ask : Resolver σ) (w : σ),
          (∀ call ∈ calls true ask t.write w, call.answer.text?.isSome) →
            (calls true ask t.write w).map Call.key = t.keys ∧
            (scan true ask t.write w).1 =
              .ok (weave t.literals (values (calls true ask t.write w)))) ∧
    ∀ text : Text, Placeholder.keys true (escape text) = [] ∧
      ∀ {σ : Type u} (ask : Resolver σ) (w : σ),
        calls true ask (escape text) w = [] ∧ scan true ask (escape text) w = (.ok text, w) := by
  constructor
  · intro t hKeys hLiterals
    have hRead := ofLine_write hKeys hLiterals
    constructor
    · rw [keys_eq, hRead]
    · intro σ ask w hAnswered
      rw [calls_eq_transcript, hRead] at hAnswered ⊢
      rw [scan_eq_fill, hRead]
      exact fillAfter_eq_weave ask [] t w hAnswered
  · intro text
    constructor
    · rw [keys_eq, ofLine_escape]
      rfl
    · intro σ ask w
      rw [calls_eq_transcript, scan_eq_fill, ofLine_escape]
      exact ⟨rfl, rfl⟩

/-- Dollars at the end of the last literal and before a brace inside the first one. -/
theorem scan_write_dollars :
    let t : Template := .hole ['a', '$', '$', '{'] ['A'] (.literal ['b', '$'])
    let ask : Resolver Unit := fun key w => (.value key, w)
    t.write = ['a', '$', '$', '$', '{'] ++ spell ['A'] ++ ['b', '$'] ∧
      Placeholder.keys true t.write = [['A']] ∧
      (scan true ask t.write ()).1 = .ok ['a', '$', '$', '{', 'A', 'b', '$'] := by
  intro t ask
  have hWrite : t.write = ['a', '$', '$', '$', '{'] ++ spell ['A'] ++ ['b', '$'] := by
    simp [t, write, escape]
  obtain ⟨hKeys, hScan⟩ := scan_write.1 t (by decide) (by decide)
  refine ⟨hWrite, hKeys, ?_⟩
  have hAnswered : ∀ call ∈ calls true ask t.write (), call.answer.text?.isSome := by
    rw [hWrite]
    decide
  obtain ⟨-, hText⟩ := hScan ask () hAnswered
  rw [hText, hWrite]
  decide

end Interpolation.Template
