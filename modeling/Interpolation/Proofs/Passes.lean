import Interpolation.Proofs.Leniency

/-!
# Two passes

A lenient pass fills the placeholders that its lookup has values for and leaves the others in place;
a second pass reads the text that comes out. The values meet whatever stands beside them, so that
text stands for the template with the values as literals only if no opener forms across a seam. Then
the two passes are one, with the first lookup laid over the second.
-/

namespace Interpolation

open Placeholder

namespace Template

/-- The template whose holes are filled where there is a value. -/
def supply (look : Lookup) : Template → Template
  | .literal text => .literal text
  | .hole before key rest =>
    match look key with
    | some value => (rest.supply look).prepend (before ++ value)
    | none => .hole before key (rest.supply look)

theorem supply_prepend (look : Lookup) (s : Text) (t : Template) :
    (t.prepend s).supply look = (t.supply look).prepend s := by
  cases t with
  | literal text => rfl
  | hole before key rest =>
    rw [prepend, supply, supply]
    cases look key with
    | some value => simp only [prepend_prepend, List.append_assoc]
    | none => rfl

theorem doubled_infix_run {n : Nat} (h : n ≠ 0) (rest : Text) :
    ['$', '$'] <:+: dollars (n + 1) ++ rest := by
  obtain ⟨m, rfl⟩ := Nat.exists_eq_succ_of_ne_zero h
  exact ⟨[], dollars m ++ rest, rfl⟩

/-- No opener forms where the values are put into the line: either a dollar before a placeholder
cannot meet a brace or a dollar in the value, or no dollar stands there. -/
structure Seamless (escapes : Bool) (look : Lookup) (line : Text) : Prop where
  plain : ∀ key value, look key = some value → '$' ∉ value
  seams : (escapes = false ∧ ∀ key value, look key = some value →
    value ≠ [] ∧ value.head? ≠ some '{') ∨ ¬['$', '$'] <:+: line

variable {escapes : Bool} {look : Lookup}

theorem Seamless.of_suffix {line rest : Text} (h : Seamless escapes look line)
    (hRest : rest <:+ line) : Seamless escapes look rest :=
  ⟨h.plain, h.seams.imp_right fun hLine hInfix => hLine (hInfix.trans hRest.isInfix)⟩

/-- Dollars before a value stand for themselves. -/
theorem ofLine_dollars_append {n : Nat} {value : Text} (hValue : '$' ∉ value)
    (hSeam : n ≠ 0 → value ≠ [] ∧ value.head? ≠ some '{') (line : Text) :
    ofLine escapes (dollars n ++ (value ++ line)) =
      (ofLine escapes line).prepend (dollars n ++ value) := by
  cases n with
  | zero => exact ofLine_append_of_not_mem escapes hValue line
  | succ n =>
    obtain ⟨hNonempty, hBrace⟩ := hSeam (Nat.succ_ne_zero n)
    obtain ⟨c, others, rfl⟩ := List.exists_cons_of_ne_nil hNonempty
    have hDollar : ((c :: others) ++ line).head? ≠ some '$' := by
      intro hHead
      obtain rfl : c = '$' := Option.some.inj hHead
      exact hValue List.mem_cons_self
    rw [ofLine_run _ _ hDollar hBrace, ofLine_append_of_not_mem _ hValue, prepend_prepend]

theorem head?_render_ofLine (word : Text → Text) {line : Text} (h : line.head? ≠ some '$') :
    ((ofLine escapes line).render word).head? = line.head? := by
  cases line with
  | nil => simp [render]
  | cons c line =>
    have hc : c ≠ '$' := by simpa using h
    rw [ofLine_char _ hc, render_prepend]
    rfl

/-- The text that a first pass leaves stands for the template with the values filled in. -/
theorem ofLine_render_filler {line : Text} (h : Seamless escapes look line) :
    ofLine escapes ((ofLine escapes line).render (Line.filler look)) =
      (ofLine escapes line).supply look := by
  induction line using line_induction escapes with
  | nil => simp [render, supply]
  | char c line hc ih =>
    have hLine := ih (h.of_suffix (List.suffix_cons c line))
    rw [ofLine_char _ hc, render_prepend, supply_prepend, List.singleton_append, ofLine_char _ hc,
      hLine]
  | run n rest hDollar hBrace ih =>
    have hRest := ih (h.of_suffix (List.suffix_append _ rest))
    have hHead : ((ofLine escapes rest).render (Line.filler look)).head? = rest.head? :=
      head?_render_ofLine _ hDollar
    rw [ofLine_run _ _ hDollar hBrace, render_prepend, supply_prepend,
      ofLine_run _ _ (hHead ▸ hDollar) (hHead ▸ hBrace), hRest]
  | escaped n after hEscaped ih =>
    rcases h.seams with ⟨hNone, -⟩ | hDoubled
    · exact absurd (hNone.symm.trans hEscaped.1) (by simp)
    · exact absurd (doubled_infix_run hEscaped.2 _) hDoubled
  | closed n key behind hEscaped hKey ih =>
    have hBehind := ih (h.of_suffix (suffix_behind n key behind))
    rw [ofLine_closed _ hEscaped hKey, render, supply, Line.filler]
    cases hLook : look key with
    | none =>
      have hHole := ofLine_closed escapes hEscaped hKey
        ((ofLine escapes behind).render (Line.filler look))
      rw [hBehind] at hHole
      rw [Option.getD_none, List.append_assoc, dollars_append_spell, hHole]
    | some value =>
      have hSeam : n ≠ 0 → value ≠ [] ∧ value.head? ≠ some '{' := by
        intro hn
        rcases h.seams with ⟨-, hValues⟩ | hDoubled
        · exact hValues key value hLook
        · exact absurd (doubled_infix_run hn _) hDoubled
      rw [Option.getD_some, List.append_assoc,
        ofLine_dollars_append (h.plain key value hLook) hSeam, hBehind]
  | unclosed n after hEscaped hAfter =>
    rw [ofLine_unclosed _ hEscaped hAfter, render, supply, ofLine_unclosed _ hEscaped hAfter]

end Template

namespace Line

open Template

theorem unresolved_push (asked : Array Request) (r : Request) :
    unresolved (asked.push r).toList =
      unresolved asked.toList ++ if r.found then [] else [r.key] := by
  cases hFound : r.found <;> simp [unresolved, hFound]

/-- Filling what is left of a template from one lookup is filling all of it from both. The lookups
that are made differ by those that the first pass has made. -/
theorem fillAfter_supply (p : Policy) (upper lower : Lookup) (before : Text) (t : Template)
    (asked asked' : Array Request) (h : unresolved asked.toList = unresolved asked'.toList) :
    let second := (t.supply upper).fillAfter (resolver p lower) before asked
    let single := t.fillAfter (resolver p (Lookup.overlay upper lower)) before asked'
    second.1 = single.1 ∧ unresolved second.2.toList = unresolved single.2.toList := by
  induction t generalizing before asked asked' with
  | literal text => exact ⟨rfl, h⟩
  | hole text key rest ih =>
    cases hUpper : upper key with
    | some value =>
      have hAsked : unresolved asked.toList = unresolved (asked'.push ⟨key, true⟩).toList := by
        rw [unresolved_push, h, if_pos rfl, List.append_nil]
      have hRest := ih (before ++ (text ++ value)) _ _ hAsked
      simpa [supply, hUpper, fillAfter_prepend, fillAfter, resolver] using hRest
    | none =>
      have hAsked : ∀ r, unresolved (asked.push r).toList = unresolved (asked'.push r).toList := by
        intro r
        rw [unresolved_push, unresolved_push, h]
      cases hLower : lower key with
      | some value =>
        have hRest := ih (before ++ text ++ value) _ _ (hAsked ⟨key, true⟩)
        simpa [supply, hUpper, hLower, fillAfter, resolver] using hRest
      | none =>
        cases hStrict : p.failOnMissing with
        | true =>
          have hStopped := hAsked ⟨key, false⟩
          simpa [supply, hUpper, hLower, hStrict, fillAfter, resolver] using hStopped
        | false =>
          have hRest := ih (before ++ text ++ spell key) _ _ (hAsked ⟨key, false⟩)
          simpa [supply, hUpper, hLower, hStrict, fillAfter, resolver] using hRest

theorem substitute_of_supplied (p : Policy) (upper lower : Lookup) {line left : Text}
    (h : ofLine p.escapes left = (ofLine p.escapes line).supply upper) :
    substitute p lower left = substitute p (Lookup.overlay upper lower) line := by
  obtain ⟨hText, hMissing⟩ :=
    fillAfter_supply p upper lower [] (ofLine p.escapes line) #[] #[] rfl
  rw [substitute, substitute, trace_eq_fill, trace_eq_fill, h]
  simp only [fill, hText, hMissing]

/-- A lenient pass and a pass behind it give what one pass gives from both lookups, the first laid
over the second: the same text and missing keys, or the same gap. -/
theorem substitute_twice (p : Policy) (upper lower : Lookup) (line : Text)
    (h : (p.escapes = false ∧ ∀ key value, upper key = some value →
        value ≠ [] ∧ '$' ∉ value ∧ value.head? ≠ some '{') ∨
      (¬['$', '$'] <:+: line ∧ ∀ key value, upper key = some value → '$' ∉ value)) :
    ∃ first, substitute ⟨false, p.escapes⟩ upper line = .ok first ∧
      substitute p lower first.text = substitute p (Lookup.overlay upper lower) line := by
  have hSeamless : Seamless p.escapes upper line := by
    rcases h with ⟨hNone, hValues⟩ | ⟨hLine, hValues⟩
    · exact ⟨fun key value hKey => (hValues key value hKey).2.1,
        .inl ⟨hNone, fun key value hKey => ⟨(hValues key value hKey).1, (hValues key value hKey).2.2⟩⟩⟩
    · exact ⟨hValues, .inr hLine⟩
  refine ⟨_, substitute_lenient_render p.escapes upper line, ?_⟩
  exact substitute_of_supplied p upper lower (ofLine_render_filler hSeamless)

/-- A dollar stands before a value, and the last key has a value in neither lookup. -/
theorem substitute_twice_strict :
    let upper : Lookup := fun key => if key = ['A'] then some ['1'] else none
    let lower : Lookup := fun key => if key = ['B'] then some "${A}".toList else none
    let line := "$${A}${B}${C}".toList
    (∀ key value, upper key = some value →
        value ≠ [] ∧ '$' ∉ value ∧ value.head? ≠ some '{') ∧
      substitute ⟨true, false⟩ (Lookup.overlay upper lower) line =
        .error ⟨['C'], "$1${A}".toList⟩ ∧
      ∃ first, substitute ⟨false, false⟩ upper line = .ok first ∧
        substitute ⟨true, false⟩ lower first.text = .error ⟨['C'], "$1${A}".toList⟩ := by
  intro upper lower line
  have hValues : ∀ key value, upper key = some value →
      value ≠ [] ∧ '$' ∉ value ∧ value.head? ≠ some '{' := by
    intro key value hKey
    obtain ⟨-, rfl⟩ : key = ['A'] ∧ ['1'] = value := by simpa [upper] using hKey
    decide
  have hSingle : substitute ⟨true, false⟩ (Lookup.overlay upper lower) line =
      .error ⟨['C'], "$1${A}".toList⟩ := by decide
  obtain ⟨first, hFirst, hSecond⟩ :=
    substitute_twice ⟨true, false⟩ upper lower line (.inl ⟨rfl, hValues⟩)
  exact ⟨hValues, hSingle, first, hFirst, hSecond.trans hSingle⟩

/-- With an empty value a dollar would meet a brace, and open a key that the line does not have. -/
example :
    let upper : Lookup := fun key => if key = ['A'] then some [] else none
    let line : Text := '$' :: spell ['A'] ++ ['{', 'B', '}']
    keys false line = [['A']] ∧
      (substitute ⟨false, false⟩ upper line).toOption.map (fun s => keys false s.text) =
        some [['B']] := by
  decide

end Line

end Interpolation
