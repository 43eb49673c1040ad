import Interpolation.Proofs.Substitution

/-!
# Strict and lenient substitution

The two policies make the same scan. A lenient one goes through the whole line and reports the keys
without a value; a strict one stops at the first of them, and what it has written by then stands at
the front of the lenient text, before the placeholder that was left in place.
-/

namespace Interpolation.Line

open Placeholder Template

/-- What is woven up to one value, with that value behind it, opens what is woven from all values. -/
theorem weave_append_initial {literals earlier later : List Text} {value : Text}
    (h : literals.length = (earlier ++ value :: later).length + 1) :
    weave literals earlier ++ value <+: weave literals (earlier ++ value :: later) := by
  induction earlier generalizing literals with
  | nil =>
    cases literals with
    | nil => simp at h
    | cons first others => exact ⟨weave others later, by simp [weave]⟩
  | cons other earlier ih =>
    cases literals with
    | nil => simp at h
    | cons first others =>
      have hOthers : others.length = (earlier ++ value :: later).length + 1 := by simpa using h
      obtain ⟨rest, hRest⟩ := ih hOthers
      exact ⟨rest, by simp [weave, ← hRest]⟩

theorem substitute_lenient (escapes : Bool) (look : Lookup) (line : Text) :
    substitute ⟨false, escapes⟩ look line =
      .ok ⟨weave (ofLine escapes line).literals ((keys escapes line).map (filler look)),
        (keys escapes line).filter fun key => (look key).isNone⟩ :=
  substitute_answered ⟨false, escapes⟩ look line fun _ _ hStrict => nomatch hStrict

theorem substitute_lenient_render (escapes : Bool) (look : Lookup) (line : Text) :
    substitute ⟨false, escapes⟩ look line =
      .ok ⟨(ofLine escapes line).render (filler look),
        (keys escapes line).filter fun key => (look key).isNone⟩ := by
  rw [substitute_lenient, keys_eq, weave_literals]

/-- With a value for every key the policy makes no difference. -/
theorem substitute_strict_eq_lenient {escapes : Bool} {look : Lookup} {line : Text}
    (h : (keys escapes line).filter (fun key => (look key).isNone) = []) :
    substitute ⟨true, escapes⟩ look line = substitute ⟨false, escapes⟩ look line := by
  have hSome := (filter_isNone_eq_nil_iff look (keys escapes line)).mp h
  rw [substitute_lenient]
  exact substitute_answered ⟨true, escapes⟩ look line fun key hKey _ => hSome key hKey

/-- A strict substitution stops in front of the first placeholder that a lenient one leaves. -/
theorem substitute_strict_of_missing {escapes : Bool} {look : Lookup} {line key : Text}
    {others : List Text}
    (h : (keys escapes line).filter (fun key => (look key).isNone) = key :: others) :
    ∃ before, substitute ⟨true, escapes⟩ look line = .error ⟨key, before⟩ ∧
      before ++ spell key <+:
        weave (ofLine escapes line).literals ((keys escapes line).map (filler look)) := by
  obtain ⟨earlier, later, hKeys, hEarlier, hKey, -⟩ := List.filter_eq_cons_iff.mp h
  have hNone : look key = none := by simpa using hKey
  have hSome : ∀ k ∈ earlier, (look k).isSome := by
    intro k hk
    simpa [Option.isSome_iff_ne_none] using hEarlier k hk
  refine ⟨_, substitute_stopped ⟨true, escapes⟩ rfl look line hKeys hSome hNone, ?_⟩
  have hFiller : filler look key = spell key := by rw [filler, hNone, Option.getD_none]
  have hLength : (ofLine escapes line).literals.length = (keys escapes line).length + 1 := by
    rw [length_literals, keys_eq]
  rw [hKeys] at hLength ⊢
  rw [List.map_append, List.map_cons, hFiller]
  exact weave_append_initial (by simpa using hLength)

/-- A strict substitution that ends well has found a value for every key. -/
theorem answered_of_strict {escapes : Bool} {look : Lookup} {line : Text} {s : Substitution}
    (h : substitute ⟨true, escapes⟩ look line = .ok s) :
    ∀ key ∈ keys escapes line, (look key).isSome := by
  cases hMissing : (keys escapes line).filter (fun key => (look key).isNone) with
  | nil => exact (filter_isNone_eq_nil_iff look (keys escapes line)).mp hMissing
  | cons key others =>
    obtain ⟨before, hStopped, -⟩ := substitute_strict_of_missing hMissing
    rw [h] at hStopped
    cases hStopped

theorem missing_of_substitute {p : Policy} {look : Lookup} {line : Text} {s : Substitution}
    (h : substitute p look line = .ok s) :
    s.missing = (keys p.escapes line).filter fun key => (look key).isNone := by
  obtain ⟨strict, escapes⟩ := p
  cases strict with
  | false =>
    rw [substitute_lenient] at h
    cases h
    rfl
  | true =>
    rw [substitute_answered ⟨true, escapes⟩ look line fun key hKey _ =>
      answered_of_strict h key hKey] at h
    cases h
    rfl

theorem missing_of_strict {p : Policy} (hStrict : p.failOnMissing = true) {look : Lookup}
    {line : Text} {s : Substitution} (h : substitute p look line = .ok s) : s.missing = [] := by
  obtain ⟨_, escapes⟩ := p
  obtain rfl := hStrict
  rw [missing_of_substitute h, filter_isNone_eq_nil_iff]
  exact answered_of_strict h

theorem gap_of_substitute {p : Policy} {look : Lookup} {line : Text} {gap : Gap}
    (h : substitute p look line = .error gap) :
    p.failOnMissing = true ∧ gap.key ∈ keys p.escapes line ∧ look gap.key = none := by
  obtain ⟨strict, escapes⟩ := p
  cases strict with
  | false =>
    rw [substitute_lenient] at h
    cases h
  | true =>
    cases hMissing : (keys escapes line).filter (fun key => (look key).isNone) with
    | nil =>
      rw [substitute_strict_eq_lenient hMissing, substitute_lenient] at h
      cases h
    | cons key others =>
      obtain ⟨before, hStopped, -⟩ := substitute_strict_of_missing hMissing
      rw [h] at hStopped
      cases hStopped
      have hMem : key ∈ (keys escapes line).filter fun key => (look key).isNone := by
        rw [hMissing]
        exact List.mem_cons_self
      obtain ⟨hKey, hNone⟩ := List.mem_filter.mp hMem
      exact ⟨rfl, hKey, by simpa using hNone⟩

/-- The keys without a value decide how a strict substitution ends, and the lenient one tells all
that a strict one gives: its text if there are none, and else its key and its partial text. -/
theorem strict_agrees_with_lenient (escapes : Bool) (look : Lookup) (line : Text) :
    ∃ lenient, substitute ⟨false, escapes⟩ look line = .ok lenient ∧
      lenient.missing = (keys escapes line).filter (fun key => (look key).isNone) ∧
      ((∃ s, substitute ⟨true, escapes⟩ look line = .ok s) ↔ lenient.missing = []) ∧
      (∀ s, substitute ⟨true, escapes⟩ look line = .ok s →
        s.text = lenient.text ∧ s.missing = []) ∧
      ((∃ gap, substitute ⟨true, escapes⟩ look line = .error gap) ↔ lenient.missing ≠ []) ∧
      ∀ gap, substitute ⟨true, escapes⟩ look line = .error gap →
        lenient.missing.head? = some gap.key ∧
        gap.before ++ ['$', '{'] ++ gap.key ++ ['}'] <+: lenient.text := by
  refine ⟨_, substitute_lenient escapes look line, rfl, ?_⟩
  cases hMissing : (keys escapes line).filter (fun key => (look key).isNone) with
  | nil =>
    have hStrict := substitute_strict_eq_lenient hMissing
    rw [substitute_lenient, hMissing] at hStrict
    simp [hStrict]
  | cons key others =>
    obtain ⟨before, hStrict, hInitial⟩ := substitute_strict_of_missing hMissing
    have hSpell : before ++ '$' :: '{' :: (key ++ ['}']) = before ++ spell key := rfl
    simp [hStrict, hSpell, hInitial]

/-- The second key has no value, and text stands before its placeholder. -/
theorem strict_agrees_with_lenient_second_key :
    let look : Lookup := fun key => if key = ['A'] then some ['1'] else none
    let line := "${A} ${B}${C}".toList
    substitute ⟨true, true⟩ look line = .error ⟨['B'], ['1', ' ']⟩ ∧
      ∃ lenient, substitute ⟨false, true⟩ look line = .ok lenient ∧
        lenient.missing.head? = some ['B'] ∧ "1 ${B}".toList <+: lenient.text := by
  intro look line
  have hStrict : substitute ⟨true, true⟩ look line = .error ⟨['B'], ['1', ' ']⟩ := by decide
  obtain ⟨lenient, hLenient, -, -, -, -, hStop⟩ := strict_agrees_with_lenient true look line
  obtain ⟨hKey, hText⟩ := hStop _ hStrict
  exact ⟨hStrict, lenient, hLenient, hKey, hText⟩

end Interpolation.Line
