import Mathlib.Data.List.Basic
import Interpolation.Proofs.Leniency

/-!
# Lines in pieces

From left to right a line falls into characters and runs of dollars that stand for themselves, runs
of dollars that escape a brace, placeholders, and at the end perhaps an opener that is never closed.
A lenient substitution that finds no value keeps all pieces as they stand, except that each run that
escapes a brace loses one dollar.
-/

namespace Interpolation

open Placeholder Template

/-- A piece of a line. A run has a dollar more than its number, and one that escapes a brace has two
more. Where dollars do not escape, they may stand right before an opener; an opener that is not closed
takes the rest of the line. -/
inductive Piece where
  | char (c : Char)
  | run (n : Nat)
  | escaped (n : Nat)
  | placeholder (n : Nat) (key : Text)
  | unclosed (n : Nat) (after : Text)
  deriving DecidableEq

namespace Piece

def source : Piece → Text
  | .char c => [c]
  | .run n => dollars (n + 1)
  | .escaped n => dollars (n + 2) ++ ['{']
  | .placeholder n key => dollars n ++ spell key
  | .unclosed n after => dollars n ++ (opener ++ after)

/-- What a substitution without values leaves of a piece. -/
def kept : Piece → Text
  | .escaped n => dollars (n + 1) ++ ['{']
  | piece => piece.source

/-- What a piece demands of itself and of what stands behind it. A run is maximal, so it ends before
another character; what that character is tells the runs apart. -/
def Fits (escapes : Bool) (rest : Text) : Piece → Prop
  | .char c => c ≠ '$'
  | .run _ => rest.head? ≠ some '$' ∧ rest.head? ≠ some '{'
  | .escaped _ => escapes = true
  | .placeholder n key => (escapes = true → n = 0) ∧ '}' ∉ key
  | .unclosed n after => (escapes = true → n = 0) ∧ '}' ∉ after ∧ rest = []

instance (escapes : Bool) (rest : Text) (p : Piece) : Decidable (p.Fits escapes rest) :=
  match p with
  | .char c => inferInstanceAs (Decidable (c ≠ '$'))
  | .run _ => inferInstanceAs (Decidable (rest.head? ≠ some '$' ∧ rest.head? ≠ some '{'))
  | .escaped _ => inferInstanceAs (Decidable (escapes = true))
  | .placeholder n key => inferInstanceAs (Decidable ((escapes = true → n = 0) ∧ '}' ∉ key))
  | .unclosed n after =>
    inferInstanceAs (Decidable ((escapes = true → n = 0) ∧ '}' ∉ after ∧ rest = []))

def isEscaped : Piece → Bool
  | .escaped _ => true
  | _ => false

theorem kept_eq_source {p : Piece} (h : ∀ n, p ≠ .escaped n) : p.kept = p.source := by
  cases p with
  | escaped n => exact absurd rfl (h n)
  | char | run | placeholder | unclosed => rfl

theorem length_kept (p : Piece) :
    p.kept.length + (if p.isEscaped then 1 else 0) = p.source.length := by
  cases p with
  | escaped n => simp [kept, source, isEscaped, dollars]
  | char | run | placeholder | unclosed => rfl

end Piece

/-- The line is cut into the pieces. -/
inductive Cut (escapes : Bool) : Text → List Piece → Prop
  | done : Cut escapes [] []
  | piece {p : Piece} {rest : Text} {pieces : List Piece} (hFits : p.Fits escapes rest)
    (h : Cut escapes rest pieces) : Cut escapes (p.source ++ rest) (p :: pieces)

namespace Cut

variable {escapes : Bool} {line : Text} {pieces : List Piece}

theorem source_eq (h : Cut escapes line pieces) : line = pieces.flatMap Piece.source := by
  induction h with
  | done => rfl
  | piece _ _ ih => rw [List.flatMap_cons, ← ih]

theorem exists_cut (escapes : Bool) (line : Text) : ∃ pieces, Cut escapes line pieces := by
  induction line using line_induction escapes with
  | nil => exact ⟨[], .done⟩
  | char c line hc ih =>
    obtain ⟨pieces, h⟩ := ih
    exact ⟨.char c :: pieces, .piece (p := .char c) hc h⟩
  | run n rest hDollar hBrace ih =>
    obtain ⟨pieces, h⟩ := ih
    exact ⟨.run n :: pieces, .piece (p := .run n) ⟨hDollar, hBrace⟩ h⟩
  | escaped n after hEscaped ih =>
    obtain ⟨pieces, h⟩ := ih
    obtain ⟨m, rfl⟩ := Nat.exists_eq_succ_of_ne_zero hEscaped.2
    refine ⟨.escaped m :: pieces, ?_⟩
    simpa [Piece.source] using Cut.piece (p := .escaped m) hEscaped.1 h
  | closed n key behind hEscaped hKey ih =>
    obtain ⟨pieces, h⟩ := ih
    have hSingle : escapes = true → n = 0 := by simpa using hEscaped
    refine ⟨.placeholder n key :: pieces, ?_⟩
    rw [← dollars_append_spell]
    simpa [Piece.source] using Cut.piece (p := .placeholder n key) ⟨hSingle, hKey⟩ h
  | unclosed n after hEscaped hAfter =>
    have hSingle : escapes = true → n = 0 := by simpa using hEscaped
    refine ⟨[.unclosed n after], ?_⟩
    rw [← dollars_append_opener]
    simpa [Piece.source] using Cut.piece (p := .unclosed n after) ⟨hSingle, hAfter, rfl⟩ .done

/-- With its keys left in place, a line gives what is kept of its pieces. -/
theorem render_spell (h : Cut escapes line pieces) :
    (ofLine escapes line).render spell = pieces.flatMap Piece.kept := by
  induction h with
  | done => simp [render]
  | @piece p rest pieces hFits h ih =>
    rw [List.flatMap_cons, ← ih]
    cases p with
    | char c =>
      change (ofLine escapes (c :: rest)).render spell = _
      rw [ofLine_char _ hFits, render_prepend]
      rfl
    | run n =>
      change (ofLine escapes (dollars (n + 1) ++ rest)).render spell = _
      rw [ofLine_run _ _ hFits.1 hFits.2, render_prepend]
      rfl
    | escaped n =>
      have hEscaped : escapes ∧ n + 1 ≠ 0 := ⟨hFits, Nat.succ_ne_zero n⟩
      rw [Piece.source, List.append_assoc, List.singleton_append, ofLine_escaped _ hEscaped,
        render_prepend]
      rfl
    | placeholder n key =>
      have hEscaped : ¬(escapes ∧ n ≠ 0) := fun h => h.2 (hFits.1 h.1)
      rw [Piece.source, List.append_assoc, dollars_append_spell, ofLine_closed _ hEscaped hFits.2,
        render]
      rfl
    | unclosed n after =>
      have hEscaped : ¬(escapes ∧ n ≠ 0) := fun h => h.2 (hFits.1 h.1)
      obtain ⟨-, hAfter, rfl⟩ := hFits
      rw [Piece.source, List.append_nil, dollars_append_opener, ofLine_unclosed _ hEscaped hAfter,
        ofLine_nil, render, render, List.append_nil]
      exact (dollars_append_opener n after).symm

theorem escaped_not_mem (h : Cut false line pieces) (n : Nat) : .escaped n ∉ pieces := by
  induction h with
  | done => exact List.not_mem_nil
  | @piece p rest pieces hFits _ ih =>
    rw [List.mem_cons]
    rintro (rfl | hMem)
    · exact Bool.false_ne_true hFits
    · exact ih hMem

/-- Every piece that escapes a brace loses one character, and no other piece loses any. -/
theorem length_kept (pieces : List Piece) :
    (pieces.flatMap Piece.kept).length + pieces.countP Piece.isEscaped =
      (pieces.flatMap Piece.source).length := by
  induction pieces with
  | nil => rfl
  | cons p pieces ih =>
    have hPiece := p.length_kept
    simp only [List.flatMap_cons, List.length_append, List.countP_cons]
    omega

theorem kept_eq_source_iff (pieces : List Piece) :
    pieces.flatMap Piece.kept = pieces.flatMap Piece.source ↔ ∀ n, .escaped n ∉ pieces := by
  constructor
  · intro hEqual n hMem
    have hLength := length_kept pieces
    rw [hEqual] at hLength
    have hCount : 0 < pieces.countP Piece.isEscaped := List.countP_pos_iff.mpr ⟨_, hMem, rfl⟩
    omega
  · intro hNone
    exact List.flatMap_congr fun p hp => Piece.kept_eq_source fun n hEq => hNone n (hEq ▸ hp)

end Cut

namespace Line

theorem render_filler_of_unanswered {look : Lookup} {t : Template}
    (h : ∀ key ∈ t.keys, look key = none) : t.render (filler look) = t.render spell := by
  induction t with
  | literal text => rfl
  | hole before key rest ih =>
    have hKey : filler look key = spell key := by
      rw [filler, h key List.mem_cons_self, Option.getD_none]
    rw [render, render, hKey, ih fun key hKey => h key (List.mem_cons_of_mem _ hKey)]

theorem Substitution.isUnchanged_iff (s : Substitution) (line : Text) :
    s.isUnchanged line = true ↔ s.text = line := by
  rw [Substitution.isUnchanged, beq_iff_eq]

/-- Where no key has a value, a lenient substitution reports all keys and keeps the line, but for one
dollar of each run that escapes a brace. -/
theorem substitute_unanswered (escapes : Bool) (look : Lookup) (line : Text)
    (h : ∀ key ∈ keys escapes line, look key = none) :
    ∃ s, substitute ⟨false, escapes⟩ look line = .ok s ∧ s.missing = keys escapes line ∧
      (∃ pieces, Cut escapes line pieces) ∧
      (∀ pieces, Cut escapes line pieces →
        line = pieces.flatMap Piece.source ∧ s.text = pieces.flatMap Piece.kept ∧
        (s.isUnchanged line = true ↔ ∀ n, .escaped n ∉ pieces)) ∧
      (escapes = false → s.text = line ∧ s.isUnchanged line = true) := by
  have hMissing : (keys escapes line).filter (fun key => (look key).isNone) = keys escapes line := by
    rw [List.filter_eq_self]
    intro key hKey
    rw [h key hKey]
    rfl
  have hText : ∀ pieces, Cut escapes line pieces →
      (ofLine escapes line).render (filler look) = pieces.flatMap Piece.kept := by
    intro pieces hCut
    rw [render_filler_of_unanswered fun key hKey => h key (by rwa [keys_eq]), hCut.render_spell]
  have hSame : ∀ pieces, Cut escapes line pieces →
      ((ofLine escapes line).render (filler look) = line ↔ ∀ n, .escaped n ∉ pieces) := by
    intro pieces hCut
    rw [hText pieces hCut, hCut.source_eq, Cut.kept_eq_source_iff]
  refine ⟨_, substitute_lenient_render escapes look line, hMissing, Cut.exists_cut escapes line,
    fun pieces hCut => ⟨hCut.source_eq, hText pieces hCut, ?_⟩, ?_⟩
  · exact (Substitution.isUnchanged_iff _ line).trans (hSame pieces hCut)
  · rintro rfl
    obtain ⟨pieces, hCut⟩ := Cut.exists_cut false line
    have hLine := (hSame pieces hCut).mpr hCut.escaped_not_mem
    exact ⟨hLine, (Substitution.isUnchanged_iff _ line).mpr hLine⟩

/-- A run that escapes a brace, and others like it inside a key and behind an opener that is not
closed. -/
theorem substitute_unanswered_escaped :
    let look : Lookup := fun _ => none
    let key : Text := ['$', '$', '{']
    let tail : Text := ['x', '$', '$', '{']
    let line := dollars 3 ++ '{' :: 'A' :: '}' :: (spell key ++ (opener ++ tail))
    keys true line = [key] ∧
      ∃ s, substitute ⟨false, true⟩ look line = .ok s ∧ s.missing = [key] ∧
        s.text = dollars 2 ++ '{' :: 'A' :: '}' :: (spell key ++ (opener ++ tail)) ∧
        s.isUnchanged line = false := by
  intro look key tail line
  have hKeys : keys true line = [key] := by decide
  obtain ⟨s, hSubstituted, hMissing, -, hPieces, -⟩ :=
    substitute_unanswered true look line fun _ _ => rfl
  have hCut : Cut true line
      [.escaped 1, .char 'A', .char '}', .placeholder 0 key, .unclosed 0 tail] :=
    .piece (p := .escaped 1) (by decide) <| .piece (p := .char 'A') (by decide) <|
      .piece (p := .char '}') (by decide) <| .piece (p := .placeholder 0 key) (by decide) <|
        .piece (p := .unclosed 0 tail) (by decide) .done
  obtain ⟨-, hText, hUnchanged⟩ := hPieces _ hCut
  refine ⟨hKeys, s, hSubstituted, hMissing.trans hKeys, hText, ?_⟩
  rw [← Bool.not_eq_true, hUnchanged]
  exact fun hNone => hNone 1 List.mem_cons_self

end Line

end Interpolation
