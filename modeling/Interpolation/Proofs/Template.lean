import Interpolation.Placeholder.Scan
import Interpolation.Proofs.Marks

/-!
# Templates

A template is a text with holes: literals in alternation with the keys of the holes, from a first
literal to a last one. `ofLine` reads a line as a template by searching it for maximal runs of
dollars and for closing braces. Filling a template puts its keys to a resolver from left to right
and stops at the first one that is missing.
-/

namespace Interpolation

open Placeholder

universe u

inductive Template where
  | literal (text : Text)
  | hole (before key : Text) (rest : Template)
  deriving DecidableEq, Repr

namespace Template

/-- The template with a further text in front. -/
def prepend (t : Text) : Template → Template
  | .literal text => .literal (t ++ text)
  | .hole before key rest => .hole (t ++ before) key rest

@[simp] theorem prepend_nil (t : Template) : t.prepend [] = t := by
  cases t <;> rfl

theorem prepend_prepend (s t : Text) (template : Template) :
    (template.prepend t).prepend s = template.prepend (s ++ t) := by
  cases template <;> simp [prepend]

/-- The template that a line stands for. Outside every placeholder a maximal run of dollars decides
with the character behind it. Before a brace, a run of two or more stands for itself less one dollar
if dollars can escape, and the brace with it. Otherwise the last dollar of the run and the brace open
a placeholder, which ends at the first closing brace; without one, all that is left is literal. -/
def ofLine (escapes : Bool) : Text → Template
  | [] => .literal []
  | c :: line =>
    if c ≠ '$' then (ofLine escapes line).prepend [c]
    else
      let others := line.takeWhile (· = '$')
      let rest := line.dropWhile (· = '$')
      if rest.head? ≠ some '{' then (ofLine escapes rest).prepend ('$' :: others)
      else
        let after := rest.tail
        if escapes ∧ others ≠ [] then (ofLine escapes after).prepend (others ++ ['{'])
        else if '}' ∈ after then
          let key := after.takeWhile (· ≠ '}')
          let behind := (after.dropWhile (· ≠ '}')).tail
          .hole others key (ofLine escapes behind)
        else .literal ('$' :: others ++ '{' :: after)
termination_by line => line.length
decreasing_by
  · exact Nat.lt_succ_self _
  · exact Nat.lt_succ_of_le (List.length_dropWhile_le _ line)
  all_goals
    have hRest := List.length_dropWhile_le (· = '$') line
    have hBehind := List.length_dropWhile_le (· ≠ '}') (line.dropWhile (· = '$')).tail
    simp only [List.length_tail, List.length_cons] at hBehind ⊢
    omega

def dollars (n : Nat) : Text :=
  List.replicate n '$'

@[simp] theorem dollars_zero : dollars 0 = [] := rfl

theorem dollars_succ (n : Nat) : dollars (n + 1) = '$' :: dollars n := rfl

theorem dollars_succ_right (n : Nat) : dollars (n + 1) = dollars n ++ ['$'] :=
  List.replicate_succ'

theorem exists_run (line : Text) : ∃ n rest, line = dollars n ++ rest ∧ rest.head? ≠ some '$' := by
  induction line with
  | nil => exact ⟨0, [], rfl, by simp⟩
  | cons c line ih =>
    rcases eq_or_ne c '$' with rfl | hc
    · obtain ⟨n, rest, rfl, hRest⟩ := ih
      exact ⟨n + 1, rest, by rw [dollars_succ, List.cons_append], hRest⟩
    · exact ⟨0, c :: line, rfl, by simpa using hc⟩

theorem takeWhile_dollars (n : Nat) {rest : Text} (h : rest.head? ≠ some '$') :
    (dollars n ++ rest).takeWhile (· = '$') = dollars n := by
  have hAll : ∀ c ∈ dollars n, decide (c = '$') = true := by simp [dollars]
  rw [List.takeWhile_append_of_pos hAll]
  cases rest with
  | nil => simp
  | cons c rest => simpa using h

theorem dropWhile_dollars (n : Nat) {rest : Text} (h : rest.head? ≠ some '$') :
    (dollars n ++ rest).dropWhile (· = '$') = rest := by
  have hAll : ∀ c ∈ dollars n, decide (c = '$') = true := by simp [dollars]
  rw [List.dropWhile_append_of_pos hAll]
  cases rest with
  | nil => simp
  | cons c rest => simpa using h

variable (escapes : Bool)

@[simp] theorem ofLine_nil : ofLine escapes [] = .literal [] := by rw [ofLine]

theorem ofLine_char {c : Char} (hc : c ≠ '$') (line : Text) :
    ofLine escapes (c :: line) = (ofLine escapes line).prepend [c] := by
  rw [ofLine, if_pos hc]

theorem ofLine_append_of_not_mem {s : Text} (h : '$' ∉ s) (line : Text) :
    ofLine escapes (s ++ line) = (ofLine escapes line).prepend s := by
  induction s with
  | nil => simp
  | cons c s ih =>
    have hc : c ≠ '$' := fun hEq => h (hEq ▸ List.mem_cons_self)
    have hs : '$' ∉ s := fun hMem => h (List.mem_cons_of_mem _ hMem)
    rw [List.cons_append, ofLine_char _ hc, ih hs, prepend_prepend]
    rfl

theorem ofLine_run (n : Nat) {rest : Text} (hDollar : rest.head? ≠ some '$')
    (hBrace : rest.head? ≠ some '{') :
    ofLine escapes (dollars (n + 1) ++ rest) = (ofLine escapes rest).prepend (dollars (n + 1)) := by
  change ofLine escapes ('$' :: (dollars n ++ rest)) = _
  rw [ofLine, takeWhile_dollars n hDollar, dropWhile_dollars n hDollar, if_neg (by simp),
    if_pos hBrace]
  rfl

theorem ofLine_escaped {n : Nat} (h : escapes ∧ n ≠ 0) (after : Text) :
    ofLine escapes (dollars (n + 1) ++ '{' :: after) =
      (ofLine escapes after).prepend (dollars n ++ ['{']) := by
  change ofLine escapes ('$' :: (dollars n ++ '{' :: after)) = _
  rw [ofLine, takeWhile_dollars _ (by simp), dropWhile_dollars _ (by simp), if_neg (by simp),
    if_neg (by simp), if_pos (by simpa [dollars] using h)]
  rfl

theorem ofLine_closed {n : Nat} (h : ¬(escapes ∧ n ≠ 0)) {key : Text} (hKey : '}' ∉ key)
    (behind : Text) :
    ofLine escapes (dollars (n + 1) ++ '{' :: (key ++ '}' :: behind)) =
      .hole (dollars n) key (ofLine escapes behind) := by
  change ofLine escapes ('$' :: (dollars n ++ '{' :: (key ++ '}' :: behind))) = _
  rw [ofLine, takeWhile_dollars _ (by simp), dropWhile_dollars _ (by simp), if_neg (by simp),
    if_neg (by simp), if_neg (by simpa [dollars] using h), List.tail_cons, if_pos (by simp)]
  simp only [Mark.takeWhile_append hKey, Mark.dropWhile_append hKey, List.tail_cons]

theorem ofLine_unclosed {n : Nat} (h : ¬(escapes ∧ n ≠ 0)) {after : Text} (hAfter : '}' ∉ after) :
    ofLine escapes (dollars (n + 1) ++ '{' :: after) =
      .literal (dollars (n + 1) ++ '{' :: after) := by
  change ofLine escapes ('$' :: (dollars n ++ '{' :: after)) = _
  rw [ofLine, takeWhile_dollars _ (by simp), dropWhile_dollars _ (by simp), if_neg (by simp),
    if_neg (by simp), if_neg (by simpa [dollars] using h), List.tail_cons, if_neg hAfter]
  rfl

theorem dollars_append_opener (n : Nat) (after : Text) :
    dollars n ++ (opener ++ after) = dollars (n + 1) ++ '{' :: after := by
  simp [opener, dollars_succ_right]

theorem dollars_append_spell (n : Nat) (key behind : Text) :
    dollars n ++ (spell key ++ behind) = dollars (n + 1) ++ '{' :: (key ++ '}' :: behind) := by
  simp [spell, opener, dollars_succ_right]

theorem suffix_behind (n : Nat) (key behind : Text) :
    behind <:+ dollars (n + 1) ++ '{' :: (key ++ '}' :: behind) :=
  ⟨dollars (n + 1) ++ '{' :: (key ++ ['}']), by simp⟩

/-- Every line has one of the shapes above, and what it leaves to be read is shorter. -/
@[elab_as_elim]
theorem line_induction {motive : Text → Prop} (nil : motive [])
    (char : ∀ (c : Char) (line : Text), c ≠ '$' → motive line → motive (c :: line))
    (run : ∀ (n : Nat) (rest : Text), rest.head? ≠ some '$' → rest.head? ≠ some '{' → motive rest →
      motive (dollars (n + 1) ++ rest))
    (escaped : ∀ (n : Nat) (after : Text), escapes ∧ n ≠ 0 → motive after →
      motive (dollars (n + 1) ++ '{' :: after))
    (closed : ∀ (n : Nat) (key behind : Text), ¬(escapes ∧ n ≠ 0) → '}' ∉ key → motive behind →
      motive (dollars (n + 1) ++ '{' :: (key ++ '}' :: behind)))
    (unclosed : ∀ (n : Nat) (after : Text), ¬(escapes ∧ n ≠ 0) → '}' ∉ after →
      motive (dollars (n + 1) ++ '{' :: after))
    (line : Text) : motive line := by
  induction hLength : line.length using Nat.strongRecOn generalizing line with
  | ind length ih =>
    cases line with
    | nil => exact nil
    | cons c line =>
      rcases eq_or_ne c '$' with rfl | hc
      · obtain ⟨n, rest, rfl, hDollar⟩ := exists_run line
        rw [← List.cons_append, ← dollars_succ]
        rcases eq_or_ne rest.head? (some '{') with hBrace | hBrace
        · obtain ⟨after, rfl⟩ := List.head?_eq_some_iff.mp hBrace
          rcases Decidable.em (escapes ∧ n ≠ 0) with hEscaped | hEscaped
          · exact escaped n after hEscaped (ih after.length (by grind) after rfl)
          · rcases Decidable.em ('}' ∈ after) with hClosed | hClosed
            · obtain ⟨key, behind, rfl, hKey⟩ := List.eq_append_cons_of_mem hClosed
              exact closed n key behind hEscaped hKey (ih behind.length (by grind) behind rfl)
            · exact unclosed n after hEscaped hClosed
        · exact run n rest hDollar hBrace (ih rest.length (by grind) rest rfl)
      · exact char c line hc (ih line.length (by grind) line rfl)

def keys : Template → List Text
  | .literal _ => []
  | .hole _ key rest => key :: rest.keys

@[simp] theorem keys_prepend (s : Text) (t : Template) : (t.prepend s).keys = t.keys := by
  cases t <;> rfl

def literals : Template → List Text
  | .literal text => [text]
  | .hole before _ rest => before :: rest.literals

theorem length_literals (t : Template) : t.literals.length = t.keys.length + 1 := by
  induction t with
  | literal text => rfl
  | hole before key rest ih => simp [literals, keys, ih]

/-- The text with a word in the place of each hole. -/
def render (word : Text → Text) : Template → Text
  | .literal text => text
  | .hole before key rest => before ++ word key ++ rest.render word

theorem render_prepend (word : Text → Text) (s : Text) (t : Template) :
    (t.prepend s).render word = s ++ t.render word := by
  cases t <;> simp [prepend, render]

section Filling

variable {σ : Type u} (ask : Resolver σ)

/-- Fills a template behind a text that is already there. -/
def fillAfter (before : Text) : Template → σ → Except Gap Text × σ
  | .literal text, w => (.ok (before ++ text), w)
  | .hole text key rest, w =>
    match ask key w with
    | (.value value, w) => fillAfter (before ++ text ++ value) rest w
    | (.missing key, w) => (.error ⟨key, before ++ text⟩, w)

def fill (t : Template) (w : σ) : Except Gap Text × σ :=
  fillAfter ask [] t w

theorem fillAfter_prepend (before text : Text) (t : Template) (w : σ) :
    fillAfter ask before (t.prepend text) w = fillAfter ask (before ++ text) t w := by
  cases t with
  | literal last => simp [prepend, fillAfter]
  | hole first key rest => simp [prepend, fillAfter]

end Filling

end Template

end Interpolation
