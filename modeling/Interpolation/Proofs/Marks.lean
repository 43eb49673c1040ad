import Mathlib.Data.List.TakeWhile

/-!
# The cut at a mark

A list that holds a mark is cut at its first one. What stands before the mark and what stands behind
it are read with `takeWhile` and `dropWhile`.
-/

namespace Interpolation.Mark

variable {α : Type} [DecidableEq α] {mark : α} {s : List α}

theorem takeWhile_append (h : mark ∉ s) (behind : List α) :
    (s ++ mark :: behind).takeWhile (· ≠ mark) = s := by
  have hAll : ∀ a ∈ s, decide (a ≠ mark) = true := by
    intro a ha
    simpa using fun hEq : a = mark => h (hEq ▸ ha)
  rw [List.takeWhile_append_of_pos hAll, List.takeWhile_cons_of_neg (by simp), List.append_nil]

theorem dropWhile_append (h : mark ∉ s) (behind : List α) :
    (s ++ mark :: behind).dropWhile (· ≠ mark) = mark :: behind := by
  have hAll : ∀ a ∈ s, decide (a ≠ mark) = true := by
    intro a ha
    simpa using fun hEq : a = mark => h (hEq ▸ ha)
  rw [List.dropWhile_append_of_pos hAll, List.dropWhile_cons_of_neg (by simp)]

theorem not_mem_takeWhile (mark : α) (s : List α) : mark ∉ s.takeWhile (· ≠ mark) := by
  intro h
  simpa using List.mem_takeWhile_imp h

/-- Without a mark the whole list stands before it. -/
theorem takeWhile_of_dropWhile_nil (h : s.dropWhile (· ≠ mark) = []) :
    s.takeWhile (· ≠ mark) = s := by
  have hSplit := List.takeWhile_append_dropWhile (p := (· ≠ mark)) (l := s)
  rwa [h, List.append_nil] at hSplit

/-- What is left begins with the mark. -/
theorem eq_append_of_dropWhile {first : α} {behind : List α}
    (h : s.dropWhile (· ≠ mark) = first :: behind) :
    s = s.takeWhile (· ≠ mark) ++ mark :: behind := by
  have hSplit := List.takeWhile_append_dropWhile (p := (· ≠ mark)) (l := s)
  have hHead := List.head?_dropWhile_not (· ≠ mark) s
  rw [h] at hSplit hHead
  obtain rfl : first = mark := by simpa using hHead
  exact hSplit.symm

end Interpolation.Mark
