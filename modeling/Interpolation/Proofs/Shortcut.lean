import Interpolation.Proofs.Substitution

/-!
# Lines without a dollar

Before a line is scanned its encoding is searched for the octet of a dollar. That octet is part of no
other character, so the search misses no dollar and sees none where there is none. A scan gives a line
without a dollar back as it is and asks for nothing; so it makes no difference that it is left out.
-/

namespace Interpolation

open Placeholder Template

universe u

namespace Placeholder

theorem scan_of_not_mem {line : Text} (h : '$' ∉ line) (escapes : Bool) {σ : Type u}
    (ask : Resolver σ) (w : σ) : scan escapes ask line w = (.ok line, w) := by
  rw [scan_eq_fill, ofLine_of_not_mem escapes h, fill, fillAfter, List.nil_append]

theorem calls_of_not_mem {line : Text} (h : '$' ∉ line) (escapes : Bool) {σ : Type u}
    (ask : Resolver σ) (w : σ) : calls escapes ask line w = [] := by
  rw [calls, scan_of_not_mem h]

/-- The keys of a line that is scanned in any case. -/
def scannedKeys (escapes : Bool) (line : Text) : List Text :=
  (scan escapes recorder line #[]).2.toList

theorem keys_eq_scannedKeys (escapes : Bool) (line : Text) :
    keys escapes line = scannedKeys escapes line := by
  rw [keys]
  split
  · rfl
  · rename_i h
    rw [mayContain_iff] at h
    rw [scannedKeys, scan_of_not_mem h]

end Placeholder

namespace Line

/-- The substitution of a line that is scanned in any case, with all lookups made for it. -/
def scanned (p : Policy) (look : Lookup) (line : Text) : Except Gap Substitution × List Request :=
  let (result, asked) := scan p.escapes (resolver p look) line #[]
  (result.map fun text => ⟨text, unresolved asked.toList⟩, asked.toList)

theorem trace_eq_scanned (p : Policy) (look : Lookup) (line : Text) :
    trace p look line = scanned p look line := by
  rw [trace]
  split
  · rfl
  · rename_i h
    rw [mayContain_iff] at h
    rw [scanned, scan_of_not_mem h]
    rfl

/-- Whether a substitution hands back the line itself: without a dollar it does, and otherwise if the
text that comes out is the same. -/
def handsBack (p : Policy) (look : Lookup) (line : Text) : Except Gap Bool :=
  if mayContain line then (substitute p look line).map fun s => s.isUnchanged line else .ok true

theorem handsBack_eq (p : Policy) (look : Lookup) (line : Text) :
    handsBack p look line = (scanned p look line).1.map fun s => s.isUnchanged line := by
  rw [← trace_eq_scanned, handsBack, substitute]
  split
  · rfl
  · rename_i h
    rw [trace, if_neg h, Except.map, Substitution.isUnchanged, beq_self_eq_true]

/-- The search sees a dollar if and only if there is one, and neither a substitution with its lookups
nor a list of keys is other than without the search. -/
theorem search_unnoticed (line : Text) :
    (mayContain line = true ↔ '$' ∈ line) ∧
    (mayContain line = false → ∀ (escapes : Bool) {σ : Type u} (ask : Resolver σ) (w : σ),
      scan escapes ask line w = (.ok line, w) ∧ calls escapes ask line w = []) ∧
    (∀ (p : Policy) (look : Lookup),
      trace p look line = scanned p look line ∧
        handsBack p look line = (scanned p look line).1.map fun s => s.isUnchanged line) ∧
    ∀ escapes : Bool, keys escapes line = scannedKeys escapes line := by
  refine ⟨mayContain_iff line, ?_, ?_, fun escapes => keys_eq_scannedKeys escapes line⟩
  · intro h escapes σ ask w
    have hDollar : '$' ∉ line := fun hMem => by simp [(mayContain_iff line).mpr hMem] at h
    exact ⟨scan_of_not_mem hDollar escapes ask w, calls_of_not_mem hDollar escapes ask w⟩
  · exact fun p look => ⟨trace_eq_scanned p look line, handsBack_eq p look line⟩

/-- A fullwidth dollar and a currency sign are no dollars. -/
example : mayContain ['\uFF04', '{', '\u00A4', '}'] = false := by decide

end Line

end Interpolation
