import Interpolation.Line
import Interpolation.Proofs.Calls

/-!
# Substitution by the keys of a line

The substitution of a line fills its template from a lookup. If every key may be answered, because it
has a value or because the policy is lenient, all keys are looked up and those without a value are
reported; a strict policy stops at the first key without a value. In both cases the text weaves what
stands for the keys between the literals of the line.
-/

namespace Interpolation.Line

open Placeholder Template

theorem trace_eq_fill (p : Policy) (look : Lookup) (line : Text) :
    trace p look line =
      let filled := (ofLine p.escapes line).fill (resolver p look) #[]
      (filled.1.map fun text => ⟨text, unresolved filled.2.toList⟩, filled.2.toList) := by
  rw [trace]
  split
  · rw [scan_eq_fill]
  · rename_i h
    rw [mayContain_iff] at h
    rw [ofLine_of_not_mem p.escapes h]
    rfl

def request (look : Lookup) (key : Text) : Request :=
  ⟨key, (look key).isSome⟩

/-- What stands for a placeholder on a line that is not stopped. -/
def filler (look : Lookup) (key : Text) : Text :=
  (look key).getD (spell key)

theorem fillAfter_answered (p : Policy) (look : Lookup) (before : Text) (t : Template)
    (asked : Array Request) (h : ∀ key ∈ t.keys, p.failOnMissing = true → (look key).isSome) :
    t.fillAfter (resolver p look) before asked =
      (.ok (before ++ weave t.literals (t.keys.map (filler look))),
        asked ++ t.keys.map (request look)) := by
  induction t generalizing before asked with
  | literal text => simp [fillAfter, Template.keys, literals, weave]
  | hole text key rest ih =>
    have hRest : ∀ key ∈ rest.keys, p.failOnMissing = true → (look key).isSome :=
      fun key hKey => h key (List.mem_cons_of_mem _ hKey)
    cases hLook : look key with
    | some value =>
      have hFilled := ih (before ++ text ++ value) (asked.push ⟨key, true⟩) hRest
      simp only [fillAfter, resolver, hLook, hFilled]
      simp [Template.keys, literals, weave, filler, request, hLook]
    | none =>
      have hLenient : p.failOnMissing = false := by
        cases hStrict : p.failOnMissing with
        | false => rfl
        | true =>
          have hSome := h key List.mem_cons_self hStrict
          rw [hLook] at hSome
          cases hSome
      have hFilled := ih (before ++ text ++ spell key) (asked.push ⟨key, false⟩) hRest
      simp only [fillAfter, resolver, hLook, hLenient, Bool.false_eq_true, if_false, hFilled]
      simp [Template.keys, literals, weave, filler, request, hLook]

theorem fillAfter_stopped (p : Policy) (hStrict : p.failOnMissing = true) (look : Lookup)
    (before : Text) (t : Template) (asked : Array Request) {earlier later : List Text} {key : Text}
    (hKeys : t.keys = earlier ++ key :: later) (hEarlier : ∀ k ∈ earlier, (look k).isSome)
    (hKey : look key = none) :
    (t.fillAfter (resolver p look) before asked).1 =
      .error ⟨key, before ++ weave t.literals (earlier.map (filler look))⟩ := by
  induction t generalizing before asked earlier with
  | literal text => simp [Template.keys] at hKeys
  | hole text name rest ih =>
    cases earlier with
    | nil =>
      obtain ⟨rfl, -⟩ := List.cons.inj hKeys
      simp [fillAfter, resolver, hKey, hStrict, literals, weave]
    | cons first earlier =>
      obtain ⟨rfl, hRest⟩ := List.cons.inj hKeys
      obtain ⟨value, hValue⟩ := Option.isSome_iff_exists.mp (hEarlier name List.mem_cons_self)
      have hFilled := ih (before ++ text ++ value) (asked.push ⟨name, true⟩) hRest
        (fun k hk => hEarlier k (List.mem_cons_of_mem _ hk))
      simp only [fillAfter, resolver, hValue, hFilled]
      simp [literals, weave, filler, hValue]

theorem unresolved_map_request (look : Lookup) (keys : List Text) :
    unresolved (keys.map (request look)) = keys.filter fun key => (look key).isNone := by
  induction keys with
  | nil => rfl
  | cons key keys ih =>
    cases hLook : look key <;> simp_all [unresolved, request]

theorem filter_isNone_eq_nil_iff (look : Lookup) (keys : List Text) :
    keys.filter (fun key => (look key).isNone) = [] ↔ ∀ key ∈ keys, (look key).isSome := by
  simp [List.filter_eq_nil_iff, Option.isSome_iff_ne_none]

/-- A line whose keys may all be answered is substituted, and the keys without a value are reported. -/
theorem substitute_answered (p : Policy) (look : Lookup) (line : Text)
    (h : ∀ key ∈ keys p.escapes line, p.failOnMissing = true → (look key).isSome) :
    substitute p look line =
      .ok ⟨weave (ofLine p.escapes line).literals ((keys p.escapes line).map (filler look)),
        (keys p.escapes line).filter fun key => (look key).isNone⟩ := by
  rw [keys_eq] at h ⊢
  rw [substitute, trace_eq_fill, fill, fillAfter_answered p look [] (ofLine p.escapes line) #[] h]
  simp [Except.map, unresolved_map_request]

theorem substitute_stopped (p : Policy) (hStrict : p.failOnMissing = true) (look : Lookup)
    (line : Text) {earlier later : List Text} {key : Text}
    (hKeys : keys p.escapes line = earlier ++ key :: later)
    (hEarlier : ∀ k ∈ earlier, (look k).isSome) (hKey : look key = none) :
    substitute p look line =
      .error ⟨key, weave (ofLine p.escapes line).literals (earlier.map (filler look))⟩ := by
  rw [keys_eq] at hKeys
  have hFilled :=
    fillAfter_stopped p hStrict look [] (ofLine p.escapes line) #[] hKeys hEarlier hKey
  rw [substitute, trace_eq_fill, fill]
  simp only [hFilled]
  rfl

end Interpolation.Line
