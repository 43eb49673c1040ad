import Interpolation.Store
import Interpolation.Proofs.Listing

/-!
# The variables that a stream depends on

A line looks up the keys of its placeholders and nothing else, so lookups that agree on these keys
lead to the same run. The keys of a whole stream are those that its listing writes: a variable that
is not listed leaves no trace, wherever it comes from.
-/

namespace Interpolation

open Placeholder Template

namespace Line

theorem fillAfter_congr (p : Policy) {look other : Lookup} (before : Text) (t : Template)
    (asked : Array Request) (h : ∀ key ∈ t.keys, look key = other key) :
    t.fillAfter (resolver p look) before asked = t.fillAfter (resolver p other) before asked := by
  induction t generalizing before asked with
  | literal text => rfl
  | hole text key rest ih =>
    have hKey : resolver p look key asked = resolver p other key asked := by
      rw [resolver, resolver, h key List.mem_cons_self]
    have hRest : ∀ key ∈ rest.keys, look key = other key :=
      fun key hKey => h key (List.mem_cons_of_mem _ hKey)
    rw [fillAfter, fillAfter, hKey]
    cases hAnswer : resolver p other key asked with
    | mk answer asked' =>
      cases answer with
      | value value => exact ih (before ++ text ++ value) asked' hRest
      | missing reported => rfl

theorem trace_congr (p : Policy) {look other : Lookup} {line : Text}
    (h : ∀ key ∈ keys p.escapes line, look key = other key) :
    trace p look line = trace p other line := by
  rw [keys_eq] at h
  rw [trace_eq_fill, trace_eq_fill, fill, fill, fillAfter_congr p [] _ #[] h]

end Line

theorem lookup_filter_mem {keys : List Text} {key : Text} (h : key ∈ keys)
    (pairs : List (Text × Text)) :
    (pairs.filter fun pair => pair.1 ∈ keys).lookup key = pairs.lookup key := by
  induction pairs with
  | nil => rfl
  | cons pair pairs ih =>
    obtain ⟨name, value⟩ := pair
    by_cases hName : name ∈ keys
    · rw [List.filter_cons_of_pos (by simpa using hName), List.lookup_cons, List.lookup_cons, ih]
    · have hNe : key ≠ name := fun hEq => hName (hEq ▸ h)
      rw [List.filter_cons_of_neg (by simpa using hName), ih, List.lookup_cons, beq_false_of_ne hNe]

/-- The value of a key comes from the pairs that are left when those of other keys are dropped. -/
theorem Store.get?_insertAll_congr {s s' : Store} {pairs pairs' : List (Text × Text)}
    {keys : List Text} {key : Text} (hKey : key ∈ keys) (hStore : s.get? key = s'.get? key)
    (hPairs : (pairs.filter fun pair => pair.1 ∈ keys) = pairs'.filter fun pair => pair.1 ∈ keys) :
    (s.insertAll pairs).get? key = (s'.insertAll pairs').get? key := by
  have hReverse := congrArg List.reverse hPairs
  rw [← List.filter_reverse, ← List.filter_reverse] at hReverse
  rw [get?_insertAll, get?_insertAll, ← lookup_filter_mem hKey pairs.reverse, hReverse,
    lookup_filter_mem hKey, hStore]

namespace Stream

theorem substituteLine_congr (p : Policy) {look other : Lookup} (number : Nat) {line : Text}
    (h : ∀ key ∈ keys p.escapes line, look key = other key) :
    substituteLine p look number line = substituteLine p other number line := by
  rw [substituteLine, substituteLine, Line.trace_congr p h]

theorem substituteLines_congr (p : Policy) {look other : Lookup} (lines : List (Except Fault Text))
    (totals : Totals) (h : ∀ key ∈ (heard lines).flatMap (keys p.escapes), look key = other key) :
    substituteLines p look lines totals = substituteLines p other lines totals := by
  induction lines generalizing totals with
  | nil => rfl
  | cons item lines ih =>
    cases item with
    | error fault => rfl
    | ok line =>
      have hLine : ∀ key ∈ keys p.escapes line, look key = other key :=
        fun key hKey => h key (List.mem_append_left _ hKey)
      have hLines : ∀ key ∈ (heard lines).flatMap (keys p.escapes), look key = other key :=
        fun key hKey => h key (List.mem_append_right _ hKey)
      rw [substituteLines, substituteLines, substituteLine_congr p _ hLine]
      congr 1
      funext warnings
      exact ih _ hLines

/-- Additional variables count before assigned ones, and these before the environment. -/
def layers (env : Environment) (assigned extra : List (Text × Text)) : Lookup :=
  Lookup.overlay (Store.ofPairs extra).get? ((Store.ofEnvironment env).insertAll assigned).get?

/-- A run depends on the listed keys alone: on nothing else of its lookup, and so on no variable of
another name in the environment, among the assigned variables or among the additional ones. -/
theorem substitute_footprint (p : Policy) (source : Source) (o : Outlets) :
    let listed := listedKeys p.escapes source
    (∀ look other : Lookup, (∀ key ∈ listed, look key = other key) →
      Run.perform (substitute p look source) o = Run.perform (substitute p other source) o) ∧
    ∀ (env env' : Environment) (assigned assigned' extra extra' : List (Text × Text)),
      (env.readable.filter fun pair => pair.1 ∈ listed) =
        (env'.readable.filter fun pair => pair.1 ∈ listed) →
      (assigned.filter fun pair => pair.1 ∈ listed) =
        (assigned'.filter fun pair => pair.1 ∈ listed) →
      (extra.filter fun pair => pair.1 ∈ listed) =
        (extra'.filter fun pair => pair.1 ∈ listed) →
      Run.perform (substitute p (layers env assigned extra) source) o =
        Run.perform (substitute p (layers env' assigned' extra') source) o := by
  intro listed
  have hAgree : ∀ look other : Lookup, (∀ key ∈ listed, look key = other key) →
      Run.perform (substitute p look source) o = Run.perform (substitute p other source) o := by
    intro look other h
    have hListed : listed = (heard source.lines).flatMap (keys p.escapes) :=
      listedKeys_eq p.escapes source
    rw [hListed] at h
    rw [substitute, substitute, substituteLines_congr p source.lines {} h]
  refine ⟨hAgree, ?_⟩
  intro env env' assigned assigned' extra extra' hEnv hAssigned hExtra
  apply hAgree
  intro key hKey
  rw [layers, layers, Lookup.overlay_apply, Lookup.overlay_apply, Store.ofPairs,
    Store.ofPairs, Store.get?_insertAll_congr hKey rfl hExtra]
  congr 1
  exact Store.get?_insertAll_congr hKey (Store.get?_insertAll_congr hKey rfl hEnv) hAssigned

/-- An assignment to a key that is not listed changes nothing. -/
theorem substitute_footprint_unlisted :
    let source := Source.ofText "${A}".toList
    let look := layers [] [(['A'], ['1'])] []
    let other := layers [] [(['A'], ['1']), (['B'], ['2'])] []
    listedKeys true source = [['A']] ∧
      Run.perform (substitute {} look source) {} = Run.perform (substitute {} other source) {} := by
  intro source look other
  have hListed : listedKeys true source = [['A']] := by
    rw [listedKeys_ofText]
    decide
  refine ⟨hListed, (substitute_footprint {} source {}).2 [] [] _ _ [] [] rfl ?_ rfl⟩
  dsimp only
  rw [hListed]
  decide

end Stream

end Interpolation
