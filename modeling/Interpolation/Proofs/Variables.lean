import Mathlib.Data.List.Nodup
import Interpolation.Command.Run

/-!
# The variables of a run

A run knows the variables that are assigned to and, unless it leaves it aside, those of its
environment. The last assignment to a key counts, and before any value in the environment. There a
key has a value if both can be read.
-/

namespace Interpolation

namespace Environment

/-- The value of the last entry that has the key for its name and a text for its value. -/
def text? (env : Environment) : Lookup := fun key =>
  env.found.reverse.findSome? fun entry =>
    if entry.1 = Utf8.encode key then Utf8.decode? entry.2 else none

theorem lookup_reverse_readable (env : Environment) (key : Text) :
    env.readable.reverse.lookup key = env.text? key := by
  rw [readable, text?, ← List.filterMap_reverse]
  induction env.found.reverse with
  | nil => rfl
  | cons entry entries ih =>
    obtain ⟨name, value⟩ := entry
    rw [List.filterMap_cons, List.findSome?_cons]
    cases hName : Utf8.decode? name with
    | none =>
      have hNe : name ≠ Utf8.encode key := by
        rintro rfl
        rw [Utf8.decode?_encode] at hName
        cases hName
      simpa [hName, hNe] using ih
    | some given =>
      obtain rfl := Utf8.decode?_eq_some_iff.mp hName
      by_cases hKey : given = key
      · subst hKey
        cases hValue : Utf8.decode? value with
        | none => simpa [hValue] using ih
        | some text => simp [hValue]
      · have hNe : Utf8.encode given ≠ Utf8.encode key := fun hEq => hKey (Utf8.encode_injective hEq)
        have hBeq : (key == given) = false := by simpa using fun hEq : key = given => hKey hEq.symm
        cases hValue : Utf8.decode? value with
        | none => simpa [hValue, hNe] using ih
        | some text => simpa [hValue, hNe, List.lookup_cons, hBeq] using ih

end Environment

namespace Command

/-- The last assignment to a key counts; without one the environment does, if it is used. -/
def bindings (assigned : List Assignment) (useEnvironment : Bool) (env : Environment) : Lookup :=
  fun key =>
    ((assigned.filter fun a => a.key = key).getLast?.map Assignment.value).or
      (if useEnvironment then env.text? key else none)

theorem lookup_reverse_assigned (assigned : List Assignment) (key : Text) :
    (assigned.map fun a => (a.key, a.value)).reverse.lookup key =
      (assigned.filter fun a => a.key = key).getLast?.map Assignment.value := by
  rw [List.getLast?_eq_head?_reverse, ← List.filter_reverse, List.head?_filter, ← List.map_reverse]
  induction assigned.reverse with
  | nil => rfl
  | cons a assigned ih =>
    rw [List.map_cons, List.lookup_cons, List.find?_cons]
    by_cases hKey : a.key = key
    · simp [hKey]
    · have hBeq : (key == a.key) = false := by simpa using fun hEq : key = a.key => hKey hEq.symm
      simpa [hKey, hBeq] using ih

theorem get?_engine (o : Options) (env : Environment) :
    (o.engine env).store.get? = bindings o.assignments o.environment env := by
  funext key
  have hAdded : ∀ e : Engine,
      (e.addAll (o.assignments.map fun a => (a.key, a.value))).store.get? key =
        ((o.assignments.filter fun a => a.key = key).getLast?.map Assignment.value).or
          (e.store.get? key) := by
    intro e
    rw [Engine.addAll, Store.get?_insertAll, lookup_reverse_assigned]
  rw [Options.engine, hAdded, bindings]
  congr 1
  cases o.environment with
  | false => simp
  | true =>
    rw [if_pos rfl, if_pos rfl, Engine.ofEnvironment, Store.ofEnvironment, Store.get?_ofPairs,
      Environment.lookup_reverse_readable]

end Command

end Interpolation
