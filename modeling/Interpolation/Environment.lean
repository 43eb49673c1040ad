import Interpolation.Text.Utf8

/-!
# Environments

An environment is a list of names with their values, all octets. Of several values of one name the
last counts (`lookup_latest`), also where it cannot be read. An entry is handed over as `name=value`
and is cut again at its first equals sign, but one that opens the entry belongs to the name:
`cut?_entry` says when the cut gives back both parts.
-/

namespace Interpolation

abbrev Environment := List (Bytes × Bytes)

namespace Environment

def equalsSign : UInt8 := 0x3D

def entry (name value : Bytes) : Bytes :=
  name ++ equalsSign :: value

/-- An entry that has an equals sign nowhere but in front has no name. -/
def cut? : Bytes → Option (Bytes × Bytes)
  | [] => none
  | first :: rest =>
    match rest.dropWhile (· ≠ equalsSign) with
    | [] => none
    | _ :: value => some (first :: rest.takeWhile (· ≠ equalsSign), value)

/-- The values that no later one of the same name replaces. -/
def latest : Environment → Environment
  | [] => []
  | (name, value) :: env =>
    if env.any fun later => later.1 = name then latest env else (name, value) :: latest env

def found (env : Environment) : Environment :=
  env.latest.filterMap fun (name, value) => cut? (entry name value)

def value? (env : Environment) (name : Bytes) : Option Bytes :=
  env.found.reverse.lookup name

def readable (env : Environment) : List (Text × Text) :=
  env.found.filterMap fun (name, value) => do
    let name ← Utf8.decode? name
    let value ← Utf8.decode? value
    return (name, value)

/-- A name has the value that stands last. -/
theorem lookup_latest (env : Environment) (name : Bytes) :
    env.latest.lookup name = env.reverse.lookup name := by
  induction env with
  | nil => rfl
  | cons item env ih =>
    obtain ⟨given, value⟩ := item
    rw [latest, List.reverse_cons, List.lookup_append, List.lookup_singleton]
    by_cases hName : name = given
    · subst hName
      split
      · rename_i hLater
        obtain ⟨later, hMem, hEq⟩ := List.any_eq_true.mp hLater
        have hSome : env.reverse.lookup name ≠ none := by
          intro hNone
          have hNe := List.lookup_eq_none_iff.mp hNone later (by simpa using hMem)
          simp [of_decide_eq_true hEq] at hNe
        obtain ⟨found, hFound⟩ := Option.ne_none_iff_exists'.mp hSome
        rw [ih, hFound, Option.some_or]
      · rename_i hLater
        have hNone : env.reverse.lookup name = none := by
          rw [List.lookup_eq_none_iff]
          intro later hMem
          have hNe : ¬later.1 = name := by
            intro hEq
            exact hLater (List.any_eq_true.mpr ⟨later, by simpa using hMem, by simpa using hEq⟩)
          simpa using fun hEq : name = later.1 => hNe hEq.symm
        rw [hNone, Option.none_or, List.lookup_cons_self]
        simp
    · have hBeq : (name == given) = false := by simpa using hName
      rw [hBeq]
      split
      · simpa using ih
      · rw [List.lookup_cons, hBeq]
        simpa using ih

theorem cut?_entry (first : UInt8) (name value : Bytes) (h : equalsSign ∉ name) :
    cut? (entry (first :: name) value) = some (first :: name, value) := by
  have hName : ∀ b ∈ name, (decide (b ≠ equalsSign)) = true := by
    intro b hb
    simpa using fun hEq : b = equalsSign => h (hEq ▸ hb)
  have hDrop : (name ++ equalsSign :: value).dropWhile (· ≠ equalsSign) = equalsSign :: value := by
    rw [List.dropWhile_append_of_pos hName, List.dropWhile_cons_of_neg (by simp)]
  have hTake : (name ++ equalsSign :: value).takeWhile (· ≠ equalsSign) = name := by
    rw [List.takeWhile_append_of_pos hName, List.takeWhile_cons_of_neg (by simp), List.append_nil]
  simp only [entry, List.cons_append, cut?, hDrop, hTake]

end Environment

end Interpolation
