import Std.Data.TreeMap
import Interpolation.Environment
import Interpolation.Lookup

/-!
# Stores of variables

A store holds one value for each of its keys: the value written last. `get?_insertAll` says this of
a whole list of pairs. A store can be filled from the readable part of an environment.
-/

namespace Interpolation

structure Store where
  entries : Std.TreeMap Text Text := ∅

namespace Store

def get? (s : Store) : Lookup :=
  fun key => s.entries[key]?

def insert (s : Store) (key value : Text) : Store :=
  ⟨s.entries.insert key value⟩

def insertAll (s : Store) (pairs : List (Text × Text)) : Store :=
  pairs.foldl (fun s pair => s.insert pair.1 pair.2) s

def ofPairs (pairs : List (Text × Text)) : Store :=
  insertAll {} pairs

def ofEnvironment (env : Environment) : Store :=
  ofPairs env.readable

@[simp] theorem get?_empty (key : Text) : get? {} key = none := by
  simp [get?]

theorem get?_insert (s : Store) (key value asked : Text) :
    (s.insert key value).get? asked = if key = asked then some value else s.get? asked := by
  simp [get?, insert, Std.TreeMap.getElem?_insert]

@[simp] theorem insertAll_nil (s : Store) : s.insertAll [] = s := rfl

@[simp] theorem insertAll_cons (s : Store) (key value : Text) (pairs : List (Text × Text)) :
    s.insertAll ((key, value) :: pairs) = (s.insert key value).insertAll pairs := rfl

theorem insertAll_append (s : Store) (left right : List (Text × Text)) :
    s.insertAll (left ++ right) = (s.insertAll left).insertAll right := by
  simp [insertAll]

/-- The last pair of a key decides; a key without a pair keeps the value it had. -/
theorem get?_insertAll (s : Store) (pairs : List (Text × Text)) (key : Text) :
    (s.insertAll pairs).get? key = (pairs.reverse.lookup key).or (s.get? key) := by
  induction pairs generalizing s with
  | nil => simp
  | cons pair pairs ih =>
    obtain ⟨name, value⟩ := pair
    rw [insertAll_cons, ih, get?_insert, List.reverse_cons, List.lookup_append,
      List.lookup_singleton, Option.or_assoc]
    congr 1
    by_cases h : name = key
    · simp [h]
    · have hBeq : (key == name) = false := by simpa using fun h' : key = name => h h'.symm
      simp [h, hBeq]

theorem get?_ofPairs (pairs : List (Text × Text)) (key : Text) :
    (ofPairs pairs).get? key = pairs.reverse.lookup key := by
  rw [ofPairs, get?_insertAll, get?_empty, Option.or_none]

end Store

end Interpolation
