import Interpolation.Engine

/-!
# Layers of variables

A key is looked up through layers of variables from the uppermost down. That gives the value that a
single store has for it when the pairs of all layers are written into it from the lowest up. So a line
that is substituted with additional variables comes out as it does when they are added for good.
-/

namespace Interpolation

/-- Layers of pairs over a lookup, each over all that come before it. -/
def Lookup.layered (lower : Lookup) (layers : List (List (Text × Text))) : Lookup :=
  layers.foldl (fun lower pairs => Lookup.overlay (Store.ofPairs pairs).get? lower) lower

namespace Store

theorem get?_ofPairs_eq_none_iff (pairs : List (Text × Text)) (key : Text) :
    (ofPairs pairs).get? key = none ↔ ∀ pair ∈ pairs, pair.1 ≠ key := by
  rw [get?_ofPairs, List.lookup_eq_none_iff]
  simp only [List.mem_reverse, bne_iff_ne, ne_comm (a := key)]

theorem get?_ofPairs_append (lower upper : List (Text × Text)) (key : Text) :
    (ofPairs (lower ++ upper)).get? key =
      ((ofPairs upper).get? key).or ((ofPairs lower).get? key) := by
  rw [get?_ofPairs, get?_ofPairs, get?_ofPairs, List.reverse_append, List.lookup_append]

/-- A layer over a store and its pairs written into the store give the same values. -/
theorem overlay_get? (s : Store) (pairs : List (Text × Text)) :
    Lookup.overlay (ofPairs pairs).get? s.get? = (s.insertAll pairs).get? := by
  funext key
  rw [Lookup.overlay_apply, get?_ofPairs, get?_insertAll]

theorem layered_get? (s : Store) (layers : List (List (Text × Text))) :
    Lookup.layered s.get? layers = (s.insertAll layers.flatten).get? := by
  rw [Lookup.layered]
  induction layers generalizing s with
  | nil => rfl
  | cons pairs layers ih =>
    rw [List.foldl_cons, overlay_get?, ih, List.flatten_cons, insertAll_append]

/-- The uppermost layer that has the key gives its value. -/
theorem get?_ofPairs_flatten (layers : List (List (Text × Text))) (key : Text) :
    (ofPairs layers.flatten).get? key =
      layers.reverse.findSome? fun pairs => (ofPairs pairs).get? key := by
  induction layers with
  | nil => exact get?_empty key
  | cons pairs layers ih =>
    rw [List.flatten_cons, get?_ofPairs_append, ih, List.reverse_cons, List.findSome?_append]
    simp

theorem get?_ofPairs_flatten_eq_some_iff (layers : List (List (Text × Text))) (key value : Text) :
    (ofPairs layers.flatten).get? key = some value ↔
      ∃ lower pairs upper, layers = lower ++ pairs :: upper ∧
        (ofPairs pairs).get? key = some value ∧ ∀ layer ∈ upper, ∀ pair ∈ layer, pair.1 ≠ key := by
  rw [get?_ofPairs_flatten, List.findSome?_eq_some_iff]
  -- The layers are searched from the top, so the reversed list holds the upper ones in front.
  constructor
  · rintro ⟨upper, pairs, lower, hLayers, hValue, hUpper⟩
    refine ⟨lower.reverse, pairs, upper.reverse, ?_, hValue, ?_⟩
    · rw [← List.reverse_reverse layers, hLayers]
      simp
    · intro layer hLayer
      exact (get?_ofPairs_eq_none_iff layer key).mp (hUpper layer (List.mem_reverse.mp hLayer))
  · rintro ⟨lower, pairs, upper, rfl, hValue, hUpper⟩
    refine ⟨upper.reverse, pairs, lower.reverse, by simp, hValue, ?_⟩
    intro layer hLayer
    exact (get?_ofPairs_eq_none_iff layer key).mpr (hUpper layer (List.mem_reverse.mp hLayer))

/-- The pairs are the keys of the store with their values, in whatever order. -/
def ListedBy (s : Store) (pairs : List (Text × Text)) : Prop :=
  ∀ key value, (key, value) ∈ pairs ↔ s.get? key = some value

theorem lookup_reverse_of_listedBy {s : Store} {pairs : List (Text × Text)} (h : s.ListedBy pairs)
    (key : Text) : pairs.reverse.lookup key = s.get? key := by
  cases hLookup : pairs.reverse.lookup key with
  | some value =>
    obtain ⟨later, earlier, hPairs, -⟩ := List.lookup_eq_some_iff.mp hLookup
    have hMem : (key, value) ∈ pairs.reverse := by simp [hPairs]
    exact ((h key value).mp (List.mem_reverse.mp hMem)).symm
  | none =>
    cases hValue : s.get? key with
    | none => rfl
    | some value =>
      have hMem : (key, value) ∈ pairs.reverse := List.mem_reverse.mpr ((h key value).mpr hValue)
      simpa using List.lookup_eq_none_iff.mp hLookup _ hMem

end Store

namespace Engine

theorem substituteLineWith_eq (e : Engine) {extra pairs : List (Text × Text)}
    (h : ∀ key, pairs.reverse.lookup key = (Store.ofPairs extra).get? key) (line : Text) :
    e.substituteLineWith extra line = (e.addAll pairs).substituteLine line := by
  have hValues : Lookup.overlay (Store.ofPairs extra).get? e.store.get? =
      (e.store.insertAll pairs).get? := by
    funext key
    rw [Lookup.overlay_apply, ← h, Store.get?_insertAll]
  rw [substituteLineWith, Line.substituteWith, hValues]
  rfl

end Engine

/-- Looking a key up through layers is looking it up in one store of all their pairs: the uppermost
layer with the key decides. So additional variables count for a line as if they were added to the
engine, whether they are added as given or as their store lists them. -/
theorem layered_eq_flat :
    (∀ (base : List (Text × Text)) (layers : List (List (Text × Text))),
      let nested := Lookup.layered (Store.ofPairs base).get? layers
      nested = (Store.ofPairs (base :: layers).flatten).get? ∧
      (∀ key value, nested key = some value ↔
        ∃ lower pairs upper, base :: layers = lower ++ pairs :: upper ∧
          (Store.ofPairs pairs).get? key = some value ∧
          ∀ layer ∈ upper, ∀ pair ∈ layer, pair.1 ≠ key) ∧
      ∀ key, nested key = none ↔ ∀ layer ∈ base :: layers, ∀ pair ∈ layer, pair.1 ≠ key) ∧
    ∀ (e : Engine) (extra : List (Text × Text)) (line : Text),
      e.substituteLineWith extra line = (e.addAll extra).substituteLine line ∧
      ∀ pairs, (Store.ofPairs extra).ListedBy pairs →
        e.substituteLineWith extra line = (e.addAll pairs).substituteLine line := by
  constructor
  · intro base layers nested
    have hFlat : nested = (Store.ofPairs (base :: layers).flatten).get? := by
      rw [List.flatten_cons, Store.ofPairs, Store.insertAll_append]
      exact Store.layered_get? (Store.ofPairs base) layers
    rw [hFlat]
    refine ⟨rfl, Store.get?_ofPairs_flatten_eq_some_iff (base :: layers), ?_⟩
    intro key
    exact (Store.get?_ofPairs_eq_none_iff _ key).trans List.forall_mem_flatten
  · intro e extra line
    constructor
    · exact e.substituteLineWith_eq (fun key => (Store.get?_ofPairs extra key).symm) line
    · intro pairs hPairs
      exact e.substituteLineWith_eq (Store.lookup_reverse_of_listedBy hPairs) line

/-- Keys that several layers have, and an additional key with two pairs. -/
theorem layered_eq_flat_overlapping :
    let base : List (Text × Text) := [(['A'], ['1']), (['B'], ['2'])]
    let middle : List (Text × Text) := [(['B'], ['3']), (['B'], ['4'])]
    let nested := Lookup.layered (Store.ofPairs base).get? [middle, [(['A'], ['5'])]]
    let e : Engine := Engine.addAll {} base
    let line := "${A}${B}${C}".toList
    nested ['B'] = some ['4'] ∧ nested ['C'] = none ∧ (Store.ofPairs middle).ListedBy [(['B'], ['4'])] ∧
      e.substituteLineWith middle line = .error ⟨['C'], ['1', '4']⟩ ∧
      (e.addAll [(['B'], ['4'])]).substituteLine line = .error ⟨['C'], ['1', '4']⟩ := by
  intro base middle nested e line
  obtain ⟨hNested, hEngines⟩ := layered_eq_flat
  obtain ⟨-, hSome, hNone⟩ := hNested base [middle, [(['A'], ['5'])]]
  have hListed : (Store.ofPairs middle).ListedBy [(['B'], ['4'])] := by
    intro key value
    rw [Store.get?_ofPairs]
    by_cases hKey : key = ['B']
    · simp [middle, hKey, eq_comm]
    · simp [middle, List.lookup_cons, hKey, beq_false_of_ne hKey]
  have hAdded :
      (e.addAll [(['B'], ['4'])]).substituteLine line = .error ⟨['C'], ['1', '4']⟩ := by rfl
  refine ⟨(hSome _ _).mpr ⟨[base], middle, [[(['A'], ['5'])]], rfl, rfl, by decide⟩,
    (hNone _).mpr (by decide), hListed, ?_, hAdded⟩
  exact ((hEngines e middle line).2 _ hListed).trans hAdded

end Interpolation
