import Mathlib.Data.List.Induction
import Interpolation.Engine

/-!
# Histories of engines

A history makes engines, adds variables to them and asks them for substitutions, in any order. A copy
descends from the engine that it was made of, as that one was at the time. An engine answers like a
fresh one with the pairs of its line of descent, of which the last for a key counts. So no other part
of the history leaves a trace: not what was added to its origin after the copy, not what was added to
other engines, and not what was asked before.
-/

namespace Interpolation

inductive Query where
  | line (text : Text)
  | lineWith (extra : List (Text × Text)) (text : Text)
  | stream (source : Stream.Source) (outlets : Stream.Outlets)

inductive Answer where
  | line (result : Except Placeholder.Gap Line.Substitution)
  | stream (result : Except Fault Totals) (left : Stream.Outlets)

namespace Engine

def answer (e : Engine) : Query → Answer
  | .line text => .line (e.substituteLine text)
  | .lineWith extra text => .line (e.substituteLineWith extra text)
  | .stream source outlets =>
    let (result, left) := (e.substituteStream source).perform outlets
    .stream result left

/-- The engine has the policy, and for each key the value of its last pair. -/
structure Holds (e : Engine) (p : Policy) (pairs : List (Text × Text)) : Prop where
  policy : e.policy = p
  values : ∀ key, e.store.get? key = pairs.reverse.lookup key

variable {e : Engine} {p : Policy} {pairs : List (Text × Text)}

theorem holds_addAll (h : e.Holds p pairs) (more : List (Text × Text)) :
    (e.addAll more).Holds p (pairs ++ more) where
  policy := h.policy
  values key := by
    rw [addAll, Store.get?_insertAll, h.values, List.reverse_append, List.lookup_append]

theorem holds_create (p : Policy) : Holds { policy := p } p [] where
  policy := rfl
  values := Store.get?_empty

theorem holds_ofEnvironment (p : Policy) (env : Environment) :
    (ofEnvironment p env).Holds p env.readable :=
  holds_addAll (holds_create p) env.readable

/-- Nothing but the policy and the values of the keys shows in an answer. -/
theorem answer_eq_of_holds {other : Engine} (h : e.Holds p pairs) (hOther : other.Holds p pairs)
    (q : Query) : e.answer q = other.answer q := by
  have hPolicy : e.policy = other.policy := h.policy.trans hOther.policy.symm
  have hValues : e.store.get? = other.store.get? := by
    funext key
    rw [h.values, hOther.values]
  cases q with
  | line text => rw [answer, answer, substituteLine, substituteLine, hPolicy, hValues]
  | lineWith extra text =>
    rw [answer, answer, substituteLineWith, substituteLineWith, hPolicy, hValues]
  | stream source outlets =>
    rw [answer, answer, substituteStream, substituteStream, hPolicy, hValues]

end Engine

/-- Engines have numbers, in the order of their making. -/
inductive Operation where
  | create (p : Policy)
  | createFrom (p : Policy) (env : Environment)
  | copy (origin : Nat)
  | add (number : Nat) (key value : Text)
  | addAll (number : Nat) (pairs : List (Text × Text))
  | ask (number : Nat) (q : Query)

namespace Operation

def perform (engines : List Engine) : Operation → List Engine
  | create p => engines ++ [{ policy := p }]
  | createFrom p env => engines ++ [Engine.ofEnvironment p env]
  | copy origin => engines ++ engines[origin]?.toList
  | add number key value => engines.modify number fun e => e.add key value
  | addAll number pairs => engines.modify number fun e => e.addAll pairs
  | ask _ _ => engines

def answer? (engines : List Engine) : Operation → Option Answer
  | ask number q => engines[number]?.map fun e => e.answer q
  | _ => none

/-- The number of engines after the operation, of which there are some before. -/
def count (made : Nat) : Operation → Nat
  | create _ | createFrom _ _ => made + 1
  | copy origin => if origin < made then made + 1 else made
  | add _ _ _ | addAll _ _ | ask _ _ => made

/-- The pairs that the operation adds to the engine of a number. -/
def pairsFor (number : Nat) : Operation → List (Text × Text)
  | add target key value => if target = number then [(key, value)] else []
  | addAll target pairs => if target = number then pairs else []
  | create _ | createFrom _ _ | copy _ | ask _ _ => []

end Operation

abbrev History := List Operation

namespace History

def family (history : History) : List Engine :=
  history.foldl Operation.perform []

/-- The answers of the operations, each by the engines as the operation finds them. -/
def answersFrom (engines : List Engine) : History → List (Option Answer)
  | [] => []
  | op :: history => op.answer? engines :: answersFrom (op.perform engines) history

def answers (history : History) : List (Option Answer) :=
  answersFrom [] history

def made (history : History) : Nat :=
  history.foldl Operation.count 0

def pairsFor (number : Nat) (history : History) : List (Text × Text) :=
  history.flatMap (Operation.pairsFor number)

/-- The policy and the pairs that the line of descent of an engine brings to it. -/
inductive Descends : History → Nat → Policy → List (Text × Text) → Prop where
  | create (before : History) (p : Policy) (after : History) :
    Descends (before ++ .create p :: after) (made before) p (pairsFor (made before) after)
  | createFrom (before : History) (p : Policy) (env : Environment) (after : History) :
    Descends (before ++ .createFrom p env :: after) (made before) p
      (env.readable ++ pairsFor (made before) after)
  | copy {before : History} {origin : Nat} {p : Policy} {pairs : List (Text × Text)}
    (h : Descends before origin p pairs) (after : History) :
    Descends (before ++ .copy origin :: after) (made before) p
      (pairs ++ pairsFor (made before) after)

theorem answersFrom_getElem? (engines : List Engine) (history : History) (n : Nat) :
    (answersFrom engines history)[n]? =
      history[n]?.map fun op => op.answer? ((history.take n).foldl Operation.perform engines) := by
  induction history generalizing engines n with
  | nil => rfl
  | cons op history ih =>
    cases n with
    | zero => rfl
    | succ n => exact ih (op.perform engines) n

theorem family_concat (history : History) (op : Operation) :
    family (history ++ [op]) = op.perform (family history) := by
  rw [family, List.foldl_append]
  rfl

theorem made_concat (history : History) (op : Operation) :
    made (history ++ [op]) = op.count (made history) := by
  rw [made, List.foldl_append]
  rfl

theorem pairsFor_concat (number : Nat) (history : History) (op : Operation) :
    pairsFor number (history ++ [op]) = pairsFor number history ++ op.pairsFor number := by
  rw [pairsFor, List.flatMap_append, List.flatMap_singleton]
  rfl

theorem length_perform (engines : List Engine) (op : Operation) :
    (op.perform engines).length = op.count engines.length := by
  cases op with
  | create p => simp [Operation.perform, Operation.count]
  | createFrom p env => simp [Operation.perform, Operation.count]
  | copy origin =>
    rw [Operation.perform, Operation.count, List.length_append]
    split
    · rename_i hMade
      rw [List.getElem?_eq_getElem hMade]
      rfl
    · rename_i hMissing
      rw [List.getElem?_eq_none (Nat.le_of_not_lt hMissing)]
      rfl
  | add number key value => simp [Operation.perform, Operation.count]
  | addAll number pairs => simp [Operation.perform, Operation.count]
  | ask number q => rfl

theorem length_family (history : History) : (family history).length = made history := by
  induction history using List.reverseRecOn with
  | nil => rfl
  | append_singleton history op ih =>
    rw [family_concat, made_concat, length_perform, ih]

/-- The engine of a number has the policy and the pairs. -/
def Gives (engines : List Engine) (number : Nat) (p : Policy) (pairs : List (Text × Text)) : Prop :=
  ∃ e, engines[number]? = some e ∧ e.Holds p pairs

variable {engines : List Engine} {number : Nat} {p : Policy} {pairs : List (Text × Text)}

theorem gives_new (engines : List Engine) {e : Engine} (h : e.Holds p pairs) :
    Gives (engines ++ [e]) engines.length p pairs :=
  ⟨e, List.getElem?_concat_length, h⟩

theorem gives_append (h : Gives engines number p pairs) (others : List Engine) :
    Gives (engines ++ others) number p pairs := by
  obtain ⟨e, hEngine, hHolds⟩ := h
  have hNumber := (List.getElem?_eq_some_iff.mp hEngine).1
  exact ⟨e, (List.getElem?_append_left hNumber).trans hEngine, hHolds⟩

theorem gives_modify (h : Gives engines number p pairs) (target : Nat) (more : List (Text × Text)) :
    Gives (engines.modify target fun e => e.addAll more) number p
      (pairs ++ if target = number then more else []) := by
  obtain ⟨e, hEngine, hHolds⟩ := h
  rw [Gives, List.getElem?_modify, hEngine]
  split
  · exact ⟨e.addAll more, rfl, Engine.holds_addAll hHolds more⟩
  · rw [List.append_nil]
    exact ⟨e, rfl, hHolds⟩

/-- An operation adds its pairs for an engine, and nothing else, to what the engine has. -/
theorem gives_perform (h : Gives engines number p pairs) (op : Operation) :
    Gives (op.perform engines) number p (pairs ++ op.pairsFor number) := by
  cases op with
  | create q =>
    rw [Operation.pairsFor, List.append_nil]
    exact gives_append h _
  | createFrom q env =>
    rw [Operation.pairsFor, List.append_nil]
    exact gives_append h _
  | copy origin =>
    rw [Operation.pairsFor, List.append_nil]
    exact gives_append h _
  | add target key value => exact gives_modify h target [(key, value)]
  | addAll target more => exact gives_modify h target more
  | ask target q =>
    rw [Operation.pairsFor, List.append_nil]
    exact h

theorem gives_foldl (h : Gives engines number p pairs) (after : History) :
    Gives (after.foldl Operation.perform engines) number p (pairs ++ pairsFor number after) := by
  induction after generalizing engines pairs with
  | nil =>
    rw [pairsFor, List.flatMap_nil, List.append_nil]
    exact h
  | cons op after ih =>
    rw [pairsFor, List.flatMap_cons, ← List.append_assoc]
    exact ih (gives_perform h op)

/-- An engine has what its line of descent brings to it. -/
theorem gives_of_descends {history : History} (h : Descends history number p pairs) :
    Gives (family history) number p pairs := by
  induction h with
  | create before p after =>
    rw [family, List.foldl_append, ← length_family]
    exact gives_foldl (gives_new _ (Engine.holds_create p)) after
  | createFrom before p env after =>
    rw [family, List.foldl_append, ← length_family]
    exact gives_foldl (gives_new _ (Engine.holds_ofEnvironment p env)) after
  | @copy before origin p pairs hOrigin after ih =>
    obtain ⟨e, hEngine, hHolds⟩ := ih
    have hCopy : (Operation.copy origin).perform (family before) = family before ++ [e] := by
      rw [Operation.perform, hEngine, Option.toList_some]
    rw [family, List.foldl_append, List.foldl_cons, ← family, hCopy, ← length_family]
    exact gives_foldl (gives_new _ hHolds) after

theorem descends_concat {history : History} (h : Descends history number p pairs) (op : Operation) :
    Descends (history ++ [op]) number p (pairs ++ op.pairsFor number) := by
  cases h with
  | create before p after =>
    rw [List.append_assoc, List.cons_append, ← pairsFor_concat]
    exact .create before p (after ++ [op])
  | createFrom before p env after =>
    rw [List.append_assoc, List.append_assoc, List.cons_append, ← pairsFor_concat]
    exact .createFrom before p env (after ++ [op])
  | copy hOrigin after =>
    rw [List.append_assoc, List.append_assoc, List.cons_append, ← pairsFor_concat]
    exact .copy hOrigin (after ++ [op])

/-- An operation that makes an engine begins its line of descent. -/
theorem exists_descends_made {history : History} {op : Operation}
    (hMade : made history < op.count (made history))
    (hOrigin : ∀ origin < made history, ∃ p pairs, Descends history origin p pairs) :
    ∃ p pairs, Descends (history ++ [op]) (made history) p pairs := by
  cases op with
  | create p => exact ⟨p, _, .create history p []⟩
  | createFrom p env => exact ⟨p, _, .createFrom history p env []⟩
  | copy origin =>
    rw [Operation.count] at hMade
    split at hMade
    · rename_i hOld
      obtain ⟨p, pairs, hDescends⟩ := hOrigin origin hOld
      exact ⟨p, _, .copy hDescends []⟩
    · exact absurd hMade (Nat.lt_irrefl _)
  | add target key value => exact absurd hMade (Nat.lt_irrefl _)
  | addAll target pairs => exact absurd hMade (Nat.lt_irrefl _)
  | ask target q => exact absurd hMade (Nat.lt_irrefl _)

theorem count_le (op : Operation) (n : Nat) : op.count n ≤ n + 1 := by
  cases op with
  | copy origin =>
    rw [Operation.count]
    split <;> omega
  | _ => simp [Operation.count]

theorem exists_descends {history : History} (h : number < made history) :
    ∃ p pairs, Descends history number p pairs := by
  induction history using List.reverseRecOn generalizing number with
  | nil => cases h
  | append_singleton history op ih =>
    by_cases hOld : number < made history
    · obtain ⟨p, pairs, hDescends⟩ := ih hOld
      exact ⟨p, _, descends_concat hDescends op⟩
    · rw [made_concat] at h
      have hNew : number = made history := by
        have hCount := count_le op (made history)
        omega
      subst hNew
      exact exists_descends_made h fun origin hOrigin => ih hOrigin

/-- An engine answers like any that has the policy and the last pairs of its line of descent. -/
theorem answers_of_descends {history : History} {n number : Nat} {q : Query}
    (hAsk : history[n]? = some (.ask number q)) (hMade : number < made (history.take n)) :
    (∃ p pairs, Descends (history.take n) number p pairs) ∧
      ∀ p pairs, Descends (history.take n) number p pairs →
        (Engine.addAll { policy := p } pairs).Holds p pairs ∧
          ∀ fresh : Engine, fresh.Holds p pairs →
            (answers history)[n]? = some (some (fresh.answer q)) := by
  refine ⟨exists_descends hMade, ?_⟩
  intro p pairs hDescends
  refine ⟨Engine.holds_addAll (Engine.holds_create p) pairs, ?_⟩
  intro fresh hFresh
  obtain ⟨e, hEngine, hHolds⟩ := gives_of_descends hDescends
  have hAnswer : (Operation.ask number q).answer? (family (history.take n)) =
      some (fresh.answer q) := by
    rw [Operation.answer?, hEngine, Option.map_some, Engine.answer_eq_of_holds hHolds hFresh]
  rw [answers, answersFrom_getElem?, hAsk, Option.map_some, ← hAnswer]
  rfl

/-- What is added to the origin of a copy does not reach it, and of its own pairs the last counts. -/
theorem answers_of_descends_copied :
    let q : Query := .line "${A}${B}".toList
    let history : History :=
      [.create {}, .add 0 ['A'] ['1'], .copy 0, .add 0 ['A'] ['2'],
        .addAll 1 [(['B'], ['3']), (['B'], ['4'])], .ask 0 q, .ask 1 q]
    let pairs : List (Text × Text) := [(['A'], ['1']), (['B'], ['3']), (['B'], ['4'])]
    Descends (history.take 6) 1 {} pairs ∧
      (answers history)[6]? = some (some (.line (.ok ⟨['1', '4'], []⟩))) := by
  intro q history pairs
  have hDescends : Descends (history.take 6) 1 {} pairs :=
    .copy (.create [] {} [.add 0 ['A'] ['1']])
      [.add 0 ['A'] ['2'], .addAll 1 [(['B'], ['3']), (['B'], ['4'])], .ask 0 q]
  have hAnswer : (Engine.addAll {} pairs).answer q = .line (.ok ⟨['1', '4'], []⟩) := by rfl
  have hAsk : history[6]? = some (.ask 1 q) := rfl
  obtain ⟨-, hAnswers⟩ := answers_of_descends hAsk (by decide)
  obtain ⟨hHolds, hFresh⟩ := hAnswers {} pairs hDescends
  exact ⟨hDescends, hAnswer ▸ hFresh _ hHolds⟩

end History

end Interpolation
