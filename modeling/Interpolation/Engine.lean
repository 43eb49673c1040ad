import Interpolation.Store
import Interpolation.Stream

/-!
# Engines

An engine is a policy with a store of variables. Adding variables gives a new engine and leaves the
old one as it was, so a copy of an engine has a life of its own.
-/

namespace Interpolation

structure Engine where
  policy : Policy := {}
  store : Store := {}

namespace Engine

def ofEnvironment (p : Policy) (env : Environment) : Engine :=
  ⟨p, Store.ofEnvironment env⟩

def add (e : Engine) (key value : Text) : Engine :=
  ⟨e.policy, e.store.insert key value⟩

def addAll (e : Engine) (pairs : List (Text × Text)) : Engine :=
  ⟨e.policy, e.store.insertAll pairs⟩

def substituteLine (e : Engine) (line : Text) : Except Placeholder.Gap Line.Substitution :=
  Line.substitute e.policy e.store.get? line

/-- Substitutes a line with additional variables, which count for this line only. -/
def substituteLineWith (e : Engine) (extra : List (Text × Text)) (line : Text) :
    Except Placeholder.Gap Line.Substitution :=
  Line.substituteWith e.policy e.store.get? (Store.ofPairs extra).get? line

def substituteStream (e : Engine) (source : Stream.Source) : Stream.Run Totals :=
  Stream.substitute e.policy e.store.get? source

end Engine

end Interpolation
