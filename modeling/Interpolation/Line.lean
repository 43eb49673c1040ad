import Interpolation.Policy
import Interpolation.Lookup
import Interpolation.Record

/-!
# Substituting one line

Every placeholder of a line is replaced by the value of its key. Under a strict policy the first key
without a value stops the line; under a lenient one its placeholder stays and the key is reported. A
line without a dollar is not scanned at all.
-/

namespace Interpolation.Line

open Placeholder

/-- A key that was looked up, and whether it had a value. -/
structure Request where
  key : Text
  found : Bool
  deriving DecidableEq, Repr

/-- A line with its values filled in, and the keys left in place, in order and with duplicates. -/
structure Substitution where
  text : Text
  missing : List Text
  deriving DecidableEq, Repr

def Request.event (p : Policy) (r : Request) : Event :=
  if r.found then .resolved r.key else .unresolved r.key p.failOnMissing

def unresolved (requests : List Request) : List Text :=
  (requests.filter fun r => !r.found).map Request.key

def Substitution.isUnchanged (s : Substitution) (line : Text) : Bool :=
  s.text == line

def resolver (p : Policy) (look : Lookup) : Resolver (Array Request) := fun key asked =>
  match look key with
  | some text => (.value text, asked.push ⟨key, true⟩)
  | none =>
    (if p.failOnMissing then .missing key else .value (spell key), asked.push ⟨key, false⟩)

/-- The result for a line, with all lookups made for it. -/
def trace (p : Policy) (look : Lookup) (line : Text) : Except Gap Substitution × List Request :=
  if mayContain line then
    let (result, asked) := scan p.escapes (resolver p look) line #[]
    (result.map fun text => ⟨text, unresolved asked.toList⟩, asked.toList)
  else (.ok ⟨line, []⟩, [])

def substitute (p : Policy) (look : Lookup) (line : Text) : Except Gap Substitution :=
  (trace p look line).1

def substituteWith (p : Policy) (look extra : Lookup) (line : Text) : Except Gap Substitution :=
  substitute p (Lookup.overlay extra look) line

end Interpolation.Line
