import Interpolation.Placeholder.State

/-!
# Scanning a line

A scan reads a line from the initial state and puts every key to a resolver, which may keep a state
of its own and answers with a value or with a missing key. The first missing key ends the scan; the
gap it leaves records the key and the text written before its placeholder. `keys` is the scan that
only writes down which keys are asked.
-/

namespace Interpolation.Placeholder

universe u

inductive Answer where
  | value (text : Text)
  | missing (key : Text)
  deriving DecidableEq, Repr

abbrev Resolver (σ : Type u) := Text → σ → Answer × σ

/-- A missing key, with the text written before its placeholder. -/
structure Gap where
  key : Text
  before : Text
  deriving DecidableEq, Repr

def run {σ : Type u} (escapes : Bool) (ask : Resolver σ) :
    Text → State → σ → Except Gap State × σ
  | [], s, w => (.ok s, w)
  | c :: line, s, w =>
    match s.step escapes c with
    | .next s => run escapes ask line s w
    | .ask key s =>
      match ask key w with
      | (.value text, w) => run escapes ask line (s.emit text) w
      | (.missing key, w) => (.error ⟨key, s.out.toList⟩, w)

def scan {σ : Type u} (escapes : Bool) (ask : Resolver σ) (line : Text) (w : σ) :
    Except Gap Text × σ :=
  let (result, w) := run escapes ask line {} w
  (result.map State.finish, w)

/-- A line whose encoding lacks the octet of a dollar has no placeholder. -/
def mayContain (line : Text) : Bool :=
  (Utf8.encode line).contains 0x24

/-- The resolver that answers every key with nothing and writes it down. -/
def recorder : Resolver (Array Text) :=
  fun key seen => (.value [], seen.push key)

/-- The keys of all closed placeholders, in order and with duplicates. -/
def keys (escapes : Bool) (line : Text) : List Text :=
  if mayContain line then (scan escapes recorder line #[]).2.toList else []

end Interpolation.Placeholder
