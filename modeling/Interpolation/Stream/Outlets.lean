import Interpolation.Record

/-!
# Outlets

A sink takes octets. One with a limit takes no more than that many in all: of a write that does not
fit it takes what still fits, and the write fails. A write of nothing never fails. A run writes to
two sinks, one for output and one for diagnostics, keeps a journal of its records, and stops at the
first fault; what has been written by then stays written.
-/

namespace Interpolation.Stream

structure Sink where
  taken : Array UInt8 := #[]
  limit : Option Nat := none
  refusal : Text := "failed to write whole buffer".toList
  flushFailure : Option Text := none

namespace Sink

/-- The part of a write that a sink with so many octets takes. -/
def accepted (limit : Option Nat) (size : Nat) (bs : Bytes) : Bytes :=
  match limit with
  | none => bs
  | some limit => bs.take (limit - size)

def put : Sink → Bytes → Except Fault Unit × Sink
  | ⟨taken, limit, refusal, flushFailure⟩, bs =>
    let part := accepted limit taken.size bs
    let result := if part = bs then .ok () else .error (.io refusal)
    (result, ⟨taken ++ part, limit, refusal, flushFailure⟩)

theorem put_unlimited (taken : Array UInt8) (refusal : Text) (flushFailure : Option Text)
    (bs : Bytes) :
    put ⟨taken, none, refusal, flushFailure⟩ bs =
      (.ok (), ⟨taken ++ bs, none, refusal, flushFailure⟩) := by
  simp [put, accepted]

def flush (s : Sink) : Except Fault Unit :=
  match s.flushFailure with
  | some reason => .error (.io reason)
  | none => .ok ()

end Sink

structure Outlets where
  out : Sink := {}
  diagnostics : Sink := {}
  journal : Array Record := #[]

/-- A computation that writes to outlets until it ends or meets a fault. -/
abbrev Run := EStateM Fault Outlets

namespace Run

def finish {α : Type} (result : Except Fault α) (o : Outlets) : EStateM.Result Fault Outlets α :=
  match result with
  | .ok a => .ok a o
  | .error fault => .error fault o

def write (bs : Bytes) : Run Unit
  | ⟨out, diagnostics, journal⟩ =>
    let (result, out) := out.put bs
    finish result ⟨out, diagnostics, journal⟩

/-- Writes a text with a newline. -/
def writeLine (t : Text) : Run Unit := do
  write (Utf8.encode t)
  write [0x0A]

/-- Writes the warning about a key as one line of diagnostics. -/
def warn (key : Text) : Run Unit
  | ⟨out, diagnostics, journal⟩ =>
    let (result, diagnostics) := diagnostics.put (Utf8.encode (warning key ++ ['\n']))
    finish result ⟨out, diagnostics, journal.push (.warning key)⟩

def note (e : Event) : Run Unit
  | ⟨out, diagnostics, journal⟩ => .ok () ⟨out, diagnostics, journal.push (.event e)⟩

def flush : Run Unit := fun o =>
  finish o.out.flush o

/-- The result of a run, and the outlets as it leaves them. -/
def perform {α : Type} (r : Run α) (o : Outlets) : Except Fault α × Outlets :=
  match r o with
  | .ok a o => (.ok a, o)
  | .error fault o => (.error fault, o)

@[simp] theorem perform_pure {α : Type} (a : α) (o : Outlets) :
    perform (pure a) o = (.ok a, o) := rfl

@[simp] theorem perform_throw {α : Type} (fault : Fault) (o : Outlets) :
    perform (throw fault : Run α) o = (.error fault, o) := rfl

theorem perform_bind {α β : Type} (r : Run α) (f : α → Run β) (o : Outlets) :
    perform (r >>= f) o =
      match perform r o with
      | (.ok a, o) => perform (f a) o
      | (.error fault, o) => (.error fault, o) := by
  simp only [perform, bind, EStateM.bind]
  cases r o <;> rfl

theorem perform_finish {α : Type} (result : Except Fault α) (o o' : Outlets) :
    perform (fun _ => finish result o') o = (result, o') := by
  cases result <;> rfl

theorem perform_write (bs : Bytes) (o : Outlets) :
    perform (write bs) o = ((o.out.put bs).1, { o with out := (o.out.put bs).2 }) :=
  perform_finish (o.out.put bs).1 o _

theorem perform_warn (key : Text) (o : Outlets) :
    perform (warn key) o =
      ((o.diagnostics.put (Utf8.encode (warning key ++ ['\n']))).1,
        { o with
          diagnostics := (o.diagnostics.put (Utf8.encode (warning key ++ ['\n']))).2
          journal := o.journal.push (.warning key) }) :=
  perform_finish (o.diagnostics.put (Utf8.encode (warning key ++ ['\n']))).1 o _

@[simp] theorem perform_note (e : Event) (o : Outlets) :
    perform (note e) o = (.ok (), { o with journal := o.journal.push (.event e) }) := rfl

@[simp] theorem perform_flush (o : Outlets) : perform flush o = (o.out.flush, o) :=
  perform_finish o.out.flush o o

end Run

end Interpolation.Stream
