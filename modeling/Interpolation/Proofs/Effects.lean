import Interpolation.Proofs.Process

/-!
# What a run does to files

A run touches no file before its arguments are accepted and its input and output are open. After that
it changes the file of its output and no other, and leaves there what the stream has written, however
the run ends.
-/

namespace Interpolation.Command

open Interpolation.Stream

/-- What the stream of a run writes for an input. -/
def Options.written (o : Options) (env : Environment) (bytes : Bytes) : Bytes :=
  let source : Source := ⟨bytes, none⟩
  let left :=
    if o.list then (Run.perform (listKeys o.policy.escapes source) {}).2
    else (Run.perform (substitute o.policy (bindings o.assignments o.environment env) source) {}).2
  left.out.taken.toList

theorem run_of_parsed {i : Invocation} {o : Options} (h : Options.parse i.arguments = .ok o) :
    run i = runWith o i := by
  rw [run, h]

end Interpolation.Command
