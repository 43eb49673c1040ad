import Interpolation.Stream

/-!
# Scripts of stream runs

What a run over a stream does to its outlets is a list of actions that the outlets have no part in:
a run follows a script, and a sink that fails only cuts the script short. `Follows` is closed under
the ways in which runs are composed, so the scripts of substitution and listing are read off their
definitions. Outlets that never fail take the whole script.
-/

namespace Interpolation.Stream

open Run

inductive Action where
  | write (bs : Bytes)
  | warn (key : Text)
  | note (e : Event)
  | flush

def Action.run : Action → Run Unit
  | .write bs => Run.write bs
  | .warn key => Run.warn key
  | .note e => Run.note e
  | .flush => Run.flush

def play : List Action → Run Unit
  | [] => pure ()
  | action :: script => do
    action.run
    play script

/-- A run that acts as its script says and gives the result if no action fails. -/
def Follows {α : Type} (r : Run α) (script : List Action) (result : Except Fault α) : Prop :=
  ∀ o, perform r o =
    match perform (play script) o with
    | (.ok _, o) => (result, o)
    | (.error fault, o) => (.error fault, o)

theorem perform_play_append (first second : List Action) (o : Outlets) :
    perform (play (first ++ second)) o =
      match perform (play first) o with
      | (.ok _, o) => perform (play second) o
      | (.error fault, o) => (.error fault, o) := by
  induction first generalizing o with
  | nil => rfl
  | cons action first ih =>
    rw [List.cons_append, play, play, perform_bind, perform_bind]
    cases hAction : perform action.run o with
    | mk result o' =>
      cases result with
      | ok _ => exact ih o'
      | error fault => rfl

namespace Follows

variable {α β : Type}

theorem pure (a : α) : Follows (Pure.pure a) [] (.ok a) := fun _ => rfl

theorem throw (fault : Fault) : Follows (MonadExcept.throw fault : Run α) [] (.error fault) :=
  fun _ => rfl

theorem action (a : Action) : Follows a.run [a] (.ok ()) := by
  intro o
  rw [play, perform_bind]
  cases hAction : perform a.run o with
  | mk result o' => cases result <;> rfl

theorem bind {r : Run α} {f : α → Run β} {first second : List Action} {a : α}
    {result : Except Fault β} (hFirst : Follows r first (.ok a))
    (hSecond : Follows (f a) second result) : Follows (r >>= f) (first ++ second) result := by
  intro o
  rw [perform_bind, hFirst o, perform_play_append]
  cases hPlay : perform (play first) o with
  | mk played o' =>
    cases played with
    | ok _ => exact hSecond o'
    | error fault => rfl

theorem bind_error {r : Run α} {f : α → Run β} {script : List Action} {fault : Fault}
    (h : Follows r script (.error fault)) : Follows (r >>= f) script (.error fault) := by
  intro o
  rw [perform_bind, h o]
  cases hPlay : perform (play script) o with
  | mk played o' => cases played <;> rfl

theorem forM {ι : Type} {f : ι → Run Unit} {script : ι → List Action}
    (h : ∀ i, Follows (f i) (script i) (.ok ())) (is : List ι) :
    Follows (is.forM f) (is.flatMap script) (.ok ()) := by
  induction is with
  | nil => exact Follows.pure ()
  | cons i is ih => exact (h i).bind ih

theorem forM_action {ι : Type} (a : ι → Action) (is : List ι) :
    Follows (is.forM fun i => (a i).run) (is.map a) (.ok ()) := by
  rw [List.map_eq_flatMap]
  exact forM (fun i => action (a i)) is

theorem writeLine (t : Text) :
    Follows (Run.writeLine t) [.write (Utf8.encode t), .write [0x0A]] (.ok ()) :=
  (action (.write (Utf8.encode t))).bind (action (.write [0x0A]))

end Follows

def lineScript (p : Policy) (look : Lookup) (number : Nat) (line : Text) : List Action :=
  let (result, requests) := Line.trace p look line
  (requests.map fun r => .note (r.event p)) ++
    match result with
    | .error gap => [.warn gap.key, .note (.aborting number gap.key)]
    | .ok s => s.missing.map .warn ++ [.write (Utf8.encode s.text), .write [0x0A]]

/-- What one line comes to: the number of its warnings, or a missing value. -/
def lineResult (p : Policy) (look : Lookup) (line : Text) : Except Fault Nat :=
  match Line.substitute p look line with
  | .error gap => .error (.missingValue gap)
  | .ok s => .ok s.missing.length

/-- The actions for the lines of a stream, and what they come to. -/
def script (p : Policy) (look : Lookup) :
    List (Except Fault Text) → Totals → List Action × Except Fault Totals
  | [], totals => ([.flush, .note (.streamDone totals)], .ok totals)
  | .error fault :: _, _ => ([], .error fault)
  | .ok line :: lines, totals =>
    let first := lineScript p look (totals.lines + 1) line
    match lineResult p look line with
    | .error fault => (first, .error fault)
    | .ok warnings =>
      let (later, result) :=
        script p look lines ⟨totals.lines + 1, totals.warnings + warnings⟩
      (first ++ later, result)

def listScript (escapes : Bool) :
    List (Except Fault Text) → Nat → List Action × Except Fault Nat
  | [], count => ([.flush], .ok count)
  | .error fault :: _, _ => ([], .error fault)
  | .ok line :: lines, count =>
    let keys := Placeholder.keys escapes line
    let first := keys.flatMap fun key => [.write (Utf8.encode key), .write [0x0A]]
    let (later, result) := listScript escapes lines (count + keys.length)
    (first ++ later, result)

theorem follows_substituteLine (p : Policy) (look : Lookup) (number : Nat) (line : Text) :
    Follows (substituteLine p look number line) (lineScript p look number line)
      (lineResult p look line) := by
  have hNotes := Follows.forM_action fun r : Line.Request => .note (r.event p)
  rw [substituteLine, lineScript, lineResult, Line.substitute]
  cases hTrace : Line.trace p look line with
  | mk result requests =>
    refine (hNotes requests).bind ?_
    cases result with
    | error gap =>
      exact (Follows.action (.warn gap.key)).bind
        ((Follows.action (.note (.aborting number gap.key))).bind (Follows.throw _))
    | ok s =>
      exact (Follows.forM_action .warn s.missing).bind ((Follows.writeLine s.text).bind (Follows.pure _))

theorem follows_substituteLines (p : Policy) (look : Lookup) (lines : List (Except Fault Text))
    (totals : Totals) :
    Follows (substituteLines p look lines totals) (script p look lines totals).1
      (script p look lines totals).2 := by
  induction lines generalizing totals with
  | nil =>
    exact (Follows.action .flush).bind
      ((Follows.action (.note (.streamDone totals))).bind (Follows.pure totals))
  | cons item lines ih =>
    cases item with
    | error fault => exact Follows.throw fault
    | ok line =>
      have hLine := follows_substituteLine p look (totals.lines + 1) line
      rw [substituteLines, script]
      cases hResult : lineResult p look line with
      | error fault =>
        rw [hResult] at hLine
        exact hLine.bind_error
      | ok warnings =>
        rw [hResult] at hLine
        exact hLine.bind (ih _)

theorem follows_listLines (escapes : Bool) (lines : List (Except Fault Text)) (count : Nat) :
    Follows (listLines escapes lines count) (listScript escapes lines count).1
      (listScript escapes lines count).2 := by
  induction lines generalizing count with
  | nil => exact (Follows.action .flush).bind (Follows.pure count)
  | cons item lines ih =>
    cases item with
    | error fault => exact Follows.throw fault
    | ok line =>
      have hKeys := Follows.forM Follows.writeLine (Placeholder.keys escapes line)
      exact hKeys.bind (ih _)

def Outlets.Unfailing (o : Outlets) : Prop :=
  o.out.limit = none ∧ o.out.flushFailure = none ∧ o.diagnostics.limit = none

def warningLine (key : Text) : Bytes :=
  Utf8.encode (warning key ++ ['\n'])

namespace Action

def output : Action → Bytes
  | .write bs => bs
  | .warn _ | .note _ | .flush => []

def diagnostics : Action → Bytes
  | .warn key => warningLine key
  | .write _ | .note _ | .flush => []

def records : Action → List Record
  | .warn key => [.warning key]
  | .note e => [.event e]
  | .write _ | .flush => []

end Action

def Outlets.after (o : Outlets) (script : List Action) : Outlets where
  out := { o.out with taken := o.out.taken ++ script.flatMap Action.output }
  diagnostics :=
    { o.diagnostics with taken := o.diagnostics.taken ++ script.flatMap Action.diagnostics }
  journal := o.journal ++ script.flatMap Action.records

theorem append_append_list {α : Type} (a : Array α) (s t : List α) : a ++ s ++ t = a ++ (s ++ t) := by
  apply Array.ext'
  simp

theorem Outlets.after_after (o : Outlets) (first second : List Action) :
    (o.after first).after second = o.after (first ++ second) := by
  simp [Outlets.after, append_append_list]

theorem Outlets.Unfailing.after {o : Outlets} (h : o.Unfailing) (script : List Action) :
    (o.after script).Unfailing := h

theorem perform_action_of_unfailing {o : Outlets} (h : o.Unfailing) (a : Action) :
    perform a.run o = (.ok (), o.after [a]) := by
  obtain ⟨⟨out, outLimit, outRefusal, outFlush⟩, ⟨warned, limit, refusal, flush⟩, journal⟩ := o
  obtain ⟨rfl, rfl, rfl⟩ := h
  cases a with
  | write bs =>
    rw [Action.run, perform_write, Sink.put_unlimited]
    simp [Outlets.after, Action.output, Action.diagnostics, Action.records]
  | warn key =>
    rw [Action.run, perform_warn, Sink.put_unlimited]
    simp [Outlets.after, Action.output, Action.diagnostics, Action.records, warningLine]
  | note e =>
    rw [Action.run, perform_note]
    simp [Outlets.after, Action.output, Action.diagnostics, Action.records]
  | flush =>
    rw [Action.run, perform_flush]
    simp [Outlets.after, Action.output, Action.diagnostics, Action.records, Sink.flush]

theorem perform_play_of_unfailing {o : Outlets} (h : o.Unfailing) (script : List Action) :
    perform (play script) o = (.ok (), o.after script) := by
  induction script generalizing o with
  | nil => simp [play, Outlets.after]
  | cons action script ih =>
    rw [play, perform_bind, perform_action_of_unfailing h]
    simp only [ih (h.after [action]), Outlets.after_after, List.singleton_append]

theorem Follows.perform_of_unfailing {α : Type} {r : Run α} {script : List Action}
    {result : Except Fault α} (hFollows : Follows r script result) {o : Outlets}
    (h : o.Unfailing) : perform r o = (result, o.after script) := by
  rw [hFollows o, perform_play_of_unfailing h]

end Interpolation.Stream
