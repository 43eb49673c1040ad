import Mathlib.Data.List.Basic
import Interpolation.Proofs.Footprint

/-!
# Lookups with more values

A lookup that keeps every value of another one and has further values of its own gets as far as the
other one, or further. A strict line that was filled stays as it is, and one that stopped keeps what
was written of it; so does a stream. A lenient line has no new keys to report.
-/

namespace Interpolation

open Placeholder Template

universe u

/-- Every value of the narrow lookup is a value of the wide one. -/
def Lookup.Extends (wide narrow : Lookup) : Prop :=
  ∀ key value, narrow key = some value → wide key = some value

namespace Template

/-- What is written of a line: all of it, or the text before the gap. -/
def reached : Except Gap Text → Text
  | .ok text => text
  | .error gap => gap.before

/-- Filling only adds to the text that is already there. -/
theorem initial_reached {σ : Type u} (ask : Resolver σ) (before : Text) (t : Template) (w : σ) :
    before <+: reached (t.fillAfter ask before w).1 := by
  induction t generalizing before w with
  | literal text => exact List.prefix_append before text
  | hole text key rest ih =>
    have hText : before <+: before ++ text := List.prefix_append before text
    rw [fillAfter]
    cases ask key w with
    | mk answer w' =>
      cases answer with
      | value value => exact (hText.trans (List.prefix_append _ value)).trans (ih _ w')
      | missing reported => exact hText

end Template

namespace Line

variable {narrow wide : Lookup}

theorem fillAfter_reached_initial (h : wide.Extends narrow) {p : Policy}
    (hStrict : p.failOnMissing = true) (before : Text) (t : Template)
    (asked asked' : Array Request) :
    reached (t.fillAfter (resolver p narrow) before asked).1 <+:
      reached (t.fillAfter (resolver p wide) before asked').1 := by
  induction t generalizing before asked asked' with
  | literal text => exact List.prefix_rfl
  | hole text key rest ih =>
    cases hNarrow : narrow key with
    | some value =>
      have hWide := h key value hNarrow
      simpa only [fillAfter, resolver, hNarrow, hWide] using ih (before ++ text ++ value) _ _
    | none =>
      -- The narrow lookup stops here; whatever the wide one does, it has written as much.
      have hStopped : reached ((hole text key rest).fillAfter (resolver p narrow) before asked).1 =
          before ++ text := by
        simp [fillAfter, resolver, hNarrow, hStrict, reached]
      have hSplit : hole text key rest = (hole [] key rest).prepend text := by
        rw [prepend, List.append_nil]
      rw [hStopped, hSplit, fillAfter_prepend]
      exact initial_reached _ _ _ _

theorem reached_substitute (p : Policy) (look : Lookup) (line : Text) :
    reached ((substitute p look line).map Substitution.text) =
      reached ((ofLine p.escapes line).fillAfter (resolver p look) [] #[]).1 := by
  rw [substitute, trace_eq_fill, fill]
  cases hFill : (ofLine p.escapes line).fillAfter (resolver p look) [] #[] with
  | mk result asked => cases result <;> rfl

theorem substitute_reached_initial (h : wide.Extends narrow) (escapes : Bool) (line : Text) :
    reached ((substitute ⟨true, escapes⟩ narrow line).map Substitution.text) <+:
      reached ((substitute ⟨true, escapes⟩ wide line).map Substitution.text) := by
  rw [reached_substitute, reached_substitute]
  exact fillAfter_reached_initial h rfl [] (ofLine escapes line) #[] #[]

/-- With a value for every key, further variables are not asked for. -/
theorem substitute_eq_of_extends (h : wide.Extends narrow) (p : Policy) {line : Text}
    (hAnswered : ∀ key ∈ keys p.escapes line, (narrow key).isSome) :
    substitute p wide line = substitute p narrow line := by
  have hAgree : ∀ key ∈ keys p.escapes line, wide key = narrow key := by
    intro key hKey
    obtain ⟨value, hValue⟩ := Option.isSome_iff_exists.mp (hAnswered key hKey)
    rw [hValue, h key value hValue]
  rw [substitute, substitute, trace_congr p hAgree]

theorem substitute_ok_of_extends (h : wide.Extends narrow) {escapes : Bool} {line : Text}
    {s : Substitution} (hOk : substitute ⟨true, escapes⟩ narrow line = .ok s) :
    substitute ⟨true, escapes⟩ wide line = .ok s :=
  (substitute_eq_of_extends h ⟨true, escapes⟩ (answered_of_strict hOk)).trans hOk

theorem filter_isNone_sublist (h : wide.Extends narrow) (keys : List Text) :
    (keys.filter fun key => (wide key).isNone).Sublist
      (keys.filter fun key => (narrow key).isNone) := by
  apply List.monotone_filter_right
  intro key hWide
  cases hNarrow : narrow key with
  | none => rfl
  | some value =>
    rw [h key value hNarrow] at hWide
    cases hWide

end Line

namespace Stream

variable {narrow wide : Lookup}

/-- The report on lines that a wider lookup leads to goes on where the narrower one stops. -/
theorem report_of_extends (h : wide.Extends narrow) (escapes : Bool)
    (lines : List (Except Fault Text)) :
    let told := Report.ofOutcomes (lines.map (lineOutcome ⟨true, escapes⟩ narrow))
    let other := Report.ofOutcomes (lines.map (lineOutcome ⟨true, escapes⟩ wide))
    told.out <+: other.out ∧ ∀ totals, told.result = .ok totals → other = told := by
  intro told other
  induction lines with
  | nil => exact ⟨List.prefix_rfl, fun _ _ => rfl⟩
  | cons item lines ih =>
    cases item with
    | error fault => exact ⟨List.prefix_rfl, fun _ _ => rfl⟩
    | ok line =>
      cases hLine : Line.substitute ⟨true, escapes⟩ narrow line with
      | error gap =>
        -- The narrower report ends here with nothing more in its output.
        have hTold : told = ⟨.error (.missingValue gap), [], lastWarning (.missingValue gap)⟩ := by
          simp only [told, List.map_cons, lineOutcome_of_error hLine, ofOutcomes_error]
        rw [hTold]
        refine ⟨List.nil_prefix, ?_⟩
        intro totals hOk
        cases hOk
      | ok s =>
        obtain ⟨hOut, hSame⟩ := ih
        have hWide := Line.substitute_ok_of_extends h hLine
        simp only [told, other, List.map_cons, lineOutcome_of_ok hLine, lineOutcome_of_ok hWide,
          ofOutcomes_ok]
        refine ⟨(List.prefix_append_right_inj (outputLine s)).mpr hOut, ?_⟩
        intro totals hOk
        rw [Report.push] at hOk
        cases hResult :
            (Report.ofOutcomes (lines.map (lineOutcome ⟨true, escapes⟩ narrow))).result with
        | error fault =>
          rw [hResult] at hOk
          cases hOk
        | ok rest => rw [hSame rest hResult]

/-- Further variables lose nothing: a line that was filled is filled alike, one that stopped keeps
what was written of it, no key is missing that was not missing before, and the output of a stream
goes on from where it was. -/
theorem substitute_extended (escapes : Bool) (h : wide.Extends narrow) :
    (∀ line : Text,
      (∀ s, Line.substitute ⟨true, escapes⟩ narrow line = .ok s →
        Line.substitute ⟨true, escapes⟩ wide line = .ok s) ∧
      (∀ gap, Line.substitute ⟨true, escapes⟩ narrow line = .error gap →
        (∃ s, Line.substitute ⟨true, escapes⟩ wide line = .ok s ∧ gap.before <+: s.text) ∨
        ∃ later, Line.substitute ⟨true, escapes⟩ wide line = .error later ∧
          gap.before <+: later.before) ∧
      ∃ few many, Line.substitute ⟨false, escapes⟩ wide line = .ok few ∧
        Line.substitute ⟨false, escapes⟩ narrow line = .ok many ∧
        few.missing.Sublist many.missing) ∧
    ∀ (source : Source) {o : Outlets}, o.Unfailing →
      let run := Run.perform (substitute ⟨true, escapes⟩ narrow source) o
      let other := Run.perform (substitute ⟨true, escapes⟩ wide source) o
      run.2.out.taken.toList <+: other.2.out.taken.toList ∧
      ∀ totals, run.1 = .ok totals →
        other.1 = .ok totals ∧ other.2.out.taken.toList = run.2.out.taken.toList := by
  constructor
  · intro line
    refine ⟨fun s => Line.substitute_ok_of_extends h, ?_, _, _,
      Line.substitute_lenient escapes wide line, Line.substitute_lenient escapes narrow line,
      Line.filter_isNone_sublist h (keys escapes line)⟩
    intro gap hGap
    have hReached := Line.substitute_reached_initial h escapes line
    rw [hGap] at hReached
    cases hWide : Line.substitute ⟨true, escapes⟩ wide line with
    | ok s =>
      rw [hWide] at hReached
      exact .inl ⟨s, rfl, hReached⟩
    | error later =>
      rw [hWide] at hReached
      exact .inr ⟨later, rfl, hReached⟩
  · intro source o hOutlets run other
    obtain ⟨hOut, hSame⟩ := report_of_extends h escapes source.lines
    obtain ⟨hResult, hTaken, -⟩ := perform_substitute ⟨true, escapes⟩ narrow source hOutlets
    obtain ⟨hResult', hTaken', -⟩ := perform_substitute ⟨true, escapes⟩ wide source hOutlets
    rw [hTaken, hTaken']
    refine ⟨(List.prefix_append_right_inj _).mpr hOut, ?_⟩
    intro totals hOk
    rw [hResult] at hOk
    rw [hResult', hSame totals hOk]
    exact ⟨hOk, rfl⟩

/-- The wider lookup has a value for the second of three keys. -/
theorem substitute_extended_second_key :
    let narrow : Lookup := fun key => if key = ['A'] then some ['1'] else none
    let wide : Lookup := fun key =>
      if key = ['A'] then some ['1'] else if key = ['B'] then some ['2'] else none
    let line := "${A} ${B}${C}".toList
    let source : Source := ⟨Utf8.encode ("${A}\n".toList ++ line), none⟩
    wide.Extends narrow ∧ ({} : Outlets).Unfailing ∧
      Line.substitute ⟨true, true⟩ narrow line = .error ⟨['B'], ['1', ' ']⟩ ∧
      (∃ later, Line.substitute ⟨true, true⟩ wide line = .error later ∧ ['1', ' '] <+: later.before) ∧
      (Run.perform (substitute ⟨true, true⟩ narrow source) {}).2.out.taken.toList <+:
        (Run.perform (substitute ⟨true, true⟩ wide source) {}).2.out.taken.toList := by
  intro narrow wide line source
  have hExtends : wide.Extends narrow := by
    intro key value hKey
    simp only [narrow] at hKey
    split at hKey
    · rename_i hA
      simp only [wide, if_pos hA, hKey]
    · cases hKey
  have hOutlets : ({} : Outlets).Unfailing := ⟨rfl, rfl, rfl⟩
  have hNarrow : Line.substitute ⟨true, true⟩ narrow line = .error ⟨['B'], ['1', ' ']⟩ := by decide
  obtain ⟨hLines, hStreams⟩ := substitute_extended true hExtends
  refine ⟨hExtends, hOutlets, hNarrow, ?_, (hStreams source hOutlets).1⟩
  rcases (hLines line).2.1 _ hNarrow with ⟨s, hOk, -⟩ | hLater
  · have hStopped : (Line.substitute ⟨true, true⟩ wide line).isOk = false := by decide
    rw [hOk] at hStopped
    cases hStopped
  · exact hLater

end Stream

end Interpolation
