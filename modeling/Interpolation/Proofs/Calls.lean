import Interpolation.Proofs.Reading

/-!
# The calls of a scan

A recorded resolver answers as the given one and writes down every call. The calls of a scan follow
the keys of the line whatever the answers are, and the text that comes out weaves the answers between
literals that the line alone determines.
-/

namespace Interpolation.Placeholder

open Template

universe u

structure Call where
  key : Text
  answer : Answer
  deriving DecidableEq, Repr

def Answer.text? : Answer → Option Text
  | .value text => some text
  | .missing _ => none

def values (calls : List Call) : List Text :=
  calls.filterMap fun call => call.answer.text?

/-- Literals with values between them, up to the literal behind the last value. -/
def weave : List Text → List Text → Text
  | [], _ => []
  | first :: _, [] => first
  | first :: others, value :: later => first ++ value ++ weave others later

theorem weave_literals (word : Text → Text) (t : Template) :
    weave t.literals (t.keys.map word) = t.render word := by
  induction t with
  | literal text => rfl
  | hole before key rest ih => rw [literals, Template.keys, List.map_cons, weave, ih, render]

section

variable {σ : Type u} (escapes : Bool) (ask : Resolver σ)

def recorded : Resolver (σ × List Call) := fun key (w, calls) =>
  let (answer, w) := ask key w
  (answer, w, calls ++ [⟨key, answer⟩])

def calls (line : Text) (w : σ) : List Call :=
  (scan escapes (recorded ask) line (w, [])).2.2

def transcript : Template → σ → List Call
  | .literal _, _ => []
  | .hole _ key rest, w =>
    match ask key w with
    | (.value value, w) => ⟨key, .value value⟩ :: transcript rest w
    | (.missing reported, _) => [⟨key, .missing reported⟩]

theorem fillAfter_recorded (before : Text) (t : Template) (w : σ) (earlier : List Call) :
    t.fillAfter (recorded ask) before (w, earlier) =
      ((t.fillAfter ask before w).1, (t.fillAfter ask before w).2,
        earlier ++ transcript ask t w) := by
  induction t generalizing before w earlier with
  | literal text => simp [fillAfter, transcript]
  | hole text key rest ih =>
    cases hAnswer : ask key w with
    | mk answer w' =>
      cases answer with
      | value value =>
        simp only [fillAfter, recorded, transcript, hAnswer]
        rw [ih]
        simp
      | missing reported => simp [fillAfter, recorded, transcript, hAnswer]

/-- Writing the calls down changes neither what a scan gives nor the state that it leaves. -/
theorem scan_recorded (line : Text) (w : σ) :
    scan escapes (recorded ask) line (w, []) =
      ((scan escapes ask line w).1, (scan escapes ask line w).2, calls escapes ask line w) := by
  rw [calls, scan_eq_fill, scan_eq_fill, fill, fill, fillAfter_recorded]

theorem calls_eq_transcript (line : Text) (w : σ) :
    calls escapes ask line w = transcript ask (ofLine escapes line) w := by
  rw [calls, scan_eq_fill, fill, fillAfter_recorded]
  rfl

theorem keys_transcript_initial (t : Template) (w : σ) :
    (transcript ask t w).map Call.key <+: t.keys := by
  induction t generalizing w with
  | literal text => exact List.nil_prefix
  | hole text key rest ih =>
    cases hAnswer : ask key w with
    | mk answer w' =>
      cases answer with
      | value value => simpa [transcript, Template.keys, hAnswer] using ih w'
      | missing reported => simp [transcript, Template.keys, hAnswer]

theorem fillAfter_eq_weave (before : Text) (t : Template) (w : σ)
    (h : ∀ call ∈ transcript ask t w, call.answer.text?.isSome) :
    (transcript ask t w).map Call.key = t.keys ∧
      (t.fillAfter ask before w).1 =
        .ok (before ++ weave t.literals (values (transcript ask t w))) := by
  induction t generalizing before w with
  | literal text => simp [transcript, Template.keys, fillAfter, literals, values, weave]
  | hole text key rest ih =>
    cases hAnswer : ask key w with
    | mk answer w' =>
      cases answer with
      | value value =>
        simp only [transcript, hAnswer] at h ⊢
        obtain ⟨hKeys, hText⟩ := ih (before ++ text ++ value) w'
          (fun call hCall => h call (List.mem_cons_of_mem _ hCall))
        constructor
        · rw [List.map_cons, hKeys, Template.keys]
        · simp only [fillAfter, hAnswer, hText]
          simp [literals, values, weave, Answer.text?]
      | missing reported =>
        simp only [transcript, hAnswer] at h
        have hSome := h _ (List.mem_singleton_self _)
        simp [Answer.text?] at hSome

theorem fillAfter_eq_gap (before : Text) (t : Template) (w : σ) {answered unasked : List Call}
    {key reported : Text}
    (h : transcript ask t w = answered ++ ⟨key, .missing reported⟩ :: unasked) :
    unasked = [] ∧
      (t.fillAfter ask before w).1 =
        .error ⟨reported, before ++ weave t.literals (values answered)⟩ := by
  induction t generalizing before w answered with
  | literal text => simp [transcript] at h
  | hole text name rest ih =>
    cases hAnswer : ask name w with
    | mk answer w' =>
      cases answer with
      | value value =>
        simp only [transcript, hAnswer] at h
        cases answered with
        | nil => simp at h
        | cons call answered =>
          obtain ⟨rfl, hRest⟩ := List.cons.inj h
          obtain ⟨hUnasked, hGap⟩ := ih (before ++ text ++ value) w' hRest
          refine ⟨hUnasked, ?_⟩
          simp only [fillAfter, hAnswer, hGap]
          simp [literals, values, weave, Answer.text?]
      | missing missed =>
        simp only [transcript, hAnswer] at h
        cases answered with
        | nil =>
          obtain ⟨hCall, rfl⟩ := List.cons.inj h
          cases hCall
          simp [fillAfter, hAnswer, literals, values, weave]
        | cons call answered => simp at h

end

/-- The line alone settles the literals and the keys; a resolver settles only what stands between the
literals and where the scan stops. -/
theorem exists_literals_weave (escapes : Bool) (line : Text) :
    (∃ literals : List Text, literals.length = (keys escapes line).length + 1 ∧
      ∀ {σ : Type u} (ask : Resolver σ) (w : σ),
        (calls escapes ask line w).map Call.key <+: keys escapes line ∧
        ((∀ call ∈ calls escapes ask line w, call.answer.text?.isSome) →
          (calls escapes ask line w).map Call.key = keys escapes line ∧
          (scan escapes ask line w).1 =
            .ok (weave literals (values (calls escapes ask line w)))) ∧
        ∀ answered key reported unasked,
          calls escapes ask line w = answered ++ ⟨key, .missing reported⟩ :: unasked →
            (calls escapes ask line w).map Call.key =
              (keys escapes line).take (answered.length + 1) ∧
            (scan escapes ask line w).1 = .error ⟨reported, weave literals (values answered)⟩) ∧
    ∀ {σ τ : Type u} (ask : Resolver σ) (w : σ) (other : Resolver τ) (v : τ),
      (calls escapes ask line w).map Call.key <+: (calls escapes other line v).map Call.key ∨
        (calls escapes other line v).map Call.key <+: (calls escapes ask line w).map Call.key := by
  have hPrefix : ∀ {σ : Type u} (ask : Resolver σ) (w : σ),
      (calls escapes ask line w).map Call.key <+: keys escapes line := by
    intro σ ask w
    rw [calls_eq_transcript, keys_eq]
    exact keys_transcript_initial ask (ofLine escapes line) w
  refine ⟨⟨(ofLine escapes line).literals, ?_, ?_⟩, ?_⟩
  · rw [length_literals, keys_eq]
  · intro σ ask w
    refine ⟨hPrefix ask w, ?_, ?_⟩
    · rw [calls_eq_transcript, keys_eq, scan_eq_fill]
      exact fillAfter_eq_weave ask [] (ofLine escapes line) w
    · intro answered key reported unasked hCalls
      have hTake := List.prefix_iff_eq_take.mp (hPrefix ask w)
      rw [calls_eq_transcript] at hCalls
      obtain ⟨rfl, hGap⟩ := fillAfter_eq_gap ask [] (ofLine escapes line) w hCalls
      rw [← calls_eq_transcript] at hCalls
      constructor
      · rw [hTake, hCalls]
        simp
      · rw [scan_eq_fill]
        exact hGap
  · intro σ τ ask w other v
    exact List.prefix_or_prefix_of_prefix (hPrefix ask w) (hPrefix other v)

end Interpolation.Placeholder
