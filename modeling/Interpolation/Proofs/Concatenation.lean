import Interpolation.Proofs.Tracking

/-!
# Lines that are scanned in two parts

Where the reader stands outside every placeholder with no dollar waiting, a line can be cut: the scan of
the whole line is the scan of its first part and then, with the resolver as that part leaves it, the scan
of the second. The buffers may still hold ordinary characters there, but it makes no difference when
these are written.
-/

namespace Interpolation.Placeholder

open Template

universe u

variable {σ : Type u} (escapes : Bool) (ask : Resolver σ)

/-- A result with a text in front of what it says of the line. -/
def behind (first : Text) : Except Gap Text → Except Gap Text
  | .ok text => .ok (first ++ text)
  | .error gap => .error ⟨gap.key, first ++ gap.before⟩

theorem fillAfter_append (first before : Text) (t : Template) (w : σ) :
    t.fillAfter ask (first ++ before) w =
      (behind first (t.fillAfter ask before w).1, (t.fillAfter ask before w).2) := by
  induction t generalizing before w with
  | literal text => simp [fillAfter, behind]
  | hole text key rest ih =>
    cases hAnswer : ask key w with
    | mk answer w' =>
      cases answer with
      | value value =>
        have hFront : first ++ before ++ text ++ value = first ++ (before ++ text ++ value) := by simp
        simp only [fillAfter, hAnswer]
        rw [hFront, ih]
      | missing reported => simp [fillAfter, hAnswer, behind]

theorem resume_reading_eq_behind (line written : Text) (w : σ) :
    resume escapes ask line (State.reading written) w =
      (behind written (scan escapes ask line w).1, (scan escapes ask line w).2) := by
  have hFill := fillAfter_append ask written [] (ofLine escapes line) w
  rw [List.append_nil] at hFill
  rw [resume_reading, hFill, scan_eq_fill, fill]

theorem scan_of_run {a : Text} {s : State} {w w' : σ} (h : run escapes ask a {} w = (.ok s, w')) :
    scan escapes ask a w = (.ok s.finish, w') := by
  rw [scan, h]
  rfl

theorem exists_run_of_scan {a first : Text} {w w' : σ}
    (h : scan escapes ask a w = (.ok first, w')) :
    ∃ s, run escapes ask a {} w = (.ok s, w') ∧ s.finish = first := by
  rw [scan] at h
  cases hRun : run escapes ask a {} w with
  | mk result w'' =>
    rw [hRun] at h
    obtain ⟨hResult, rfl⟩ := Prod.mk.inj h
    cases result with
    | error gap => cases hResult
    | ok s => exact ⟨s, rfl, Except.ok.inj hResult⟩

theorem finish_text (plain out : Array Char) :
    State.finish ⟨.text, plain, #[], #[], out⟩ = (out ++ plain).toList := by
  simp [State.finish]

/-- A line can be cut behind a part that leaves no dollar at its end and no opener unclosed. -/
theorem scan_append_of_closed {a first : Text} {w w' : σ}
    (h : scan escapes ask a w = (.ok first, w')) (hLast : a.getLast? ≠ some '$')
    (hClosed : ¬Unclosed escapes a) (b : Text) :
    scan escapes ask (a ++ b) w =
      (behind first (scan escapes ask b w').1, (scan escapes ask b w').2) := by
  obtain ⟨s, hRun, rfl⟩ := exists_run_of_scan escapes ask h
  have hTracks : Tracks escapes a s := (Tracks.initial escapes).run hRun
  obtain ⟨plain, out, rfl⟩ := hTracks.eq_of_mode_eq_text (hTracks.mode_eq_text_iff.mpr ⟨hLast, hClosed⟩)
  change resume escapes ask (a ++ b) {} w = _
  rw [resume_append escapes ask hRun, resume_plain, resume_reading_eq_behind, finish_text]

theorem calls_append_of_closed {a first : Text} {w w' : σ}
    (h : scan escapes ask a w = (.ok first, w')) (hLast : a.getLast? ≠ some '$')
    (hClosed : ¬Unclosed escapes a) (b : Text) :
    calls escapes ask (a ++ b) w = calls escapes ask a w ++ calls escapes ask b w' := by
  have hRecorded : scan escapes (recorded ask) a (w, []) =
      (.ok first, w', calls escapes ask a w) := by
    rw [scan_recorded, h]
  rw [calls, scan_append_of_closed escapes (recorded ask) hRecorded hLast hClosed, scan_eq_fill, fill,
    fillAfter_recorded, ← calls_eq_transcript]

theorem scan_recorder (line : Text) (seen : Array Text) :
    ∃ text, scan escapes recorder line seen = (.ok text, seen ++ (keys escapes line).toArray) := by
  rw [scan_eq_fill, keys_eq]
  exact fillAfter_recorder [] (ofLine escapes line) seen

theorem keys_append_of_closed {a : Text} (hLast : a.getLast? ≠ some '$')
    (hClosed : ¬Unclosed escapes a) (b : Text) :
    keys escapes (a ++ b) = keys escapes a ++ keys escapes b := by
  obtain ⟨first, hFirst⟩ := scan_recorder escapes a #[]
  obtain ⟨second, hSecond⟩ := scan_recorder escapes b (#[] ++ (keys escapes a).toArray)
  obtain ⟨whole, hWhole⟩ := scan_recorder escapes (a ++ b) #[]
  rw [scan_append_of_closed escapes recorder hFirst hLast hClosed, hSecond] at hWhole
  have hKeys := congrArg (fun result => result.2.toList) hWhole
  simpa using hKeys.symm

/-- Where a run through the first part of a line leaves the reader outside every placeholder with no
dollar waiting, the line is scanned in two parts. The first part alone tells where that is. -/
theorem scan_append {a : Text} {s : State} {w w' : σ} (h : run escapes ask a {} w = (.ok s, w')) :
    (s.mode = .text ↔ a.getLast? ≠ some '$' ∧ ¬Unclosed escapes a) ∧
    (∀ pieces, Cut escapes a pieces →
      (Unclosed escapes a ↔ ∃ n after, Piece.unclosed n after ∈ pieces)) ∧
    (s.mode = .text → ∃ first, scan escapes ask a w = (.ok first, w') ∧ ∀ b : Text,
      calls escapes ask (a ++ b) w = calls escapes ask a w ++ calls escapes ask b w' ∧
      (∀ second v, scan escapes ask b w' = (.ok second, v) →
        scan escapes ask (a ++ b) w = (.ok (first ++ second), v)) ∧
      (∀ gap v, scan escapes ask b w' = (.error gap, v) →
        scan escapes ask (a ++ b) w = (.error ⟨gap.key, first ++ gap.before⟩, v)) ∧
      keys escapes (a ++ b) = keys escapes a ++ keys escapes b) := by
  have hTracks : Tracks escapes a s := (Tracks.initial escapes).run h
  have hScan := scan_of_run escapes ask h
  refine ⟨hTracks.mode_eq_text_iff, fun pieces hCut => unclosed_iff_of_cut hCut,
    fun hMode => ⟨s.finish, hScan, fun b => ?_⟩⟩
  obtain ⟨hLast, hClosed⟩ := hTracks.mode_eq_text_iff.mp hMode
  have hWhole := scan_append_of_closed escapes ask hScan hLast hClosed b
  refine ⟨calls_append_of_closed escapes ask hScan hLast hClosed b, ?_, ?_,
    keys_append_of_closed escapes hLast hClosed b⟩
  · intro second v hSecond
    rw [hWhole, hSecond]
    rfl
  · intro gap v hGap
    rw [hWhole, hGap]
    rfl

/-- The first part ends behind a character that is not yet written, and the scan stops in the second. -/
theorem scan_append_stopped :
    let ask : Resolver Nat := fun key n => (if n = 0 then .value ['$', '{'] else .missing key, n + 1)
    let a := spell ['A'] ++ ['$', 'x']
    let b := '{' :: spell ['B'] ++ spell ['C']
    run true ask a {} 0 = (.ok ⟨.text, #['x'], #[], #[], #['$', '{', '$']⟩, 1) ∧
      calls true ask (a ++ b) 0 = [⟨['A'], .value ['$', '{']⟩, ⟨['B'], .missing ['B']⟩] ∧
      scan true ask (a ++ b) 0 = (.error ⟨['B'], ['$', '{', '$', 'x', '{']⟩, 2) := by
  intro ask a b
  have hRun : run true ask a {} 0 = (.ok ⟨.text, #['x'], #[], #[], #['$', '{', '$']⟩, 1) := by decide
  obtain ⟨-, -, hParts⟩ := scan_append true ask hRun
  obtain ⟨first, hFirst, hSecond⟩ := hParts rfl
  have hText : scan true ask a 0 = (.ok ['$', '{', '$', 'x'], 1) := scan_of_run true ask hRun
  obtain rfl : first = ['$', '{', '$', 'x'] := by simpa [hText] using hFirst.symm
  obtain ⟨hCalls, -, hStopped, -⟩ := hSecond b
  exact ⟨hRun, hCalls.trans (by decide), hStopped ⟨['B'], ['{']⟩ 2 (by decide)⟩

end Interpolation.Placeholder
