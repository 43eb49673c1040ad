import Interpolation.Proofs.Report

/-!
# Sinks with limits

A sink takes a write whole if the write stays within the limit, and else fills up to its limit and
fails. A write in pieces leaves what one write of all the pieces leaves, so a line of a stream comes
down to two writes: its warnings to the diagnostics and then its text to the output.
-/

namespace Interpolation.Stream

open Run

namespace Sink

/-- What would be taken with these octets stays within the limit. -/
def Admits (s : Sink) (bs : Bytes) : Prop :=
  ∀ limit, s.limit = some limit → s.taken.size + bs.length ≤ limit

def append (s : Sink) (bs : Bytes) : Sink :=
  { s with taken := s.taken ++ bs }

@[simp] theorem append_nil (s : Sink) : s.append [] = s := by
  simp [append]

theorem toList_append (s : Sink) (bs : Bytes) :
    (s.append bs).taken.toList = s.taken.toList ++ bs := by
  simp [append]

theorem size_append (s : Sink) (bs : Bytes) :
    (s.append bs).taken.size = s.taken.size + bs.length := by
  rw [← Array.length_toList, toList_append, List.length_append, Array.length_toList]

theorem append_append (s : Sink) (first second : Bytes) :
    (s.append first).append second = s.append (first ++ second) := by
  simp [append, append_append_list]

theorem admits_append_iff (s : Sink) (first second : Bytes) :
    (s.append first).Admits second ↔ s.Admits (first ++ second) := by
  rw [Admits, Admits, size_append, List.length_append, Nat.add_assoc]
  rfl

theorem Admits.initial {s : Sink} {first second : Bytes} (h : s.Admits (first ++ second)) :
    s.Admits first := by
  intro limit hLimit
  have hLe := h limit hLimit
  rw [List.length_append] at hLe
  omega

theorem Admits.of_no_limit {s : Sink} (h : s.limit = none) (bs : Bytes) : s.Admits bs := by
  intro limit hLimit
  rw [h] at hLimit
  cases hLimit

theorem put_nil (s : Sink) : s.put [] = (.ok (), s) := by
  obtain ⟨taken, limit, refusal, flushFailure⟩ := s
  cases limit with
  | none => simp [put, accepted]
  | some limit => simp [put, accepted]

theorem put_of_admits {s : Sink} {bs : Bytes} (h : s.Admits bs) :
    s.put bs = (.ok (), s.append bs) := by
  obtain ⟨taken, limit, refusal, flushFailure⟩ := s
  cases limit with
  | none => exact put_unlimited taken refusal flushFailure bs
  | some limit =>
    have hSum : taken.size + bs.length ≤ limit := h limit rfl
    have hLe : bs.length ≤ limit - taken.size := by omega
    simp [put, accepted, append, List.take_of_length_le hLe]

/-- A write that goes over the limit fills the sink and fails. -/
theorem put_of_not_admits {s : Sink} {bs : Bytes} (hStart : s.Admits []) (h : ¬s.Admits bs) :
    ∃ part, part <+: bs ∧ s.put bs = (.error (.io s.refusal), s.append part) ∧
      s.limit = some (s.append part).taken.size := by
  obtain ⟨taken, limit, refusal, flushFailure⟩ := s
  cases limit with
  | none => exact absurd (Admits.of_no_limit rfl bs) h
  | some limit =>
    have hStart' : taken.size ≤ limit := hStart limit rfl
    have hOver : ¬taken.size + bs.length ≤ limit := by
      intro hLe
      refine h ?_
      rintro _ ⟨⟩
      exact hLe
    have hLength : (bs.take (limit - taken.size)).length = limit - taken.size := by
      rw [List.length_take]
      omega
    have hPart : bs.take (limit - taken.size) ≠ bs := by
      intro hEq
      rw [hEq] at hLength
      omega
    refine ⟨bs.take (limit - taken.size), List.take_prefix _ _, ?_, ?_⟩
    · simp [put, accepted, append, hPart]
    · rw [size_append, hLength]
      simp only [Option.some.injEq]
      omega

/-- A write in two pieces leaves what one write leaves. -/
theorem put_append (s : Sink) (first second : Bytes) :
    s.put (first ++ second) =
      match s.put first with
      | (.ok _, s) => s.put second
      | (.error fault, s) => (.error fault, s) := by
  obtain ⟨taken, limit, refusal, flushFailure⟩ := s
  cases limit with
  | none => simp [put_unlimited, append_append_list]
  | some limit =>
    rcases Nat.lt_or_ge (limit - taken.size) first.length with hOver | hLe
    · have hBoth : (first ++ second).take (limit - taken.size) = first.take (limit - taken.size) :=
        List.take_append_of_le_length (Nat.le_of_lt hOver)
      have hShort : ∀ bs : Bytes, first.length ≤ bs.length →
          first.take (limit - taken.size) ≠ bs := by
        intro bs hBs hEq
        have hLength := congrArg List.length hEq
        rw [List.length_take] at hLength
        omega
      have hFirst := hShort first (Nat.le_refl _)
      have hWhole := hShort (first ++ second) (by simp)
      simp [put, accepted, hFirst, hBoth, hWhole]
    · have hBoth : (first ++ second).take (limit - taken.size) =
          first ++ second.take (limit - (taken.size + first.length)) := by
        rw [List.take_append, List.take_of_length_le hLe, Nat.sub_sub]
      have hSize : (taken ++ first).size = taken.size + first.length := by
        rw [← Array.length_toList]
        simp
      simp [put, accepted, hBoth, List.take_of_length_le hLe, hSize, append_append_list]

end Sink

theorem perform_play_notes {ι : Type} (event : ι → Event) (is : List ι) (o : Outlets) :
    ∃ journal, perform (play (is.map fun i => .note (event i))) o =
      (.ok (), ⟨o.out, o.diagnostics, journal⟩) := by
  induction is generalizing o with
  | nil => exact ⟨o.journal, rfl⟩
  | cons i is ih =>
    obtain ⟨journal, hRest⟩ := ih { o with journal := o.journal.push (.event (event i)) }
    refine ⟨journal, ?_⟩
    rw [List.map_cons, play, perform_bind, Action.run, perform_note]
    exact hRest

/-- Warnings about several keys are one write to the diagnostics. -/
theorem perform_play_warns (keys : List Text) (o : Outlets) :
    ∃ journal, perform (play (keys.map .warn)) o =
      ((o.diagnostics.put (keys.flatMap warningLine)).1,
        ⟨o.out, (o.diagnostics.put (keys.flatMap warningLine)).2, journal⟩) := by
  induction keys generalizing o with
  | nil => exact ⟨o.journal, by simp [play, Sink.put_nil]⟩
  | cons key keys ih =>
    rw [List.map_cons, play, perform_bind, Action.run, perform_warn, List.flatMap_cons,
      Sink.put_append, warningLine]
    cases hPut : o.diagnostics.put (Utf8.encode (warning key ++ ['\n'])) with
    | mk result diagnostics =>
      cases result with
      | ok _ => exact ih ⟨o.out, diagnostics, o.journal.push (.warning key)⟩
      | error fault => exact ⟨o.journal.push (.warning key), rfl⟩

theorem perform_play_writes (pieces : List Bytes) (o : Outlets) :
    perform (play (pieces.map .write)) o =
      ((o.out.put pieces.flatten).1, { o with out := (o.out.put pieces.flatten).2 }) := by
  induction pieces generalizing o with
  | nil => simp [play, Sink.put_nil]
  | cons piece pieces ih =>
    rw [List.map_cons, play, perform_bind, Action.run, perform_write, List.flatten_cons,
      Sink.put_append]
    cases hPut : o.out.put piece with
    | mk result out =>
      cases result with
      | ok _ => exact ih { o with out := out }
      | error fault => rfl

/-- A text and its newline are one write to the output. -/
theorem perform_play_outputLine (s : Line.Substitution) (o : Outlets) :
    perform (play [.write (Utf8.encode s.text), .write [0x0A]]) o =
      ((o.out.put (outputLine s)).1, { o with out := (o.out.put (outputLine s)).2 }) := by
  have hLine : outputLine s = [Utf8.encode s.text, [0x0A]].flatten := by
    rw [outputLine, encode_newline]
    rfl
  rw [hLine]
  exact perform_play_writes [Utf8.encode s.text, [0x0A]] o

theorem perform_lineScript_ok {p : Policy} {look : Lookup} {line : Text} {s : Line.Substitution}
    (h : Line.substitute p look line = .ok s) (number : Nat) (o : Outlets) :
    ∃ journal, perform (play (lineScript p look number line)) o =
      match o.diagnostics.put (s.missing.flatMap warningLine) with
      | (.error fault, diagnostics) => (.error fault, ⟨o.out, diagnostics, journal⟩)
      | (.ok _, diagnostics) =>
        ((o.out.put (outputLine s)).1, ⟨(o.out.put (outputLine s)).2, diagnostics, journal⟩) := by
  rw [Line.substitute] at h
  obtain ⟨noted, hNotes⟩ :=
    perform_play_notes (fun r : Line.Request => r.event p) (Line.trace p look line).2 o
  obtain ⟨warned, hWarns⟩ := perform_play_warns s.missing ⟨o.out, o.diagnostics, noted⟩
  refine ⟨warned, ?_⟩
  have hScript : lineScript p look number line =
      ((Line.trace p look line).2.map fun r => .note (r.event p)) ++
        (s.missing.map .warn ++ [.write (Utf8.encode s.text), .write [0x0A]]) := by
    rw [lineScript]
    cases hTrace : Line.trace p look line with
    | mk result requests =>
      rw [hTrace] at h
      obtain rfl : result = .ok s := h
      rfl
  rw [hScript, perform_play_append, hNotes]
  dsimp only
  rw [perform_play_append, hWarns]
  cases hPut : o.diagnostics.put (s.missing.flatMap warningLine) with
  | mk result diagnostics =>
    cases result with
    | error fault => rfl
    | ok _ => exact perform_play_outputLine s ⟨o.out, diagnostics, warned⟩

theorem perform_lineScript_error {p : Policy} {look : Lookup} {line : Text} {gap : Placeholder.Gap}
    (h : Line.substitute p look line = .error gap) (number : Nat) (o : Outlets) :
    ∃ journal, perform (play (lineScript p look number line)) o =
      ((o.diagnostics.put (warningLine gap.key)).1,
        ⟨o.out, (o.diagnostics.put (warningLine gap.key)).2, journal⟩) := by
  rw [Line.substitute] at h
  obtain ⟨noted, hNotes⟩ :=
    perform_play_notes (fun r : Line.Request => r.event p) (Line.trace p look line).2 o
  have hScript : lineScript p look number line =
      ((Line.trace p look line).2.map fun r => .note (r.event p)) ++
        [.warn gap.key, .note (.aborting number gap.key)] := by
    rw [lineScript]
    cases hTrace : Line.trace p look line with
    | mk result requests =>
      rw [hTrace] at h
      obtain rfl : result = .error gap := h
      rfl
  rw [hScript, perform_play_append, hNotes]
  dsimp only
  rw [play, perform_bind, Action.run, perform_warn, warningLine]
  cases hPut : o.diagnostics.put (Utf8.encode (warning gap.key ++ ['\n'])) with
  | mk result diagnostics =>
    cases result with
    | error fault => exact ⟨_, rfl⟩
    | ok _ => exact ⟨_, rfl⟩

theorem perform_substituteLines_nil (p : Policy) (look : Lookup) (totals : Totals) (o : Outlets) :
    ∃ journal, perform (substituteLines p look [] totals) o =
      (o.out.flush.map fun _ => totals, ⟨o.out, o.diagnostics, journal⟩) := by
  rw [substituteLines, perform_bind, perform_flush]
  cases o.out.flush with
  | error fault => exact ⟨o.journal, rfl⟩
  | ok _ => exact ⟨o.journal.push (.event (.streamDone totals)), rfl⟩

theorem perform_substituteLines_error {p : Policy} {look : Lookup} {line : Text}
    {gap : Placeholder.Gap} (h : Line.substitute p look line = .error gap)
    (lines : List (Except Fault Text)) (totals : Totals) (o : Outlets) :
    ∃ journal, perform (substituteLines p look (.ok line :: lines) totals) o =
      match o.diagnostics.put (warningLine gap.key) with
      | (.ok _, diagnostics) => (.error (.missingValue gap), ⟨o.out, diagnostics, journal⟩)
      | (.error fault, diagnostics) => (.error fault, ⟨o.out, diagnostics, journal⟩) := by
  obtain ⟨journal, hPlay⟩ := perform_lineScript_error h (totals.lines + 1) o
  refine ⟨journal, ?_⟩
  rw [substituteLines, perform_bind, follows_substituteLine p look (totals.lines + 1) line o, hPlay,
    lineResult, h]
  cases hPut : o.diagnostics.put (warningLine gap.key) with
  | mk result diagnostics => cases result <;> rfl

theorem perform_substituteLines_ok {p : Policy} {look : Lookup} {line : Text}
    {s : Line.Substitution} (h : Line.substitute p look line = .ok s)
    (lines : List (Except Fault Text)) (totals : Totals) (o : Outlets) :
    ∃ journal, perform (substituteLines p look (.ok line :: lines) totals) o =
      match o.diagnostics.put (s.missing.flatMap warningLine) with
      | (.error fault, diagnostics) => (.error fault, ⟨o.out, diagnostics, journal⟩)
      | (.ok _, diagnostics) =>
        match o.out.put (outputLine s) with
        | (.error fault, out) => (.error fault, ⟨out, diagnostics, journal⟩)
        | (.ok _, out) =>
          perform (substituteLines p look lines
            ⟨totals.lines + 1, totals.warnings + s.missing.length⟩) ⟨out, diagnostics, journal⟩ := by
  obtain ⟨journal, hPlay⟩ := perform_lineScript_ok h (totals.lines + 1) o
  refine ⟨journal, ?_⟩
  rw [substituteLines, perform_bind, follows_substituteLine p look (totals.lines + 1) line o, hPlay,
    lineResult, h]
  cases hWarned : o.diagnostics.put (s.missing.flatMap warningLine) with
  | mk result diagnostics =>
    cases result with
    | error fault => rfl
    | ok _ =>
      cases hWritten : o.out.put (outputLine s) with
      | mk result out => cases result <;> rfl

end Interpolation.Stream
