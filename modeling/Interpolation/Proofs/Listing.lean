import Interpolation.Proofs.Report
import Interpolation.Proofs.Leniency

/-!
# A listing predicts strict substitution

A listing writes the keys of all lines as records that can be read back, since no key reaches over a
line end. A strict run over the same text ends well if each of these keys has a value, and otherwise
stops on the line of the first that has none.
-/

namespace Interpolation.Stream

open Placeholder

/-- The lines before the first fault. -/
def heard : List (Except Fault Text) → List Text
  | .ok line :: lines => line :: heard lines
  | _ => []

theorem heard_map_ok (lines : List Text) : heard (lines.map .ok) = lines := by
  induction lines with
  | nil => rfl
  | cons line lines ih => rw [List.map_cons, heard, ih]

theorem mem_of_mem_heard {lines : List (Except Fault Text)} {line : Text} (h : line ∈ heard lines) :
    .ok line ∈ lines := by
  induction lines with
  | nil => simp [heard] at h
  | cons item lines ih =>
    cases item with
    | error fault => simp [heard] at h
    | ok first =>
      rcases List.mem_cons.mp h with rfl | h
      · exact List.mem_cons_self
      · exact List.mem_cons_of_mem _ (ih h)

theorem result_listScript (escapes : Bool) (lines : List Text) (count : Nat) :
    (listScript escapes (lines.map .ok) count).2 =
      .ok (count + (lines.flatMap (keys escapes)).length) := by
  induction lines generalizing count with
  | nil => rfl
  | cons line lines ih =>
    rw [List.map_cons, listScript, List.flatMap_cons]
    simp only [ih, List.length_append, Nat.add_assoc]

theorem output_listScript (escapes : Bool) (lines : List (Except Fault Text)) (count : Nat) :
    (listScript escapes lines count).1.flatMap Action.output =
      (((heard lines).flatMap (keys escapes)).map Utf8.encode).flatMap
        (· ++ [Lines.byteMarks.newline]) := by
  induction lines generalizing count with
  | nil => rfl
  | cons item lines ih =>
    cases item with
    | error fault => rfl
    | ok line =>
      rw [heard, listScript, List.flatMap_cons]
      simp only [List.flatMap_append, List.map_append, ih]
      congr 1
      induction keys escapes line with
      | nil => rfl
      | cons key others ih =>
        simp only [List.flatMap_cons, List.flatMap_append, List.map_cons, ih]
        simp [Action.output, Lines.byteMarks]

theorem perform_listKeys (escapes : Bool) (source : Source) {o : Outlets} (h : o.Unfailing) :
    let run := Run.perform (listKeys escapes source) o
    run.1 = (listScript escapes source.lines 0).2 ∧
      run.2.out.taken.toList = o.out.taken.toList ++
        (((heard source.lines).flatMap (keys escapes)).map Utf8.encode).flatMap
          (· ++ [Lines.byteMarks.newline]) := by
  intro run
  have hRun : run = ((listScript escapes source.lines 0).2,
      o.after (listScript escapes source.lines 0).1) :=
    (follows_listLines escapes source.lines 0).perform_of_unfailing h
  rw [hRun, ← output_listScript escapes source.lines 0]
  exact ⟨rfl, by simp [Outlets.after]⟩

theorem perform_listKeys_ofText (escapes : Bool) (t : Text) {o : Outlets} (h : o.Unfailing) :
    let keys := (Lines.all Lines.textMarks t).flatMap (keys escapes)
    let run := Run.perform (listKeys escapes (Source.ofText t)) o
    run.1 = .ok keys.length ∧
      run.2.out.taken.toList = o.out.taken.toList ++
        (keys.map Utf8.encode).flatMap (· ++ [Lines.byteMarks.newline]) := by
  intro keys run
  obtain ⟨hResult, hOutput⟩ := perform_listKeys escapes (Source.ofText t) h
  rw [lines_ofText, result_listScript, Nat.zero_add] at hResult
  rw [lines_ofText, heard_map_ok] at hOutput
  exact ⟨hResult, hOutput⟩

/-- The keys that a listing writes, read back from its output. -/
def listedKeys (escapes : Bool) (source : Source) : List Text :=
  (Lines.records (Run.perform (listKeys escapes source) {}).2.out.taken.toList).filterMap
    Utf8.decode?

theorem eq_encode_of_readLine {row : Bytes} {line : Text} (h : readLine row = .ok line) :
    row = Utf8.encode line := by
  rw [readLine] at h
  split at h
  · rename_i text hText
    rw [← Except.ok.inj h]
    exact Utf8.decode?_eq_some_iff.mp hText
  · cases h

theorem rows_subset_all (source : Source) :
    source.rows ⊆ Lines.all Lines.byteMarks source.bytes := by
  rw [Source.rows, Lines.all]
  apply List.append_subset.mpr
  refine ⟨List.subset_append_left _ _, ?_⟩
  split
  · exact List.nil_subset _
  · rename_i hRest
    rw [if_neg (by rw [List.isEmpty_iff]; exact fun hEmpty => hRest (.inr hEmpty))]
    exact List.subset_append_right _ _

theorem newline_not_mem_of_mem_heard {source : Source} {line : Text}
    (h : line ∈ heard source.lines) : '\n' ∉ line := by
  have hLine := mem_of_mem_heard h
  rw [lines_eq] at hLine
  rcases List.mem_append.mp hLine with hLine | hLine
  · obtain ⟨row, hRow, hRead⟩ := List.mem_map.mp hLine
    have hNewline :=
      Lines.newline_not_mem Lines.byteMarks source.bytes row (rows_subset_all source hRow)
    rw [eq_encode_of_readLine hRead] at hNewline
    exact fun hMem => hNewline ((Lines.newline_mem_encode_iff line).mpr hMem)
  · obtain ⟨reason, -, hReason⟩ := Option.map_eq_some_iff.mp (Option.mem_toList.mp hLine)
    cases hReason

theorem newline_not_mem_key {escapes : Bool} {source : Source} {key : Text}
    (h : key ∈ (heard source.lines).flatMap (keys escapes)) : '\n' ∉ key := by
  obtain ⟨line, hLine, hKey⟩ := List.mem_flatMap.mp h
  exact fun hMem => newline_not_mem_of_mem_heard hLine (mem_of_mem_key escapes hKey hMem)

/-- No key holds a newline, so the records of a listing are the keys of the lines it has read. -/
theorem records_listKeys (escapes : Bool) (source : Source) :
    Lines.records (Run.perform (listKeys escapes source) {}).2.out.taken.toList =
      ((heard source.lines).flatMap (keys escapes)).map Utf8.encode := by
  obtain ⟨-, hOutput⟩ := perform_listKeys escapes source (o := {}) ⟨rfl, rfl, rfl⟩
  rw [hOutput]
  apply Lines.records_flatMap
  intro row hRow hNewline
  obtain ⟨key, hKey, rfl⟩ := List.mem_map.mp hRow
  exact newline_not_mem_key hKey ((Lines.newline_mem_encode_iff key).mp hNewline)

theorem listedKeys_eq (escapes : Bool) (source : Source) :
    listedKeys escapes source = (heard source.lines).flatMap (keys escapes) := by
  rw [listedKeys, records_listKeys, List.filterMap_map]
  have hDecode : Utf8.decode? ∘ Utf8.encode = some := funext Utf8.decode?_encode
  rw [hDecode, List.filterMap_some]

theorem listedKeys_ofText (escapes : Bool) (t : Text) :
    listedKeys escapes (Source.ofText t) =
      (Lines.all Lines.textMarks t).flatMap (keys escapes) := by
  rw [listedKeys_eq, lines_ofText, heard_map_ok]

/-- A place in the concatenation of lists lies in one of them. -/
theorem exists_flatMap_split {ι α : Type} {f : ι → List α} {is : List ι} {earlier later : List α}
    {a : α} (h : is.flatMap f = earlier ++ a :: later) :
    ∃ before i after own others, is = before ++ i :: after ∧
      earlier = before.flatMap f ++ own ∧ f i = own ++ a :: others := by
  induction is generalizing earlier with
  | nil => simp at h
  | cons i is ih =>
    rw [List.flatMap_cons] at h
    rcases List.append_eq_append_iff.mp h with ⟨more, hEarlier, hMore⟩ | ⟨others, hHere, hOthers⟩
    · obtain ⟨before, j, after, own, others, rfl, rfl, hHere⟩ := ih hMore
      exact ⟨i :: before, j, after, own, others, rfl, by simp [hEarlier], hHere⟩
    · cases others with
      | nil =>
        -- The place is at the start of what follows, where further empty lists may stand first.
        have hRest : is.flatMap f = [] ++ a :: later := hOthers.symm
        obtain ⟨before, j, after, own, others, rfl, hOwn, hThere⟩ := ih hRest
        refine ⟨i :: before, j, after, own, others, rfl, ?_, hThere⟩
        rw [List.append_nil] at hHere
        rw [List.flatMap_cons, List.append_assoc, ← hOwn, hHere, List.append_nil]
      | cons b others =>
        obtain ⟨rfl, -⟩ := List.cons.inj hOthers
        exact ⟨[], i, is, earlier, others, rfl, rfl, hHere⟩

theorem exists_first_missing (look : Lookup) {keys : List Text}
    (h : ¬∀ key ∈ keys, (look key).isSome) :
    ∃ earlier key later, keys = earlier ++ key :: later ∧
      (∀ k ∈ earlier, (look k).isSome) ∧ look key = none := by
  obtain ⟨key, hFind⟩ : ∃ key, keys.find? (fun key => (look key).isNone) = some key := by
    rw [← Option.isSome_iff_exists, List.find?_isSome]
    simpa using h
  obtain ⟨hKey, earlier, later, hKeys, hEarlier⟩ := List.find?_eq_some_iff_append.mp hFind
  refine ⟨earlier, key, later, hKeys, ?_, by simpa using hKey⟩
  intro k hk
  simpa [Option.isSome_iff_ne_none] using hEarlier k hk

/-- Either all lines are substituted, or there is a first one that is not. -/
theorem exists_done_or_stopped (p : Policy) (look : Lookup) (lines : List Text) :
    (∃ done : List Line.Substitution, lines.map (Line.substitute p look) = done.map .ok) ∨
      ∃ (before : List Text) (line : Text) (after : List Text) (done : List Line.Substitution)
          (gap : Gap), lines = before ++ line :: after ∧
        before.map (Line.substitute p look) = done.map .ok ∧
        Line.substitute p look line = .error gap := by
  induction lines with
  | nil => exact .inl ⟨[], rfl⟩
  | cons first lines ih =>
    cases hFirst : Line.substitute p look first with
    | error gap => exact .inr ⟨[], first, lines, [], gap, rfl, rfl, hFirst⟩
    | ok s =>
      rcases ih with ⟨done, hDone⟩ | ⟨before, line, after, done, gap, rfl, hDone, hGap⟩
      · exact .inl ⟨s :: done, by rw [List.map_cons, hFirst, hDone, List.map_cons]⟩
      · refine .inr ⟨first :: before, line, after, s :: done, gap, rfl, ?_, hGap⟩
        rw [List.map_cons, hFirst, hDone, List.map_cons]

/-- The keys that the lines miss are keys on them without a value. -/
theorem flatMap_missing {p : Policy} {look : Lookup} {lines : List Text}
    {done : List Line.Substitution} (h : lines.map (Line.substitute p look) = done.map .ok) :
    done.flatMap Line.Substitution.missing =
      (lines.flatMap (keys p.escapes)).filter fun key => (look key).isNone := by
  induction lines generalizing done with
  | nil =>
    obtain rfl : done = [] := by simpa using h.symm
    rfl
  | cons line lines ih =>
    cases done with
    | nil => cases h
    | cons s done =>
      obtain ⟨hLine, hLines⟩ := List.cons.inj h
      rw [List.flatMap_cons, List.flatMap_cons, List.filter_append, ih hLines,
        Line.missing_of_substitute hLine]

theorem exists_substituted (p : Policy) (look : Lookup) {lines : List Text}
    (h : ∀ key ∈ lines.flatMap (keys p.escapes), (look key).isSome) :
    ∃ done : List Line.Substitution, lines.map (Line.substitute p look) = done.map .ok ∧
      done.flatMap Line.Substitution.missing = [] := by
  rcases exists_done_or_stopped p look lines with
    ⟨done, hDone⟩ | ⟨before, line, after, done, gap, rfl, -, hGap⟩
  · refine ⟨done, hDone, ?_⟩
    rw [flatMap_missing hDone, Line.filter_isNone_eq_nil_iff]
    exact h
  · obtain ⟨-, hKey, hNone⟩ := Line.gap_of_substitute hGap
    have hLine : line ∈ before ++ line :: after := List.mem_append_right _ List.mem_cons_self
    have hSome := h gap.key (List.mem_flatMap.mpr ⟨line, hLine, hKey⟩)
    rw [hNone] at hSome
    cases hSome

theorem report_ofText_answered (p : Policy) (look : Lookup) (t : Text)
    (h : ∀ key ∈ (Lines.all Lines.textMarks t).flatMap (keys p.escapes), (look key).isSome) :
    ∃ totals, (Report.ofOutcomes ((Source.ofText t).lines.map (lineOutcome p look))).result =
      .ok totals := by
  obtain ⟨done, hDone, -⟩ := exists_substituted p look h
  rw [lines_ofText, map_lineOutcome hDone, ofOutcomes_map_ok]
  exact ⟨_, rfl⟩

theorem report_ofText_stopped (p : Policy) (hStrict : p.failOnMissing = true) (look : Lookup)
    (t : Text) {earlier later : List Text} {key : Text}
    (hListed : (Lines.all Lines.textMarks t).flatMap (keys p.escapes) = earlier ++ key :: later)
    (hEarlier : ∀ k ∈ earlier, (look k).isSome) (hKey : look key = none) :
    ∃ (linesBefore : List Text) (line : Text) (linesAfter keysBefore keysAfter : List Text)
        (before : Text) (done : List Line.Substitution),
      Lines.all Lines.textMarks t = linesBefore ++ line :: linesAfter ∧
      earlier = linesBefore.flatMap (keys p.escapes) ++ keysBefore ∧
      keys p.escapes line = keysBefore ++ key :: keysAfter ∧
      linesBefore.map (Line.substitute p look) = done.map .ok ∧
      Report.ofOutcomes ((Source.ofText t).lines.map (lineOutcome p look)) =
        ⟨.error (.missingValue ⟨key, before⟩), done.flatMap outputLine, warningLine key⟩ := by
  obtain ⟨linesBefore, line, linesAfter, keysBefore, keysAfter, hLines, rfl, hLine⟩ :=
    exists_flatMap_split hListed
  obtain ⟨done, hDone, hNone⟩ := exists_substituted p look fun k hk =>
    hEarlier k (List.mem_append_left _ hk)
  obtain ⟨before, hStopped⟩ : ∃ before, Line.substitute p look line = .error ⟨key, before⟩ :=
    ⟨_, Line.substitute_stopped p hStrict look line hLine
      (fun k hk => hEarlier k (List.mem_append_right _ hk)) hKey⟩
  refine ⟨linesBefore, line, linesAfter, keysBefore, keysAfter, before, done, hLines, rfl, hLine,
    hDone, ?_⟩
  rw [lines_ofText, hLines, report_stopped hDone hStopped, hNone]
  rfl

/-- The keys that a listing writes decide how a strict run over the same text ends. -/
theorem listing_predicts_strict (escapes : Bool) (look : Lookup) {source : Source} {t : Text}
    (hText : Utf8.decode? source.bytes = some t) (hReader : source.failure = none) {o : Outlets}
    (hOutlets : o.Unfailing) :
    let listed := listedKeys escapes source
    let lines := Lines.all Lines.textMarks t
    let policy : Policy := ⟨true, escapes⟩
    let run := Run.perform (substitute policy look source) o
    (Run.perform (listKeys escapes source) {}).1 = .ok listed.length ∧
    ((∃ totals, run.1 = .ok totals) ↔ ∀ key ∈ listed, (look key).isSome) ∧
    ∀ earlier key later, listed = earlier ++ key :: later → (∀ k ∈ earlier, (look k).isSome) →
      look key = none →
        ∃ (linesBefore : List Text) (line : Text) (linesAfter keysBefore keysAfter : List Text)
            (before : Text) (done : List Line.Substitution),
          lines = linesBefore ++ line :: linesAfter ∧
          earlier = linesBefore.flatMap (keys escapes) ++ keysBefore ∧
          keys escapes line = keysBefore ++ key :: keysAfter ∧
          linesBefore.map (Line.substitute policy look) = done.map .ok ∧
          run.1 = .error (.missingValue ⟨key, before⟩) ∧
          run.2.out.taken.toList = o.out.taken.toList ++ done.flatMap outputLine ∧
          run.2.diagnostics.taken.toList = o.diagnostics.taken.toList ++ warningLine key := by
  intro listed lines policy run
  obtain rfl : source = Source.ofText t := by
    rw [Source.ofText, ← Utf8.decode?_eq_some_iff.mp hText, ← hReader]
  have hListed : listed = lines.flatMap (keys escapes) := listedKeys_ofText escapes t
  obtain ⟨hCount, -⟩ := perform_listKeys_ofText escapes t (o := {}) ⟨rfl, rfl, rfl⟩
  obtain ⟨hResult, hOut, hDiagnostics⟩ := perform_substitute policy look (Source.ofText t) hOutlets
  rw [hListed]
  refine ⟨hCount, ⟨?_, ?_⟩, ?_⟩
  · rintro ⟨totals, hOk⟩
    by_contra hMissing
    obtain ⟨earlier, key, later, hSplit, hEarlier, hKey⟩ := exists_first_missing look hMissing
    obtain ⟨_, _, _, _, _, before, done, -, -, -, -, hReport⟩ :=
      report_ofText_stopped policy rfl look t hSplit hEarlier hKey
    rw [hOk, hReport] at hResult
    cases hResult
  · intro hSome
    obtain ⟨totals, hTotals⟩ := report_ofText_answered policy look t hSome
    exact ⟨totals, hResult.trans hTotals⟩
  · intro earlier key later hSplit hEarlier hKey
    obtain ⟨linesBefore, line, linesAfter, keysBefore, keysAfter, before, done, hLines, hOwn, hLine,
      hDone, hReport⟩ := report_ofText_stopped policy rfl look t hSplit hEarlier hKey
    rw [hReport] at hResult hOut hDiagnostics
    exact ⟨linesBefore, line, linesAfter, keysBefore, keysAfter, before, done, hLines, hOwn, hLine,
      hDone, hResult, hOut, hDiagnostics⟩

theorem listing_predicts_strict_second_key :
    let t : Text := "${A}\n${B} ${C}".toList
    let source : Source := ⟨Utf8.encode t, none⟩
    let look : Lookup := fun key => if key = ['A'] then some ['1'] else none
    Utf8.decode? source.bytes = some t ∧ source.failure = none ∧ ({} : Outlets).Unfailing ∧
      listedKeys true source = [['A'], ['B'], ['C']] ∧
      ∃ before, (Run.perform (substitute {} look source) {}).1 =
        .error (.missingValue ⟨['B'], before⟩) := by
  intro t source look
  have hText : Utf8.decode? source.bytes = some t := Utf8.decode?_encode t
  have hOutlets : ({} : Outlets).Unfailing := ⟨rfl, rfl, rfl⟩
  have hListed : listedKeys true source = [['A'], ['B'], ['C']] :=
    (listedKeys_ofText true t).trans (by decide)
  obtain ⟨-, -, hStopped⟩ := listing_predicts_strict true look hText rfl hOutlets
  obtain ⟨_, _, _, _, _, before, _, -, -, -, -, hError, -⟩ :=
    hStopped [['A']] ['B'] [['C']] hListed (by decide) (by decide)
  exact ⟨hText, rfl, hOutlets, hListed, before, hError⟩

end Interpolation.Stream
