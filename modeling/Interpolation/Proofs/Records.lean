import Mathlib.Data.List.Basic
import Interpolation.Proofs.Listing

/-!
# Records that are cut back

Keys are written as they stand, in a listing and in the warnings. No key holds a newline, since no
line does, nor a closing brace, since the first one ends the key. So every newline that is written ends
a record, the records are as many as the keys, and each warning gives back the key that it quotes.
-/

namespace Interpolation

open Placeholder

namespace Stream

theorem marks_not_mem_key {escapes : Bool} {t key : Text}
    (h : key ∈ (Lines.all Lines.textMarks t).flatMap (keys escapes)) : '\n' ∉ key ∧ '}' ∉ key := by
  obtain ⟨line, hLine, hKey⟩ := List.mem_flatMap.mp h
  constructor
  · exact fun hMem =>
      Lines.newline_not_mem Lines.textMarks t line hLine (mem_of_mem_key escapes hKey hMem)
  · exact closing_not_mem_key escapes hKey

/-- What every warning says before its key. -/
def warningFront : Text :=
  "WARNING: No value (environment variable) supplied for key \"".toList

theorem warning_eq (key : Text) : warning key = warningFront ++ key ++ ['"'] := rfl

/-- The key of a warning: what is left of it without the words before and the quote behind. -/
def quotedKey (record : Bytes) : Option Text :=
  Utf8.decode? (record.drop (Utf8.encode warningFront).length).dropLast

theorem quotedKey_warning (key : Text) : quotedKey (Utf8.encode (warning key)) = some key := by
  rw [quotedKey, warning_eq, Utf8.encode_append_cons (a := '"') (by decide), Utf8.encode_append,
    List.append_assoc, List.drop_left, Utf8.encode_nil, List.dropLast_concat, Utf8.decode?_encode]

theorem newline_not_mem_warning {key : Text} (h : '\n' ∉ key) : '\n' ∉ warning key := by
  have hFront : '\n' ∉ warningFront := by decide
  rw [warning_eq, List.mem_append, List.mem_append]
  rintro ((hMem | hMem) | hMem)
  · exact hFront hMem
  · exact h hMem
  · exact absurd hMem (by decide)

/-- Texts without newlines, each with a newline behind it, are cut back at the newlines. -/
theorem cut_back {texts : List Text} (h : ∀ t ∈ texts, '\n' ∉ t) :
    let written := (texts.map Utf8.encode).flatMap (· ++ [Lines.byteMarks.newline])
    written.splitOn Lines.byteMarks.newline = texts.map Utf8.encode ++ [[]] ∧
      written.count Lines.byteMarks.newline = texts.length := by
  have hRows : ∀ row ∈ texts.map Utf8.encode, Lines.byteMarks.newline ∉ row := by
    intro row hRow hNewline
    obtain ⟨t, ht, rfl⟩ := List.mem_map.mp hRow
    exact h t ht ((Lines.newline_mem_encode_iff t).mp hNewline)
  exact ⟨Lines.splitOn_flatMap hRows, (Lines.count_flatMap hRows).trans (List.length_map _)⟩

theorem flatMap_warningLine (keys : List Text) :
    keys.flatMap warningLine =
      ((keys.map warning).map Utf8.encode).flatMap (· ++ [Lines.byteMarks.newline]) := by
  rw [List.map_map, List.flatMap_map]
  apply List.flatMap_congr
  intro key _
  rw [warningLine, encode_newline]
  rfl

theorem map_quotedKey (keys : List Text) :
    ((keys.map warning).map Utf8.encode).map quotedKey = keys.map some := by
  rw [List.map_map, List.map_map]
  apply List.map_congr_left
  intro key _
  rw [Function.comp_apply, Function.comp_apply, quotedKey_warning]

/-- Warnings are records, and each gives its key back. -/
theorem cut_back_warnings {keys : List Text} (h : ∀ key ∈ keys, '\n' ∉ key) :
    let warned := keys.flatMap warningLine
    warned.splitOn Lines.byteMarks.newline = (keys.map warning).map Utf8.encode ++ [[]] ∧
      warned.count Lines.byteMarks.newline = keys.length ∧
      (Lines.records warned).map quotedKey = keys.map some := by
  intro warned
  have hTexts : ∀ t ∈ keys.map warning, '\n' ∉ t := by
    intro t ht
    obtain ⟨key, hKey, rfl⟩ := List.mem_map.mp ht
    exact newline_not_mem_warning (h key hKey)
  obtain ⟨hCut, hCount⟩ := cut_back hTexts
  rw [← flatMap_warningLine] at hCut hCount
  refine ⟨hCut, hCount.trans (List.length_map _), ?_⟩
  rw [Lines.records, hCut, List.dropLast_concat, map_quotedKey]

theorem flatMap_missing_of_strict {p : Policy} (hStrict : p.failOnMissing = true) {look : Lookup}
    {lines : List Text} {done : List Line.Substitution}
    (h : lines.map (Line.substitute p look) = done.map .ok) :
    done.flatMap Line.Substitution.missing = [] := by
  rw [List.flatMap_eq_nil_iff]
  intro s hs
  have hMem : .ok s ∈ lines.map (Line.substitute p look) := h ▸ List.mem_map_of_mem hs
  obtain ⟨line, -, hLine⟩ := List.mem_map.mp hMem
  exact Line.missing_of_strict hStrict hLine

/-- Over lines that are read, a report warns of the keys that are missing, or of the one key that
stopped it. -/
theorem report_warned (p : Policy) (look : Lookup) (lines : List Text) :
    let told := Report.ofOutcomes ((lines.map .ok).map (lineOutcome p look))
    (∃ done : List Line.Substitution, lines.map (Line.substitute p look) = done.map .ok ∧
      told.result = .ok ⟨done.length, (done.flatMap Line.Substitution.missing).length⟩ ∧
      told.diagnostics = (done.flatMap Line.Substitution.missing).flatMap warningLine) ∨
    ∃ gap : Gap, gap.key ∈ lines.flatMap (keys p.escapes) ∧
      told.result = .error (.missingValue gap) ∧
      told.diagnostics = [gap.key].flatMap warningLine := by
  intro told
  rcases exists_done_or_stopped p look lines with
    ⟨done, hDone⟩ | ⟨before, line, after, done, gap, hLines, hDone, hGap⟩
  · refine .inl ⟨done, hDone, ?_⟩
    simp only [told]
    rw [map_lineOutcome hDone, ofOutcomes_map_ok]
    exact ⟨rfl, rfl⟩
  · -- Only a strict run stops, and up to there a strict run has nothing to warn of.
    obtain ⟨hStrict, hKey, -⟩ := Line.gap_of_substitute hGap
    have hMem : gap.key ∈ lines.flatMap (keys p.escapes) :=
      List.mem_flatMap.mpr ⟨line, hLines ▸ List.mem_append_right _ List.mem_cons_self, hKey⟩
    refine .inr ⟨gap, hMem, ?_⟩
    simp only [told]
    rw [hLines, report_stopped hDone hGap after, flatMap_missing_of_strict hStrict hDone]
    exact ⟨rfl, by simp⟩

/-- What is written about keys can be read back from the newlines: a listing gives the keys of all
lines, and the diagnostics of a run give the warnings with the keys that are missing, or the one key
that stopped it. -/
theorem records_cut_back (p : Policy) (look : Lookup) {source : Source} {t : Text}
    (hText : Utf8.decode? source.bytes = some t) (hReader : source.failure = none) {o : Outlets}
    (hOutlets : o.Unfailing) :
    let lines := Lines.all Lines.textMarks t
    let keys := lines.flatMap (Placeholder.keys p.escapes)
    (∀ key ∈ keys, '\n' ∉ key ∧ '}' ∉ key) ∧
    (∃ written : Bytes,
      let listing := Run.perform (listKeys p.escapes source) o
      listing.1 = .ok (written.count 0x0A) ∧
      listing.2.out.taken.toList = o.out.taken.toList ++ written ∧
      written.splitOn 0x0A = keys.map Utf8.encode ++ [[]]) ∧
    ∃ warned : Bytes,
      let run := Run.perform (substitute p look source) o
      run.2.diagnostics.taken.toList = o.diagnostics.taken.toList ++ warned ∧
      (∀ totals, run.1 = .ok totals → ∃ done : List Line.Substitution,
        lines.map (Line.substitute p look) = done.map .ok ∧
        let missing := done.flatMap Line.Substitution.missing
        (∀ key ∈ missing, key ∈ keys) ∧
        totals.warnings = warned.count 0x0A ∧
        warned.splitOn 0x0A = (missing.map warning).map Utf8.encode ++ [[]] ∧
        (Lines.records warned).map quotedKey = missing.map some) ∧
      ∀ gap, run.1 = .error (.missingValue gap) →
        gap.key ∈ keys ∧
        warned.splitOn 0x0A = [Utf8.encode (warning gap.key), []] ∧
        (Lines.records warned).map quotedKey = [some gap.key] := by
  intro lines keys
  obtain rfl : source = Source.ofText t := by
    rw [Source.ofText, ← Utf8.decode?_eq_some_iff.mp hText, ← hReader]
  obtain ⟨hCount, hWritten⟩ := perform_listKeys_ofText p.escapes t hOutlets
  obtain ⟨hResult, -, hWarned⟩ := perform_substitute p look (Source.ofText t) hOutlets
  have hKeys : ∀ key ∈ keys, '\n' ∉ key ∧ '}' ∉ key := fun key hKey => marks_not_mem_key hKey
  obtain ⟨hCut, hNewlines⟩ := cut_back fun key hKey => (hKeys key hKey).1
  rw [lines_ofText] at hResult hWarned
  refine ⟨hKeys, ⟨_, hNewlines ▸ hCount, hWritten, hCut⟩, ?_⟩
  rcases report_warned p look lines with ⟨done, hDone, hTotals, hTold⟩ | ⟨gap, hKey, hStopped, hTold⟩
  · rw [hTotals] at hResult
    rw [hTold] at hWarned
    have hMissing : ∀ key ∈ done.flatMap Line.Substitution.missing, key ∈ keys := by
      rw [flatMap_missing hDone]
      exact fun key hKey => (List.mem_filter.mp hKey).1
    obtain ⟨hRecords, hRecordCount, hQuoted⟩ :=
      cut_back_warnings fun key hKey => (hKeys key (hMissing key hKey)).1
    refine ⟨_, hWarned, ?_, ?_⟩
    · intro totals hOk
      obtain rfl := Except.ok.inj (hResult.symm.trans hOk)
      exact ⟨done, hDone, hMissing, hRecordCount.symm, hRecords, hQuoted⟩
    · intro gap hGap
      cases hResult.symm.trans hGap
  · rw [hStopped] at hResult
    rw [hTold] at hWarned
    have hOnly : ∀ key ∈ [gap.key], '\n' ∉ key := by
      intro key hMem
      obtain rfl := List.mem_singleton.mp hMem
      exact (hKeys gap.key hKey).1
    obtain ⟨hRecords, -, hQuoted⟩ := cut_back_warnings hOnly
    refine ⟨_, hWarned, ?_, ?_⟩
    · intro totals hOk
      cases hResult.symm.trans hOk
    · intro other hOther
      cases hResult.symm.trans hOther
      exact ⟨hKey, hRecords, hQuoted⟩

/-- A key that holds a quote, and one that is a carriage return. -/
theorem records_cut_back_quote :
    let t : Text := spell ['"'] ++ '\n' :: (spell ['\r'] ++ spell ['A'])
    let source : Source := ⟨Utf8.encode t, none⟩
    let look : Lookup := fun key => if key = ['A'] then some ['1'] else none
    Utf8.decode? source.bytes = some t ∧ source.failure = none ∧ ({} : Outlets).Unfailing ∧
      (Run.perform (substitute .lenient look source) {}).1 = .ok ⟨2, 2⟩ ∧
      (Lines.records (Run.perform (substitute .lenient look source) {}).2.diagnostics.taken.toList).map
        quotedKey = [some ['"'], some ['\r']] := by
  intro t source look
  have hText : Utf8.decode? source.bytes = some t := Utf8.decode?_encode t
  have hOutlets : ({} : Outlets).Unfailing := ⟨rfl, rfl, rfl⟩
  obtain ⟨hRun, -, -⟩ := perform_substitute .lenient look (Source.ofText t) hOutlets
  rw [lines_ofText] at hRun
  have hTotals : (Run.perform (substitute .lenient look source) {}).1 = .ok ⟨2, 2⟩ :=
    hRun.trans (by rfl)
  obtain ⟨-, -, warned, hWarned, hDone, -⟩ := records_cut_back .lenient look hText rfl hOutlets
  obtain ⟨done, hLines, -, -, -, hQuoted⟩ := hDone _ hTotals
  have hMissing : done.flatMap Line.Substitution.missing = [['"'], ['\r']] :=
    (flatMap_missing hLines).trans (by decide)
  rw [hMissing] at hQuoted
  refine ⟨hText, rfl, hOutlets, hTotals, ?_⟩
  rw [hWarned]
  exact hQuoted

end Stream

end Interpolation
