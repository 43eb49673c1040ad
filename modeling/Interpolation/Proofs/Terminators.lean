import Mathlib.Data.List.Basic
import Interpolation.References
import Interpolation.Proofs.Report

/-!
# Line terminators

A line ends with a newline, or with a carriage return and a newline, and the last line may have no
terminator at all. Which of these it is makes no difference to the lines that are read; so neither a
substitution nor a listing nor the references of a text depend on it.
-/

namespace Interpolation

open Placeholder

namespace Lines

variable {α : Type} [DecidableEq α] (m : Marks α)

section

variable (chosen : Nat → Bool)

/-- The sequence with a carriage return before each newline that is chosen and has none. The choice is
by place, with `place` for the first; `before` stands in front of the sequence. -/
def putReturns (place : Nat) (before : Option α) : List α → List α
  | [] => []
  | a :: s =>
    if a = m.newline ∧ before ≠ some m.carriageReturn ∧ chosen place = true then
      m.carriageReturn :: a :: putReturns (place + 1) (some a) s
    else a :: putReturns (place + 1) (some a) s

theorem putReturns_append {row : List α} (h : m.newline ∉ row) (place : Nat) (before : Option α)
    (s : List α) :
    putReturns m chosen place before (row ++ s) =
      row ++ putReturns m chosen (place + row.length) (row.getLast?.or before) s := by
  induction row generalizing place before with
  | nil => simp
  | cons a row ih =>
    have ha : a ≠ m.newline := fun hEq => h (hEq ▸ List.mem_cons_self)
    have hLast : (a :: row).getLast?.or before = row.getLast?.or (some a) := by
      rw [List.getLast?_cons]
      cases row.getLast? <;> rfl
    rw [List.cons_append, putReturns, if_neg fun hAnd => ha hAnd.1,
      ih fun hMem => h (List.mem_cons_of_mem _ hMem), hLast, List.cons_append, List.length_cons,
      Nat.add_assoc, Nat.add_comm 1]

end

theorem dropReturn_concat (row : List α) : dropReturn m (row ++ [m.carriageReturn]) = row := by
  simp [dropReturn]

theorem dropReturn_of_getLast? {row : List α} (h : row.getLast? ≠ some m.carriageReturn) :
    dropReturn m row = row :=
  if_neg h

/-- A return at the end of a row is dropped again, whether it stood there or has been put there. -/
theorem exists_rows_putReturns (hMarks : m.newline ≠ m.carriageReturn) (chosen : Nat → Bool)
    {rows : List (List α)} {last : List α} (hRows : ∀ row ∈ rows, m.newline ∉ row)
    (hLast : m.newline ∉ last) (place : Nat) (before : Option α) :
    ∃ rows' : List (List α),
      putReturns m chosen place before (rows.flatMap (· ++ [m.newline]) ++ last) =
        rows'.flatMap (· ++ [m.newline]) ++ last ∧
      (∀ row ∈ rows', m.newline ∉ row) ∧ rows'.map (dropReturn m) = rows.map (dropReturn m) := by
  induction rows generalizing place before with
  | nil =>
    refine ⟨[], ?_, by simp, rfl⟩
    simpa [putReturns] using putReturns_append m chosen hLast place before []
  | cons row rows ih =>
    have hRow := hRows row List.mem_cons_self
    obtain ⟨rows', hPut, hRows', hDrop⟩ :=
      ih (fun row hRow => hRows row (List.mem_cons_of_mem _ hRow)) (place + row.length + 1)
        (some m.newline)
    rw [List.flatMap_cons, List.append_assoc, List.append_assoc, List.singleton_append,
      putReturns_append m chosen hRow, putReturns, hPut]
    split
    · rename_i hPlace
      have hReturn : row.getLast? ≠ some m.carriageReturn := by
        intro hEq
        rw [hEq, Option.some_or] at hPlace
        exact hPlace.2.1 rfl
      refine ⟨(row ++ [m.carriageReturn]) :: rows', by simp, ?_, ?_⟩
      · refine List.forall_mem_cons.mpr ⟨?_, hRows'⟩
        simpa [hRow] using hMarks
      · rw [List.map_cons, List.map_cons, hDrop, dropReturn_concat, dropReturn_of_getLast? m hReturn]
    · exact ⟨row :: rows', by simp, List.forall_mem_cons.mpr ⟨hRow, hRows'⟩, by simp [hDrop]⟩

theorem all_rows {rows : List (List α)} {last : List α} (hRows : ∀ row ∈ rows, m.newline ∉ row)
    (hLast : m.newline ∉ last) :
    all m (rows.flatMap (· ++ [m.newline]) ++ last) =
      rows.map (dropReturn m) ++ if last.isEmpty then [] else [last] := by
  obtain ⟨hComplete, hRest⟩ := complete_rows m hRows hLast
  rw [all, hComplete, hRest]

theorem all_putReturns (hMarks : m.newline ≠ m.carriageReturn) (chosen : Nat → Bool) (place : Nat)
    (before : Option α) (s : List α) : all m (putReturns m chosen place before s) = all m s := by
  obtain ⟨rows, last, rfl, hRows, hLast, -⟩ := exists_rows m s
  obtain ⟨rows', hPut, hRows', hDrop⟩ :=
    exists_rows_putReturns m hMarks chosen hRows hLast place before
  rw [hPut, all_rows m hRows' hLast, all_rows m hRows hLast, hDrop]

theorem all_append_newline {s : List α} {a : α} (hEnd : s.getLast? = some a)
    (hNewline : a ≠ m.newline) (hReturn : a ≠ m.carriageReturn) :
    all m (s ++ [m.newline]) = all m s := by
  obtain ⟨rows, last, rfl, hRows, hLast, -⟩ := exists_rows m s
  cases last with
  | nil =>
    -- Without a rest the sequence ends with a newline, or it is empty.
    rcases List.eq_nil_or_concat rows with rfl | ⟨others, row, rfl⟩
    · cases hEnd
    · refine absurd ?_ hNewline
      simpa using hEnd.symm
  | cons b others =>
    have hRow : (b :: others).getLast? = some a := by
      simpa [List.getLast?_append] using hEnd
    have hDrop : dropReturn m (b :: others) = b :: others := by
      apply dropReturn_of_getLast?
      rw [hRow]
      simpa using hReturn
    have hRows' : ∀ row ∈ rows ++ [b :: others], m.newline ∉ row := by
      rw [List.forall_mem_append]
      exact ⟨hRows, List.forall_mem_singleton.mpr hLast⟩
    have hEmpty : m.newline ∉ ([] : List α) := List.not_mem_nil
    have hForm : rows.flatMap (· ++ [m.newline]) ++ b :: others ++ [m.newline] =
        (rows ++ [b :: others]).flatMap (· ++ [m.newline]) ++ [] := by simp
    rw [hForm, all_rows m hRows' hEmpty, all_rows m hRows hLast, List.map_append, List.map_singleton,
      hDrop]
    simp

/-- The second sequence has other terminators: some newlines have got a return before them, or the
last line has got a newline. -/
inductive Reterminated : List α → List α → Prop
  | returns (chosen : Nat → Bool) (s : List α) : Reterminated s (putReturns m chosen 0 none s)
  | newline {s : List α} {a : α} (hEnd : s.getLast? = some a) (hNewline : a ≠ m.newline)
    (hReturn : a ≠ m.carriageReturn) : Reterminated s (s ++ [m.newline])

theorem Reterminated.all_eq {m : Marks α} (hMarks : m.newline ≠ m.carriageReturn) {s s' : List α}
    (h : Reterminated m s s') : all m s' = all m s := by
  cases h with
  | returns chosen => exact all_putReturns m hMarks chosen 0 none s
  | newline hEnd hNewline hReturn => exact all_append_newline m hEnd hNewline hReturn

/-- A text stays a text. -/
theorem exists_encode_putReturns (chosen : Nat → Bool) (t : Text) (place : Nat)
    (before : Option UInt8) :
    ∃ t', putReturns byteMarks chosen place before (Utf8.encode t) = Utf8.encode t' := by
  induction t generalizing place before with
  | nil => exact ⟨[], rfl⟩
  | cons c t ih =>
    rcases eq_or_ne c '\n' with rfl | hc
    · obtain ⟨t', ht'⟩ := ih (place + 1) (some byteMarks.newline)
      change ∃ t', putReturns byteMarks chosen place before (byteMarks.newline :: Utf8.encode t) = _
      rw [putReturns, ht']
      split
      · exact ⟨'\r' :: '\n' :: t', rfl⟩
      · exact ⟨'\n' :: t', rfl⟩
    · have hOctets : byteMarks.newline ∉ String.utf8EncodeChar c := fun h =>
        hc ((Utf8.octet_mem_utf8EncodeChar_iff (a := '\n') (by decide) c).mp h)
      obtain ⟨t', ht'⟩ := ih (place + (String.utf8EncodeChar c).length)
        ((String.utf8EncodeChar c).getLast?.or before)
      refine ⟨c :: t', ?_⟩
      rw [Utf8.encode_cons, Utf8.encode_cons, putReturns_append _ _ hOctets, ht']

theorem Reterminated.exists_encode {t : Text} {bs : Bytes}
    (h : Reterminated byteMarks (Utf8.encode t) bs) :
    ∃ t', bs = Utf8.encode t' ∧ all textMarks t' = all textMarks t := by
  obtain ⟨t', rfl⟩ : ∃ t', bs = Utf8.encode t' := by
    generalize hs : Utf8.encode t = s at h
    cases h with
    | returns chosen => exact hs ▸ exists_encode_putReturns chosen t 0 none
    | newline => exact ⟨t ++ ['\n'], by rw [← hs, Utf8.encode_append]; rfl⟩
  refine ⟨t', rfl, ?_⟩
  have hAll := h.all_eq (by decide)
  rw [all_encode, all_encode] at hAll
  exact List.map_injective_iff.mpr (fun _ _ => Utf8.encode_injective) hAll

end Lines

namespace Stream

/-- Other terminators make no difference: not to what a substitution gives, writes and warns of, not to
a listing, and not to the references of a text. -/
theorem terminators_immaterial (p : Policy) (look : Lookup) {bs bs' : Bytes}
    (h : Lines.Reterminated Lines.byteMarks bs bs') :
    (∀ o : Outlets, Run.perform (substitute p look ⟨bs', none⟩) o =
      Run.perform (substitute p look ⟨bs, none⟩) o) ∧
    (∀ (escapes : Bool) (o : Outlets), Run.perform (listKeys escapes ⟨bs', none⟩) o =
      Run.perform (listKeys escapes ⟨bs, none⟩) o) ∧
    ∀ t, Utf8.decode? bs = some t →
      ∃ t', Utf8.decode? bs' = some t' ∧ references t' = references t := by
  have hLines : (Source.mk bs' none).lines = (Source.mk bs none).lines := by
    rw [lines_of_no_failure, lines_of_no_failure, h.all_eq (by decide)]
  refine ⟨?_, ?_, ?_⟩
  · intro o
    rw [substitute, substitute, hLines]
  · intro escapes o
    rw [listKeys, listKeys, hLines]
  · intro t ht
    obtain rfl := Utf8.decode?_eq_some_iff.mp ht
    obtain ⟨t', rfl, hAll⟩ := h.exists_encode
    refine ⟨t', Utf8.decode?_encode t', ?_⟩
    rw [references, references, hAll]

/-- Two newlines get a return, the third has one, and the run stops on the line behind it. -/
theorem terminators_immaterial_stopped :
    let look : Lookup := fun key => if key = ['A'] then some ['1'] else none
    let unclosed : Text := opener ++ ['B', '\r', '\n']
    let bs := Utf8.encode (spell ['A'] ++ '\n' :: '\n' :: (unclosed ++ spell ['C']))
    let bs' := Utf8.encode (spell ['A'] ++ '\r' :: '\n' :: '\r' :: '\n' :: (unclosed ++ spell ['C']))
    Lines.Reterminated Lines.byteMarks bs bs' ∧
      (Run.perform (substitute {} look ⟨bs', none⟩) {}).1 = .error (.missingValue ⟨['C'], []⟩) := by
  intro look unclosed bs bs'
  have hReturns : bs' = Lines.putReturns Lines.byteMarks (fun _ => true) 0 none bs := by decide
  have hTerminators : Lines.Reterminated Lines.byteMarks bs bs' := hReturns ▸ .returns _ bs
  obtain ⟨hRun, -, -⟩ := terminators_immaterial {} look hTerminators
  obtain ⟨hStopped, -, -⟩ := perform_substitute {} look (Source.ofText _) (o := {}) ⟨rfl, rfl, rfl⟩
  rw [lines_ofText] at hStopped
  refine ⟨hTerminators, ?_⟩
  rw [hRun]
  exact hStopped.trans (by rfl)

end Stream

end Interpolation
