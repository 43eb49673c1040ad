import Interpolation.Proofs.Octets

/-!
# The rows of a text and of its encoding

Every list falls at its newlines into rows and an unterminated rest, in exactly one way. A text and
its encoding have the same lines, and rows that are written one after the other are read back.
-/

namespace Interpolation.Lines

variable {α : Type} [DecidableEq α]

theorem complete_rows (m : Marks α) {rows : List (List α)} {last : List α}
    (hRows : ∀ row ∈ rows, m.newline ∉ row) (hLast : m.newline ∉ last) :
    complete m (rows.flatMap (· ++ [m.newline]) ++ last) = rows.map (dropReturn m) ∧
      rest m (rows.flatMap (· ++ [m.newline]) ++ last) = last := by
  induction rows with
  | nil => exact ⟨complete_of_not_mem m hLast, rest_of_not_mem m hLast⟩
  | cons row rows ih =>
    obtain ⟨hComplete, hRest⟩ := ih fun row hRow => hRows row (List.mem_cons_of_mem _ hRow)
    have hRow := hRows row List.mem_cons_self
    rw [List.flatMap_cons, List.append_assoc, List.append_assoc, List.singleton_append,
      complete_append_newline m hRow, rest_append_newline m hRow, hComplete, hRest]
    exact ⟨rfl, rfl⟩

theorem exists_rows (m : Marks α) (s : List α) :
    ∃ (rows : List (List α)) (last : List α), s = rows.flatMap (· ++ [m.newline]) ++ last ∧
      (∀ row ∈ rows, m.newline ∉ row) ∧ m.newline ∉ last ∧
      complete m s = rows.map (dropReturn m) ∧ rest m s = last := by
  obtain ⟨rows, last, rfl, hRows, hLast⟩ : ∃ (rows : List (List α)) (last : List α),
      s = rows.flatMap (· ++ [m.newline]) ++ last ∧ (∀ row ∈ rows, m.newline ∉ row) ∧
        m.newline ∉ last := by
    induction hLength : s.length using Nat.strongRecOn generalizing s with
    | ind length ih =>
      rcases Decidable.em (m.newline ∈ s) with h | h
      · obtain ⟨row, s, rfl, hRow⟩ := List.eq_append_cons_of_mem h
        obtain ⟨rows, last, rfl, hRows, hLast⟩ := ih s.length (by grind) s rfl
        exact ⟨row :: rows, last, by simp, List.forall_mem_cons.mpr ⟨hRow, hRows⟩, hLast⟩
      · exact ⟨[], s, rfl, by simp, h⟩
  exact ⟨rows, last, rfl, hRows, hLast, complete_rows m hRows hLast⟩

theorem mem_of_mem_dropReturn (m : Marks α) {line : List α} {a : α} (h : a ∈ dropReturn m line) :
    a ∈ line := by
  rw [dropReturn] at h
  split at h
  · exact List.dropLast_subset line h
  · exact h

theorem newline_not_mem (m : Marks α) (s : List α) : ∀ line ∈ all m s, m.newline ∉ line := by
  obtain ⟨rows, last, -, hRows, hLast, hComplete, hRest⟩ := exists_rows m s
  intro line hLine hNewline
  rw [all, hComplete, hRest] at hLine
  rcases List.mem_append.mp hLine with hLine | hLine
  · obtain ⟨row, hRow, rfl⟩ := List.mem_map.mp hLine
    exact hRows row hRow (mem_of_mem_dropReturn m hNewline)
  · split at hLine
    · cases hLine
    · obtain rfl := List.mem_singleton.mp hLine
      exact hLast hNewline

theorem dropReturn_encode (s : Text) :
    dropReturn byteMarks (Utf8.encode s) = Utf8.encode (dropReturn textMarks s) := by
  rcases List.eq_nil_or_concat s with rfl | ⟨s, c, rfl⟩
  · simp [dropReturn]
  · rcases Decidable.em (c = '\r') with rfl | hc
    · have hEncode : Utf8.encode (s ++ ['\r']) = Utf8.encode s ++ [0x0D] :=
        Utf8.encode_append_cons (by decide) s []
      rw [List.concat_eq_append, hEncode]
      simp [dropReturn, byteMarks, textMarks]
    · have hText : (s ++ [c]).getLast? ≠ some textMarks.carriageReturn := by
        simpa [textMarks] using hc
      -- The last octet belongs to the last character, and no other character has this octet.
      have hBytes : (Utf8.encode (s ++ [c])).getLast? ≠ some byteMarks.carriageReturn := by
        intro h
        rw [Utf8.encode_append, Utf8.encode_cons, Utf8.encode_nil, List.append_nil,
          List.getLast?_append, List.getLast?_eq_some_getLast String.utf8EncodeChar_ne_nil,
          Option.some_or] at h
        have hMem := List.getLast_mem (String.utf8EncodeChar_ne_nil (c := c))
        rw [Option.some.inj h] at hMem
        exact hc ((Utf8.octet_mem_utf8EncodeChar_iff (by decide) c).mp hMem)
      rw [List.concat_eq_append, dropReturn, dropReturn, if_neg hText, if_neg hBytes]

theorem complete_encode (t : Text) :
    complete byteMarks (Utf8.encode t) = (complete textMarks t).map Utf8.encode := by
  have hSplit := Utf8.splitOn_encode (a := textMarks.newline) (by decide) t
  have hNewline : byteMarks.newline = Utf8.octet textMarks.newline := rfl
  rw [complete, complete, hNewline, hSplit, ← List.map_dropLast, List.map_map, List.map_map]
  congr 1
  funext s
  exact dropReturn_encode s

theorem rest_encode (t : Text) : rest byteMarks (Utf8.encode t) = Utf8.encode (rest textMarks t) := by
  have hSplit := Utf8.splitOn_encode (a := textMarks.newline) (by decide) t
  have hNewline : byteMarks.newline = Utf8.octet textMarks.newline := rfl
  simp only [rest, hNewline, hSplit]
  rw [List.getLast_map]

theorem all_encode (t : Text) : all byteMarks (Utf8.encode t) = (all textMarks t).map Utf8.encode := by
  have hEmpty : ∀ s : Text, (Utf8.encode s).isEmpty = s.isEmpty := by
    intro s
    cases s with
    | nil => rfl
    | cons c s => simp [String.utf8EncodeChar_ne_nil]
  rw [all, all, complete_encode, rest_encode, List.map_append, hEmpty]
  congr 1
  split
  · rfl
  · rfl

theorem newline_mem_encode_iff (t : Text) : byteMarks.newline ∈ Utf8.encode t ↔ textMarks.newline ∈ t :=
  Utf8.octet_mem_encode_iff (a := textMarks.newline) (by decide) t

/-- What stands before each newline. -/
def records (bs : Bytes) : List Bytes :=
  (bs.splitOn byteMarks.newline).dropLast

theorem splitOn_flatMap {rows : List Bytes} (h : ∀ row ∈ rows, byteMarks.newline ∉ row) :
    (rows.flatMap (· ++ [byteMarks.newline])).splitOn byteMarks.newline = rows ++ [[]] := by
  induction rows with
  | nil => rfl
  | cons row rows ih =>
    rw [List.flatMap_cons, List.append_assoc, List.singleton_append,
      List.splitOn_append_cons_self_of_not_mem (h row List.mem_cons_self),
      ih (fun row hRow => h row (List.mem_cons_of_mem _ hRow)), List.cons_append]

theorem records_flatMap {rows : List Bytes} (h : ∀ row ∈ rows, byteMarks.newline ∉ row) :
    records (rows.flatMap (· ++ [byteMarks.newline])) = rows := by
  rw [records, splitOn_flatMap h, List.dropLast_concat]

theorem count_flatMap {rows : List Bytes} (h : ∀ row ∈ rows, byteMarks.newline ∉ row) :
    (rows.flatMap (· ++ [byteMarks.newline])).count byteMarks.newline = rows.length := by
  induction rows with
  | nil => rfl
  | cons row rows ih =>
    rw [List.flatMap_cons, List.count_append, List.count_append, List.count_eq_zero.mpr
      (h row List.mem_cons_self), List.count_singleton_self,
      ih (fun row hRow => h row (List.mem_cons_of_mem _ hRow)), List.length_cons]
    omega

end Interpolation.Lines
