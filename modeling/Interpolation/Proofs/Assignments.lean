import Interpolation.Assignment
import Interpolation.Proofs.Marks
import Interpolation.Proofs.Patterns

/-!
# The assignments that can be written

Writing an assignment and reading it are inverse to each other on the assignments whose key is not
empty and has no equals sign, and that hold no NUL character. Reading is the match of a pattern, which
matches in one way at most, and no two of these assignments are displayed alike.
-/

namespace Interpolation.Assignment

structure Valid (a : Assignment) : Prop where
  key_ne_nil : a.key ≠ []
  equals_not_mem : '=' ∉ a.key
  nul_not_mem : '\u0000' ∉ a.write

theorem parse_write {a : Assignment} (h : a.Valid) : parse a.write = .ok a := by
  have hKey : a.write.takeWhile (· ≠ '=') = a.key := Mark.takeWhile_append h.equals_not_mem a.value
  have hValue : a.write.dropWhile (· ≠ '=') = '=' :: a.value :=
    Mark.dropWhile_append h.equals_not_mem a.value
  have hAccepted : ¬(a.key = [] ∨ '\u0000' ∈ a.write) := by
    rintro (hEmpty | hNul)
    · exact h.key_ne_nil hEmpty
    · exact h.nul_not_mem hNul
  simp only [parse, hKey, hValue, if_neg hAccepted]

theorem eq_write_of_parse {blob : Text} {a : Assignment} (h : parse blob = .ok a) :
    blob = a.write ∧ a.Valid := by
  rw [parse] at h
  split at h
  · cases h
  · rename_i first value hDrop
    split at h
    · cases h
    · rename_i hAccepted
      obtain rfl := Except.ok.inj h
      have hWrite : blob = write ⟨blob.takeWhile (· ≠ '='), value⟩ := Mark.eq_append_of_dropWhile hDrop
      refine ⟨hWrite, fun hEmpty => hAccepted (.inl hEmpty), Mark.not_mem_takeWhile '=' blob, ?_⟩
      rw [← hWrite]
      exact fun hNul => hAccepted (.inr hNul)

/-- The texts that can be read are the written assignments. -/
theorem parse_eq_ok_iff {blob : Text} {a : Assignment} :
    parse blob = .ok a ↔ blob = a.write ∧ a.Valid := by
  constructor
  · exact eq_write_of_parse
  · rintro ⟨rfl, h⟩
    exact parse_write h

theorem eq_invalid_of_parse {blob : Text} {fault : Fault} (h : parse blob = .error fault) :
    fault = .invalidAssignment blob := by
  rw [parse] at h
  split at h
  · exact (Except.error.inj h).symm
  · split at h
    · exact (Except.error.inj h).symm
    · cases h

/-- A text that is no assignment lacks an equals sign, begins with one, or holds a NUL character. -/
theorem exists_parse_iff (blob : Text) :
    (∃ a, parse blob = .ok a) ↔ '\u0000' ∉ blob ∧ '=' ∈ blob ∧ blob.head? ≠ some '=' := by
  constructor
  · rintro ⟨a, h⟩
    obtain ⟨rfl, hValid⟩ := parse_eq_ok_iff.mp h
    refine ⟨hValid.nul_not_mem, by simp [write], ?_⟩
    obtain ⟨c, key, hKey⟩ := List.exists_cons_of_ne_nil hValid.key_ne_nil
    have hc : c ≠ '=' := fun hEq => hValid.equals_not_mem (by simp [hKey, hEq])
    simpa [write, hKey] using hc
  · rintro ⟨hNul, hMem, hHead⟩
    obtain ⟨key, value, rfl, hKey⟩ := List.eq_append_cons_of_mem hMem
    refine ⟨⟨key, value⟩, parse_eq_ok_iff.mpr ⟨rfl, ?_, hKey, hNul⟩⟩
    rintro rfl
    exact hHead rfl

/-- The pattern `^([^=\0]+)=([^\0]*)$`. -/
def pattern : Pattern :=
  [.start, .run (fun c => c ≠ '=' ∧ c ≠ '\u0000') 1, .char '=', .run (fun c => c ≠ '\u0000') 0,
    .finish]

theorem Valid.of_captured {key value : Text} (hKey : ∀ c ∈ key, c ≠ '=' ∧ c ≠ '\u0000')
    (hLength : 1 ≤ key.length) (hValue : ∀ c ∈ value, c ≠ '\u0000') : Valid ⟨key, value⟩ where
  key_ne_nil := List.length_pos_iff.mp hLength
  equals_not_mem h := (hKey _ h).1 rfl
  nul_not_mem h := by
    rcases List.mem_append.mp h with h | h
    · exact (hKey _ h).2 rfl
    · rcases List.mem_cons.mp h with h | h
      · exact absurd h (by decide)
      · exact hValue _ h rfl

/-- The key ends at the first equals sign and the value at the end of the text, so the preference of
one match over another has nothing to decide. -/
theorem mem_matchesAt_pattern_iff {blob : Text} {taken : List Text} :
    taken ∈ Pattern.matchesAt pattern.tail [] blob ↔
      ∃ a, parse blob = .ok a ∧ taken = [a.key, a.value] := by
  simp only [parse_eq_ok_iff]
  rw [pattern, List.tail_cons, Pattern.mem_matchesAt_run_iff]
  constructor
  · rintro ⟨key, behind, others, rfl, hKey, hLength, hEquals, rfl⟩
    obtain ⟨rest, rfl, hRest⟩ := Pattern.mem_matchesAt_char_iff.mp hEquals
    obtain ⟨value, left, last, rfl, hValue, -, hEnd, rfl⟩ := Pattern.mem_matchesAt_run_iff.mp hRest
    obtain ⟨rfl, rfl⟩ := Pattern.mem_matchesAt_finish_iff.mp hEnd
    refine ⟨⟨key, value⟩, ⟨by simp [write], ?_⟩, rfl⟩
    exact .of_captured (by simpa using hKey) hLength (by simpa using hValue)
  · rintro ⟨⟨key, value⟩, ⟨rfl, h⟩, rfl⟩
    have hNul : ∀ c ∈ write ⟨key, value⟩, c ≠ '\u0000' := fun c hc hEq => h.nul_not_mem (hEq ▸ hc)
    have hKey : ∀ c ∈ key, c ≠ '=' ∧ c ≠ '\u0000' := fun c hc =>
      ⟨fun hEq => h.equals_not_mem (hEq ▸ hc), hNul c (List.mem_append_left _ hc)⟩
    have hValue : ∀ c ∈ value, c ≠ '\u0000' := fun c hc =>
      hNul c (List.mem_append_right _ (List.mem_cons_of_mem _ hc))
    refine ⟨key, '=' :: value, [value], rfl, by simpa using hKey, List.length_pos_iff.mpr h.key_ne_nil,
      Pattern.mem_matchesAt_char_iff.mpr ⟨value, rfl, ?_⟩, rfl⟩
    exact Pattern.mem_matchesAt_run_iff.mpr ⟨value, [], [], by simp, by simpa using hValue,
      Nat.zero_le _, Pattern.mem_matchesAt_finish_iff.mpr ⟨rfl, rfl⟩, rfl⟩

/-- Reading an assignment finds the pattern. -/
theorem parse_eq_find? (blob : Text) :
    parse blob =
      match pattern.find? blob with
      | some [key, value] => .ok ⟨key, value⟩
      | _ => .error (.invalidAssignment blob) := by
  have hFind : pattern.find? blob = (Pattern.matchesAt pattern.tail [] blob).head? :=
    Pattern.find?_start _ blob
  rw [hFind]
  cases hTaken : Pattern.matchesAt pattern.tail [] blob with
  | nil =>
    cases hParse : parse blob with
    | error fault => rw [eq_invalid_of_parse hParse, List.head?_nil]
    | ok a =>
      have hMem := mem_matchesAt_pattern_iff.mpr ⟨a, hParse, rfl⟩
      rw [hTaken] at hMem
      cases hMem
  | cons taken others =>
    have hMem : taken ∈ Pattern.matchesAt pattern.tail [] blob := hTaken ▸ List.mem_cons_self
    obtain ⟨a, hParse, rfl⟩ := mem_matchesAt_pattern_iff.mp hMem
    rw [hParse, List.head?_cons]

/-- The first equals sign of what is displayed parts the key from the value. -/
theorem eq_of_display_eq {a b : Assignment} (ha : '=' ∉ a.key) (hb : '=' ∉ b.key)
    (h : a.display = b.display) : a = b := by
  have hDisplay : ∀ a : Assignment, a.display =
      ('\'' :: (a.key ++ ['\''])) ++ '=' :: ('\'' :: (a.value ++ ['\''])) := by
    intro a
    simp [display]
  have hQuoted : ∀ a : Assignment, '=' ∉ a.key → '=' ∉ '\'' :: (a.key ++ ['\'']) := by
    intro a ha
    simpa using ha
  rw [hDisplay, hDisplay] at h
  have hKey := congrArg (List.takeWhile (· ≠ '=')) h
  have hValue := congrArg (List.dropWhile (· ≠ '=')) h
  rw [Mark.takeWhile_append (hQuoted a ha), Mark.takeWhile_append (hQuoted b hb)] at hKey
  rw [Mark.dropWhile_append (hQuoted a ha), Mark.dropWhile_append (hQuoted b hb)] at hValue
  obtain ⟨key, value⟩ := a
  obtain ⟨key', value'⟩ := b
  obtain rfl : key = key' := by simpa using hKey
  obtain rfl : value = value' := by simpa using hValue
  rfl

/-- What is read as an assignment, what of it is the key and what the value, and that writing and
displaying an assignment lose nothing of it. -/
theorem parse_language :
    (∀ blob, parse blob =
      match pattern.find? blob with
      | some [key, value] => .ok ⟨key, value⟩
      | _ => .error (.invalidAssignment blob)) ∧
    (∀ blob, (∃ a, parse blob = .ok a) ↔ '\u0000' ∉ blob ∧ '=' ∈ blob ∧ blob.head? ≠ some '=') ∧
    (∀ blob a, parse blob = .ok a →
      a.key = blob.takeWhile (· ≠ '=') ∧ a.key ≠ [] ∧ '=' ∉ a.key ∧
        a.key ++ '=' :: a.value = blob) ∧
    (∀ key value, key ≠ [] → '=' ∉ key → '\u0000' ∉ key → '\u0000' ∉ value →
      parse (key ++ '=' :: value) = .ok ⟨key, value⟩) ∧
    (∀ blob fault, parse blob = .error fault → fault = .invalidAssignment blob ∧
      fault.message = "Invalid key-value pair: '".toList ++ blob ++
        "'; expected KEY=VALUE with a non-empty KEY and no NUL characters".toList) ∧
    ∀ a b, (∃ blob, parse blob = .ok a) → (∃ blob, parse blob = .ok b) →
      a.display = b.display → a = b := by
  refine ⟨parse_eq_find?, exists_parse_iff, ?_, ?_, ?_, ?_⟩
  · intro blob a h
    obtain ⟨rfl, hValid⟩ := parse_eq_ok_iff.mp h
    have hKey := Mark.takeWhile_append hValid.equals_not_mem a.value
    exact ⟨hKey.symm, hValid.key_ne_nil, hValid.equals_not_mem, rfl⟩
  · intro key value hKey hEquals hNul hNul'
    refine parse_write (a := ⟨key, value⟩) ⟨hKey, hEquals, ?_⟩
    simp [write, hNul, hNul']
  · intro blob fault h
    obtain rfl := eq_invalid_of_parse h
    exact ⟨rfl, rfl⟩
  · rintro a b ⟨blob, ha⟩ ⟨other, hb⟩ hDisplay
    exact eq_of_display_eq (parse_eq_ok_iff.mp ha).2.equals_not_mem
      (parse_eq_ok_iff.mp hb).2.equals_not_mem hDisplay

example :
    parse "A=B=${C}\n".toList = .ok ⟨['A'], "B=${C}\n".toList⟩ ∧
      parse "=B".toList = .error (.invalidAssignment "=B".toList) := by
  decide

end Interpolation.Assignment
