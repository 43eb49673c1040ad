import Interpolation.Proofs.Octets
import Interpolation.Proofs.Template

/-!
# A scan fills the template of its line

The scan reads one character at a time and keeps what is undecided in buffers; the template is found
by searching. Outside a placeholder the buffers hold ordinary characters or a run of dollars, and
`resume_reading` follows the reader from there through the rest of the line. `scan_eq_fill` is the case
of a whole line, for every resolver and every state that it starts from.
-/

namespace Interpolation.Placeholder

open Template

universe u

variable {σ : Type u} (escapes : Bool) (ask : Resolver σ)

def resume (line : Text) (s : State) (w : σ) : Except Gap Text × σ :=
  let (result, w) := run escapes ask line s w
  (result.map State.finish, w)

theorem resume_nil (s : State) (w : σ) : resume escapes ask [] s w = (.ok s.finish, w) := rfl

theorem run_of_next {s s' : State} {c : Char} (h : s.step escapes c = .next s') (line : Text)
    (w : σ) : run escapes ask (c :: line) s w = run escapes ask line s' w := by
  simp only [run, h]

theorem resume_of_next {s s' : State} {c : Char} (h : s.step escapes c = .next s') (line : Text)
    (w : σ) : resume escapes ask (c :: line) s w = resume escapes ask line s' w := by
  rw [resume, run_of_next escapes ask h, resume]

theorem resume_of_ask {s s' : State} {c : Char} {key : Text} (h : s.step escapes c = .ask key s')
    (line : Text) (w : σ) :
    resume escapes ask (c :: line) s w =
      match ask key w with
      | (.value value, w) => resume escapes ask line (s'.emit value) w
      | (.missing key, w) => (.error ⟨key, s'.out.toList⟩, w) := by
  simp only [resume, run, h]
  cases hAnswer : ask key w with
  | mk answer w =>
    cases answer with
    | value value => rfl
    | missing key => rfl

theorem run_append {a b : Text} {s s' : State} {w w' : σ}
    (h : run escapes ask a s w = (.ok s', w')) :
    run escapes ask (a ++ b) s w = run escapes ask b s' w' := by
  fun_induction run escapes ask a s w with
  | case1 s w =>
    obtain ⟨hState, rfl⟩ := Prod.mk.inj h
    obtain rfl := Except.ok.inj hState
    rfl
  | case2 c a s w next hStep ih =>
    rw [List.cons_append, run_of_next escapes ask hStep]
    exact ih h
  | case3 c a s w key asked hStep value w' hAnswer ih =>
    rw [List.cons_append, run]
    simp only [hStep, hAnswer]
    exact ih h
  | case4 => cases h

theorem resume_append {a : Text} {s s' : State} {w w' : σ}
    (h : run escapes ask a s w = (.ok s', w')) (b : Text) :
    resume escapes ask (a ++ b) s w = resume escapes ask b s' w' := by
  rw [resume, run_append escapes ask h, resume]

/-- The state outside every placeholder, with nothing undecided behind what is written. -/
def State.reading (written : Text) : State :=
  ⟨.text, #[], #[], #[], written.toArray⟩

/-- The state behind a run of dollars with `n` of them after its first. Without escapes only the last
one waits. -/
def State.behindRun (escapes : Bool) (n : Nat) (written : Text) : State :=
  if escapes ∧ n ≠ 0 then ⟨.dollars, #[], (dollars (n + 1)).toArray, #[], written.toArray⟩
  else ⟨.dollar, #[], #['$'], #[], (written ++ dollars n).toArray⟩

def State.inKey (key written : Text) : State :=
  ⟨.key, #[], #[], key.toArray, written.toArray⟩

/-- It makes no difference when ordinary characters are written. -/
theorem resume_plain (line : Text) (plain out : Array Char) (w : σ) :
    resume escapes ask line ⟨.text, plain, #[], #[], out⟩ w =
      resume escapes ask line (State.reading (out ++ plain).toList) w := by
  induction line generalizing plain out with
  | nil => simp [resume_nil, State.reading, State.finish]
  | cons c line ih =>
    rcases eq_or_ne c '$' with rfl | hc
    · have hPlain : (⟨.text, plain, #[], #[], out⟩ : State).step escapes '$' =
          .next ⟨.dollar, #[], #['$'], #[], out ++ plain⟩ := by simp [State.step]
      have hReading : (State.reading (out ++ plain).toList).step escapes '$' =
          .next ⟨.dollar, #[], #['$'], #[], out ++ plain⟩ := by simp [State.reading, State.step]
      rw [resume_of_next _ _ hPlain, resume_of_next _ _ hReading]
    · have hPlain : (⟨.text, plain, #[], #[], out⟩ : State).step escapes c =
          .next ⟨.text, plain.push c, #[], #[], out⟩ := by simp [State.step, hc]
      have hReading : (State.reading (out ++ plain).toList).step escapes c =
          .next ⟨.text, #[c], #[], #[], out ++ plain⟩ := by simp [State.reading, State.step, hc]
      rw [resume_of_next _ _ hPlain, resume_of_next _ _ hReading, ih, ih]
      simp

theorem resume_reading_cons {c : Char} (hc : c ≠ '$') (line written : Text) (w : σ) :
    resume escapes ask (c :: line) (State.reading written) w =
      resume escapes ask line (State.reading (written ++ [c])) w := by
  have hStep : (State.reading written).step escapes c =
      .next ⟨.text, #[c], #[], #[], written.toArray⟩ := by simp [State.reading, State.step, hc]
  rw [resume_of_next _ _ hStep, resume_plain]
  simp

theorem step_behindRun_dollar (n : Nat) (written : Text) :
    (State.behindRun escapes n written).step escapes '$' =
      .next (State.behindRun escapes (n + 1) written) := by
  cases escapes with
  | false => simp [State.behindRun, State.step, dollars_succ_right]
  | true => cases n <;> simp [State.behindRun, State.step, dollars_succ_right]

theorem run_dollars (n : Nat) (written : Text) (w : σ) :
    run escapes ask (dollars (n + 1)) (State.reading written) w =
      (.ok (State.behindRun escapes n written), w) := by
  induction n with
  | zero => simp [run, State.reading, State.behindRun, State.step, dollars_succ]
  | succ n ih =>
    have hStep := step_behindRun_dollar escapes n written
    rw [dollars_succ_right, run_append escapes ask ih, run_of_next escapes ask hStep, run]

theorem resume_run (n : Nat) (rest written : Text) (w : σ) :
    resume escapes ask (dollars (n + 1) ++ rest) (State.reading written) w =
      resume escapes ask rest (State.behindRun escapes n written) w :=
  resume_append escapes ask (run_dollars escapes ask n written w) rest

/-- A run that meets no brace stands for itself. -/
theorem resume_behindRun (n : Nat) {rest : Text} (hDollar : rest.head? ≠ some '$')
    (hBrace : rest.head? ≠ some '{') (written : Text) (w : σ) :
    resume escapes ask rest (State.behindRun escapes n written) w =
      resume escapes ask rest (State.reading (written ++ dollars (n + 1))) w := by
  cases rest with
  | nil =>
    rw [resume_nil, resume_nil, State.behindRun]
    split
    · simp [State.finish, State.reading]
    · simp [State.finish, State.reading, dollars_succ_right]
  | cons c rest =>
    have hc : c ≠ '$' := by simpa using hDollar
    have hc' : c ≠ '{' := by simpa using hBrace
    rw [resume_reading_cons _ _ hc, State.behindRun]
    split
    · have hStep : (⟨.dollars, #[], (dollars (n + 1)).toArray, #[], written.toArray⟩ : State).step
          escapes c = .next (State.reading (written ++ dollars (n + 1) ++ [c])) := by
        simp [State.reading, State.step, hc, hc']
      rw [resume_of_next _ _ hStep]
    · have hStep : (⟨.dollar, #[], #['$'], #[], (written ++ dollars n).toArray⟩ : State).step
          escapes c = .next ⟨.text, #[c], #[], #[], (written ++ dollars (n + 1)).toArray⟩ := by
        simp [State.step, hc, hc', dollars_succ_right]
      rw [resume_of_next _ _ hStep, resume_plain]
      simp

theorem resume_escaped {n : Nat} (h : escapes ∧ n ≠ 0) (after written : Text) (w : σ) :
    resume escapes ask ('{' :: after) (State.behindRun escapes n written) w =
      resume escapes ask after (State.reading (written ++ (dollars n ++ ['{']))) w := by
  have hStep : (State.behindRun escapes n written).step escapes '{' =
      .next (State.reading (written ++ (dollars n ++ ['{']))) := by
    simp [State.behindRun, State.reading, State.step, h, dollars_succ_right]
  rw [resume_of_next _ _ hStep]

theorem resume_opener {n : Nat} (h : ¬(escapes ∧ n ≠ 0)) (after written : Text) (w : σ) :
    resume escapes ask ('{' :: after) (State.behindRun escapes n written) w =
      resume escapes ask after (State.inKey [] (written ++ dollars n)) w := by
  have hStep : (State.behindRun escapes n written).step escapes '{' =
      .next (State.inKey [] (written ++ dollars n)) := by
    rw [State.behindRun, if_neg h]
    simp [State.inKey, State.step]
  rw [resume_of_next _ _ hStep]

theorem run_inKey {key : Text} (hKey : '}' ∉ key) (seen written : Text) (w : σ) :
    run escapes ask key (State.inKey seen written) w =
      (.ok (State.inKey (seen ++ key) written), w) := by
  induction key generalizing seen with
  | nil => simp [run]
  | cons c key ih =>
    have hc : c ≠ '}' := fun h => hKey (h ▸ List.mem_cons_self)
    have hStep : (State.inKey seen written).step escapes c =
        .next (State.inKey (seen ++ [c]) written) := by
      simp [State.inKey, State.step, hc]
    rw [run_of_next escapes ask hStep, ih (fun h => hKey (List.mem_cons_of_mem _ h))]
    simp

theorem resume_inKey {key : Text} (hKey : '}' ∉ key) (rest seen written : Text) (w : σ) :
    resume escapes ask (key ++ rest) (State.inKey seen written) w =
      resume escapes ask rest (State.inKey (seen ++ key) written) w :=
  resume_append escapes ask (run_inKey escapes ask hKey seen written w) rest

theorem resume_closed {key : Text} (hKey : '}' ∉ key) (behind written : Text) (w : σ) :
    resume escapes ask (key ++ '}' :: behind) (State.inKey [] written) w =
      match ask key w with
      | (.value value, w) => resume escapes ask behind (State.reading (written ++ value)) w
      | (.missing key, w) => (.error ⟨key, written⟩, w) := by
  have hStep : (State.inKey key written).step escapes '}' = .ask key (State.reading written) := by
    simp [State.inKey, State.reading, State.step]
  rw [resume_inKey _ _ hKey, List.nil_append, resume_of_ask _ _ hStep]
  simp [State.reading, State.emit]

theorem resume_unclosed {after : Text} (h : '}' ∉ after) (written : Text) (w : σ) :
    resume escapes ask after (State.inKey [] written) w = (.ok (written ++ opener ++ after), w) := by
  have hEnd := resume_inKey escapes ask h [] [] written w
  rw [List.append_nil, List.nil_append] at hEnd
  rw [hEnd, resume_nil]
  simp [State.finish, State.inKey]

theorem resume_reading (line written : Text) (w : σ) :
    resume escapes ask line (State.reading written) w =
      (ofLine escapes line).fillAfter ask written w := by
  induction line using line_induction escapes generalizing written w with
  | nil => simp [resume_nil, State.finish, State.reading, fillAfter]
  | char c line hc ih =>
    rw [resume_reading_cons _ _ hc, ih, ofLine_char _ hc, fillAfter_prepend]
  | run n rest hDollar hBrace ih =>
    rw [resume_run, resume_behindRun _ _ _ hDollar hBrace, ih, ofLine_run _ _ hDollar hBrace,
      fillAfter_prepend]
  | escaped n after hEscaped ih =>
    rw [resume_run, resume_escaped _ _ hEscaped, ih, ofLine_escaped _ hEscaped, fillAfter_prepend]
  | closed n key behind hEscaped hKey ih =>
    rw [resume_run, resume_opener _ _ hEscaped, resume_closed _ _ hKey,
      ofLine_closed _ hEscaped hKey, fillAfter]
    cases hAnswer : ask key w with
    | mk answer w' =>
      cases answer with
      | value value => exact ih (written ++ dollars n ++ value) w'
      | missing reported => rfl
  | unclosed n after hEscaped hAfter =>
    rw [resume_run, resume_opener _ _ hEscaped, resume_unclosed _ _ hAfter,
      ofLine_unclosed _ hEscaped hAfter, fillAfter]
    simp [opener, dollars_succ_right]

/-- A scan gives what the template of the line gives, from the same questions in the same order. -/
theorem scan_eq_fill (line : Text) (w : σ) :
    scan escapes ask line w = (ofLine escapes line).fill ask w :=
  resume_reading escapes ask line [] w

theorem mayContain_iff (line : Text) : mayContain line = true ↔ '$' ∈ line := by
  rw [mayContain, List.contains_iff_mem]
  exact Utf8.octet_mem_encode_iff (a := '$') (by decide) line

/-- The recorder lets every scan through and writes all keys down. -/
theorem fillAfter_recorder (before : Text) (t : Template) (seen : Array Text) :
    ∃ text, t.fillAfter recorder before seen = (.ok text, seen ++ t.keys.toArray) := by
  induction t generalizing before seen with
  | literal text => exact ⟨before ++ text, by simp [fillAfter, Template.keys]⟩
  | hole text key rest ih =>
    obtain ⟨filled, hFilled⟩ := ih (before ++ text ++ []) (seen.push key)
    refine ⟨filled, ?_⟩
    simp only [fillAfter, recorder, hFilled, Template.keys]
    simp

theorem ofLine_of_not_mem {line : Text} (h : '$' ∉ line) :
    ofLine escapes line = .literal line := by
  simpa [prepend] using ofLine_append_of_not_mem escapes h []

theorem keys_eq (line : Text) :
    keys escapes line = (ofLine escapes line).keys := by
  rw [keys]
  split
  · obtain ⟨text, hFilled⟩ := fillAfter_recorder [] (ofLine escapes line) #[]
    rw [scan_eq_fill, fill, hFilled]
    simp
  · rename_i h
    rw [mayContain_iff] at h
    rw [ofLine_of_not_mem escapes h]
    rfl

example :
    keys true "$${A} ${B}".toList = [['B']] ∧ keys false "$${A} ${B}".toList = [['A'], ['B']] := by
  decide

/-- The characters of a key stand on its line. -/
theorem mem_of_mem_key {line key : Text} (hKey : key ∈ keys escapes line) {c : Char}
    (hc : c ∈ key) : c ∈ line := by
  rw [keys_eq] at hKey
  induction line using line_induction escapes with
  | nil => simp [Template.keys] at hKey
  | char first line hFirst ih =>
    rw [ofLine_char _ hFirst, keys_prepend] at hKey
    exact List.mem_cons_of_mem _ (ih hKey)
  | run n rest hDollar hBrace ih =>
    rw [ofLine_run _ _ hDollar hBrace, keys_prepend] at hKey
    exact List.mem_append_right _ (ih hKey)
  | escaped n after hEscaped ih =>
    rw [ofLine_escaped _ hEscaped, keys_prepend] at hKey
    exact List.mem_append_right _ (List.mem_cons_of_mem _ (ih hKey))
  | closed n name behind hEscaped hName ih =>
    rw [ofLine_closed _ hEscaped hName, Template.keys] at hKey
    refine List.mem_append_right _ (List.mem_cons_of_mem _ ?_)
    rcases List.mem_cons.mp hKey with rfl | hKey
    · exact List.mem_append_left _ hc
    · exact List.mem_append_right _ (List.mem_cons_of_mem _ (ih hKey))
  | unclosed n after hEscaped hAfter =>
    rw [ofLine_unclosed _ hEscaped hAfter] at hKey
    simp [Template.keys] at hKey

theorem closing_not_mem_key {line key : Text} (h : key ∈ keys escapes line) : '}' ∉ key := by
  rw [keys_eq] at h
  induction line using line_induction escapes with
  | nil => simp [Template.keys] at h
  | char c line hc ih =>
    rw [ofLine_char _ hc, keys_prepend] at h
    exact ih h
  | run n rest hDollar hBrace ih =>
    rw [ofLine_run _ _ hDollar hBrace, keys_prepend] at h
    exact ih h
  | escaped n after hEscaped ih =>
    rw [ofLine_escaped _ hEscaped, keys_prepend] at h
    exact ih h
  | closed n name behind hEscaped hName ih =>
    rw [ofLine_closed _ hEscaped hName] at h
    rcases List.mem_cons.mp h with rfl | h
    · exact hName
    · exact ih h
  | unclosed n after hEscaped hAfter =>
    rw [ofLine_unclosed _ hEscaped hAfter] at h
    simp [Template.keys] at h

end Interpolation.Placeholder
