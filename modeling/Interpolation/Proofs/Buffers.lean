import Interpolation.Proofs.Tracking

/-!
# What the buffers hold

In every state that steps lead to, whatever is read and whoever answers, the mode tells what each buffer
may hold, and of the three not yet written one at most holds anything. What is written stays: a run, also
one that a missing key stops, only adds to it. `reached_iff_settled` is the converse, that every content
which the mode allows is met.
-/

namespace Interpolation.Placeholder

open Template

universe u

/-- The states that steps lead to from the beginning of a line. Whoever is asked may answer with any
value, and a missing key ends the line. -/
inductive Reached (escapes : Bool) : State → Prop
  | start : Reached escapes {}
  | next {s s' : State} {c : Char} (h : Reached escapes s) (hStep : s.step escapes c = .next s') :
    Reached escapes s'
  | value {s s' : State} {c : Char} {key : Text} (h : Reached escapes s)
    (hStep : s.step escapes c = .ask key s') (value : Text) : Reached escapes (s'.emit value)

/-- The buffers hold what the mode allows. -/
structure State.Settled (escapes : Bool) (s : State) : Prop where
  plain : '$' ∉ s.plain
  text : s.mode = .text → s.pending = #[] ∧ s.key = #[]
  dollar : s.mode = .dollar → s.plain = #[] ∧ s.pending = #['$'] ∧ s.key = #[]
  dollars : s.mode = .dollars → escapes = true ∧
    s.plain = #[] ∧ (2 ≤ s.pending.size ∧ ∀ c ∈ s.pending, c = '$') ∧ s.key = #[]
  key : s.mode = .key → s.plain = #[] ∧ s.pending = #[] ∧ '}' ∉ s.key

/-- The text written by a run that goes through, or before the placeholder that stops it. -/
def output : Except Gap State → Text
  | .ok s => s.out.toList
  | .error gap => gap.before

section

variable {escapes : Bool} {s s' : State} {c : Char} {key : Text}

/-- A step writes a text behind all others. Ordinary characters stay, or are written, or one joins them. -/
theorem step_next (h : s.step escapes c = .next s') :
    (∃ more, s'.out = s.out ++ more) ∧
      (s'.plain = s.plain ∨ s'.plain = #[] ∨ (c ≠ '$' ∧ s'.plain = s.plain.push c)) := by
  obtain ⟨mode, plain, pending, key, out⟩ := s
  have hSilent : ∃ more, out = out ++ more := ⟨#[], by simp⟩
  cases mode with
  | text =>
    rw [State.step] at h
    split at h
    · cases h
      exact ⟨⟨plain, rfl⟩, .inr (.inl rfl)⟩
    · rename_i hc
      cases h
      exact ⟨hSilent, .inr (.inr ⟨hc, rfl⟩)⟩
  | dollar =>
    rw [State.step] at h
    split at h
    · split at h
      · cases h
        exact ⟨hSilent, .inl rfl⟩
      · cases h
        exact ⟨⟨pending, rfl⟩, .inl rfl⟩
    · rename_i hc
      split at h
      · cases h
        exact ⟨hSilent, .inl rfl⟩
      · cases h
        exact ⟨⟨pending, rfl⟩, .inr (.inr ⟨hc, rfl⟩)⟩
  | dollars =>
    rw [State.step] at h
    split at h
    · cases h
      exact ⟨hSilent, .inl rfl⟩
    · cases h
      exact ⟨⟨_, rfl⟩, .inl rfl⟩
  | key =>
    rw [State.step] at h
    split at h
    · cases h
    · cases h
      exact ⟨hSilent, .inl rfl⟩

/-- Nothing is written by a step that asks: the value is not there yet. -/
theorem step_ask (h : s.step escapes c = .ask key s') : s'.out = s.out ∧ s'.plain = s.plain := by
  obtain ⟨mode, plain, pending, key, out⟩ := s
  cases mode with
  | text =>
    rw [State.step] at h
    split at h <;> cases h
  | dollar =>
    rw [State.step] at h
    split at h
    · split at h <;> cases h
    · split at h <;> cases h
  | dollars =>
    rw [State.step] at h
    split at h <;> cases h
  | key =>
    rw [State.step] at h
    split at h
    · cases h
      exact ⟨rfl, rfl⟩
    · cases h

end

variable {σ : Type u} {escapes : Bool}

theorem out_prefix_output (ask : Resolver σ) (line : Text) (s : State) (w : σ) :
    s.out.toList <+: output (run escapes ask line s w).1 := by
  fun_induction run escapes ask line s w with
  | case1 s w => exact List.prefix_rfl
  | case2 c line s w next hStep ih =>
    obtain ⟨⟨more, hMore⟩, -⟩ := step_next hStep
    have hOut : s.out.toList <+: next.out.toList := by simp [hMore]
    exact hOut.trans ih
  | case3 c line s w key asked hStep value w' hAnswer ih =>
    obtain ⟨hSame, -⟩ := step_ask hStep
    have hOut : s.out.toList <+: (asked.emit value).out.toList := by simp [State.emit, hSame]
    exact hOut.trans ih
  | case4 c line s w key asked hStep reported w' hAnswer =>
    -- The gap holds what the reader had written when it asked.
    obtain ⟨hSame, -⟩ := step_ask hStep
    simp [output, hSame]

namespace Reached

variable {s s' : State}

theorem run {ask : Resolver σ} {line : Text} {w w' : σ} (h : Reached escapes s)
    (hRun : Placeholder.run escapes ask line s w = (.ok s', w')) : Reached escapes s' := by
  fun_induction Placeholder.run escapes ask line s w with
  | case1 s w =>
    obtain ⟨hEq, -⟩ := Prod.mk.inj hRun
    rw [← Except.ok.inj hEq]
    exact h
  | case2 c line s w next hStep ih => exact ih (h.next hStep) hRun
  | case3 c line s w key asked hStep value w' hAnswer ih => exact ih (h.value hStep value) hRun
  | case4 => cases hRun

/-- The characters read so far are a line that leads to the state. -/
theorem exists_tracks (h : Reached escapes s) : ∃ line, Tracks escapes line s := by
  induction h with
  | start => exact ⟨[], .initial escapes⟩
  | @next s s' c _ hStep ih =>
    -- A step along the line is the step that was made, as a state has only one for a character.
    obtain ⟨line, hLine⟩ := ih
    obtain ⟨next, hNext, hTracks⟩ | ⟨key, asked, hAsk, -⟩ := hLine.step c
    · obtain rfl := Step.next.inj (hNext.symm.trans hStep)
      exact ⟨line ++ [c], hTracks⟩
    · cases hAsk.symm.trans hStep
  | @value s s' c key _ hStep value ih =>
    obtain ⟨line, hLine⟩ := ih
    obtain ⟨next, hNext, -⟩ | ⟨key, asked, hAsk, hTracks⟩ := hLine.step c
    · cases hNext.symm.trans hStep
    · obtain ⟨-, rfl⟩ := Step.ask.inj (hAsk.symm.trans hStep)
      exact ⟨line ++ [c], hTracks.emit value⟩

theorem dollar_not_mem_plain (h : Reached escapes s) : '$' ∉ s.plain := by
  induction h with
  | start => simp
  | @next s s' c _ hStep ih =>
    obtain ⟨-, hSame | hNone | ⟨hc, hOne⟩⟩ := step_next hStep
    · rwa [hSame]
    · simp [hNone]
    · simpa [hOne, eq_comm] using ⟨ih, hc⟩
  | value _ hStep value ih =>
    obtain ⟨-, hSame⟩ := step_ask hStep
    rwa [State.emit, hSame]

theorem settled (h : Reached escapes s) : s.Settled escapes := by
  have hPlain := h.dollar_not_mem_plain
  obtain ⟨line, hTracks⟩ := h.exists_tracks
  cases hTracks with
  | text hLast hClosed => exact ⟨hPlain, fun _ => ⟨rfl, rfl⟩, by simp, by simp, by simp⟩
  | dollar hOpening hClosed => exact ⟨hPlain, by simp, fun _ => ⟨rfl, rfl, rfl⟩, by simp, by simp⟩
  | @dollars n out hEscapes hRun hClosed =>
    have hSize : 2 ≤ (dollars (n + 2)).toArray.size := by simp [dollars]
    have hAll : ∀ c ∈ (dollars (n + 2)).toArray, c = '$' := fun c hc =>
      eq_dollar_of_mem_dollars (List.mem_toArray.mp hc)
    exact ⟨hPlain, by simp, by simp, fun _ => ⟨hEscapes, rfl, ⟨hSize, hAll⟩, rfl⟩, by simp⟩
  | key hOpen hKey => exact ⟨hPlain, by simp, by simp, by simp, fun _ => ⟨rfl, rfl, hKey⟩⟩

end Reached

/-- Two of the three buffers that are not yet written are empty. -/
theorem State.Settled.two_empty {s : State} (h : s.Settled escapes) :
    (s.plain = #[] ∧ s.pending = #[]) ∨ (s.plain = #[] ∧ s.key = #[]) ∨
      (s.pending = #[] ∧ s.key = #[]) := by
  cases hMode : s.mode with
  | text => exact .inr (.inr (h.text hMode))
  | dollar =>
    obtain ⟨hPlain, -, hKey⟩ := h.dollar hMode
    exact .inr (.inl ⟨hPlain, hKey⟩)
  | dollars =>
    obtain ⟨-, hPlain, -, hKey⟩ := h.dollars hMode
    exact .inr (.inl ⟨hPlain, hKey⟩)
  | key =>
    obtain ⟨hPlain, hPending, -⟩ := h.key hMode
    exact .inl ⟨hPlain, hPending⟩

/-- Wherever the reader stands in a line, the mode tells what the buffers hold and one of them at most
holds anything. From there on, with one further character or a whole rest and whoever answers, the text
that is written stays in front. -/
theorem buffers_of_reached {s : State} (h : Reached escapes s) :
    s.Settled escapes ∧
    ((s.plain = #[] ∧ s.pending = #[]) ∨ (s.plain = #[] ∧ s.key = #[]) ∨
      (s.pending = #[] ∧ s.key = #[])) ∧
    ∀ {σ : Type u} (ask : Resolver σ) (rest : Text) (w : σ),
      s.out.toList <+: output (run escapes ask rest s w).1 :=
  ⟨h.settled, h.settled.two_empty, fun ask rest w => out_prefix_output ask rest s w⟩

/-- The reader stands within a run of dollars, behind a value that has a dollar and a brace of its own, and
the rest of the line is stopped by a key without a value. -/
theorem buffers_of_reached_dollars :
    let ask : Resolver Nat := fun key n => (if n = 0 then .value ['$', '{'] else .missing key, n + 1)
    let s : State := ⟨.dollars, #[], #['$', '$', '$'], #[], #['$', '{', 'x']⟩
    let gap : Gap := ⟨['B'], ['$', '{', 'x', '$', '$', '{']⟩
    Reached true s ∧ s.Settled true ∧
      run true ask ('{' :: spell ['B']) s 1 = (.error gap, 2) ∧ s.out.toList <+: gap.before := by
  intro ask s gap
  have hRun : run true ask (spell ['A'] ++ 'x' :: dollars 3) {} 0 = (.ok s, 1) := by decide
  have hStop : run true ask ('{' :: spell ['B']) s 1 = (.error gap, 2) := by decide
  have hReached : Reached true s := Reached.start.run hRun
  obtain ⟨hSettled, -, hOut⟩ := buffers_of_reached hReached
  have hWritten := hOut ask ('{' :: spell ['B']) 1
  rw [hStop] at hWritten
  exact ⟨hReached, hSettled, hStop, hWritten⟩

/-- The resolver that has one value for every key. -/
def always (value : Text) : Resolver Unit :=
  fun _ w => (.value value, w)

theorem run_spell (value rest : Text) :
    run escapes (always value) (spell [] ++ rest) {} () =
      run escapes (always value) rest (State.reading value) () := by
  simp [run, spell, opener, State.step, always, State.emit, State.reading]

theorem run_opener (ask : Resolver σ) (rest written : Text) (w : σ) :
    run escapes ask (opener ++ rest) (State.reading written) w =
      run escapes ask rest (State.inKey [] written) w := by
  simp [run, opener, State.step, State.reading, State.inKey]

theorem run_plain (ask : Resolver σ) {text : Text} (hText : '$' ∉ text) (plain out : Array Char)
    (w : σ) :
    run escapes ask text ⟨.text, plain, #[], #[], out⟩ w =
      (.ok ⟨.text, plain ++ text, #[], #[], out⟩, w) := by
  induction text generalizing plain with
  | nil => simp [run]
  | cons c text ih =>
    obtain ⟨hc, hText⟩ : c ≠ '$' ∧ '$' ∉ text := by simpa [eq_comm] using hText
    have hStep : State.step escapes ⟨.text, plain, #[], #[], out⟩ c =
        .next ⟨.text, plain.push c, #[], #[], out⟩ := by rw [State.step, if_neg hc]
    rw [run_of_next escapes ask hStep, ih hText]
    simp

/-- The value of one placeholder is all that is written, and the rest of the line fills the buffers. -/
theorem exists_run_of_settled {s : State} (h : s.Settled escapes) :
    ∃ line, run escapes (always s.out.toList) line {} () = (.ok s, ()) := by
  obtain ⟨mode, plain, pending, key, out⟩ := s
  cases mode with
  | text =>
    obtain ⟨rfl, rfl⟩ := h.text rfl
    refine ⟨spell [] ++ plain.toList, ?_⟩
    rw [run_spell, State.reading, run_plain _ (by simpa using h.plain)]
    simp
  | dollar =>
    obtain ⟨rfl, rfl, rfl⟩ := h.dollar rfl
    refine ⟨spell [] ++ dollars 1, ?_⟩
    rw [run_spell, run_dollars]
    simp [State.behindRun]
  | dollars =>
    obtain ⟨rfl, rfl, ⟨hSize, hAll⟩, rfl⟩ := h.dollars rfl
    obtain ⟨n, hn⟩ := Nat.exists_eq_add_of_le' hSize
    have hPending : pending.toList = dollars (n + 2) := by
      rw [dollars, ← hn]
      exact List.eq_replicate_of_mem fun c hc => hAll c (Array.mem_toList_iff.mp hc)
    refine ⟨spell [] ++ dollars (n + 2), ?_⟩
    rw [run_spell, run_dollars]
    simp [State.behindRun, ← hPending]
  | key =>
    obtain ⟨rfl, rfl, hKey⟩ := h.key rfl
    refine ⟨spell [] ++ (opener ++ key.toList), ?_⟩
    rw [run_spell, run_opener, run_inKey _ _ (by simpa using hKey)]
    simp [State.inKey]

theorem reached_iff_settled {s : State} : Reached escapes s ↔ s.Settled escapes := by
  constructor
  · exact Reached.settled
  · intro h
    obtain ⟨line, hRun⟩ := exists_run_of_settled h
    exact Reached.start.run hRun

/-- A resolver that never misses a key is enough to reach all of them. -/
theorem reached_iff_exists_run {s : State} :
    Reached escapes s ↔ ∃ value line, run escapes (always value) line {} () = (.ok s, ()) := by
  constructor
  · intro h
    exact ⟨s.out.toList, exists_run_of_settled h.settled⟩
  · rintro ⟨value, line, hRun⟩
    exact Reached.start.run hRun

end Interpolation.Placeholder
