import Interpolation.Proofs.Ends

/-!
# Runs that are cut by a limit

What a run does from outlets with limits is compared with what it does from outlets without: limits
that are not exceeded go unnoticed, and so does every failure to flush until all is written.
`substitute_cut` puts this together with the ends of a run.
-/

namespace Interpolation.Stream

open Run

/-- The run does from the changed outlets what it does from the given ones. -/
def Unnoticed {α : Type} (f : Outlets → Outlets) (r : Run α) (o : Outlets) : Prop :=
  perform r (f o) = ((perform r o).1, f (perform r o).2)

theorem Follows.unnoticed {α : Type} {r : Run α} {script : List Action} {result : Except Fault α}
    (h : Follows r script result) {f : Outlets → Outlets} {o : Outlets}
    (hPlay : Unnoticed f (play script) o) : Unnoticed f r o := by
  rw [Unnoticed, h, h, hPlay]
  cases perform (play script) o with
  | mk played o' => cases played <;> rfl

theorem Unnoticed.play_cons {f : Outlets → Outlets} {a : Action} {script : List Action} {o : Outlets}
    (hAction : Unnoticed f a.run o)
    (hScript : ∀ o', perform a.run o = (.ok (), o') → Unnoticed f (play script) o') :
    Unnoticed f (play (a :: script)) o := by
  rw [Unnoticed, play, perform_bind, perform_bind, hAction]
  cases hRun : perform a.run o with
  | mk result o' =>
    cases result with
    | ok _ => exact hScript o' hRun
    | error fault => rfl

theorem Unnoticed.play {f : Outlets → Outlets} {script : List Action}
    (h : ∀ a ∈ script, ∀ o, Unnoticed f a.run o) (o : Outlets) : Unnoticed f (play script) o := by
  induction script generalizing o with
  | nil => rfl
  | cons a script ih =>
    exact play_cons (h a List.mem_cons_self o) fun o' _ =>
      ih (fun b hb => h b (List.mem_cons_of_mem _ hb)) o'

/-- The changed sink takes and answers a write as the given one does. -/
def Sink.Takes (f : Sink → Sink) (s : Sink) (bs : Bytes) : Prop :=
  (f s).put bs = ((s.put bs).1, f (s.put bs).2)

def Outlets.alter (f g : Sink → Sink) (o : Outlets) : Outlets :=
  ⟨f o.out, g o.diagnostics, o.journal⟩

/-- An action does not notice a change to what it does not ask of a sink. -/
theorem unnoticed_alter {f g : Sink → Sink} {a : Action} {o : Outlets}
    (hOut : Sink.Takes f o.out a.output) (hDiagnostics : Sink.Takes g o.diagnostics a.diagnostics)
    (hFlush : a = .flush → (f o.out).flush = o.out.flush) :
    Unnoticed (Outlets.alter f g) a.run o := by
  rw [Unnoticed]
  cases a with
  | write bs =>
    have hPut : (f o.out).put bs = _ := hOut
    rw [Action.run, perform_write, perform_write, Outlets.alter, hPut]
    rfl
  | warn key =>
    have hPut : (g o.diagnostics).put (warningLine key) = _ := hDiagnostics
    rw [Action.run, perform_warn, perform_warn, ← warningLine, Outlets.alter, hPut]
    rfl
  | note e => rfl
  | flush =>
    rw [Action.run, perform_flush, perform_flush, Outlets.alter, hFlush rfl]

def Outlets.unlimited (o : Outlets) : Outlets :=
  { o with out := { o.out with limit := none }, diagnostics := { o.diagnostics with limit := none } }

theorem Sink.Admits.takes {s : Sink} {bs : Bytes} (h : s.Admits bs) :
    Sink.Takes (fun s => { s with limit := none }) s bs := by
  rw [Sink.Takes, Sink.put_of_admits (.of_no_limit rfl bs), Sink.put_of_admits h]
  rfl

theorem sinks_of_action {a : Action} {o o' : Outlets} (hOut : o.out.Admits a.output)
    (hDiagnostics : o.diagnostics.Admits a.diagnostics) (h : perform a.run o = (.ok (), o')) :
    o'.out = o.out.append a.output ∧ o'.diagnostics = o.diagnostics.append a.diagnostics := by
  cases a with
  | write bs =>
    have hPut : o.out.put bs = (.ok (), o.out.append bs) := Sink.put_of_admits hOut
    rw [Action.run, perform_write, hPut] at h
    cases h
    exact ⟨rfl, (Sink.append_nil _).symm⟩
  | warn key =>
    have hPut : o.diagnostics.put (warningLine key) =
        (.ok (), o.diagnostics.append (warningLine key)) := Sink.put_of_admits hDiagnostics
    rw [Action.run, perform_warn, ← warningLine, hPut] at h
    cases h
    exact ⟨(Sink.append_nil _).symm, rfl⟩
  | note e =>
    cases h
    exact ⟨(Sink.append_nil _).symm, (Sink.append_nil _).symm⟩
  | flush =>
    rw [Action.run, perform_flush] at h
    obtain rfl := congrArg Prod.snd h
    exact ⟨(Sink.append_nil _).symm, (Sink.append_nil _).symm⟩

theorem unnoticed_unlimited (script : List Action) {o : Outlets}
    (hOut : o.out.Admits (script.flatMap Action.output))
    (hDiagnostics : o.diagnostics.Admits (script.flatMap Action.diagnostics)) :
    Unnoticed Outlets.unlimited (play script) o := by
  induction script generalizing o with
  | nil => rfl
  | cons a script ih =>
    rw [List.flatMap_cons] at hOut hDiagnostics
    refine .play_cons
      (unnoticed_alter hOut.initial.takes hDiagnostics.initial.takes fun _ => rfl) ?_
    intro o' hRun
    obtain ⟨hOut', hDiagnostics'⟩ := sinks_of_action hOut.initial hDiagnostics.initial hRun
    apply ih
    · rw [hOut', Sink.admits_append_iff]
      exact hOut
    · rw [hDiagnostics', Sink.admits_append_iff]
      exact hDiagnostics

def Outlets.withFlush (failure : Option Text) (o : Outlets) : Outlets :=
  { o with out := { o.out with flushFailure := failure } }

def Outlets.withDiagnosticsFlush (failure : Option Text) (o : Outlets) : Outlets :=
  { o with diagnostics := { o.diagnostics with flushFailure := failure } }

theorem Sink.takes_id (s : Sink) (bs : Bytes) : Sink.Takes id s bs := rfl

/-- Only a flush asks whether flushing fails. -/
theorem Sink.takes_flushFailure (failure : Option Text) (s : Sink) (bs : Bytes) :
    Sink.Takes (fun s => { s with flushFailure := failure }) s bs := rfl

theorem unnoticed_withDiagnosticsFlush (failure : Option Text) (a : Action) (o : Outlets) :
    Unnoticed (Outlets.withDiagnosticsFlush failure) a.run o :=
  unnoticed_alter (Sink.takes_id _ _) (Sink.takes_flushFailure failure _ _) fun _ => rfl

theorem unnoticed_withFlush (failure : Option Text) {a : Action} (h : a ≠ .flush) (o : Outlets) :
    Unnoticed (Outlets.withFlush failure) a.run o :=
  unnoticed_alter (Sink.takes_flushFailure failure _ _) (Sink.takes_id _ _)
    fun hFlush => absurd hFlush h

theorem flush_not_mem_lineScript (p : Policy) (look : Lookup) (number : Nat) (line : Text) :
    .flush ∉ lineScript p look number line := by
  rw [lineScript]
  cases hTrace : Line.trace p look line with
  | mk result requests => cases result <;> simp

/-- The flush is the last that a run does to its sinks, and only a run that ends well does it. -/
theorem exists_script_flush (p : Policy) (look : Lookup) (lines : List (Except Fault Text))
    (totals : Totals) :
    ∃ body, .flush ∉ body ∧ (script p look lines totals).1 = body ++
      match (script p look lines totals).2 with
      | .ok totals => [.flush, .note (.streamDone totals)]
      | .error _ => [] := by
  induction lines generalizing totals with
  | nil => exact ⟨[], by simp, rfl⟩
  | cons item lines ih =>
    cases item with
    | error fault => exact ⟨[], by simp, rfl⟩
    | ok line =>
      have hLine := flush_not_mem_lineScript p look (totals.lines + 1) line
      rw [script]
      cases lineResult p look line with
      | error fault => exact ⟨_, hLine, (List.append_nil _).symm⟩
      | ok warnings =>
        obtain ⟨body, hBody, hScript⟩ := ih ⟨totals.lines + 1, totals.warnings + warnings⟩
        refine ⟨lineScript p look (totals.lines + 1) line ++ body, ?_, ?_⟩
        · simp [hLine, hBody]
        · dsimp only
          rw [List.append_assoc, ← hScript]

theorem unnoticed_withFlush_play {body : List Action} (h : .flush ∉ body) (failure : Option Text)
    (o : Outlets) : Unnoticed (Outlets.withFlush failure) (play body) o :=
  .play (fun _ ha => unnoticed_withFlush failure fun hFlush => h (hFlush ▸ ha)) o

theorem flush_of_play {body : List Action} (h : .flush ∉ body) (o : Outlets) :
    (perform (play body) o).2.out.flush = o.out.flush := by
  have hKept : perform (play body) o = _ :=
    unnoticed_withFlush_play h o.out.flushFailure o
  exact congrArg (fun run => run.2.out.flush) hKept

theorem perform_play_flush (e : Event) (o : Outlets) :
    ∃ journal, perform (play [.flush, .note e]) o =
      (o.out.flush, ⟨o.out, o.diagnostics, journal⟩) := by
  rw [play, perform_bind, Action.run, perform_flush]
  cases o.out.flush with
  | error fault => exact ⟨o.journal, rfl⟩
  | ok _ => exact ⟨o.journal.push (.event e), rfl⟩

/-- A flush that fails changes the result of a run that would end well, and nothing else. -/
theorem perform_substitute_withFlush (p : Policy) (look : Lookup) (source : Source) (o : Outlets) :
    let run := perform (substitute p look source) o
    let calm := perform (substitute p look source) (o.withFlush none)
    run.1 = flushed o calm.1 ∧ run.2.out.taken = calm.2.out.taken ∧
      run.2.diagnostics.taken = calm.2.diagnostics.taken := by
  intro run calm
  obtain ⟨body, hBody, hScript⟩ := exists_script_flush p look source.lines {}
  have hFollows := follows_substituteLines p look source.lines {}
  have hRun : run = _ := hFollows o
  have hCalm : calm = _ := hFollows (o.withFlush none)
  rw [hScript, perform_play_append] at hRun
  rw [hScript, perform_play_append, unnoticed_withFlush_play hBody none o] at hCalm
  have hFlush := flush_of_play hBody o
  rw [hRun, hCalm]
  cases hPlayed : perform (play body) o with
  | mk played o' =>
    rw [hPlayed] at hFlush
    cases played with
    | error fault => exact ⟨rfl, rfl, rfl⟩
    | ok _ =>
      cases (script p look source.lines {}).2 with
      | error fault => exact ⟨rfl, rfl, rfl⟩
      | ok totals =>
        obtain ⟨journal, hLoud⟩ := perform_play_flush (.streamDone totals) o'
        obtain ⟨journal', hQuiet⟩ := perform_play_flush (.streamDone totals) (o'.withFlush none)
        have hNone : (o'.withFlush none).out.flush = .ok () := rfl
        dsimp only at hFlush ⊢
        rw [hLoud, hQuiet, hNone, hFlush, flushed]
        cases o.out.flush with
        | error fault => exact ⟨rfl, rfl, rfl⟩
        | ok _ => exact ⟨rfl, rfl, rfl⟩

/-- What the sinks hold stays within the limits of the given outlets. -/
def Outlets.Within (o limits : Outlets) : Prop :=
  (∀ limit, limits.out.limit = some limit → o.out.taken.size ≤ limit) ∧
    ∀ limit, limits.diagnostics.limit = some limit → o.diagnostics.taken.size ≤ limit

theorem Outlets.within_iff {o limits : Outlets} {out diagnostics : Bytes}
    (hOut : o.out.taken = (limits.out.append out).taken)
    (hDiagnostics : o.diagnostics.taken = (limits.diagnostics.append diagnostics).taken) :
    o.Within limits ↔ limits.out.Admits out ∧ limits.diagnostics.Admits diagnostics := by
  rw [Outlets.Within, hOut, hDiagnostics, Sink.size_append, Sink.size_append]
  rfl

/-- Unlimited sinks take all that the report says. -/
theorem uncut_unlimited (p : Policy) (look : Lookup) (source : Source) (o : Outlets) :
    Uncut o.unlimited (source.lines.map (lineOutcome p look)) {}
      (perform (substitute p look source) o.unlimited) := by
  have hOut : ∀ bs, o.unlimited.out.Admits bs := Sink.Admits.of_no_limit rfl
  have hDiagnostics : ∀ bs, o.unlimited.diagnostics.Admits bs := Sink.Admits.of_no_limit rfl
  rcases substituteLines_ends p look (lastWarning_of_mem_lines source) {} (hOut [])
    (hDiagnostics []) with ⟨before, s, after, hFull⟩ | ⟨before, current, after, hFull⟩ | hUncut
  · exact absurd (hOut _) hFull.exceeded
  · exact absurd (hDiagnostics _) hFull.exceeded
  · exact hUncut

/-- A run whose report fits does from limited outlets what it does from unlimited ones. -/
theorem unnoticed_unlimited_substitute (p : Policy) (look : Lookup) (source : Source) {o : Outlets}
    (hOut : o.out.Admits (Report.ofOutcomes (source.lines.map (lineOutcome p look))).out)
    (hDiagnostics :
      o.diagnostics.Admits (Report.ofOutcomes (source.lines.map (lineOutcome p look))).diagnostics) :
    Unnoticed Outlets.unlimited (substitute p look source) o := by
  obtain ⟨-, hScriptOut, hScriptDiagnostics⟩ :=
    script_eq_report p look (lastWarning_of_mem_lines source) {}
  rw [← hScriptOut] at hOut
  rw [← hScriptDiagnostics] at hDiagnostics
  exact (follows_substituteLines p look source.lines {}).unnoticed
    (unnoticed_unlimited _ hOut hDiagnostics)

/-- A sink with a limit cuts a run at one line: what both sinks hold is the front of what the run
leaves in unlimited sinks, and the one that is full decides how much the other one holds. Within the
limits nothing is cut. Only the output is flushed, and last of all. -/
theorem substitute_cut (p : Policy) (look : Lookup) (source : Source) {o : Outlets}
    (h : o.Within o) :
    let outcomes := source.lines.map (lineOutcome p look)
    let run := perform (substitute p look source) o
    let free := perform (substitute p look source) o.unlimited
    let calm := perform (substitute p look source) (o.withFlush none)
    run.2.out.taken.toList <+: free.2.out.taken.toList ∧
    run.2.diagnostics.taken.toList <+: free.2.diagnostics.taken.toList ∧
    ((∃ before s after, FullOutput o outcomes run before s after) ∨
      (∃ before current after, FullDiagnostics o outcomes run before current after) ∨
      free.2.Within o) ∧
    (free.2.Within o → run.1 = free.1 ∧ run.2.unlimited = free.2) ∧
    (∀ failure, perform (substitute p look source) (o.withDiagnosticsFlush failure) =
      (run.1, run.2.withDiagnosticsFlush failure)) ∧
    run.1 = flushed o calm.1 ∧ run.2.out.taken = calm.2.out.taken ∧
      run.2.diagnostics.taken = calm.2.diagnostics.taken := by
  intro outcomes run free calm
  have hStart : o.Within o ↔ o.out.Admits [] ∧ o.diagnostics.Admits [] :=
    Outlets.within_iff (by rw [Sink.append_nil]) (by rw [Sink.append_nil])
  obtain ⟨hOut, hDiagnostics⟩ := hStart.mp h
  have hEnds := substituteLines_ends p look (lastWarning_of_mem_lines source) {} hOut hDiagnostics
  have hFree : Uncut o.unlimited outcomes {} free := uncut_unlimited p look source o
  have hWithin : free.2.Within o ↔ o.out.Admits (Report.ofOutcomes outcomes).out ∧
      o.diagnostics.Admits (Report.ofOutcomes outcomes).diagnostics :=
    Outlets.within_iff (by rw [hFree.out]; rfl) (by rw [hFree.diagnostics]; rfl)
  obtain ⟨out, diagnostics, hRunOut, hRunDiagnostics, hOutInitial, hDiagnosticsInitial⟩ :=
    exists_taken_of_ends hEnds
  refine ⟨?_, ?_, ?_, ?_, ?_, perform_substitute_withFlush p look source o⟩
  · change run.2.out = _ at hRunOut
    rw [hRunOut, hFree.out, Sink.toList_append, Sink.toList_append]
    exact (List.prefix_append_right_inj _).mpr hOutInitial
  · change run.2.diagnostics = _ at hRunDiagnostics
    rw [hRunDiagnostics, hFree.diagnostics, Sink.toList_append, Sink.toList_append]
    exact (List.prefix_append_right_inj _).mpr hDiagnosticsInitial
  · rcases hEnds with hFull | hFull | hUncut
    · exact .inl hFull
    · exact .inr (.inl hFull)
    · exact .inr (.inr (hWithin.mpr ⟨hUncut.written_fits, hUncut.warned_fits⟩))
  · intro hFits
    obtain ⟨hOutFits, hDiagnosticsFit⟩ := hWithin.mp hFits
    have hSame : free = (run.1, run.2.unlimited) :=
      unnoticed_unlimited_substitute p look source hOutFits hDiagnosticsFit
    rw [hSame]
    exact ⟨rfl, rfl⟩
  · intro failure
    exact (follows_substituteLines p look source.lines {}).unnoticed
      (.play (fun a _ => unnoticed_withDiagnosticsFlush failure a) o)

/-- The limit falls between the two octets of the second line's character. -/
theorem substitute_cut_second_line :
    let source := Source.ofText "é\né".toList
    let o : Outlets := { out := { limit := some 4 } }
    let run := perform (substitute Policy.lenient (fun _ => none) source) o
    o.Within o ∧ run.1 = .error (.io o.out.refusal) ∧ run.2.out.taken.size = 4 := by
  intro source o run
  have hStart : o.Within o :=
    ⟨fun _ _ => Nat.zero_le _, Sink.Admits.of_no_limit (s := o.diagnostics) rfl []⟩
  have hLines : Lines.all Lines.textMarks "é\né".toList = [['é'], ['é']] := by decide
  have hDone : [['é'], ['é']].map (Line.substitute Policy.lenient fun _ => none) =
      [⟨['é'], []⟩, ⟨['é'], []⟩].map .ok := by rfl
  refine ⟨hStart, ?_⟩
  obtain ⟨-, -, hEnds, -⟩ := substitute_cut Policy.lenient (fun _ => none) source hStart
  rcases hEnds with ⟨_, _, _, hFull⟩ | ⟨_, _, _, hFull⟩ | hWithin
  · exact ⟨hFull.result, (Option.some.inj hFull.full).symm⟩
  · exact absurd (.of_no_limit rfl _) hFull.exceeded
  · have hFree := (uncut_unlimited Policy.lenient (fun _ => none) source o).out
    have hSize := hWithin.1 4 rfl
    rw [hFree, Sink.size_append, lines_ofText, hLines, map_lineOutcome hDone,
      ofOutcomes_map_ok] at hSize
    exact absurd hSize (by decide)

end Interpolation.Stream
