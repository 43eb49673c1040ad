import Mathlib.Data.List.Induction
import Mathlib.Data.List.Nodup
import Mathlib.Tactic.MkIffOfInductiveProp
import Mathlib.Tactic.Tauto
import Interpolation.Proofs.Wording

/-!
# The command lines that are accepted

A list of arguments is accepted if it spells parts that go together: no switch twice, at most one
input and one output, and not both verbose and quiet. The options follow from the parts alone.
`parse_eq_ok_iff` says that no other arguments are accepted.
-/

namespace Interpolation.Command

def Part.switch? : Part → Option Switch
  | .switch s => some s
  | .given _ => none

def Part.input? : Part → Option Text
  | .given (.input path) => some path
  | _ => none

def Part.output? : Part → Option Text
  | .given (.output path) => some path
  | _ => none

def Part.assignment? : Part → Option Assignment
  | .given (.assignment a _) => some a
  | _ => none

def switches (parts : List Part) : List Switch :=
  parts.filterMap Part.switch?

def inputs (parts : List Part) : List Text :=
  parts.filterMap Part.input?

def outputs (parts : List Part) : List Text :=
  parts.filterMap Part.output?

def assignments (parts : List Part) : List Assignment :=
  parts.filterMap Part.assignment?

@[mk_iff]
structure Unrepeated (parts : List Part) : Prop where
  switches : (switches parts).Nodup
  inputs : (inputs parts).length ≤ 1
  outputs : (outputs parts).length ≤ 1

def Options.ofParts (parts : List Part) : Options where
  input := (inputs parts).head?.getD ['-']
  output := (outputs parts).head?.getD ['-']
  assignments := Command.assignments parts
  environment := .switch .noEnvironment ∉ parts
  list := .switch .list ∈ parts
  policy := ⟨.switch .keepMissing ∉ parts, .switch .noEscapes ∉ parts⟩
  level :=
    if .switch .verbose ∈ parts then .trace
    else if .switch .quiet ∈ parts then .error
    else .warn

theorem mem_switches_iff (parts : List Part) (s : Switch) :
    s ∈ switches parts ↔ .switch s ∈ parts := by
  rw [switches, List.mem_filterMap]
  constructor
  · rintro ⟨part, hPart, hSwitch⟩
    cases part with
    | switch t =>
      obtain rfl := Option.some.inj hSwitch
      exact hPart
    | given g => cases hSwitch
  · intro h
    exact ⟨.switch s, h, rfl⟩

namespace Draft

/-- The draft that the parts lead to. -/
def ofParts (parts : List Part) : Draft where
  switches := Command.switches parts
  input := (inputs parts).head?
  output := (outputs parts).head?
  assignments := Command.assignments parts

theorem options_ofParts (parts : List Part) : (ofParts parts).options = Options.ofParts parts := by
  simp only [Draft.options, ofParts, Options.ofParts, mem_switches_iff]

/-- What a further part must not repeat. -/
def Joins (part : Part) (parts : List Part) : Prop :=
  match part with
  | .switch s => s ∉ Command.switches parts
  | .given (.input _) => inputs parts = []
  | .given (.output _) => outputs parts = []
  | .given (.assignment _ _) => True

theorem filterMap_concat {β : Type} (f : Part → Option β) (parts : List Part) (part : Part) :
    (parts ++ [part]).filterMap f = parts.filterMap f ++ (f part).toList := by
  rw [List.filterMap_append]
  cases h : f part <;> simp [h]

theorem length_concat_le_one_iff {α : Type} (as : List α) (a : α) :
    (as ++ [a]).length ≤ 1 ↔ as.length ≤ 1 ∧ as = [] := by
  cases as with
  | nil => simp
  | cons b as => simp

theorem unrepeated_concat_iff (parts : List Part) (part : Part) :
    Unrepeated (parts ++ [part]) ↔ Unrepeated parts ∧ Joins part parts := by
  simp only [unrepeated_iff, Command.switches, inputs, outputs, filterMap_concat]
  cases part with
  | switch s =>
    have hNodup : (parts.filterMap Part.switch? ++ [s]).Nodup ↔
        (parts.filterMap Part.switch?).Nodup ∧ s ∉ parts.filterMap Part.switch? := by
      rw [← List.concat_eq_append, List.nodup_concat, and_comm]
    simp only [Part.switch?, Part.input?, Part.output?, Option.toList_none, Option.toList_some,
      List.append_nil, hNodup, Joins, Command.switches]
    tauto
  | given g =>
    cases g with
    | input path =>
      simp only [Part.switch?, Part.input?, Part.output?, Option.toList_none, Option.toList_some,
        List.append_nil, length_concat_le_one_iff, Joins, inputs]
      tauto
    | output path =>
      simp only [Part.switch?, Part.input?, Part.output?, Option.toList_none, Option.toList_some,
        List.append_nil, length_concat_le_one_iff, Joins, outputs]
      tauto
    | assignment a valid =>
      simp only [Part.switch?, Part.input?, Part.output?, Option.toList_none, List.append_nil, Joins,
        and_true]

theorem ofParts_concat (parts : List Part) (part : Part) :
    ofParts (parts ++ [part]) =
      { switches := Command.switches parts ++ part.switch?.toList
        input := (inputs parts ++ part.input?.toList).head?
        output := (outputs parts ++ part.output?.toList).head?
        assignments := Command.assignments parts ++ part.assignment?.toList } := by
  simp only [ofParts, Command.switches, inputs, outputs, Command.assignments, filterMap_concat]

theorem decode_encode (t : Text) : decode (Utf8.encode t) = .ok t := by
  rw [decode, Utf8.decode?_encode]

theorem take_input (d : Draft) (path : Text) :
    d.take (.given (.input path)) =
      if d.input.isSome then refuse (.repeated (.setting .input))
      else .ok { d with input := some path } := by
  change (if _ then _ else decode (Utf8.encode path) >>= _) = _
  rw [bind_of_ok (decode_encode path)]
  rfl

theorem take_output (d : Draft) (path : Text) :
    d.take (.given (.output path)) =
      if d.output.isSome then refuse (.repeated (.setting .output))
      else .ok { d with output := some path } := by
  change (if _ then _ else decode (Utf8.encode path) >>= _) = _
  rw [bind_of_ok (decode_encode path)]
  rfl

theorem take_assignment (d : Draft) {a : Assignment} (h : a.Valid) :
    d.take (.given (.assignment a h)) = .ok { d with assignments := d.assignments ++ [a] } := by
  change (decode (Utf8.encode a.write) >>= _) = _
  rw [bind_of_ok (decode_encode a.write), Assignment.parse_write h]
  rfl

/-- A part is taken if it does not repeat another one. -/
theorem take_ofParts_iff (parts : List Part) (part : Part) (e : Draft) :
    (ofParts parts).take part = .ok e ↔ Joins part parts ∧ e = ofParts (parts ++ [part]) := by
  rw [ofParts_concat, eq_comm (a := e)]
  cases part with
  | switch s =>
    change (if s ∈ Command.switches parts then _ else _) = _ ↔ s ∉ Command.switches parts ∧ _
    split
    · rename_i hRepeated
      simp [refuse, hRepeated]
    · rename_i hNew
      simp [hNew, ofParts, inputs, Part.switch?, Part.input?, Part.output?, Part.assignment?]
  | given g =>
    cases g with
    | input path =>
      rw [take_input, Joins]
      change (if (inputs parts).head?.isSome then _ else _) = _ ↔ _
      cases inputs parts with
      | nil => simp [ofParts, Part.switch?, Part.input?, Part.output?, Part.assignment?]
      | cons first others => simp [refuse]
    | output path =>
      rw [take_output, Joins]
      change (if (outputs parts).head?.isSome then _ else _) = _ ↔ _
      cases outputs parts with
      | nil => simp [ofParts, Part.switch?, Part.input?, Part.output?, Part.assignment?]
      | cons first others => simp [refuse]
    | assignment a valid =>
      simp [take_assignment, ofParts, Joins, Part.switch?, Part.input?, Part.output?,
        Part.assignment?]

theorem takeAll_eq_ok_iff (parts : List Part) (e : Draft) :
    ({} : Draft).takeAll parts = .ok e ↔ Unrepeated parts ∧ e = ofParts parts := by
  induction parts using List.reverseRecOn generalizing e with
  | nil =>
    constructor
    · intro h
      cases h
      exact ⟨⟨List.nodup_nil, Nat.zero_le _, Nat.zero_le _⟩, rfl⟩
    · rintro ⟨-, rfl⟩
      rfl
  | append_singleton parts part ih =>
    rw [takeAll_append, unrepeated_concat_iff]
    constructor
    · intro h
      obtain ⟨d, hParts, hPart⟩ := exists_of_bind_eq_ok h
      obtain ⟨hUnrepeated, rfl⟩ := (ih d).mp hParts
      rw [takeAll_singleton, take_ofParts_iff] at hPart
      exact ⟨⟨hUnrepeated, hPart.1⟩, hPart.2⟩
    · rintro ⟨⟨hUnrepeated, hJoins⟩, rfl⟩
      rw [bind_of_ok ((ih _).mpr ⟨hUnrepeated, rfl⟩), takeAll_singleton, take_ofParts_iff]
      exact ⟨hJoins, rfl⟩

theorem both_of_filter {given : List Switch} (hGiven : given.Nodup) {first second : Switch}
    {others : List Switch}
    (h : given.filter (fun s => s = .verbose ∨ s = .quiet) = first :: second :: others) :
    .verbose ∈ given ∧ .quiet ∈ given := by
  have hNodup := hGiven.filter fun s => s = .verbose ∨ s = .quiet
  have hMem : ∀ s ∈ first :: second :: others, s ∈ given ∧ (s = .verbose ∨ s = .quiet) := by
    intro s hs
    rw [← h, List.mem_filter, decide_eq_true_iff] at hs
    exact hs
  rw [h] at hNodup
  have hNe : first ≠ second := fun hEq => (List.nodup_cons.mp hNodup).1 (by simp [hEq])
  obtain ⟨hFirst, hFirst'⟩ := hMem first (by simp)
  obtain ⟨hSecond, hSecond'⟩ := hMem second (by simp)
  rcases hFirst' with rfl | rfl <;> rcases hSecond' with rfl | rfl
  · exact absurd rfl hNe
  · exact ⟨hFirst, hSecond⟩
  · exact ⟨hSecond, hFirst⟩
  · exact absurd rfl hNe

theorem exists_filter_of_both {given : List Switch} (hVerbose : .verbose ∈ given)
    (hQuiet : .quiet ∈ given) :
    ∃ first second others,
      given.filter (fun s => s = .verbose ∨ s = .quiet) = first :: second :: others := by
  have hFirst : Switch.verbose ∈ given.filter (fun s => s = .verbose ∨ s = .quiet) :=
    List.mem_filter.mpr ⟨hVerbose, by decide⟩
  have hSecond : Switch.quiet ∈ given.filter (fun s => s = .verbose ∨ s = .quiet) :=
    List.mem_filter.mpr ⟨hQuiet, by decide⟩
  cases hList : given.filter (fun s => s = .verbose ∨ s = .quiet) with
  | nil =>
    rw [hList] at hFirst
    cases hFirst
  | cons first others =>
    cases others with
    | nil =>
      rw [hList, List.mem_singleton] at hFirst hSecond
      cases hFirst.trans hSecond.symm
    | cons second others => exact ⟨first, second, others, rfl⟩

/-- A draft is refused if it holds both of the switches about the level. -/
theorem checked_ofParts_iff {parts : List Part} (hParts : Unrepeated parts) (d : Draft) :
    (ofParts parts).checked = .ok d ↔
      ¬(.switch .verbose ∈ parts ∧ .switch .quiet ∈ parts) ∧ d = ofParts parts := by
  rw [checked, ← mem_switches_iff, ← mem_switches_iff]
  split
  · rename_i first second others hFilter
    have hBoth := both_of_filter hParts.switches hFilter
    simp [refuse, hBoth]
  · rename_i hFilter
    have hCompatible : ¬(.verbose ∈ Command.switches parts ∧ .quiet ∈ Command.switches parts) := by
      rintro ⟨hVerbose, hQuiet⟩
      obtain ⟨first, second, others, hBoth⟩ := exists_filter_of_both hVerbose hQuiet
      exact hFilter first second others hBoth
    rw [and_iff_right hCompatible, Except.ok.injEq, eq_comm]

end Draft

/-- The arguments spell the parts; two dashes may close them. -/
def Spells (arguments : List Bytes) (parts : List Part) : Prop :=
  ∃ (words : List Word) (closing : List Text), (∀ w ∈ words, w.Fits) ∧
    parts = words.flatMap Word.parts ∧ (closing = [] ∨ closing = [['-', '-']]) ∧
    arguments = (words.flatMap Word.arguments ++ closing).map Utf8.encode

structure Accepted (arguments : List Bytes) (parts : List Part) : Prop where
  spelled : Spells arguments parts
  unrepeated : Unrepeated parts
  compatible : ¬(.switch .verbose ∈ parts ∧ .switch .quiet ∈ parts)

theorem parse_of_accepted {arguments : List Bytes} {parts : List Part}
    (h : Accepted arguments parts) : Options.parse arguments = .ok (Options.ofParts parts) := by
  obtain ⟨words, closing, hFits, hWords, hClosing, rfl⟩ := h.spelled
  have hTaken : ({} : Draft).takeAll (words.flatMap Word.parts) = .ok (Draft.ofParts parts) := by
    rw [← hWords]
    exact (Draft.takeAll_eq_ok_iff parts _).mpr ⟨h.unrepeated, rfl⟩
  obtain ⟨d, hSettled, hRead⟩ := Draft.leads_words hFits (d := {}) rfl hTaken
  have hClosed : d.read (closing.map Utf8.encode) = .ok d := by
    rcases hClosing with rfl | rfl
    · rfl
    · rfl
  have hChecked := (Draft.checked_ofParts_iff h.unrepeated (Draft.ofParts parts)).mpr ⟨h.compatible, rfl⟩
  rw [Options.parse, List.map_append, hRead, bind_of_ok hClosed, bind_of_ok hSettled,
    bind_of_ok hChecked, Draft.options_ofParts]
  rfl

/-- The arguments that lead to options are the accepted ones. -/
theorem parse_eq_ok_iff {arguments : List Bytes} {o : Options} :
    Options.parse arguments = .ok o ↔
      ∃ parts, Accepted arguments parts ∧ o = Options.ofParts parts := by
  constructor
  · intro h
    obtain ⟨d, hRead, h⟩ := exists_of_bind_eq_ok h
    obtain ⟨e, hSettled, h⟩ := exists_of_bind_eq_ok h
    obtain ⟨e', hChecked, h⟩ := exists_of_bind_eq_ok h
    obtain ⟨words, closing, hFits, hTaken, hClosing, hArguments⟩ :=
      Draft.exists_words (d := {}) rfl ⟨d, hRead, hSettled⟩
    obtain ⟨hUnrepeated, rfl⟩ := (Draft.takeAll_eq_ok_iff _ _).mp hTaken
    obtain ⟨hCompatible, rfl⟩ := (Draft.checked_ofParts_iff hUnrepeated _).mp hChecked
    refine ⟨words.flatMap Word.parts,
      ⟨⟨words, closing, hFits, rfl, hClosing, hArguments⟩, hUnrepeated, hCompatible⟩, ?_⟩
    rw [← Draft.options_ofParts]
    exact (Except.ok.inj h).symm
  · rintro ⟨parts, hAccepted, rfl⟩
    exact parse_of_accepted hAccepted

end Interpolation.Command
