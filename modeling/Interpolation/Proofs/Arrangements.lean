import Interpolation.Proofs.Acceptance

/-!
# Arrangements of a selection

A selection is what a command line is to say: an input, an output, assignments in their order and a
set of switches. Its arrangements are the parts in any order that keeps the assignments in theirs, and
each of them can be spelled in many ways. All of these are read back as the selection: no assignment
is lost, and none changes its place.
-/

namespace Interpolation.Command

structure Selection where
  input : Option Text := none
  output : Option Text := none
  assignments : List Assignment := []
  switches : List Switch := []
  valid : ∀ a ∈ assignments, a.Valid
  nodup : switches.Nodup
  compatible : ¬(.verbose ∈ switches ∧ .quiet ∈ switches)

namespace Selection

/-- The parts say what is selected, each part once and the assignments in their order. -/
structure Arranged (s : Selection) (parts : List Part) : Prop where
  inputs : inputs parts = s.input.toList
  outputs : outputs parts = s.output.toList
  assignments : Command.assignments parts = s.assignments
  switches : (Command.switches parts).Perm s.switches

/-- The switches first, then the paths, and the assignments last. -/
def inOrder (s : Selection) : List Part :=
  s.switches.map .switch ++ s.input.toList.map (fun path => .given (.input path)) ++
    s.output.toList.map (fun path => .given (.output path)) ++
    s.assignments.attach.map fun a => .given (.assignment a.1 (s.valid a.1 a.2))

theorem arranged_inOrder (s : Selection) : s.Arranged s.inOrder := by
  refine ⟨?_, ?_, ?_, List.Perm.of_eq ?_⟩
  · simp [inOrder, Command.inputs, List.filterMap_map, Function.comp_def, Part.input?]
  · simp [inOrder, Command.outputs, List.filterMap_map, Function.comp_def, Part.output?]
  · simp [inOrder, Command.assignments, List.filterMap_map, Function.comp_def, Part.assignment?]
  · simp [inOrder, Command.switches, List.filterMap_map, Function.comp_def, Part.switch?]

/-- The options that are selected. -/
def options (s : Selection) : Options where
  input := s.input.getD ['-']
  output := s.output.getD ['-']
  assignments := s.assignments
  environment := .noEnvironment ∉ s.switches
  list := .list ∈ s.switches
  policy := ⟨.keepMissing ∉ s.switches, .noEscapes ∉ s.switches⟩
  level :=
    if .verbose ∈ s.switches then .trace
    else if .quiet ∈ s.switches then .error
    else .warn

variable {s : Selection} {parts : List Part}

theorem Arranged.mem_iff (h : s.Arranged parts) (switch : Switch) :
    .switch switch ∈ parts ↔ switch ∈ s.switches := by
  rw [← mem_switches_iff, h.switches.mem_iff]

theorem Arranged.ofParts_eq (h : s.Arranged parts) : Options.ofParts parts = s.options := by
  simp only [Options.ofParts, options, h.inputs, h.outputs, h.assignments, h.mem_iff,
    Option.head?_toList]

theorem Arranged.accepted (h : s.Arranged parts) {arguments : List Bytes}
    (hSpelled : Spells arguments parts) : Accepted arguments parts where
  spelled := hSpelled
  unrepeated :=
    { switches := h.switches.nodup_iff.mpr s.nodup
      inputs := by
        rw [h.inputs]
        exact Option.length_toList_le
      outputs := by
        rw [h.outputs]
        exact Option.length_toList_le }
  compatible := by
    rw [h.mem_iff, h.mem_iff]
    exact s.compatible

end Selection

/-- The longest spelling of a part. -/
def Word.ofPart : Part → Word
  | .switch s => .switch s
  | .given g => .long g .equals

theorem exists_spells (parts : List Part) : ∃ arguments, Spells arguments parts := by
  refine ⟨_, parts.map Word.ofPart, [], ?_, ?_, .inl rfl, rfl⟩
  · intro w hw
    obtain ⟨part, -, rfl⟩ := List.mem_map.mp hw
    cases part with
    | switch s => trivial
    | given g => exact ⟨by decide, trivial⟩
  · have hPart : ∀ part : Part, (Word.ofPart part).parts = [part] := by
      intro part
      cases part <;> rfl
    rw [List.flatMap_map]
    simp [hPart]

/-- Every selection can be arranged and every arrangement spelled, and however this is done the
arguments are read back as what was selected. -/
theorem parse_arranged (s : Selection) :
    (∃ parts, s.Arranged parts) ∧ ∀ parts, s.Arranged parts →
      (∃ arguments, Spells arguments parts) ∧
      ∀ arguments, Spells arguments parts → Options.parse arguments = .ok s.options := by
  refine ⟨⟨s.inOrder, s.arranged_inOrder⟩, fun parts hArranged => ⟨exists_spells parts, ?_⟩⟩
  intro arguments hSpelled
  rw [parse_of_accepted (hArranged.accepted hSpelled), hArranged.ofParts_eq]

/-- Bundled and attached, behind an equals sign and in the next argument; one key is given twice, and
values begin with an equals sign and a dash. -/
theorem parse_arranged_mixed :
    let first : Given := .assignment ⟨['A'], ['=', 'x']⟩ ⟨by decide, by decide, by decide⟩
    let last : Given := .assignment ⟨['A'], []⟩ ⟨by decide, by decide, by decide⟩
    let words : List Word :=
      [.short [.keepMissing] first .direct, .long (.output ['-', 'o']) .equals,
        .bundle .verbose [.list], .long last .next, .short [] (.input ['-']) .next]
    let arguments := ["-kDA==x", "--output=-o", "-vl", "--variable", "A=", "-i", "-"].map fun a =>
      Utf8.encode a.toList
    Spells arguments (words.flatMap Word.parts) ∧
      Options.parse arguments =
        .ok { output := ['-', 'o'], assignments := [⟨['A'], ['=', 'x']⟩, ⟨['A'], []⟩], list := true,
              policy := ⟨false, true⟩, level := .trace } := by
  intro first last words arguments
  let s : Selection :=
    { input := some ['-'], output := some ['-', 'o']
      assignments := [⟨['A'], ['=', 'x']⟩, ⟨['A'], []⟩]
      switches := [.list, .verbose, .keepMissing]
      valid := List.forall_mem_cons.mpr
        ⟨⟨by decide, by decide, by decide⟩,
          List.forall_mem_singleton.mpr ⟨by decide, by decide, by decide⟩⟩
      nodup := by decide
      compatible := by decide }
  have hSpelled : Spells arguments (words.flatMap Word.parts) :=
    ⟨words, [], by decide, rfl, .inl rfl, by decide⟩
  have hArranged : s.Arranged (words.flatMap Word.parts) :=
    ⟨by decide, by decide, by decide, by decide⟩
  exact ⟨hSpelled, ((parse_arranged s).2 _ hArranged).2 arguments hSpelled⟩

end Interpolation.Command
