import Interpolation.Proofs.Acceptance

/-!
# Arguments without the switches about the level

The switches about the level can be left out of arguments: those with a long name as a whole, those with
a short name out of the bundle that they stand in. What is left is accepted if the arguments are, and
leads to the same options but for the level, which is then the usual one.
-/

namespace Interpolation.Command

open Draft

def Switch.IsVerbosity (s : Switch) : Prop :=
  s = .verbose ∨ s = .quiet

instance (s : Switch) : Decidable s.IsVerbosity :=
  inferInstanceAs (Decidable (s = .verbose ∨ s = .quiet))

def verbosityNames : List Bytes :=
  ["verbose", "quiet"].map fun name => Utf8.encode name.toList

def verbosityInitials : Bytes :=
  Utf8.encode "vq".toList

def settingInitials : Bytes :=
  Utf8.encode "ioD".toList

/-- Behind the short name of a setting there are no further names. -/
def namesWithoutVerbosity : Bytes → Bytes
  | [] => []
  | b :: rest =>
    if b ∈ settingInitials then b :: rest
    else if b ∈ verbosityInitials then namesWithoutVerbosity rest
    else b :: namesWithoutVerbosity rest

/-- What is left of an argument, if anything. -/
def argumentWithoutVerbosity? : Bytes → Option Bytes
  | first :: second :: body =>
    if first ≠ dash then some (first :: second :: body)
    else if second = dash then
      if body ∈ verbosityNames then none else some (first :: second :: body)
    else
      match namesWithoutVerbosity (second :: body) with
      | [] => none
      | names => some (first :: names)
  | argument => some argument

def withoutVerbosity (arguments : List Bytes) : List Bytes :=
  arguments.filterMap argumentWithoutVerbosity?

def Part.isVerbosity : Part → Bool
  | .switch s => s.IsVerbosity
  | .given _ => false

def partsWithoutVerbosity (parts : List Part) : List Part :=
  parts.filter fun part => !part.isVerbosity

def switchesWithoutVerbosity (switches : List Switch) : List Switch :=
  switches.filter fun s => ¬s.IsVerbosity

/-- What is left of a word: another one, or nothing. -/
def Word.withoutVerbosity : Word → List Word
  | .switch s => if s.IsVerbosity then [] else [.switch s]
  | .bundle first others =>
    match switchesWithoutVerbosity (first :: others) with
    | [] => []
    | first :: others => [.bundle first others]
  | .long g form => [.long g form]
  | .short switches g form => [.short (switchesWithoutVerbosity switches) g form]

theorem filter_map_switch (switches : List Switch) :
    partsWithoutVerbosity (switches.map .switch) = (switchesWithoutVerbosity switches).map .switch := by
  rw [partsWithoutVerbosity, switchesWithoutVerbosity, List.filter_map]
  congr 2
  funext s
  simp [Part.isVerbosity]

theorem parts_withoutVerbosity (w : Word) :
    w.withoutVerbosity.flatMap Word.parts = partsWithoutVerbosity w.parts := by
  cases w with
  | switch s => cases s <;> rfl
  | bundle first others =>
    rw [Word.parts, ← List.map_cons, filter_map_switch, Word.withoutVerbosity]
    cases switchesWithoutVerbosity (first :: others) with
    | nil => rfl
    | cons first others => simp [Word.parts]
  | long g form => rfl
  | short switches g form =>
    have hGiven : partsWithoutVerbosity [.given g] = [.given g] := rfl
    rw [Word.parts, partsWithoutVerbosity, List.filter_append]
    change _ = partsWithoutVerbosity (switches.map .switch) ++ partsWithoutVerbosity [.given g]
    rw [filter_map_switch, hGiven, Word.withoutVerbosity, List.flatMap_singleton, Word.parts]

theorem haveInitials_withoutVerbosity {switches : List Switch} (h : Word.HaveInitials switches) :
    Word.HaveInitials (switchesWithoutVerbosity switches) :=
  fun s hs => h s (List.mem_of_mem_filter hs)

theorem fits_of_mem_withoutVerbosity {w v : Word} (h : w.Fits) (hv : v ∈ w.withoutVerbosity) :
    v.Fits := by
  cases w with
  | switch s =>
    rw [Word.withoutVerbosity] at hv
    split at hv
    · cases hv
    · obtain rfl := List.mem_singleton.mp hv
      trivial
  | bundle first others =>
    have hLeft := haveInitials_withoutVerbosity h
    rw [Word.withoutVerbosity] at hv
    split at hv
    · cases hv
    · rename_i first others hSome
      obtain rfl := List.mem_singleton.mp hv
      rwa [hSome] at hLeft
  | long g form =>
    obtain rfl := List.mem_singleton.mp hv
    exact h
  | short switches g form =>
    obtain rfl := List.mem_singleton.mp hv
    exact ⟨haveInitials_withoutVerbosity h.1, h.2⟩

theorem argumentWithoutVerbosity?_plain {value : Text} (h : Form.next.Fits value) :
    argumentWithoutVerbosity? (Utf8.encode value) = some (Utf8.encode value) := by
  match hEncode : Utf8.encode value with
  | [] | [_] => rfl
  | first :: second :: body => rw [argumentWithoutVerbosity?, if_pos (ne_dash_of_fits h hEncode)]

theorem argumentWithoutVerbosity?_long (body : Text) :
    argumentWithoutVerbosity? (Utf8.encode ('-' :: '-' :: body)) =
      if Utf8.encode body ∈ verbosityNames then none
      else some (Utf8.encode ('-' :: '-' :: body)) := by
  rw [encode_cons_of_lt (by decide), encode_cons_of_lt (by decide), argumentWithoutVerbosity?,
    if_neg (by decide), if_pos (by decide)]

theorem argumentWithoutVerbosity?_short {c : Char} {names left : Text} (h : c ≠ '-')
    (hLeft : namesWithoutVerbosity (Utf8.encode (c :: names)) = Utf8.encode left) :
    argumentWithoutVerbosity? (Utf8.encode ('-' :: c :: names)) =
      if left = [] then none else some (Utf8.encode ('-' :: left)) := by
  obtain ⟨second, body, hEncode, hSecond⟩ := exists_encode_cons_of_ne h names
  rw [encode_cons_of_lt (by decide), hEncode, argumentWithoutVerbosity?, if_neg (by decide),
    if_neg hSecond, ← hEncode, hLeft]
  cases left with
  | nil => rfl
  | cons d left =>
    rw [if_neg (List.cons_ne_nil d left), encode_cons_of_lt (c := '-') (by decide)]
    split
    · rename_i hNil
      exact absurd (Utf8.encode_injective (hNil.trans Utf8.encode_nil.symm)) (List.cons_ne_nil d left)
    · rfl

theorem namesWithoutVerbosity_switch {s : Switch} {c : Char}
    (hc : (Choice.switch s).shortName? = some c) (rest : Bytes) :
    namesWithoutVerbosity (String.utf8EncodeChar c ++ rest) =
      if s.IsVerbosity then namesWithoutVerbosity rest
      else String.utf8EncodeChar c ++ namesWithoutVerbosity rest := by
  cases s <;> cases hc <;> rfl

theorem namesWithoutVerbosity_setting (s : Setting) (rest : Bytes) :
    namesWithoutVerbosity (Utf8.encode (initials [.setting s]) ++ rest) =
      Utf8.encode (initials [.setting s]) ++ rest := by
  cases s <;> rfl

theorem namesWithoutVerbosity_initials {switches : List Switch}
    (h : Word.HaveInitials switches) (rest : Bytes) :
    namesWithoutVerbosity (Utf8.encode (initials (switches.map .switch)) ++ rest) =
      Utf8.encode (initials ((switchesWithoutVerbosity switches).map .switch)) ++
        namesWithoutVerbosity rest := by
  induction switches with
  | nil => rfl
  | cons s switches ih =>
    obtain ⟨hInitial, hInitials⟩ := List.forall_mem_cons.mp h
    obtain ⟨c, hc⟩ := Option.isSome_iff_exists.mp hInitial
    rw [List.map_cons, initials_cons hc, Utf8.encode_cons, List.append_assoc,
      namesWithoutVerbosity_switch hc, ih hInitials]
    by_cases hs : s.IsVerbosity
    · simp [switchesWithoutVerbosity, hs]
    · simp [switchesWithoutVerbosity, hs, initials_cons hc]

theorem namesWithoutVerbosity_short {switches : List Switch} (h : Word.HaveInitials switches)
    (s : Setting) (value : Text) :
    namesWithoutVerbosity (Utf8.encode (initials (switches.map .switch ++ [.setting s]) ++ value)) =
      Utf8.encode
        (initials ((switchesWithoutVerbosity switches).map .switch ++ [.setting s]) ++ value) := by
  simp only [initials_append, List.append_assoc, Utf8.encode_append,
    namesWithoutVerbosity_initials h, namesWithoutVerbosity_setting]

theorem following_withoutVerbosity {form : Form} {value : Text} (h : form.Fits value) :
    ((form.following value).map Utf8.encode).filterMap argumentWithoutVerbosity? =
      (form.following value).map Utf8.encode := by
  cases form with
  | equals | direct => rfl
  | next => simp [Form.following, argumentWithoutVerbosity?_plain h]

theorem longName_setting_not_mem (s : Setting) (rest : Text) :
    Utf8.encode ((Choice.setting s).longName ++ rest) ∉ verbosityNames := by
  intro h
  obtain ⟨name, hName, hEncode⟩ := List.mem_map.mp h
  have hText := Utf8.encode_injective hEncode
  have hNames : name = "verbose" ∨ name = "quiet" := by simpa using hName
  rcases hNames with rfl | rfl
  · cases s <;> cases hText
  · cases s <;> cases hText

/-- What is left of a word is spelled by what is left of its arguments. -/
theorem arguments_withoutVerbosity {w : Word} (h : w.Fits) :
    (w.withoutVerbosity.flatMap Word.arguments).map Utf8.encode =
      withoutVerbosity (w.arguments.map Utf8.encode) := by
  cases w with
  | switch s => cases s <;> rfl
  | bundle first others =>
    have hLeft := namesWithoutVerbosity_initials h []
    rw [namesWithoutVerbosity, List.append_nil, List.append_nil] at hLeft
    obtain ⟨c, hc⟩ := Option.isSome_iff_exists.mp (h first List.mem_cons_self)
    rw [List.map_cons, initials_cons hc] at hLeft
    rw [Word.arguments, initials_cons hc, List.map_singleton, withoutVerbosity, List.filterMap_cons,
      argumentWithoutVerbosity?_short (shortName?_ne_dash hc) hLeft, Word.withoutVerbosity]
    have hInitials := haveInitials_withoutVerbosity h
    cases hSwitches : switchesWithoutVerbosity (first :: others) with
    | nil => rfl
    | cons second left =>
      rw [hSwitches] at hInitials
      obtain ⟨d, hd⟩ := Option.isSome_iff_exists.mp (hInitials second List.mem_cons_self)
      rw [List.map_cons, initials_cons hd, if_neg (List.cons_ne_nil d _), ← initials_cons hd]
      rfl
  | long g form =>
    have hName := argumentWithoutVerbosity?_long
      ((Choice.setting g.setting).longName ++ form.behind g.text)
    rw [if_neg (longName_setting_not_mem g.setting _)] at hName
    rw [Word.arguments, List.map_cons, withoutVerbosity, List.filterMap_cons_some hName,
      following_withoutVerbosity h.2]
    simp [Word.withoutVerbosity, Word.arguments]
  | short switches g form =>
    obtain ⟨hInitials, hForm⟩ := h
    have hLeft := namesWithoutVerbosity_short hInitials g.setting (form.behind g.text)
    obtain ⟨c, names, hc, hNames⟩ := exists_initials_cons hInitials g.setting (form.behind g.text)
    obtain ⟨d, left, -, hSome⟩ := exists_initials_cons (haveInitials_withoutVerbosity hInitials)
      g.setting (form.behind g.text)
    rw [hNames, hSome] at hLeft
    have hName := argumentWithoutVerbosity?_short hc hLeft
    rw [if_neg (List.cons_ne_nil d left), ← hSome] at hName
    rw [Word.arguments, hNames, List.map_cons, withoutVerbosity, List.filterMap_cons_some hName,
      following_withoutVerbosity hForm]
    simp [Word.withoutVerbosity, Word.arguments]

theorem withoutVerbosity_append (first second : List Bytes) :
    withoutVerbosity (first ++ second) = withoutVerbosity first ++ withoutVerbosity second := by
  rw [withoutVerbosity, List.filterMap_append, withoutVerbosity, withoutVerbosity]

theorem words_withoutVerbosity {words : List Word} (h : ∀ w ∈ words, w.Fits) :
    ((words.flatMap Word.withoutVerbosity).flatMap Word.arguments).map Utf8.encode =
      withoutVerbosity ((words.flatMap Word.arguments).map Utf8.encode) := by
  induction words with
  | nil => rfl
  | cons w words ih =>
    obtain ⟨hWord, hWords⟩ := List.forall_mem_cons.mp h
    rw [List.flatMap_cons, List.flatMap_append, List.map_append, arguments_withoutVerbosity hWord,
      ih hWords, ← withoutVerbosity_append, ← List.map_append, ← List.flatMap_cons]

theorem spells_withoutVerbosity {arguments : List Bytes} {parts : List Part}
    (h : Spells arguments parts) :
    Spells (withoutVerbosity arguments) (partsWithoutVerbosity parts) := by
  obtain ⟨words, closing, hFits, rfl, hClosing, rfl⟩ := h
  refine ⟨words.flatMap Word.withoutVerbosity, closing, ?_, ?_, hClosing, ?_⟩
  · intro v hv
    obtain ⟨w, hw, hLeft⟩ := List.mem_flatMap.mp hv
    exact fits_of_mem_withoutVerbosity (hFits w hw) hLeft
  · rw [partsWithoutVerbosity, List.filter_flatMap, List.flatMap_assoc]
    congr 1
    funext w
    exact (parts_withoutVerbosity w).symm
  · have hClosed : withoutVerbosity (closing.map Utf8.encode) = closing.map Utf8.encode := by
      rcases hClosing with rfl | rfl
      · rfl
      · rfl
    rw [List.map_append, withoutVerbosity_append, hClosed, ← words_withoutVerbosity hFits,
      ← List.map_append]

theorem filterMap_partsWithoutVerbosity {β : Type} {f : Part → Option β}
    (h : ∀ s, f (.switch s) = none) (parts : List Part) :
    (partsWithoutVerbosity parts).filterMap f = parts.filterMap f := by
  rw [partsWithoutVerbosity, List.filterMap_filter]
  congr 1
  funext part
  cases part with
  | switch s => rw [h, ite_self]
  | given g => rfl

theorem mem_partsWithoutVerbosity {parts : List Part} {s : Switch} (h : ¬s.IsVerbosity) :
    .switch s ∈ partsWithoutVerbosity parts ↔ .switch s ∈ parts := by
  rw [partsWithoutVerbosity, List.mem_filter]
  simp [Part.isVerbosity, h]

theorem not_mem_partsWithoutVerbosity {s : Switch} (h : s.IsVerbosity) (parts : List Part) :
    .switch s ∉ partsWithoutVerbosity parts := by
  simp [partsWithoutVerbosity, Part.isVerbosity, h]

theorem ofParts_withoutVerbosity (parts : List Part) :
    Options.ofParts (partsWithoutVerbosity parts) =
      { Options.ofParts parts with level := .warn } := by
  have hVerbose := not_mem_partsWithoutVerbosity (s := .verbose) (by decide) parts
  have hQuiet := not_mem_partsWithoutVerbosity (s := .quiet) (by decide) parts
  simp only [Options.ofParts, inputs, outputs, assignments, if_neg hVerbose, if_neg hQuiet,
    filterMap_partsWithoutVerbosity (f := Part.input?) (fun _ => rfl),
    filterMap_partsWithoutVerbosity (f := Part.output?) (fun _ => rfl),
    filterMap_partsWithoutVerbosity (f := Part.assignment?) (fun _ => rfl),
    mem_partsWithoutVerbosity (s := .noEnvironment) (by decide),
    mem_partsWithoutVerbosity (s := .list) (by decide),
    mem_partsWithoutVerbosity (s := .keepMissing) (by decide),
    mem_partsWithoutVerbosity (s := .noEscapes) (by decide)]

theorem unrepeated_withoutVerbosity {parts : List Part} (h : Unrepeated parts) :
    Unrepeated (partsWithoutVerbosity parts) where
  switches := (List.filter_sublist.filterMap Part.switch?).nodup h.switches
  inputs := by
    rw [inputs, filterMap_partsWithoutVerbosity fun _ => rfl]
    exact h.inputs
  outputs := by
    rw [outputs, filterMap_partsWithoutVerbosity fun _ => rfl]
    exact h.outputs

/-- Where arguments are accepted, what is left of them says the same but for the level. -/
theorem parse_withoutVerbosity {arguments : List Bytes} {o : Options}
    (h : Options.parse arguments = .ok o) :
    Options.parse (withoutVerbosity arguments) = .ok { o with level := .warn } := by
  obtain ⟨parts, hAccepted, rfl⟩ := parse_eq_ok_iff.mp h
  refine parse_eq_ok_iff.mpr ⟨partsWithoutVerbosity parts, ?_, (ofParts_withoutVerbosity parts).symm⟩
  exact
    { spelled := spells_withoutVerbosity hAccepted.spelled
      unrepeated := unrepeated_withoutVerbosity hAccepted.unrepeated
      compatible := fun hBoth => not_mem_partsWithoutVerbosity (.inl rfl) parts hBoth.1 }

end Interpolation.Command
