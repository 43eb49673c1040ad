import Interpolation.Proofs.Spelling

/-!
# Arguments fall into words

Arguments that are read to their end without a refusal are spelled by words, and two dashes at most
stand behind the last one. Each argument that is read is traced back to the word that it begins.
-/

namespace Interpolation

namespace Utf8

theorem encode_wellFormedPart (bs : Bytes) :
    encode (wellFormedPart bs).1 ++ (wellFormedPart bs).2 = bs := by
  fun_induction wellFormedPart bs with
  | case1 => rfl
  | case2 b bs n hNone => rfl
  | case3 b bs n t hText text rest hRest ih =>
    rw [hRest] at ih
    rw [encode_append, List.append_assoc, ih, encode_of_decode? hText,
      List.take_append_drop]

theorem encode_splitText (bs : Bytes) :
    encode (splitText bs).1 ++ (splitText bs).2 = bs := by
  rw [splitText]
  split
  · rename_i t hText
    rw [List.append_nil, encode_of_decode? hText]
  · exact encode_wellFormedPart bs

end Utf8

namespace Command

namespace Choice

theorem longName_of_ofLongName? {name : Text} {choice : Choice}
    (h : ofLongName? name = some choice) : choice.longName = name := by
  simpa using List.find?_some h

theorem shortName?_of_ofShortName? {c : Char} {choice : Choice}
    (h : ofShortName? c = some choice) : choice.shortName? = some c := by
  simpa using List.find?_some h

end Choice

namespace Draft

theorem exists_settled_of_choose {d e : Draft} {choice : Choice} {value : Option Bytes}
    (h : d.choose choice value = .ok e) :
    ∃ d₀, d.settle = .ok d₀ ∧ d₀.choose choice value = .ok e := by
  have hBind : ∀ {f : Draft → Except Stop Draft}, d.settle >>= f = .ok e →
      ∃ d₀, d.settle = .ok d₀ ∧ d₀.settle >>= f = .ok e := by
    intro f hf
    obtain ⟨d₀, hSettled, hf⟩ := exists_of_bind_eq_ok hf
    have hSame : d₀.settle = .ok d₀ := settle_of_waiting (waiting_of_settle hSettled)
    exact ⟨d₀, hSettled, (bind_of_ok hSame f).trans hf⟩
  cases choice with
  | switch s =>
    cases value with
    | none => exact hBind h
    | some value => cases h
  | setting s =>
    cases value with
    | none => exact hBind h
    | some value => exact hBind h
  | help =>
    cases value with
    | none => exact hBind h
    | some value => cases h
  | version =>
    cases value with
    | none => exact hBind h
    | some value => cases h

theorem exists_settled_of_readLong {d e : Draft} {body : Bytes} (h : d.readLong body = .ok e) :
    ∃ d₀, d.settle = .ok d₀ ∧ d₀.readLong body = .ok e := by
  rw [readLong] at h
  simp only [readLong]
  split at h
  · exact exists_settled_of_choose h
  · cases h

theorem exists_settled_of_readShort {d e : Draft} {names : Text} {rest : Bytes}
    (hNonempty : Utf8.encode names ++ rest ≠ []) (h : d.readShort names rest = .ok e) :
    ∃ d₀, d.settle = .ok d₀ ∧ d₀.readShort names rest = .ok e := by
  cases names with
  | nil =>
    cases rest with
    | nil => exact absurd rfl hNonempty
    | cons b rest => cases h
  | cons c names =>
    rw [readShort] at h
    simp only [readShort]
    split at h
    · cases h
    · exact exists_settled_of_choose h
    · obtain ⟨d₁, hChoice, hNames⟩ := exists_of_bind_eq_ok h
      obtain ⟨d₀, hSettled, hChoice⟩ := exists_settled_of_choose hChoice
      exact ⟨d₀, hSettled, (bind_of_ok hChoice _).trans hNames⟩

theorem encode_splitText_ne_nil (b : UInt8) (bs : Bytes) :
    Utf8.encode (Utf8.splitText (b :: bs)).1 ++ (Utf8.splitText (b :: bs)).2 ≠ [] := by
  rw [Utf8.encode_splitText]
  exact List.cons_ne_nil b bs

theorem exists_settled_of_readArgument {d e : Draft} (hKept : ∀ s, d.waiting ≠ some (s, none))
    {argument : Bytes} (h : d.readArgument argument = .ok e) :
    ∃ d₀, d.settle = .ok d₀ ∧ d₀.readArgument argument = .ok e := by
  have hPlain : ∀ argument, d.readPlain argument ≠ .ok e := by
    intro argument
    rw [readPlain]
    split
    · rename_i s hWaiting
      exact absurd hWaiting (hKept s)
    · simp [refuse]
  rw [readArgument.eq_def] at h
  simp only [readArgument.eq_def]
  split at h
  · rename_i first second body
    split at h
    · exact absurd h (hPlain _)
    · rename_i hFirst
      simp only [if_neg hFirst]
      split at h
      · rename_i hSecond
        simp only [if_pos hSecond]
        exact exists_settled_of_readLong h
      · rename_i hSecond
        simp only [if_neg hSecond]
        exact exists_settled_of_readShort (encode_splitText_ne_nil second body) h
  · exact absurd h (hPlain _)

theorem eq_encode_of_decode {value : Bytes} {t : Text} (h : decode value = .ok t) :
    value = Utf8.encode t := by
  rw [decode] at h
  split at h
  · rename_i text hText
    rw [← Except.ok.inj h]
    exact Utf8.decode?_eq_some_iff.mp hText
  · cases h

/-- A value that is assigned is the text of a setting. -/
theorem exists_given_of_assign {d e : Draft} {s : Setting} {value : Bytes}
    (h : d.assign s value = .ok e) :
    ∃ g : Given, g.setting = s ∧ value = Utf8.encode g.text ∧ d.take (.given g) = .ok e := by
  suffices hText : ∃ g : Given, g.setting = s ∧ value = Utf8.encode g.text by
    obtain ⟨g, rfl, rfl⟩ := hText
    exact ⟨g, rfl, rfl, h⟩
  cases s with
  | input =>
    rw [assign] at h
    split at h
    · cases h
    · obtain ⟨t, ht, -⟩ := exists_of_bind_eq_ok h
      exact ⟨.input t, rfl, eq_encode_of_decode ht⟩
  | output =>
    rw [assign] at h
    split at h
    · cases h
    · obtain ⟨t, ht, -⟩ := exists_of_bind_eq_ok h
      exact ⟨.output t, rfl, eq_encode_of_decode ht⟩
  | assignment =>
    rw [assign] at h
    obtain ⟨t, ht, h⟩ := exists_of_bind_eq_ok h
    split at h
    · rename_i a hParse
      obtain ⟨rfl, hValid⟩ := Assignment.parse_eq_ok_iff.mp hParse
      exact ⟨.assignment a hValid, rfl, eq_encode_of_decode ht⟩
    · cases h

theorem cases_choose {d e : Draft} (hWaiting : d.waiting = none) {choice : Choice}
    {value : Option Bytes} (h : d.choose choice value = .ok e) :
    (∃ s, choice = .switch s ∧ value = none ∧ d.take (.switch s) = .ok e) ∨
      (∃ s, choice = .setting s ∧ value = none ∧ e = d.keep s none) ∨
      ∃ g : Given, choice = .setting g.setting ∧ value = some (Utf8.encode g.text) ∧
        d.take (.given g) = .ok e := by
  have hSettled := settle_of_waiting hWaiting
  cases choice with
  | switch s =>
    cases value with
    | none => exact .inl ⟨s, rfl, rfl, (choose_switch hSettled s).symm.trans h⟩
    | some value => cases h
  | setting s =>
    cases value with
    | none =>
      rw [choose_setting hSettled] at h
      exact .inr (.inl ⟨s, rfl, rfl, (Except.ok.inj h).symm⟩)
    | some value =>
      have hAssign : d.assign s value = .ok e := (bind_of_ok hSettled _).symm.trans h
      obtain ⟨g, rfl, rfl, hTaken⟩ := exists_given_of_assign hAssign
      exact .inr (.inr ⟨g, rfl, rfl, hTaken⟩)
  | help =>
    cases value with
    | none => cases (bind_of_ok hSettled _).symm.trans h
    | some value => cases h
  | version =>
    cases value with
    | none => cases (bind_of_ok hSettled _).symm.trans h
    | some value => cases h

/-- A long name, and the value that an equals sign parts from it. -/
theorem exists_choice_of_readLong {d e : Draft} {body : Bytes} (h : d.readLong body = .ok e) :
    ∃ (choice : Choice) (value : Option Bytes),
      body = Utf8.encode choice.longName ++ (value.map (equalsSign :: ·)).getD [] ∧
        d.choose choice value = .ok e := by
  rw [readLong] at h
  split at h
  · rename_i choice hChoice
    obtain ⟨name, hName, hChoice⟩ := Option.bind_eq_some_iff.mp hChoice
    rw [Utf8.decode?_eq_some_iff, ← Choice.longName_of_ofLongName? hChoice] at hName
    cases hDrop : body.dropWhile (· ≠ equalsSign) with
    | nil =>
      rw [hDrop] at h
      rw [Mark.takeWhile_of_dropWhile_nil hDrop] at hName
      exact ⟨choice, none, by simpa using hName, h⟩
    | cons mark value =>
      rw [hDrop] at h
      refine ⟨choice, some value, ?_, h⟩
      rw [← hName]
      exact Mark.eq_append_of_dropWhile hDrop
  · cases h

theorem cases_readLong {d e : Draft} (hWaiting : d.waiting = none) {body : Bytes}
    (h : d.readLong body = .ok e) :
    (∃ s, body = Utf8.encode (Choice.switch s).longName ∧ d.take (.switch s) = .ok e) ∨
      (∃ s, body = Utf8.encode (Choice.setting s).longName ∧ e = d.keep s none) ∨
      ∃ g : Given, body = Utf8.encode ((Choice.setting g.setting).longName ++ '=' :: g.text) ∧
        d.take (.given g) = .ok e := by
  obtain ⟨choice, value, hBody, hChosen⟩ := exists_choice_of_readLong h
  rcases cases_choose hWaiting hChosen with ⟨s, rfl, rfl, hTaken⟩ | ⟨s, rfl, rfl, rfl⟩ |
    ⟨g, rfl, rfl, hTaken⟩
  · exact .inl ⟨s, by simpa using hBody, hTaken⟩
  · exact .inr (.inl ⟨s, by simpa using hBody, rfl⟩)
  · refine .inr (.inr ⟨g, ?_, hTaken⟩)
    rw [hBody]
    exact (Utf8.encode_append_cons (a := '=') (by decide) _ _).symm

/-- A value that stands directly behind a short name has one of the two forms. -/
theorem exists_form_of_attached {value : Bytes} (hValue : value ≠ []) {text : Text}
    (h : attached value = Utf8.encode text) :
    ∃ form : Form, form ≠ .next ∧ form.Fits text ∧ value = Utf8.encode (form.behind text) := by
  cases value with
  | nil => exact absurd rfl hValue
  | cons b rest =>
    rw [attached] at h
    split at h
    · rename_i hEquals
      refine ⟨.equals, by simp, trivial, ?_⟩
      rw [hEquals, h]
      exact (encode_cons_of_lt (c := '=') (by decide) text).symm
    · rename_i hEquals
      refine ⟨.direct, by simp, ⟨?_, ?_⟩, h⟩
      · rintro rfl
        cases h
      · intro hHead
        cases text with
        | nil => cases hHead
        | cons c text =>
          obtain rfl : c = '=' := Option.some.inj hHead
          rw [encode_cons_of_lt (by decide)] at h
          exact hEquals (List.cons.inj h).1

/-- How short names end behind those of some switches: with the last of these, with a setting that
waits for its value, or with a setting that has its value behind it. -/
inductive NamesEnd (d : Draft) (switches : List Switch) : Bytes → Draft → Prop where
  | switch : NamesEnd d switches (Utf8.encode (initials (switches.map .switch))) d
  | waiting (s : Setting) :
    NamesEnd d switches (Utf8.encode (initials (switches.map .switch ++ [.setting s]))) (d.keep s none)
  | given (g : Given) {form : Form} (hForm : form ≠ .next) (hFits : form.Fits g.text) {e : Draft}
    (h : d.take (.given g) = .ok e) :
    NamesEnd d switches (Utf8.encode
      (initials (switches.map .switch ++ [.setting g.setting]) ++ form.behind g.text)) e

theorem namesEnd_cons {d e : Draft} {switches : List Switch} {octets : Bytes}
    (h : NamesEnd d switches octets e) {s : Switch} {c : Char}
    (hc : (Choice.switch s).shortName? = some c) :
    NamesEnd d (s :: switches) (String.utf8EncodeChar c ++ octets) e := by
  cases h with
  | switch =>
    rw [← Utf8.encode_cons, ← initials_cons hc]
    exact .switch
  | waiting t =>
    rw [← Utf8.encode_cons, ← initials_cons hc]
    exact .waiting t
  | given g hForm hFits hTaken =>
    rw [← Utf8.encode_cons, ← List.cons_append, ← initials_cons hc]
    exact .given g hForm hFits hTaken

theorem namesEnd_of_setting {d e : Draft} (hWaiting : d.waiting = none) {s : Setting} {c : Char}
    (hc : (Choice.setting s).shortName? = some c) {value : Bytes}
    (h : d.choose (.setting s) (if value.isEmpty then none else some (attached value)) = .ok e) :
    NamesEnd d [] (String.utf8EncodeChar c ++ value) e := by
  have hName : initials ([].map .switch ++ [.setting s]) = [c] := initials_cons hc []
  rcases cases_choose hWaiting h with ⟨_, hSetting, -⟩ | ⟨t, hSetting, hValue, rfl⟩ |
    ⟨g, hSetting, hValue, hTaken⟩
  · cases hSetting
  · cases hSetting
    split at hValue
    · rename_i hEmpty
      rw [List.isEmpty_iff.mp hEmpty, ← Utf8.encode_nil, ← Utf8.encode_cons, ← hName]
      exact .waiting s
    · cases hValue
  · cases hSetting
    split at hValue
    · cases hValue
    · rename_i hEmpty
      obtain ⟨form, hForm, hFits, rfl⟩ := exists_form_of_attached
        (fun hNil => hEmpty (List.isEmpty_iff.mpr hNil)) (Option.some.inj hValue)
      rw [← Utf8.encode_cons, ← List.singleton_append, ← hName]
      exact .given g hForm hFits hTaken

/-- Short names are those of some switches, and an end. -/
theorem exists_namesEnd_of_readShort {d e : Draft} (hWaiting : d.waiting = none) {names : Text}
    {rest : Bytes} (h : d.readShort names rest = .ok e) :
    ∃ (switches : List Switch) (d₁ : Draft), Word.HaveInitials switches ∧
      d.takeAll (switches.map .switch) = .ok d₁ ∧
      NamesEnd d₁ switches (Utf8.encode names ++ rest) e := by
  induction names generalizing d with
  | nil =>
    cases rest with
    | nil =>
      cases h
      exact ⟨[], e, by simp [Word.HaveInitials], rfl, .switch⟩
    | cons b rest => cases h
  | cons c names ih =>
    rw [Utf8.encode_cons, List.append_assoc]
    rw [readShort] at h
    split at h
    · cases h
    · rename_i s hChoice
      exact ⟨[], d, by simp [Word.HaveInitials], rfl,
        namesEnd_of_setting hWaiting (Choice.shortName?_of_ofShortName? hChoice) h⟩
    · rename_i choice hSetting hChoice
      obtain ⟨d₂, hTaken, hNames⟩ := exists_of_bind_eq_ok h
      rcases cases_choose hWaiting hTaken with ⟨s, rfl, -, hTaken⟩ | ⟨s, rfl, -, -⟩ | ⟨g, rfl, -, -⟩
      · have hName := Choice.shortName?_of_ofShortName? hChoice
        obtain ⟨switches, d₁, hInitials, hSwitches, hEnd⟩ :=
          ih ((waiting_of_take hTaken).trans hWaiting) hNames
        refine ⟨s :: switches, d₁, ?_, ?_, namesEnd_cons hEnd hName⟩
        · intro t ht
          rcases List.mem_cons.mp ht with rfl | ht
          · exact Option.isSome_iff_exists.mpr ⟨c, hName⟩
          · exact hInitials t ht
        · rw [List.map_cons, takeAll, bind_of_ok hTaken, hSwitches]
      · exact (hSetting s rfl).elim
      · exact (hSetting g.setting rfl).elim

/-- An argument is a whole word, or a word but for the value that is to follow. -/
inductive Begins (d : Draft) (argument : Bytes) : Draft → Prop where
  | whole {w : Word} {e : Draft} (hFits : w.Fits)
    (hWord : w.arguments.map Utf8.encode = [argument]) (hTaken : d.takeAll w.parts = .ok e) :
    Begins d argument e
  | waiting {s : Setting} {d₁ : Draft} (hWaiting : d₁.waiting = none)
    (hWord : ∀ g : Given, g.setting = s → Form.next.Fits g.text →
      ∃ w : Word, w.Fits ∧ w.arguments.map Utf8.encode = [argument, Utf8.encode g.text] ∧
        d.takeAll w.parts = d₁.take (.given g)) :
    Begins d argument (d₁.keep s none)

theorem begins_of_readLong {d e : Draft} (hWaiting : d.waiting = none) {body : Bytes}
    (h : d.readLong body = .ok e) : d.Begins (dash :: dash :: body) e := by
  have hDashes : ∀ t, Utf8.encode ('-' :: '-' :: t) = dash :: dash :: Utf8.encode t := by
    intro t
    rw [encode_cons_of_lt (by decide), encode_cons_of_lt (by decide)]
    rfl
  rcases cases_readLong hWaiting h with ⟨s, rfl, hTaken⟩ | ⟨s, rfl, rfl⟩ | ⟨g, rfl, hTaken⟩
  · refine .whole (w := .switch s) trivial ?_ (by rwa [Word.parts, takeAll_singleton])
    simp [Word.arguments, hDashes]
  · refine .waiting hWaiting ?_
    rintro g rfl hFits
    refine ⟨.long g .next, ⟨by simp, hFits⟩, ?_, by rw [Word.parts, takeAll_singleton]⟩
    simp [Word.arguments, Form.behind, Form.following, hDashes]
  · refine .whole (w := .long g .equals) ⟨by simp, trivial⟩ ?_
      (by rwa [Word.parts, takeAll_singleton])
    simp [Word.arguments, Form.behind, Form.following, hDashes]

theorem begins_of_namesEnd {d d₁ e : Draft} (hWaiting : d₁.waiting = none) {switches : List Switch}
    (hInitials : Word.HaveInitials switches) (hSwitches : d.takeAll (switches.map .switch) = .ok d₁)
    {octets : Bytes} (hNonempty : octets ≠ []) (h : NamesEnd d₁ switches octets e) :
    d.Begins (dash :: octets) e := by
  have hDash : ∀ names, Utf8.encode ('-' :: names) = dash :: Utf8.encode names :=
    fun names => encode_cons_of_lt (by decide) names
  have hParts : ∀ part, d.takeAll (switches.map .switch ++ [part]) = d₁.take part := by
    intro part
    rw [takeAll_append, bind_of_ok hSwitches, takeAll_singleton]
  cases h with
  | switch =>
    cases switches with
    | nil => exact absurd rfl hNonempty
    | cons first others =>
      refine .whole (w := .bundle first others) hInitials ?_ hSwitches
      rw [Word.arguments, List.map_singleton, hDash]
      rfl
  | waiting s =>
    refine .waiting hWaiting ?_
    rintro g rfl hFits
    refine ⟨.short switches g .next, ⟨hInitials, hFits⟩, ?_, hParts _⟩
    rw [Word.arguments, Form.behind, List.append_nil, List.map_cons, hDash]
    rfl
  | @given g form hForm hFits e hTaken =>
    refine .whole (w := .short switches g form) ⟨hInitials, hFits⟩ ?_ ((hParts _).trans hTaken)
    have hFollowing : form.following g.text = [] := by
      cases form with
      | next => exact absurd rfl hForm
      | equals | direct => rfl
    rw [Word.arguments, hFollowing, List.map_singleton, hDash]

theorem begins_of_readArgument {d e : Draft} (hWaiting : d.waiting = none) {argument : Bytes}
    (h : d.readArgument argument = .ok e) : d.Begins argument e := by
  have hPlain : ∀ argument, d.readPlain argument ≠ .ok e := by
    intro argument
    rw [readPlain, hWaiting]
    simp [refuse]
  rw [readArgument.eq_def] at h
  split at h
  · rename_i first second body
    split at h
    · exact absurd h (hPlain _)
    · rename_i hFirst
      obtain rfl : first = dash := not_not.mp hFirst
      split at h
      · rename_i hSecond
        rw [hSecond]
        exact begins_of_readLong hWaiting h
      · have hRead : d.readShort (Utf8.splitText (second :: body)).1
            (Utf8.splitText (second :: body)).2 = .ok e := h
        obtain ⟨switches, d₁, hInitials, hSwitches, hEnd⟩ := exists_namesEnd_of_readShort hWaiting hRead
        rw [Utf8.encode_splitText] at hEnd
        exact begins_of_namesEnd ((waiting_of_takeAll hSwitches).trans hWaiting) hInitials hSwitches
          (List.cons_ne_nil second body) hEnd
  · exact absurd h (hPlain _)

/-- Reading the arguments to their end and settling what is kept leads to the draft. -/
def Reaches (d : Draft) (arguments : List Bytes) (e : Draft) : Prop :=
  ∃ d', d.read arguments = .ok d' ∧ d'.settle = .ok e

theorem cases_reaches {d e : Draft} {argument : Bytes} {arguments : List Bytes}
    (h : d.Reaches (argument :: arguments) e) :
    (argument = [dash, dash] ∧ arguments = [] ∧ d.settle = .ok e) ∨
      argument ≠ [dash, dash] ∧
        ∃ d₁, d.readArgument argument = .ok d₁ ∧ d₁.Reaches arguments e := by
  obtain ⟨d', hRead, hSettled⟩ := h
  rw [Draft.read.eq_def] at hRead
  dsimp only at hRead
  split at hRead
  · rename_i hDashes
    cases arguments with
    | nil =>
      cases hRead
      exact .inl ⟨hDashes, rfl, hSettled⟩
    | cons next arguments => cases hRead
  · rename_i hDashes
    obtain ⟨d₁, hArgument, hArguments⟩ := exists_of_bind_eq_ok hRead
    exact .inr ⟨hDashes, d₁, hArgument, d', hArguments, hSettled⟩

/-- A value that is kept is checked before anything else takes effect. -/
theorem exists_settled_of_reaches {d e : Draft} (hKept : ∀ s, d.waiting ≠ some (s, none))
    {arguments : List Bytes} (h : d.Reaches arguments e) :
    ∃ d₀, d.settle = .ok d₀ ∧ d₀.Reaches arguments e := by
  have hSame : ∀ {d₀ : Draft}, d.settle = .ok d₀ → d₀.settle = .ok d₀ :=
    fun hSettled => settle_of_waiting (waiting_of_settle hSettled)
  cases arguments with
  | nil =>
    obtain ⟨d', hRead, hSettled⟩ := h
    cases hRead
    exact ⟨e, hSettled, e, rfl, hSame hSettled⟩
  | cons argument arguments =>
    rcases cases_reaches h with ⟨rfl, rfl, hSettled⟩ |
      ⟨hDashes, d₁, hArgument, d', hRead, hSettled⟩
    · exact ⟨e, hSettled, e, rfl, hSame hSettled⟩
    · obtain ⟨d₀, hSettled₀, hArgument⟩ := exists_settled_of_readArgument hKept hArgument
      exact ⟨d₀, hSettled₀, d', (read_cons hDashes hArgument arguments).trans hRead, hSettled⟩

theorem settle_keep_none (d : Draft) (s : Setting) (e : Draft) : (d.keep s none).settle ≠ .ok e := by
  change refuse (.valueMissing s) ≠ .ok e
  simp [refuse]

/-- While a value is waited for, only an argument that can be one is read. -/
theorem eq_keep_of_readArgument {d e : Draft} {s : Setting} {argument : Bytes}
    (h : (d.keep s none).readArgument argument = .ok e) :
    e = d.keep s (some argument) ∧ ∀ body, argument = dash :: body → body = [] := by
  have hUnsettled : ∀ {d₀}, (d.keep s none).settle ≠ .ok d₀ := settle_keep_none d s _
  have hPlain : ∀ {argument}, (d.keep s none).readPlain argument = .ok e →
      e = d.keep s (some argument) := fun h => (Except.ok.inj h).symm
  rw [readArgument.eq_def] at h
  split at h
  · rename_i first second body
    split at h
    · rename_i hFirst
      exact ⟨hPlain h, fun _ hBody => absurd (List.cons.inj hBody).1 hFirst⟩
    · split at h
      · obtain ⟨d₀, hSettled, -⟩ := exists_settled_of_readLong h
        exact absurd hSettled hUnsettled
      · obtain ⟨d₀, hSettled, -⟩ := exists_settled_of_readShort (encode_splitText_ne_nil second body) h
        exact absurd hSettled hUnsettled
  · rename_i hShort
    refine ⟨hPlain h, fun body hBody => ?_⟩
    cases body with
    | nil => rfl
    | cons second body => exact (hShort _ _ _ hBody).elim

theorem fits_next_of_encode {text : Text} (h : ∀ body, Utf8.encode text = dash :: body → body = []) :
    Form.next.Fits text := by
  rcases Classical.em (text.head? = some '-') with hHead | hHead
  · cases text with
    | nil => cases hHead
    | cons c text =>
      obtain rfl : c = '-' := Option.some.inj hHead
      have hNil : Utf8.encode text = Utf8.encode [] := h _ (encode_cons_of_lt (by decide) text)
      rw [Utf8.encode_injective hNil]
      exact .inl rfl
  · exact .inr hHead

/-- The next argument must be the value that is waited for. -/
theorem exists_given_of_reaches {d e : Draft} (hWaiting : d.waiting = none) {s : Setting}
    {arguments : List Bytes} (h : (d.keep s none).Reaches arguments e) :
    ∃ (g : Given) (rest : List Bytes) (d₁ : Draft), g.setting = s ∧ Form.next.Fits g.text ∧
      arguments = Utf8.encode g.text :: rest ∧ d.take (.given g) = .ok d₁ ∧ d₁.Reaches rest e := by
  cases arguments with
  | nil =>
    obtain ⟨d', hRead, hDone⟩ := h
    cases hRead
    exact absurd hDone (settle_keep_none d s e)
  | cons argument rest =>
    rcases cases_reaches h with ⟨-, -, hDone⟩ | ⟨-, d₂, hArgument, hRest⟩
    · exact absurd hDone (settle_keep_none d s e)
    · obtain ⟨rfl, hBody⟩ := eq_keep_of_readArgument hArgument
      obtain ⟨d₁, hSettled, hReaches⟩ := exists_settled_of_reaches (by simp [keep]) hRest
      rw [settle_keep hWaiting] at hSettled
      obtain ⟨g, hSetting, rfl, hTaken⟩ := exists_given_of_assign hSettled
      exact ⟨g, rest, d₁, hSetting, fits_next_of_encode hBody, rfl, hTaken, hReaches⟩

/-- The first word is one argument or, if its value follows, two. -/
theorem exists_word {d d₁ e : Draft} (hWaiting : d.waiting = none) {argument : Bytes}
    {arguments : List Bytes} (hArgument : d.readArgument argument = .ok d₁)
    (h : d₁.Reaches arguments e) :
    ∃ (w : Word) (rest : List Bytes) (d₂ : Draft), w.Fits ∧
      argument :: arguments = w.arguments.map Utf8.encode ++ rest ∧
      rest.length ≤ arguments.length ∧ d.takeAll w.parts = .ok d₂ ∧ d₂.Reaches rest e := by
  cases begins_of_readArgument hWaiting hArgument with
  | @whole w _ hFits hWord hTaken =>
    exact ⟨w, arguments, d₁, hFits, by rw [hWord]; rfl, Nat.le_refl _, hTaken, h⟩
  | @waiting s d₀ hWaiting₀ hWord =>
    obtain ⟨g, rest, d₂, hSetting, hFits, rfl, hTaken, hRest⟩ := exists_given_of_reaches hWaiting₀ h
    obtain ⟨w, hFits, hWord, hParts⟩ := hWord g hSetting hFits
    exact ⟨w, rest, d₂, hFits, by rw [hWord]; rfl, Nat.le_succ _, hParts.trans hTaken, hRest⟩

theorem exists_words {d e : Draft} (hWaiting : d.waiting = none) {arguments : List Bytes}
    (h : d.Reaches arguments e) :
    ∃ (words : List Word) (closing : List Text), (∀ w ∈ words, w.Fits) ∧
      d.takeAll (words.flatMap Word.parts) = .ok e ∧ (closing = [] ∨ closing = [['-', '-']]) ∧
      arguments = (words.flatMap Word.arguments ++ closing).map Utf8.encode := by
  induction hLength : arguments.length using Nat.strongRecOn generalizing d arguments with
  | ind length ih =>
    have hSettled := settle_of_waiting hWaiting
    cases arguments with
    | nil =>
      obtain ⟨d', hRead, hDone⟩ := h
      cases hRead
      exact ⟨[], [], by simp, hSettled.symm.trans hDone, .inl rfl, rfl⟩
    | cons argument arguments =>
      rcases cases_reaches h with ⟨rfl, rfl, hDone⟩ | ⟨-, d₁, hArgument, hRest⟩
      · exact ⟨[], [['-', '-']], by simp, hSettled.symm.trans hDone, .inr rfl, rfl⟩
      · obtain ⟨w, rest, d₂, hFits, hArguments, hLess, hTaken, hRest⟩ :=
          exists_word hWaiting hArgument hRest
        obtain ⟨words, closing, hWords, hAll, hClosing, rfl⟩ :=
          ih rest.length (by rw [← hLength, List.length_cons]; omega)
            ((waiting_of_takeAll hTaken).trans hWaiting) hRest rfl
        refine ⟨w :: words, closing, ?_, ?_, hClosing, ?_⟩
        · intro v hv
          rcases List.mem_cons.mp hv with rfl | hv
          · exact hFits
          · exact hWords v hv
        · rw [List.flatMap_cons, takeAll_append, bind_of_ok hTaken, hAll]
        · rw [hArguments, ← List.map_append, List.flatMap_cons, List.append_assoc]

end Draft

end Command

end Interpolation
