import Interpolation.Command.Options
import Interpolation.Proofs.Assignments
import Interpolation.Proofs.Octets

/-!
# Command lines as words

A command line consists of parts, which are switches and settings with their values. Its words spell
them: a switch by its long name, several switches by their short names in one argument, and a setting
by its long name or behind short names. The value stands behind an equals sign, directly behind a
short name, or in the next argument. `leads_words` says that the arguments which words spell have the
effect of the parts, one after the other.
-/

namespace Interpolation.Command

/-- A setting with its value. -/
inductive Given where
  | input (path : Text)
  | output (path : Text)
  | assignment (a : Assignment) (valid : a.Valid)
  deriving DecidableEq

namespace Given

def setting : Given → Setting
  | .input _ => .input
  | .output _ => .output
  | .assignment _ _ => .assignment

def text : Given → Text
  | .input path => path
  | .output path => path
  | .assignment a _ => a.write

end Given

inductive Part where
  | switch (s : Switch)
  | given (g : Given)
  deriving DecidableEq

/-- Where the value of a setting stands: behind an equals sign, directly behind the name, or in the
next argument. -/
inductive Form where
  | equals
  | direct
  | next
  deriving DecidableEq

namespace Form

def behind (form : Form) (value : Text) : Text :=
  match form with
  | .equals => '=' :: value
  | .direct => value
  | .next => []

def following (form : Form) (value : Text) : List Text :=
  match form with
  | .next => [value]
  | .equals | .direct => []

/-- The values that a form can hold: an equals sign would be taken as the other form, no value as one
that follows, and a dash in front as the next word. -/
def Fits (form : Form) (value : Text) : Prop :=
  match form with
  | .equals => True
  | .direct => value ≠ [] ∧ value.head? ≠ some '='
  | .next => value = ['-'] ∨ value.head? ≠ some '-'

instance (form : Form) (value : Text) : Decidable (form.Fits value) :=
  match form with
  | .equals => inferInstanceAs (Decidable True)
  | .direct => inferInstanceAs (Decidable (value ≠ [] ∧ value.head? ≠ some '='))
  | .next => inferInstanceAs (Decidable (value = ['-'] ∨ value.head? ≠ some '-'))

end Form

inductive Word where
  | switch (s : Switch)
  | bundle (first : Switch) (others : List Switch)
  | long (g : Given) (form : Form)
  | short (switches : List Switch) (g : Given) (form : Form)

/-- The short names of choices, in their order. -/
def initials (choices : List Choice) : Text :=
  choices.filterMap Choice.shortName?

theorem initials_cons {choice : Choice} {c : Char} (h : choice.shortName? = some c)
    (choices : List Choice) : initials (choice :: choices) = c :: initials choices := by
  rw [initials, List.filterMap_cons, h]
  rfl

theorem initials_append (first second : List Choice) :
    initials (first ++ second) = initials first ++ initials second := by
  rw [initials, List.filterMap_append, initials, initials]

namespace Word

def parts : Word → List Part
  | .switch s => [.switch s]
  | .bundle first others => .switch first :: others.map .switch
  | .long g _ => [.given g]
  | .short switches g _ => switches.map .switch ++ [.given g]

def arguments : Word → List Text
  | .switch s => ['-' :: '-' :: (Choice.switch s).longName]
  | .bundle first others => ['-' :: initials (.switch first :: others.map .switch)]
  | .long g form =>
    ('-' :: '-' :: ((Choice.setting g.setting).longName ++ form.behind g.text)) ::
      form.following g.text
  | .short switches g form =>
    ('-' :: (initials (switches.map .switch ++ [.setting g.setting]) ++ form.behind g.text)) ::
      form.following g.text

def HaveInitials (switches : List Switch) : Prop :=
  ∀ s ∈ switches, ((Choice.switch s).shortName?).isSome

def Fits : Word → Prop
  | .switch _ => True
  | .bundle first others => HaveInitials (first :: others)
  | .long g form => form ≠ .direct ∧ form.Fits g.text
  | .short switches g form => HaveInitials switches ∧ form.Fits g.text

instance (switches : List Switch) : Decidable (HaveInitials switches) :=
  inferInstanceAs (Decidable (∀ s ∈ switches, ((Choice.switch s).shortName?).isSome))

instance (w : Word) : Decidable w.Fits :=
  match w with
  | .switch _ => inferInstanceAs (Decidable True)
  | .bundle first others => inferInstanceAs (Decidable (HaveInitials (first :: others)))
  | .long g form => inferInstanceAs (Decidable (form ≠ .direct ∧ form.Fits g.text))
  | .short switches g form =>
    inferInstanceAs (Decidable (HaveInitials switches ∧ form.Fits g.text))

end Word

theorem exists_of_bind_eq_ok {ε α β : Type} {r : Except ε α} {f : α → Except ε β} {b : β}
    (h : (r >>= f) = .ok b) : ∃ a, r = .ok a ∧ f a = .ok b := by
  cases r with
  | error e => cases h
  | ok a => exact ⟨a, rfl, h⟩

theorem bind_of_ok {ε α β : Type} {r : Except ε α} {a : α} (h : r = .ok a)
    (f : α → Except ε β) : (r >>= f) = f a := by
  rw [h]
  rfl

namespace Draft

def take (d : Draft) : Part → Except Stop Draft
  | .switch s =>
    if s ∈ d.switches then refuse (.repeated (.switch s))
    else .ok { d with switches := d.switches ++ [s] }
  | .given g => d.assign g.setting (Utf8.encode g.text)

def takeAll (d : Draft) : List Part → Except Stop Draft
  | [] => .ok d
  | part :: parts => do
    let d ← d.take part
    d.takeAll parts

@[simp] theorem takeAll_singleton (d : Draft) (part : Part) : d.takeAll [part] = d.take part := by
  rw [takeAll]
  cases d.take part <;> rfl

theorem takeAll_append (d : Draft) (first second : List Part) :
    d.takeAll (first ++ second) = d.takeAll first >>= fun d => d.takeAll second := by
  induction first generalizing d with
  | nil => rfl
  | cons part first ih =>
    rw [List.cons_append, takeAll, takeAll]
    cases d.take part with
    | error stop => rfl
    | ok d' => exact ih d'

/-- A draft that is settled waits for nothing. -/
theorem waiting_of_assign {d e : Draft} {s : Setting} {value : Bytes} (h : d.assign s value = .ok e) :
    e.waiting = d.waiting := by
  cases s with
  | input =>
    rw [assign] at h
    split at h
    · cases h
    · obtain ⟨t, -, h⟩ := exists_of_bind_eq_ok h
      cases h
      rfl
  | output =>
    rw [assign] at h
    split at h
    · cases h
    · obtain ⟨t, -, h⟩ := exists_of_bind_eq_ok h
      cases h
      rfl
  | assignment =>
    rw [assign] at h
    obtain ⟨t, -, h⟩ := exists_of_bind_eq_ok h
    split at h
    · cases h
      rfl
    · cases h

theorem waiting_of_take {d e : Draft} {part : Part} (h : d.take part = .ok e) :
    e.waiting = d.waiting := by
  cases part with
  | given g => exact waiting_of_assign h
  | switch s =>
    rw [take] at h
    split at h
    · cases h
    · cases h
      rfl

theorem waiting_of_takeAll {d e : Draft} {parts : List Part} (h : d.takeAll parts = .ok e) :
    e.waiting = d.waiting := by
  induction parts generalizing d with
  | nil =>
    cases h
    rfl
  | cons part parts ih =>
    obtain ⟨d', hPart, hParts⟩ := exists_of_bind_eq_ok h
    rw [ih hParts, waiting_of_take hPart]

theorem settle_of_waiting {d : Draft} (h : d.waiting = none) : d.settle = .ok d := by
  rw [settle, h]

theorem waiting_of_settle {d e : Draft} (h : d.settle = .ok e) : e.waiting = none := by
  rw [settle] at h
  split at h
  · rename_i hNone
    cases h
    exact hNone
  · cases h
  · exact waiting_of_assign h

/-- A value that is kept until it is checked. -/
def keep (d : Draft) (s : Setting) (value : Option Bytes) : Draft :=
  { d with waiting := some (s, value) }

theorem settle_keep {d : Draft} (h : d.waiting = none) (s : Setting) (value : Bytes) :
    (d.keep s (some value)).settle = d.assign s value := by
  have hSame : { d.keep s (some value) with waiting := none } = d := by
    rw [keep, ← h]
  rw [settle]
  change { d.keep s (some value) with waiting := none }.assign s value = _
  rw [hSame]

theorem encode_cons_of_lt {c : Char} (h : c.toNat < 0x80) (t : Text) :
    Utf8.encode (c :: t) = Utf8.octet c :: Utf8.encode t :=
  Utf8.encode_append_cons h [] t

theorem exists_encode_cons_of_ne {c : Char} (h : c ≠ '-') (t : Text) :
    ∃ first body, Utf8.encode (c :: t) = first :: body ∧ first ≠ dash := by
  have hMem := (Utf8.octet_mem_utf8EncodeChar_iff (a := '-') (by decide) c).not.mpr h
  rw [Utf8.encode_cons]
  cases hChar : String.utf8EncodeChar c with
  | nil => exact absurd hChar String.utf8EncodeChar_ne_nil
  | cons first others =>
    rw [hChar] at hMem
    refine ⟨first, others ++ Utf8.encode t, rfl, ?_⟩
    rintro rfl
    exact hMem List.mem_cons_self

/-- A value in an argument of its own is one dash, or opens with another octet. -/
theorem ne_dash_of_fits {value : Text} (h : Form.next.Fits value) {first second : UInt8}
    {body : Bytes} (hEncode : Utf8.encode value = first :: second :: body) : first ≠ dash := by
  rcases h with rfl | h
  · cases hEncode
  · cases value with
    | nil => cases hEncode
    | cons c t =>
      obtain ⟨b, others, hFirst, hDash⟩ :=
        exists_encode_cons_of_ne (c := c) (fun hc => h (hc ▸ rfl)) t
      obtain ⟨rfl, -⟩ := List.cons.inj (hFirst.symm.trans hEncode)
      exact hDash

theorem readArgument_plain (d : Draft) {value : Text} (h : Form.next.Fits value) :
    d.readArgument (Utf8.encode value) = d.readPlain (Utf8.encode value) := by
  match hEncode : Utf8.encode value with
  | [] | [_] => rfl
  | first :: second :: body => rw [readArgument, if_pos (ne_dash_of_fits h hEncode)]

theorem readArgument_long (d : Draft) (body : Text) :
    d.readArgument (Utf8.encode ('-' :: '-' :: body)) = d.readLong (Utf8.encode body) := by
  rw [encode_cons_of_lt (by decide), encode_cons_of_lt (by decide), readArgument,
    if_neg (by decide), if_pos (by decide)]

theorem readArgument_short (d : Draft) {c : Char} (h : c ≠ '-') (names : Text) :
    d.readArgument (Utf8.encode ('-' :: c :: names)) = d.readShort (c :: names) [] := by
  obtain ⟨second, body, hEncode, hSecond⟩ := exists_encode_cons_of_ne h names
  rw [encode_cons_of_lt (by decide), hEncode, readArgument, if_neg (by decide), if_neg hSecond,
    ← hEncode, Utf8.splitText_encode]

theorem equals_not_mem_longName (choice : Choice) : '=' ∉ choice.longName := by
  cases choice with
  | switch s => cases s <;> decide
  | setting s => cases s <;> decide
  | help => decide
  | version => decide

theorem longName_ne_nil (choice : Choice) : choice.longName ≠ [] := by
  cases choice with
  | switch s => cases s <;> decide
  | setting s => cases s <;> decide
  | help => decide
  | version => decide

theorem equalsSign_not_mem_longName (choice : Choice) :
    equalsSign ∉ Utf8.encode choice.longName := by
  intro h
  exact equals_not_mem_longName choice ((Utf8.octet_mem_encode_iff (a := '=') (by decide) _).mp h)

theorem readLong_longName (d : Draft) (choice : Choice) :
    d.readLong (Utf8.encode choice.longName) = d.choose choice none := by
  have hDrop : (Utf8.encode choice.longName).dropWhile (· ≠ equalsSign) = [] := by
    rw [List.dropWhile_eq_nil_iff]
    intro b hb
    simpa using fun hEq : b = equalsSign => equalsSign_not_mem_longName choice (hEq ▸ hb)
  rw [readLong, Mark.takeWhile_of_dropWhile_nil hDrop, hDrop, Utf8.decode?_encode,
    Option.bind_some, Choice.ofLongName?_longName]

theorem readLong_longName_equals (d : Draft) (choice : Choice) (value : Text) :
    d.readLong (Utf8.encode (choice.longName ++ '=' :: value)) =
      d.choose choice (some (Utf8.encode value)) := by
  have hName := equalsSign_not_mem_longName choice
  have hEncode : Utf8.encode (choice.longName ++ '=' :: value) =
      Utf8.encode choice.longName ++ equalsSign :: Utf8.encode value :=
    Utf8.encode_append_cons (by decide) _ _
  rw [readLong, hEncode, Mark.takeWhile_append hName, Mark.dropWhile_append hName,
    Utf8.decode?_encode, Option.bind_some, Choice.ofLongName?_longName]

theorem choose_switch {d d₀ : Draft} (h : d.settle = .ok d₀) (s : Switch) :
    d.choose (.switch s) none = d₀.take (.switch s) :=
  bind_of_ok h _

theorem choose_setting {d d₀ : Draft} (h : d.settle = .ok d₀) (s : Setting) :
    d.choose (.setting s) none = .ok (d₀.keep s none) :=
  bind_of_ok h _

theorem choose_given {d d₀ : Draft} (h : d.settle = .ok d₀) (g : Given) :
    d.choose (.setting g.setting) (some (Utf8.encode g.text)) = d₀.take (.given g) :=
  bind_of_ok h _

/-- The value behind a long name; where nothing is, the value is yet to come. -/
theorem readLong_setting {d d₀ : Draft} (h : d.settle = .ok d₀) (g : Given) {form : Form}
    (hForm : form ≠ .direct) :
    d.readLong (Utf8.encode ((Choice.setting g.setting).longName ++ form.behind g.text)) =
      if form = .next then .ok (d₀.keep g.setting none) else d₀.take (.given g) := by
  cases form with
  | direct => exact absurd rfl hForm
  | equals => exact (readLong_longName_equals d _ g.text).trans (choose_given h g)
  | next =>
    rw [Form.behind, List.append_nil, readLong_longName]
    exact choose_setting h g.setting

/-- Short names have the effect of their switches, whatever names follow. -/
theorem readShort_initials {d d₀ e : Draft} {switches : List Switch}
    (hInitials : Word.HaveInitials switches) (hSettled : d.settle = .ok d₀)
    (hTaken : d₀.takeAll (switches.map .switch) = .ok e) (names : Text) :
    ∃ d' : Draft, d'.settle = .ok e ∧
      d.readShort (initials (switches.map .switch) ++ names) [] = d'.readShort names [] := by
  induction switches generalizing d d₀ with
  | nil =>
    cases hTaken
    exact ⟨d, hSettled, rfl⟩
  | cons s switches ih =>
    obtain ⟨c, hc⟩ := Option.isSome_iff_exists.mp (hInitials s List.mem_cons_self)
    obtain ⟨d₁, hSwitch, hSwitches⟩ := exists_of_bind_eq_ok hTaken
    have hSettled₁ : d₁.settle = .ok d₁ :=
      settle_of_waiting ((waiting_of_take hSwitch).trans (waiting_of_settle hSettled))
    obtain ⟨d', hSettled', hRead⟩ :=
      ih (fun s hs => hInitials s (List.mem_cons_of_mem _ hs)) hSettled₁ hSwitches
    refine ⟨d', hSettled', ?_⟩
    rw [List.map_cons, initials_cons hc, List.cons_append, readShort, Choice.ofShortName?_of_shortName? hc]
    dsimp only
    rw [bind_of_ok ((choose_switch hSettled s).trans hSwitch), hRead]

theorem exists_shortName?_setting (s : Setting) : ∃ c, (Choice.setting s).shortName? = some c := by
  cases s with
  | input => exact ⟨'i', rfl⟩
  | output => exact ⟨'o', rfl⟩
  | assignment => exact ⟨'D', rfl⟩

theorem shortName?_ne_dash {choice : Choice} {c : Char} (h : choice.shortName? = some c) : c ≠ '-' := by
  rintro rfl
  have hFound : Choice.ofShortName? '-' = none := by decide
  rw [Choice.ofShortName?_of_shortName? h] at hFound
  cases hFound

/-- The value behind a short name; where nothing is, the value is yet to come. -/
theorem readShort_setting {d d₀ : Draft} (h : d.settle = .ok d₀) (g : Given) {c : Char}
    (hc : (Choice.setting g.setting).shortName? = some c) {form : Form} (hFits : form.Fits g.text) :
    d.readShort (c :: form.behind g.text) [] =
      if form = .next then .ok (d₀.keep g.setting none) else d₀.take (.given g) := by
  have hRead : ∀ value, d.readShort (c :: value) [] =
      d.choose (.setting g.setting)
        (if (Utf8.encode value).isEmpty then none else some (attached (Utf8.encode value))) := by
    intro value
    rw [readShort, Choice.ofShortName?_of_shortName? hc]
    simp only [List.append_nil]
  rw [hRead]
  cases form with
  | next => exact choose_setting h g.setting
  | equals =>
    have hEncode : Utf8.encode (Form.equals.behind g.text) = equalsSign :: Utf8.encode g.text :=
      encode_cons_of_lt (by decide) g.text
    rw [hEncode, if_neg (by simp), attached, if_pos rfl, choose_given h]
    rfl
  | direct =>
    obtain ⟨hNonempty, hHead⟩ := hFits
    obtain ⟨first, others, hText⟩ := List.exists_cons_of_ne_nil hNonempty
    rw [hText] at hHead
    have hEquals := (Utf8.octet_mem_utf8EncodeChar_iff (a := '=') (by decide) first).not.mpr
      (fun hEq => hHead (by rw [hEq]; rfl))
    have hAttached : attached (Utf8.encode g.text) = Utf8.encode g.text := by
      rw [hText, Utf8.encode_cons]
      cases hChar : String.utf8EncodeChar first with
      | nil => exact absurd hChar String.utf8EncodeChar_ne_nil
      | cons b bs =>
        rw [hChar] at hEquals
        exact if_neg fun hb : b = equalsSign => hEquals (hb ▸ List.mem_cons_self)
    have hEncode : Utf8.encode (Form.direct.behind g.text) = Utf8.encode g.text := rfl
    have hIsEmpty : ¬(Utf8.encode g.text).isEmpty := by
      rw [hText, Utf8.encode_cons]
      simp [String.utf8EncodeChar_ne_nil]
    rw [hEncode, hAttached, if_neg hIsEmpty, choose_given h]
    rfl

theorem encode_ne_dashes {argument : Text} (h : argument ≠ ['-', '-']) :
    Utf8.encode argument ≠ [dash, dash] :=
  fun hEq => h (Utf8.encode_injective (hEq.trans (by rfl : [dash, dash] = Utf8.encode ['-', '-'])))

theorem read_cons {d d' : Draft} {argument : Bytes} (hDashes : argument ≠ [dash, dash])
    (h : d.readArgument argument = .ok d') (arguments : List Bytes) :
    d.read (argument :: arguments) = d'.read arguments := by
  rw [Draft.read.eq_def]
  dsimp only
  rw [if_neg hDashes, bind_of_ok h]

/-- The arguments lead from one draft to another, whatever follows them; the value of the last one
may still be kept unchecked. -/
def Leads (d : Draft) (arguments : List Text) (e : Draft) : Prop :=
  ∃ d' : Draft, d'.settle = .ok e ∧
    ∀ rest, d.read (arguments.map Utf8.encode ++ rest) = d'.read rest

theorem leads_nil {d e : Draft} (h : d.settle = .ok e) : d.Leads [] e :=
  ⟨d, h, fun _ => rfl⟩

theorem leads_argument {d d' e : Draft} {argument : Text} (hDashes : argument ≠ ['-', '-'])
    (h : d.readArgument (Utf8.encode argument) = .ok d') (hSettled : d'.settle = .ok e) :
    d.Leads [argument] e :=
  ⟨d', hSettled, read_cons (encode_ne_dashes hDashes) h⟩

theorem leads_append {d e f : Draft} {first second : List Text} (h : d.Leads first e)
    (hSecond : ∀ d' : Draft, d'.settle = .ok e → d'.Leads second f) :
    d.Leads (first ++ second) f := by
  obtain ⟨d', hSettled, hRead⟩ := h
  obtain ⟨d'', hSettled', hRead'⟩ := hSecond d' hSettled
  refine ⟨d'', hSettled', fun rest => ?_⟩
  rw [List.map_append, List.append_assoc, hRead, hRead']

theorem settle_of_take {d₀ e : Draft} {part : Part} (h : d₀.waiting = none)
    (hTaken : d₀.take part = .ok e) : e.settle = .ok e :=
  settle_of_waiting ((waiting_of_take hTaken).trans h)

/-- The value in the next argument is kept until it is checked. -/
theorem leads_keep {d₀ e : Draft} (h : d₀.waiting = none) {g : Given}
    (hFits : Form.next.Fits g.text) (hTaken : d₀.take (.given g) = .ok e) :
    (d₀.keep g.setting none).Leads [g.text] e := by
  have hDashes : g.text ≠ ['-', '-'] := by
    intro hText
    rw [hText] at hFits
    exact absurd hFits (by decide)
  exact leads_argument hDashes (readArgument_plain _ hFits)
    ((settle_keep h g.setting _).trans hTaken)

theorem leads_setting {d d₀ e : Draft} {argument : Text} (hDashes : argument ≠ ['-', '-'])
    (hWaiting : d₀.waiting = none) {g : Given} {form : Form} (hFits : form.Fits g.text)
    (hRead : d.readArgument (Utf8.encode argument) =
      if form = .next then .ok (d₀.keep g.setting none) else d₀.take (.given g))
    (hTaken : d₀.take (.given g) = .ok e) : d.Leads (argument :: form.following g.text) e := by
  cases form with
  | equals | direct => exact leads_argument hDashes (hRead.trans hTaken) (settle_of_take hWaiting hTaken)
  | next =>
    obtain ⟨d', hSettled, hNext⟩ := leads_keep hWaiting hFits hTaken
    refine ⟨d', hSettled, fun rest => ?_⟩
    exact (read_cons (encode_ne_dashes hDashes) hRead _).trans (hNext rest)

/-- The first short name is no dash, be it of a switch or of the setting. -/
theorem exists_initials_cons {switches : List Switch} (hInitials : Word.HaveInitials switches)
    (s : Setting) (value : Text) :
    ∃ c names, c ≠ '-' ∧
      initials (switches.map .switch ++ [.setting s]) ++ value = c :: names := by
  cases switches with
  | nil =>
    obtain ⟨c, hc⟩ := exists_shortName?_setting s
    refine ⟨c, value, shortName?_ne_dash hc, ?_⟩
    rw [List.map_nil, List.nil_append, initials_cons hc]
    rfl
  | cons first others =>
    obtain ⟨c, hc⟩ := Option.isSome_iff_exists.mp (hInitials first List.mem_cons_self)
    refine ⟨c, initials (others.map .switch ++ [.setting s]) ++ value, shortName?_ne_dash hc, ?_⟩
    rw [List.map_cons, List.cons_append, initials_cons hc, List.cons_append]

/-- A word has the effect of its parts. -/
theorem leads_word {d d₀ e : Draft} {w : Word} (hFits : w.Fits) (hSettled : d.settle = .ok d₀)
    (hTaken : d₀.takeAll w.parts = .ok e) : d.Leads w.arguments e := by
  have hWaiting := waiting_of_settle hSettled
  cases w with
  | switch s =>
    rw [Word.parts, takeAll_singleton] at hTaken
    refine leads_argument (by simp [longName_ne_nil]) ?_ (settle_of_take hWaiting hTaken)
    rw [readArgument_long, readLong_longName, choose_switch hSettled, hTaken]
  | bundle first others =>
    obtain ⟨d', hSettled', hRead⟩ := readShort_initials hFits hSettled (e := e) hTaken []
    obtain ⟨c, hc⟩ := Option.isSome_iff_exists.mp (hFits first List.mem_cons_self)
    rw [List.append_nil, List.map_cons, initials_cons hc] at hRead
    rw [Word.arguments, initials_cons hc]
    refine leads_argument (by simp [shortName?_ne_dash hc]) ?_ hSettled'
    exact (readArgument_short d (shortName?_ne_dash hc) _).trans hRead
  | long g form =>
    rw [Word.parts, takeAll_singleton] at hTaken
    refine leads_setting (by simp [longName_ne_nil]) hWaiting hFits.2 ?_ hTaken
    rw [readArgument_long, readLong_setting hSettled g hFits.1]
  | short switches g form =>
    obtain ⟨hInitials, hFits⟩ := hFits
    rw [Word.parts, takeAll_append] at hTaken
    obtain ⟨d₁, hSwitches, hGiven⟩ := exists_of_bind_eq_ok hTaken
    rw [takeAll_singleton] at hGiven
    obtain ⟨c, hc⟩ := exists_shortName?_setting g.setting
    obtain ⟨d', hSettled', hRead⟩ :=
      readShort_initials hInitials hSettled hSwitches (c :: form.behind g.text)
    obtain ⟨b, names, hb, hNames⟩ := exists_initials_cons hInitials g.setting (form.behind g.text)
    have hSplit : initials (switches.map .switch) ++ c :: form.behind g.text = b :: names := by
      rw [← hNames, initials_append, initials_cons hc, List.append_assoc]
      rfl
    rw [Word.arguments, hNames]
    refine leads_setting (by simp [hb]) (waiting_of_settle hSettled') hFits ?_ hGiven
    rw [readArgument_short d hb, ← hSplit, hRead, readShort_setting hSettled' g hc hFits]

theorem leads_words {d d₀ e : Draft} {words : List Word} (hFits : ∀ w ∈ words, w.Fits)
    (hSettled : d.settle = .ok d₀) (hTaken : d₀.takeAll (words.flatMap Word.parts) = .ok e) :
    d.Leads (words.flatMap Word.arguments) e := by
  induction words generalizing d d₀ with
  | nil =>
    cases hTaken
    exact leads_nil hSettled
  | cons w words ih =>
    rw [List.flatMap_cons, takeAll_append] at hTaken
    obtain ⟨d₁, hWord, hWords⟩ := exists_of_bind_eq_ok hTaken
    exact leads_append (leads_word (hFits w List.mem_cons_self) hSettled hWord) fun d' hSettled' =>
      ih (fun w hw => hFits w (List.mem_cons_of_mem _ hw)) hSettled' hWords

end Draft

end Interpolation.Command
