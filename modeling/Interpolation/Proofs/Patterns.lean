import Interpolation.Text.Utf8

/-!
# Patterns

A pattern is a row of parts: the start and the end of a text, single characters, and runs of the
characters of a class. A run is captured; it takes as many characters as it can, and fewer if the parts
behind it do not match otherwise. A pattern is found at the first place of a text where it matches, in
the way that comes first there.
-/

namespace Interpolation

inductive Pattern.Part where
  | start
  | finish
  | char (c : Char)
  | run (accepts : Char → Bool) (least : Nat)

abbrev Pattern := List Pattern.Part

namespace Pattern

/-- The fronts of a text that a class accepts, the longest first, each with what it leaves. -/
def fronts (accepts : Char → Bool) : Text → List (Text × Text)
  | [] => [([], [])]
  | c :: rest =>
    (if accepts c then (fronts accepts rest).map fun (front, left) => (c :: front, left) else []) ++
      [([], c :: rest)]

/-- What the runs of a pattern capture where it matches between two parts of a text, for all ways to
match in their order. -/
def matchesAt : Pattern → Text → Text → List (List Text)
  | [], _, _ => [[]]
  | .start :: p, before, rest => if before = [] then matchesAt p before rest else []
  | .finish :: p, before, rest => if rest = [] then matchesAt p before rest else []
  | .char _ :: _, _, [] => []
  | .char c :: p, before, d :: rest => if d = c then matchesAt p (before ++ [d]) rest else []
  | .run accepts least :: p, before, rest =>
    ((fronts accepts rest).filter fun (front, _) => least ≤ front.length).flatMap fun (front, left) =>
      (matchesAt p (before ++ front) left).map (front :: ·)

def search (p : Pattern) (before : Text) : Text → Option (List Text)
  | [] => (matchesAt p before []).head?
  | c :: rest => (matchesAt p before (c :: rest)).head?.or (search p (before ++ [c]) rest)

def find? (p : Pattern) (t : Text) : Option (List Text) :=
  search p [] t

example : find? [.run Char.isDigit 1, .char '1'] "a2113".toList = some ["21".toList] := by decide

theorem mem_fronts_iff {accepts : Char → Bool} {t front left : Text} :
    (front, left) ∈ fronts accepts t ↔ t = front ++ left ∧ ∀ c ∈ front, accepts c = true := by
  induction t generalizing front with
  | nil =>
    rw [fronts, List.mem_singleton, Prod.mk.injEq]
    constructor
    · rintro ⟨rfl, rfl⟩
      simp
    · rintro ⟨h, -⟩
      exact List.append_eq_nil_iff.mp h.symm
  | cons c t ih =>
    rw [fronts, List.mem_append, List.mem_singleton, Prod.mk.injEq]
    constructor
    · rintro (h | ⟨rfl, rfl⟩)
      · split at h
        · rename_i hc
          obtain ⟨⟨others, rest⟩, hOthers, hEq⟩ := List.mem_map.mp h
          obtain ⟨rfl, rfl⟩ := Prod.mk.inj hEq
          obtain ⟨rfl, hAll⟩ := ih.mp hOthers
          exact ⟨rfl, List.forall_mem_cons.mpr ⟨hc, hAll⟩⟩
        · cases h
      · simp
    · rintro ⟨h, hAll⟩
      cases front with
      | nil => exact .inr ⟨rfl, h.symm⟩
      | cons d others =>
        obtain ⟨rfl, rfl⟩ := List.cons.inj h
        obtain ⟨hc, hOthers⟩ := List.forall_mem_cons.mp hAll
        rw [if_pos hc]
        exact .inl (List.mem_map.mpr ⟨(others, left), ih.mpr ⟨rfl, hOthers⟩, rfl⟩)

theorem mem_matchesAt_run_iff {accepts : Char → Bool} {least : Nat} {p : Pattern}
    {before rest : Text} {taken : List Text} :
    taken ∈ matchesAt (.run accepts least :: p) before rest ↔
      ∃ front left others, rest = front ++ left ∧ (∀ c ∈ front, accepts c = true) ∧
        least ≤ front.length ∧ others ∈ matchesAt p (before ++ front) left ∧
        taken = front :: others := by
  rw [matchesAt, List.mem_flatMap]
  constructor
  · rintro ⟨⟨front, left⟩, hFront, hTaken⟩
    obtain ⟨hMem, hLeast⟩ := List.mem_filter.mp hFront
    obtain ⟨hRest, hAll⟩ := mem_fronts_iff.mp hMem
    obtain ⟨others, hOthers, rfl⟩ := List.mem_map.mp hTaken
    exact ⟨front, left, others, hRest, hAll, by simpa using hLeast, hOthers, rfl⟩
  · rintro ⟨front, left, others, hRest, hAll, hLeast, hOthers, rfl⟩
    exact ⟨(front, left), List.mem_filter.mpr ⟨mem_fronts_iff.mpr ⟨hRest, hAll⟩, by simpa using hLeast⟩,
      List.mem_map.mpr ⟨others, hOthers, rfl⟩⟩

theorem mem_matchesAt_char_iff {c : Char} {p : Pattern} {before rest : Text} {taken : List Text} :
    taken ∈ matchesAt (.char c :: p) before rest ↔
      ∃ left, rest = c :: left ∧ taken ∈ matchesAt p (before ++ [c]) left := by
  cases rest with
  | nil => simp [matchesAt]
  | cons d rest =>
    rw [matchesAt]
    split
    · rename_i hc
      subst hc
      simp
    · rename_i hc
      simp [hc]

theorem mem_matchesAt_finish_iff {before rest : Text} {taken : List Text} :
    taken ∈ matchesAt [.finish] before rest ↔ rest = [] ∧ taken = [] := by
  rw [matchesAt]
  split
  · simp [matchesAt, *]
  · simp [*]

/-- A pattern that demands the start of the text is not found behind it. -/
theorem search_start_eq_none (p : Pattern) {before : Text} (h : before ≠ []) (rest : Text) :
    search (.start :: p) before rest = none := by
  induction rest generalizing before with
  | nil => simp [search, matchesAt, h]
  | cons c rest ih => simp [search, matchesAt, h, ih]

theorem find?_start (p : Pattern) (t : Text) :
    find? (.start :: p) t = (matchesAt p [] t).head? := by
  cases t with
  | nil => simp [find?, search, matchesAt]
  | cons c rest => simp [find?, search, matchesAt, search_start_eq_none]

end Pattern

end Interpolation
