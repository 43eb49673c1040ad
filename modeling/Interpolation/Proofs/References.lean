import Mathlib.Data.List.Sort
import Mathlib.Data.List.Dedup
import Interpolation.References
import Interpolation.Proofs.Listing

/-!
# References and listings

The references of a text are read from its characters, a listing of the text from its octets. Both
read the same lines, so the references are the records of the listing in the order of their code
points, each once.
-/

namespace Interpolation

open Interpolation.Stream

/-- The order of texts by their first different code point; a text precedes what it opens. -/
def Precedes : Text → Text → Prop :=
  List.Lex fun c d => c.toNat < d.toNat

theorem compare_char_eq_lt_iff (c d : Char) : compare c d = .lt ↔ c.toNat < d.toNat :=
  compareOfLessAndEq_eq_lt

theorem compare_eq_lt_iff (s t : Text) : compare s t = .lt ↔ Precedes s t := by
  rw [Precedes]
  induction s generalizing t with
  | nil =>
    cases t with
    | nil => simp
    | cons d t => simp
  | cons c s ih =>
    cases t with
    | nil => simp
    | cons d t =>
      rw [List.compare_cons_cons, Ordering.then_eq_lt, List.cons_lex_cons_iff, ih,
        compare_char_eq_lt_iff, Std.compare_eq_iff_eq]

instance : Std.Asymm Precedes where
  asymm s t h h' := by
    rw [← compare_eq_lt_iff] at h h'
    rw [Std.OrientedCmp.gt_of_lt h] at h'
    cases h'

/-- The texts in the order of their code points, each once. -/
def inOrder (texts : List Text) : List Text :=
  texts.dedup.mergeSort fun s t => (compare s t).isLE

theorem mem_inOrder_iff (texts : List Text) (t : Text) : t ∈ inOrder texts ↔ t ∈ texts := by
  rw [inOrder, List.mem_mergeSort, List.mem_dedup]

theorem isLE_or_isLE (s t : Text) : ((compare s t).isLE || (compare t s).isLE) = true := by
  cases h : compare s t with
  | lt => rfl
  | eq => rfl
  | gt =>
    rw [Std.OrientedCmp.lt_of_gt h]
    rfl

theorem pairwise_inOrder (texts : List Text) : (inOrder texts).Pairwise Precedes := by
  have hSorted : (inOrder texts).Pairwise fun s t => (compare s t).isLE = true :=
    List.pairwise_mergeSort (fun _ _ _ => Std.TransCmp.isLE_trans) isLE_or_isLE _
  have hOnce : (inOrder texts).Nodup :=
    (List.mergeSort_perm texts.dedup _).nodup_iff.mpr texts.nodup_dedup
  refine hSorted.imp₂ ?_ hOnce
  intro s t hLe hNe
  rcases Ordering.isLE_iff_eq_lt_or_eq_eq.mp hLe with hLt | hEq
  · exact (compare_eq_lt_iff s t).mp hLt
  · exact absurd (Std.compare_eq_iff_eq.mp hEq) hNe

theorem pairwise_references (t : Text) : (references t).Pairwise Precedes := by
  rw [references]
  exact Std.TreeSet.ordered_toList.imp fun {s t} h => (compare_eq_lt_iff s t).mp h

theorem mem_references_iff (t key : Text) :
    key ∈ references t ↔ key ∈ (Lines.all Lines.textMarks t).flatMap (Placeholder.keys true) := by
  rw [references, Std.TreeSet.mem_toList, Std.TreeSet.mem_ofList, List.contains_iff_mem]

/-- The references of a text are the records of its listing, in the order of their code points and
each once. -/
theorem references_eq_listed (t : Text) :
    let listing := Run.perform (listKeys true (Source.ofText t)) {}
    let records := Lines.records listing.2.out.taken.toList
    let listed := records.filterMap Utf8.decode?
    listing.1 = .ok records.length ∧
      listing.2.out.taken.toList = records.flatMap (· ++ [0x0A]) ∧
      records = listed.map Utf8.encode ∧
      (references t).Pairwise Precedes ∧ (references t).Nodup ∧
      (∀ key, key ∈ references t ↔ Utf8.encode key ∈ records) ∧
      references t = inOrder listed := by
  intro listing records listed
  have hListed : listed = (Lines.all Lines.textMarks t).flatMap (Placeholder.keys true) :=
    listedKeys_ofText true t
  have hRecords : records = listed.map Utf8.encode := by
    simp only [records, listing]
    rw [records_listKeys, hListed, lines_ofText, heard_map_ok]
  obtain ⟨hCount, hOutput⟩ := perform_listKeys_ofText true t (o := {}) ⟨rfl, rfl, rfl⟩
  rw [← hListed] at hCount hOutput
  have hMem : ∀ key, key ∈ references t ↔ key ∈ listed := by
    intro key
    rw [mem_references_iff, hListed]
  have hEncode : ∀ key, Utf8.encode key ∈ records ↔ key ∈ listed := by
    intro key
    rw [hRecords, List.mem_map_of_injective fun _ _ => Utf8.encode_injective]
  refine ⟨?_, ?_, hRecords, pairwise_references t, (pairwise_references t).nodup, ?_, ?_⟩
  · simp only [listing]
    rw [hCount, hRecords, List.length_map]
  · simp only [listing]
    rw [hOutput, hRecords]
    exact List.nil_append _
  · intro key
    exact (hMem key).trans (hEncode key).symm
  · exact (pairwise_references t).eq_of_mem_iff (pairwise_inOrder listed) fun key =>
      (hMem key).trans (mem_inOrder_iff listed key).symm

end Interpolation
