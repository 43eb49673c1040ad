import Interpolation.Text.Lines

/-!
# Octets of characters below U+0080

A character below U+0080 is encoded as one octet, and that octet is part of no other character. So
a text and its encoding are cut at the same places by a mark below U+0080, such as a newline.
-/

namespace Interpolation.Utf8

def octet (c : Char) : UInt8 :=
  UInt8.ofNat c.toNat

theorem utf8EncodeChar_of_lt {c : Char} (h : c.toNat < 0x80) : String.utf8EncodeChar c = [octet c] := by
  have hLe : c.val.toNat ≤ 0x7f := Nat.le_of_lt_succ h
  simp only [String.utf8EncodeChar, if_pos hLe]
  rfl

theorem le_toNat_marked (n : Nat) {m mark : Nat} (hm : 0 < m) (hLow : 0x80 ≤ mark)
    (hHigh : m + mark ≤ 0x100) : 0x80 ≤ (UInt8.ofNat (n % m + mark)).toNat := by
  have hMod := Nat.mod_lt n hm
  rw [UInt8.toNat_ofNat', Nat.mod_eq_of_lt (by omega)]
  omega

theorem le_of_mem_utf8EncodeChar {c : Char} (h : 0x80 ≤ c.toNat) :
    ∀ b ∈ String.utf8EncodeChar c, 0x80 ≤ b.toNat := by
  have hTail := fun n => le_toNat_marked n (m := 0x40) (by decide) (Nat.le_refl 0x80) (by decide)
  have hGt : ¬c.val.toNat ≤ 0x7f := by
    change ¬c.toNat ≤ 0x7f
    omega
  intro b hb
  simp only [String.utf8EncodeChar, if_neg hGt] at hb
  split at hb
  · simp only [List.mem_cons, List.not_mem_nil, or_false] at hb
    rcases hb with rfl | rfl
    · exact le_toNat_marked _ (by decide) (by decide) (by decide)
    · exact hTail _
  · split at hb
    · simp only [List.mem_cons, List.not_mem_nil, or_false] at hb
      rcases hb with rfl | rfl | rfl
      · exact le_toNat_marked _ (by decide) (by decide) (by decide)
      · exact hTail _
      · exact hTail _
    · simp only [List.mem_cons, List.not_mem_nil, or_false] at hb
      rcases hb with rfl | rfl | rfl | rfl
      · exact le_toNat_marked _ (by decide) (by decide) (by decide)
      · exact hTail _
      · exact hTail _
      · exact hTail _

theorem octet_mem_utf8EncodeChar_iff {a : Char} (ha : a.toNat < 0x80) (c : Char) :
    octet a ∈ String.utf8EncodeChar c ↔ c = a := by
  have hOctet : ∀ {c : Char}, c.toNat < 0x80 → (octet c).toNat = c.toNat := by
    intro c hc
    rw [octet, UInt8.toNat_ofNat']
    omega
  rcases Nat.lt_or_ge c.toNat 0x80 with hc | hc
  · rw [utf8EncodeChar_of_lt hc, List.mem_singleton]
    constructor
    · intro h
      have hNat := congrArg UInt8.toNat h
      rw [hOctet ha, hOctet hc] at hNat
      exact Char.toNat_inj.mp hNat.symm
    · rintro rfl
      rfl
  · constructor
    · intro h
      have hLe := le_of_mem_utf8EncodeChar hc _ h
      rw [hOctet ha] at hLe
      omega
    · rintro rfl
      exact absurd ha (Nat.not_lt.mpr hc)

theorem octet_mem_encode_iff {a : Char} (ha : a.toNat < 0x80) (t : Text) :
    octet a ∈ encode t ↔ a ∈ t := by
  simp only [encode, List.mem_flatMap, octet_mem_utf8EncodeChar_iff ha]
  constructor
  · rintro ⟨c, hc, rfl⟩
    exact hc
  · intro h
    exact ⟨a, h, rfl⟩

theorem encode_append_cons {a : Char} (ha : a.toNat < 0x80) (s t : Text) :
    encode (s ++ a :: t) = encode s ++ octet a :: encode t := by
  rw [encode_append, encode_cons, utf8EncodeChar_of_lt ha]
  rfl

theorem splitOn_encode {a : Char} (ha : a.toNat < 0x80) (t : Text) :
    (encode t).splitOn (octet a) = (t.splitOn a).map encode := by
  induction hLength : t.length using Nat.strongRecOn generalizing t with
  | ind length ih =>
    rcases Decidable.em (a ∈ t) with h | h
    · obtain ⟨s, rest, rfl, hs⟩ := List.eq_append_cons_of_mem h
      have hs' : octet a ∉ encode s := fun h => hs ((octet_mem_encode_iff ha s).mp h)
      rw [encode_append_cons ha, List.splitOn_append_cons_self_of_not_mem hs',
        List.splitOn_append_cons_self_of_not_mem hs, List.map_cons,
        ih rest.length (by grind) rest rfl]
    · have h' : octet a ∉ encode t := fun hMem => h ((octet_mem_encode_iff ha t).mp hMem)
      rw [List.splitOn_eq_singleton h, List.splitOn_eq_singleton h']
      rfl

end Interpolation.Utf8
