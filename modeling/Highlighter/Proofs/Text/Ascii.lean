import Highlighter.Proofs.Text.Boundaries
import Highlighter.Proofs.Text.Bytes

/-! Characters of ASCII in the bytes of a text. Such a byte is a whole character, so that a text has
edges of characters around every character of ASCII, other than a space, of a text that mirrors it. -/
namespace Highlighter.Text

/-- A character of more than one byte has no byte of ASCII. -/
theorem le_of_mem_utf8EncodeChar {c : Char} (hc : c.utf8Size ≠ 1) {x : UInt8}
    (hx : x ∈ String.utf8EncodeChar c) : 128 ≤ x.toNat := by
  have hbyte (n : Nat) (h : 128 ≤ n % 256) : 128 ≤ (UInt8.ofNat n).toNat := by
    rwa [UInt8.toNat_ofNat']
  fun_cases String.utf8EncodeChar c with
  | case1 v hv => exact absurd (Char.utf8Size_eq_one_iff.mpr hv) hc
  | case2 v h1 h2 =>
    rw [String.utf8EncodeChar, if_neg h1, if_pos h2] at hx
    simp only [List.mem_cons, List.not_mem_nil, or_false] at hx
    rcases hx with rfl | rfl <;> exact hbyte _ (by omega)
  | case3 v h1 h2 h3 =>
    rw [String.utf8EncodeChar, if_neg h1, if_neg h2, if_pos h3] at hx
    simp only [List.mem_cons, List.not_mem_nil, or_false] at hx
    rcases hx with rfl | rfl | rfl <;> exact hbyte _ (by omega)
  | case4 v h1 h2 h3 =>
    rw [String.utf8EncodeChar, if_neg h1, if_neg h2, if_neg h3] at hx
    simp only [List.mem_cons, List.not_mem_nil, or_false] at hx
    rcases hx with rfl | rfl | rfl | rfl <;> exact hbyte _ (by omega)

/-- A byte of ASCII is a whole character. -/
theorem exists_char_of_byte {t : Text} {n : Nat} {x : UInt8} (h : t.bytes[n]? = some x)
    (hx : x.toNat < 128) : ∃ (a : Text) (c : Char) (b : Text), t = a ++ c :: b ∧
      a.byteLength = n ∧ c.utf8Size = 1 ∧ c.val.toUInt8 = x := by
  induction t generalizing n with
  | nil => exact absurd h (by simp [bytes])
  | cons c t ih =>
    change (String.utf8EncodeChar c ++ bytes t)[n]? = some x at h
    by_cases hn : n < c.utf8Size
    · rw [List.getElem?_append_left (by rwa [String.length_utf8EncodeChar])] at h
      have hmem := List.mem_of_getElem? h
      have hone : c.utf8Size = 1 := by
        by_contra hne
        exact absurd (le_of_mem_utf8EncodeChar hne hmem) (by omega)
      refine ⟨[], c, t, rfl, by rw [byteLength_nil]; omega, hone, ?_⟩
      rw [String.utf8EncodeChar_eq_singleton hone] at hmem
      exact (List.mem_singleton.mp hmem).symm
    · rw [List.getElem?_append_right (by rw [String.length_utf8EncodeChar]; omega),
        String.length_utf8EncodeChar] at h
      obtain ⟨a, d, b, rfl, ha, hd⟩ := ih h
      exact ⟨c :: a, d, b, rfl, by rw [byteLength_cons]; omega, hd⟩

theorem toNat_toUInt8 {c : Char} (hc : c.utf8Size = 1) :
    c.val.toUInt8.toNat = c.val.toNat ∧ c.val.toNat < 128 := by
  have hle := UInt32.le_iff_toNat_le.mp (Char.utf8Size_eq_one_iff.mp hc)
  have h127 : (127 : UInt32).toNat = 127 := rfl
  rw [UInt32.toNat_toUInt8]
  omega

theorem toUInt8_inj {c d : Char} (hc : c.utf8Size = 1) (hd : d.utf8Size = 1)
    (h : c.val.toUInt8 = d.val.toUInt8) : c = d := by
  have hn := congrArg UInt8.toNat h
  rw [(toNat_toUInt8 hc).1, (toNat_toUInt8 hd).1] at hn
  exact Char.ext (UInt32.toNat_inj.mp hn)

/-- Where a text shows a character of ASCII that is no space, the text that it mirrors has it too. -/
theorem Mirrors.exists_char {shown x y : Text} {c : Char} (h : Mirrors shown (x ++ c :: y))
    (hc : c.utf8Size = 1) (hs : c ≠ ' ') :
    ∃ a b : Text, shown = a ++ c :: b ∧ a.byteLength = x.byteLength := by
  have hseen : (x ++ c :: y).bytes[x.byteLength]? = some c.val.toUInt8 := by
    rw [bytes_append, List.getElem?_append_right (Nat.le_of_eq (length_bytes x)), length_bytes,
      Nat.sub_self]
    change (String.utf8EncodeChar c ++ bytes y)[0]? = _
    rw [String.utf8EncodeChar_eq_singleton hc]
    rfl
  obtain ⟨hlt, hbyte⟩ := List.getElem?_eq_some_iff.mp hseen
  obtain ⟨hl, hget⟩ := List.forall₂_iff_get.mp h
  have hlt' : x.byteLength < shown.bytes.length := hl ▸ hlt
  have hno : c.val.toUInt8 ≠ spaceByte := fun hspace => hs (toUInt8_inj hc rfl hspace)
  have hsame : c.val.toUInt8 = shown.bytes[x.byteLength] := by
    have hor := hget x.byteLength hlt' hlt
    rw [List.get_eq_getElem, List.get_eq_getElem, hbyte] at hor
    exact hor.resolve_right hno
  have hshown : shown.bytes[x.byteLength]? = some c.val.toUInt8 := by
    rw [hsame]
    exact List.getElem?_eq_getElem hlt'
  obtain ⟨hnat, hascii⟩ := toNat_toUInt8 hc
  obtain ⟨a, d, b, rfl, ha, hd, hdc⟩ := exists_char_of_byte hshown (hnat ▸ hascii)
  obtain rfl := toUInt8_inj hd hc hdc
  exact ⟨a, b, rfl, ha⟩
/-- The text begins and ends with a character of ASCII that is no space. -/
structure Framed (t : Text) : Prop where
  first : ∃ c, t.head? = some c ∧ c.utf8Size = 1 ∧ c ≠ ' '
  last : ∃ c, t.getLast? = some c ∧ c.utf8Size = 1 ∧ c ≠ ' '

theorem Framed.ne_nil {t : Text} (h : t.Framed) : t ≠ [] := by
  rintro rfl
  obtain ⟨_, hnil, _⟩ := h.first
  exact absurd hnil (by simp)

/-- Beside a part of this kind a text can be cut at both ends. -/
theorem Mirrors.exists_slice {shown kept matched rest : Text}
    (h : Mirrors shown (kept ++ matched ++ rest)) (hm : matched.Framed) :
    ∃ a b c : Text, shown = a ++ b ++ c ∧ a.byteLength = kept.byteLength ∧
      b.byteLength = matched.byteLength ∧ Mirrors c rest := by
  obtain ⟨⟨c, hhead, hc, hcs⟩, ⟨d, htail, hd, hds⟩⟩ := hm
  obtain ⟨u, hfirst⟩ := List.head?_eq_some_iff.mp hhead
  obtain ⟨v, hlast⟩ := List.getLast?_eq_some_iff.mp htail
  obtain ⟨a, y, hy, ha⟩ : ∃ a y : Text, shown = a ++ c :: y ∧ a.byteLength = kept.byteLength := by
    rw [hfirst, List.append_assoc] at h
    exact h.exists_char hc hcs
  obtain ⟨x, tail, hx, hxl⟩ : ∃ x tail : Text, shown = x ++ d :: tail ∧
      x.byteLength = Text.byteLength (kept ++ v) := by
    rw [hlast, ← List.append_assoc, List.append_assoc _ [d]] at h
    exact h.exists_char hd hds
  have hend : Text.byteLength (x ++ [d]) = kept.byteLength + matched.byteLength := by
    rw [hlast, byteLength_append, hxl, byteLength_append, byteLength_append, Nat.add_assoc]
  have hcut : a ++ c :: y = (x ++ [d]) ++ tail := by
    rw [← hy, hx, List.append_assoc, List.singleton_append]
  obtain ⟨slice, hslice, _⟩ := prefix_of_byteLength_le hcut (by omega)
  have hall : shown = a ++ slice ++ tail := by
    rw [hy, hcut, hslice]
  have hsize : Text.byteLength (a ++ slice) = Text.byteLength (kept ++ matched) := by
    rw [← hslice, hend, byteLength_append]
  rw [hall] at h
  rw [byteLength_append, byteLength_append, ha] at hsize
  exact ⟨a, slice, tail, hall, ha, Nat.add_left_cancel hsize, (h.of_append (by
    rw [byteLength_append, byteLength_append, ha, hsize])).2⟩

end Highlighter.Text
