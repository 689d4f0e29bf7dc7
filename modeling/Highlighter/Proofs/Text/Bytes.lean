import Highlighter.Proofs.Text.Slices
import Mathlib.Data.List.Forall2

/-! The bytes of a text, and when one text mirrors another: it has as many bytes, each of them the
other's or a space. -/
namespace Highlighter.Text

/-- The bytes of the UTF-8 form. -/
def bytes (t : Text) : List UInt8 := t.flatMap String.utf8EncodeChar

@[simp] theorem bytes_append (a b : Text) : bytes (a ++ b) = bytes a ++ bytes b :=
  List.flatMap_append

@[simp] theorem length_bytes (t : Text) : t.bytes.length = t.byteLength := by
  induction t with
  | nil => rfl
  | cons c t ih =>
    change (String.utf8EncodeChar c ++ bytes t).length = _
    rw [List.length_append, String.length_utf8EncodeChar, ih, byteLength_cons]

/-- The byte of the ASCII space. -/
def spaceByte : UInt8 := 32

theorem bytes_shadow (t : Text) : t.shadow.bytes = List.replicate t.byteLength spaceByte := by
  have h (n : Nat) : bytes (List.replicate n ' ') = List.replicate n spaceByte := by
    induction n with
    | zero => rfl
    | succ n ih =>
      rw [List.replicate_succ, List.replicate_succ, ← ih]
      rfl
  exact h t.byteLength

/-- `seen` mirrors `shown`: byte for byte it is the same or a space. -/
def Mirrors (shown seen : Text) : Prop :=
  List.Forall₂ (fun x y => y = x ∨ y = spaceByte) shown.bytes seen.bytes

namespace Mirrors

variable {a b c d : Text}

theorem refl (t : Text) : Mirrors t t := List.forall₂_same.mpr fun _ _ => Or.inl rfl

theorem byteLength_eq (h : Mirrors a b) : a.byteLength = b.byteLength := by
  have hl := h.length_eq
  rwa [length_bytes, length_bytes] at hl

theorem append (h : Mirrors a b) (h' : Mirrors c d) : Mirrors (a ++ c) (b ++ d) := by
  unfold Mirrors
  rw [bytes_append, bytes_append]
  exact List.rel_append h h'

/-- Where two mirroring texts are divided at the same byte, their parts mirror each other. -/
theorem of_append (h : Mirrors (a ++ c) (b ++ d)) (hl : a.byteLength = b.byteLength) :
    Mirrors a b ∧ Mirrors c d := by
  unfold Mirrors at h
  rw [bytes_append, bytes_append] at h
  have hab : a.bytes.length = b.bytes.length := by rw [length_bytes, length_bytes, hl]
  have ht := List.forall₂_take a.bytes.length h
  have hd := List.forall₂_drop a.bytes.length h
  rw [List.take_left, hab, List.take_left] at ht
  rw [List.drop_left, hab, List.drop_left] at hd
  exact ⟨ht, hd⟩

/-- The shadow of a text mirrors it. -/
theorem shadow (t : Text) : Mirrors t t.shadow := by
  unfold Mirrors
  rw [bytes_shadow, List.forall₂_iff_get]
  refine ⟨by rw [length_bytes, List.length_replicate], ?_⟩
  intro i _ hi
  right
  simp only [List.get_eq_getElem, List.getElem_replicate]

end Mirrors

end Highlighter.Text
