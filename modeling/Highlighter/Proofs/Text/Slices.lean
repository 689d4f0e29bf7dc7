import Highlighter.Text
import Mathlib.Tactic.Common

/-! Where a text can be cut: the parts of a slice give the text back, and a text of known parts has
exactly the slices between them. Shadows cut anywhere, since a space is one byte. -/
namespace Highlighter.Text

@[simp] theorem byteLength_reverse (t : Text) : byteLength t.reverse = t.byteLength := by
  induction t with
  | nil => rfl
  | cons c t ih =>
    rw [List.reverse_cons, byteLength_append, ih, byteLength_cons, byteLength_cons, byteLength_nil,
      Nat.add_zero, Nat.add_comm]

theorem byteLength_replicate_space (n : Nat) : byteLength (List.replicate n ' ') = n := by
  induction n with
  | zero => rfl
  | succ n ih =>
    have hs : (' ' : Char).utf8Size = 1 := by decide
    rw [List.replicate_succ, byteLength_cons, ih, hs, Nat.add_comm]

@[simp] theorem byteLength_shadow (t : Text) : t.shadow.byteLength = t.byteLength :=
  byteLength_replicate_space _

@[simp] theorem shadow_nil : shadow [] = [] := rfl

theorem shadow_append (a b : Text) : (a ++ b).shadow = a.shadow ++ b.shadow := by
  simp only [shadow, byteLength_append, List.replicate_append_replicate]

theorem shadow_flatMap {α : Type} (f : α → Text) (l : List α) :
    shadow (l.flatMap f) = l.flatMap fun a => (f a).shadow := by
  induction l with
  | nil => rfl
  | cons a l ih => rw [List.flatMap_cons, List.flatMap_cons, shadow_append, ih]

@[simp] theorem reverse_shadow (t : Text) : t.shadow.reverse = t.shadow := List.reverse_replicate ..

theorem eq_space_of_mem_shadow {t : Text} {c : Char} (h : c ∈ t.shadow) : c = ' ' :=
  List.eq_of_mem_replicate h

theorem byteLength_pos_of_ne_nil {t : Text} (h : t ≠ []) : 0 < t.byteLength := by
  cases t with
  | nil => exact absurd rfl h
  | cons c t =>
    have hc := c.utf8Size_pos
    rw [byteLength_cons]
    omega

@[simp] theorem byteLength_eq_zero_iff (t : Text) : t.byteLength = 0 ↔ t = [] := by
  constructor
  · intro h
    by_contra hn
    have hp := byteLength_pos_of_ne_nil hn
    omega
  · intro h
    rw [h]
    rfl

theorem head?_shadow_append {t : Text} (h : t ≠ []) (b : Text) :
    (t.shadow ++ b).head? = some ' ' := by
  obtain ⟨n, hn⟩ : ∃ n, t.byteLength = n + 1 :=
    ⟨t.byteLength - 1, (Nat.sub_add_cancel (byteLength_pos_of_ne_nil h)).symm⟩
  rw [shadow, hn, List.replicate_succ]
  rfl

theorem cutAt?_eq_some_iff {n : Nat} {t a b : Text} :
    t.cutAt? n = some (a, b) ↔ t = a ++ b ∧ a.byteLength = n := by
  constructor
  · intro h
    exact ⟨(append_of_cutAt? h).symm, byteLength_of_cutAt? h⟩
  · rintro ⟨rfl, rfl⟩
    exact cutAt?_append a b

theorem sliceAt?_eq_some_iff {n m : Nat} {t a b c : Text} :
    t.sliceAt? n m = some (a, b, c) ↔ t = a ++ b ++ c ∧ a.byteLength = n ∧ b.byteLength = m := by
  constructor
  · intro h
    unfold sliceAt? at h
    split at h
    · exact absurd h (by simp)
    · rename_i kept rest hk
      obtain ⟨⟨slice, tail⟩, hs, he⟩ := Option.map_eq_some_iff.mp h
      obtain ⟨rfl, hkl⟩ := cutAt?_eq_some_iff.mp hk
      obtain ⟨rfl, hsl⟩ := cutAt?_eq_some_iff.mp hs
      cases he
      exact ⟨(List.append_assoc _ _ _).symm, hkl, hsl⟩
  · rintro ⟨rfl, rfl, rfl⟩
    simp only [sliceAt?, List.append_assoc, cutAt?_append, Option.map_some]

/-- A slice is found where a text with all parts known is cut. -/
theorem sliceAt?_append (a b c : Text) :
    (a ++ b ++ c).sliceAt? a.byteLength b.byteLength = some (a, b, c) :=
  sliceAt?_eq_some_iff.mpr ⟨rfl, rfl, rfl⟩

end Highlighter.Text
