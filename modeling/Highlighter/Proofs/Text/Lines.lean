import Highlighter.Text
import Mathlib.Data.List.Basic

/-! Texts as lines: what becomes of each character goes through the line breaks, and what stands in
front of a text without a line break belongs to its first line. -/
namespace Highlighter

theorem flatMap_intercalate {α β : Type} (f : α → List β) (sep : List α) (ls : List (List α)) :
    (sep.intercalate ls).flatMap f = (sep.flatMap f).intercalate (ls.map (List.flatMap f)) := by
  induction ls with
  | nil => rfl
  | cons a ls ih =>
    cases ls with
    | nil => simp only [List.map_cons, List.map_nil, List.intercalate_singleton]
    | cons b ls =>
      rw [List.intercalate_cons_cons, List.flatMap_append, List.flatMap_append, ih, List.map_cons,
        List.map_cons, List.map_cons, List.intercalate_cons_cons]

/-- What holds of each two lines still does after a change of the first ones that keeps it. -/
theorem forall₂_modifyHead {α β : Type} {R : α → β → Prop} {as : List α} {bs : List β}
    (h : List.Forall₂ R as bs) {f : α → α} {g : β → β} (hfg : ∀ a b, R a b → R (f a) (g b)) :
    List.Forall₂ R (as.modifyHead f) (bs.modifyHead g) := by
  cases h with
  | nil => exact .nil
  | cons hab hrest => exact .cons (hfg _ _ hab) hrest

namespace Text

theorem splitOn_append_of_not_mem {c : Char} {front : Text} (h : c ∉ front) (t : Text) :
    (front ++ t).splitOn c = (t.splitOn c).modifyHead (front ++ ·) := by
  induction front with
  | nil => exact (congrFun List.modifyHead_id _).symm
  | cons d front ih =>
    obtain ⟨hd, hfront⟩ := not_or.mp (mt List.mem_cons.mpr h)
    rw [List.cons_append, List.splitOn_cons_eq_if_modifyHead, beq_false_of_ne (Ne.symm hd), ih hfront,
      List.modifyHead_modifyHead]
    rfl

/-- Replacing a character by a word puts the word between the pieces that the character divides the
text into. -/
theorem flatMap_replace (c : Char) (w t : Text) :
    t.flatMap (fun d => if d = c then w else [d]) = w.intercalate (t.splitOn c) := by
  induction t with
  | nil => rw [List.splitOn_nil, List.intercalate_singleton, List.flatMap_nil]
  | cons d t ih =>
    rw [List.flatMap_cons, ih, List.splitOn_cons_eq_if_modifyHead]
    by_cases hd : d = c
    · rw [if_pos hd, if_pos (beq_iff_eq.mpr hd),
        List.intercalate_cons_of_ne_nil (List.splitOn_ne_nil c t), List.nil_append]
    · rw [if_neg hd, if_neg (mt beq_iff_eq.mp hd)]
      obtain ⟨piece, pieces, hpieces⟩ := List.exists_cons_of_ne_nil (List.splitOn_ne_nil c t)
      rw [hpieces, List.modifyHead_cons]
      cases pieces with
      | nil => rw [List.intercalate_singleton, List.intercalate_singleton, List.singleton_append]
      | cons more pieces =>
        rw [List.intercalate_cons_cons, List.intercalate_cons_cons]
        rfl

end Text

end Highlighter
