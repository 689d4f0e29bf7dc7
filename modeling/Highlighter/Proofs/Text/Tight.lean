import Highlighter.Text
import Mathlib.Tactic.Common

/-! Texts that begin and end with something else than white space. They are not empty, trimming leaves
them as they are, and they stay so with anything between two of them. -/
namespace Highlighter

/-- The text begins and ends with characters that are no white space. -/
structure Text.Tight (t : Text) : Prop where
  front : ∃ c, t.head? = some c ∧ Unicode.isWhiteSpace c = false
  back : ∃ c, t.getLast? = some c ∧ Unicode.isWhiteSpace c = false

namespace Text.Tight

variable {t u : Text}

theorem trim_eq (h : t.Tight) : t.trim = t := by
  have hdrop {u : Text} (hu : ∃ c, u.head? = some c ∧ Unicode.isWhiteSpace c = false) :
      u.dropWhile Unicode.isWhiteSpace = u := by
    obtain ⟨c, hhead, hc⟩ := hu
    obtain ⟨v, rfl⟩ := List.head?_eq_some_iff.mp hhead
    exact List.dropWhile_cons_of_neg (by rw [hc]; exact Bool.false_ne_true)
  have hback := h.back
  rw [← List.head?_reverse] at hback
  rw [trim, hdrop h.front, hdrop hback, List.reverse_reverse]

theorem of_forall (hne : t ≠ []) (h : ∀ c ∈ t, Unicode.isWhiteSpace c = false) : t.Tight where
  front := ⟨t.head hne, List.head?_eq_some_head hne, h _ (List.head_mem hne)⟩
  back := ⟨t.getLast hne, List.getLast?_eq_some_getLast hne, h _ (List.getLast_mem hne)⟩

/-- What stands between two tight texts does not matter. -/
theorem append (ht : t.Tight) (mid : Text) (hu : u.Tight) : Text.Tight (t ++ mid ++ u) where
  front := by
    obtain ⟨c, hc, hwhite⟩ := ht.front
    exact ⟨c, by rw [List.head?_append, List.head?_append, hc]; rfl, hwhite⟩
  back := by
    obtain ⟨c, hc, hwhite⟩ := hu.back
    exact ⟨c, by rw [List.getLast?_append, hc]; rfl, hwhite⟩

theorem intercalate {sep : Text} {ts : List Text} (hne : ts ≠ []) (h : ∀ t ∈ ts, t.Tight) :
    Text.Tight (sep.intercalate ts) := by
  induction ts with
  | nil => exact absurd rfl hne
  | cons t ts ih =>
    have ht := h t List.mem_cons_self
    cases ts with
    | nil => rwa [List.intercalate_singleton]
    | cons u ts =>
      rw [List.intercalate_cons_cons]
      exact ht.append sep (ih (List.cons_ne_nil u ts) fun v hv => h v (List.mem_cons_of_mem t hv))

end Text.Tight

theorem Text.tight_singleton {c : Char} (h : Unicode.isWhiteSpace c = false) : Text.Tight [c] :=
  .of_forall (List.cons_ne_nil c []) fun _ hd => List.mem_singleton.mp hd ▸ h

end Highlighter
