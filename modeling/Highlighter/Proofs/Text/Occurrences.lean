import Highlighter.Style
import Mathlib.Tactic.Common

/-! How often the tags of spans occur in a text, and when spans are well nested. A text that is made of
pieces with a `<` only at the beginning is counted piece by piece (`Adds`), and so are its prefixes
(`Nests`). -/
namespace Highlighter

namespace Text

/-- At how many places of a text the word begins. -/
def occurrences (w : Text) : Text → Nat
  | [] => 0
  | c :: t => (if w.isPrefixOf (c :: t) then 1 else 0) + occurrences w t

/-- The number of tags that open a span. -/
def spanOpens (t : Text) : Nat := occurrences "<span" t

/-- The number of tags that close a span. -/
def spanCloses (t : Text) : Nat := occurrences "</span>" t

/-- No part of the text from the beginning on closes more spans than it opens, and in the end all are
closed. -/
structure WellNested (t : Text) : Prop where
  prefixes : ∀ p, p <+: t → spanCloses p ≤ spanOpens p
  total : spanCloses t = spanOpens t

theorem isPrefixOf_cons_of_ne {a c : Char} (h : c ≠ a) (w t : Text) :
    (a :: w).isPrefixOf (c :: t) = false := by
  simp [List.isPrefixOf, Ne.symm h]

/-- A word that begins with `<` does not begin within a text without that character. -/
theorem occurrences_append_of_free {a : Text} (h : '<' ∉ a) (w rest : Text) :
    occurrences ('<' :: w) (a ++ rest) = occurrences ('<' :: w) rest := by
  induction a with
  | nil => rfl
  | cons c a ih =>
    obtain ⟨hc, ha⟩ := not_or.mp (mt List.mem_cons.mpr h)
    rw [List.cons_append, occurrences, isPrefixOf_cons_of_ne (Ne.symm hc), ih ha,
      if_neg Bool.false_ne_true, Nat.zero_add]

theorem occurrences_of_free {a : Text} (h : '<' ∉ a) (w : Text) :
    occurrences ('<' :: w) a = 0 := by
  have happend := occurrences_append_of_free h w []
  rwa [List.append_nil] at happend

/-- The text opens and closes so many spans wherever it stands, and closes none before its end. -/
structure Adds (t : Text) (opens closes : Nat) : Prop where
  opens_append : ∀ rest, spanOpens (t ++ rest) = opens + spanOpens rest
  closes_append : ∀ rest, spanCloses (t ++ rest) = closes + spanCloses rest
  within : ∀ q, q <+: t → q ≠ t → spanCloses q = 0

theorem adds_of_free {t : Text} (h : '<' ∉ t) : Adds t 0 0 where
  opens_append rest := (occurrences_append_of_free h _ rest).trans (Nat.zero_add _).symm
  closes_append rest := (occurrences_append_of_free h _ rest).trans (Nat.zero_add _).symm
  within _ hq _ := occurrences_of_free (fun hmem => h (hq.subset hmem)) _

section Tags

variable {body : Text} {opens closes : Nat}

/-- A tag counts by its first characters alone. -/
theorem adds_of_tag (h : '<' ∉ body)
    (ho : ∀ rest, (if ("<span" : Text).isPrefixOf ('<' :: (body ++ rest)) then 1 else 0) = opens)
    (hc : ∀ rest, (if ("</span>" : Text).isPrefixOf ('<' :: (body ++ rest)) then 1 else 0) = closes)
    (hw : ∀ q, q <+: '<' :: body → q ≠ '<' :: body → ("</span>" : Text).isPrefixOf q = false) :
    Adds ('<' :: body) opens closes where
  opens_append rest := by
    rw [List.cons_append, spanOpens, occurrences, ho]
    exact congrArg (opens + ·) (occurrences_append_of_free h _ rest)
  closes_append rest := by
    rw [List.cons_append, spanCloses, occurrences, hc]
    exact congrArg (closes + ·) (occurrences_append_of_free h _ rest)
  within q hq hne := by
    cases q with
    | nil => rfl
    | cons c q =>
      rw [spanCloses, occurrences, hw _ hq hne]
      have hsub : '<' ∉ q := fun hmem => h ((List.cons_prefix_cons.mp hq).2.subset hmem)
      exact congrArg (0 + ·) (occurrences_of_free hsub _)

/-- A tag that closes no span. -/
theorem adds_of_other_tag (h : '<' ∉ body)
    (ho : ∀ rest, (if ("<span" : Text).isPrefixOf ('<' :: (body ++ rest)) then 1 else 0) = opens)
    (hc : ∀ rest, ("</span>" : Text).isPrefixOf ('<' :: (body ++ rest)) = false) :
    Adds ('<' :: body) opens 0 := by
  refine adds_of_tag h ho (fun rest => by rw [hc rest]; rfl) fun q hq _ => ?_
  rw [← Bool.not_eq_true, List.isPrefixOf_iff_prefix]
  intro hpre
  have hbody := List.isPrefixOf_iff_prefix.mpr (hpre.trans hq)
  rw [← List.append_nil body, hc []] at hbody
  exact Bool.false_ne_true hbody

end Tags

theorem adds_spanEnd : Adds Styler.spanEnd 0 1 := by
  have hbody : '<' ∉ ("/span>" : Text) := by decide
  refine adds_of_tag hbody (fun _ => rfl) (fun _ => rfl) fun q hq hne => ?_
  rw [← Bool.not_eq_true, List.isPrefixOf_iff_prefix]
  exact fun hpre => hne (hq.eq_of_length_le hpre.length_le)

/-- A prefix ends within the text and closes no span, or it goes on behind the text. -/
theorem Adds.split {p t rest : Text} {opens closes : Nat} (ht : Adds t opens closes)
    (h : p <+: t ++ rest) : spanCloses p = 0 ∨ ∃ q, q <+: rest ∧ p = t ++ q := by
  rcases List.prefix_or_prefix_of_prefix h (List.prefix_append t rest) with hp | ⟨q, rfl⟩
  · by_cases heq : p = t
    · exact Or.inr ⟨[], List.nil_prefix, by rw [heq, List.append_nil]⟩
    · exact Or.inl (ht.within p hp heq)
  · exact Or.inr ⟨q, (List.prefix_append_right_inj t).mp h, rfl⟩

/-- Texts in a row, of which only the last one closes spans. -/
theorem Adds.append {t t' : Text} {opens opens' closes : Nat} (h : Adds t opens 0)
    (h' : Adds t' opens' closes) : Adds (t ++ t') (opens + opens') closes where
  opens_append rest := by
    rw [List.append_assoc, h.opens_append, h'.opens_append, Nat.add_assoc]
  closes_append rest := by
    rw [List.append_assoc, h.closes_append, h'.closes_append, Nat.zero_add]
  within q hq hne := by
    rcases h.split hq with hnone | ⟨q', hq', rfl⟩
    · exact hnone
    · rw [h.closes_append, h'.within q' hq' fun heq => hne (congrArg (t ++ ·) heq)]

/-- The text leads from so many open spans to so many, and never closes one that is not open. -/
inductive Nests : (before after : Nat) → Text → Prop
  | nil (n : Nat) : Nests n n []
  | add {t rest : Text} {opens closes n m k : Nat} (ht : Adds t opens closes)
      (hn : n + opens = k + closes) (later : Nests k m rest) : Nests n m (t ++ rest)

theorem Nests.prefixes {n m : Nat} {t : Text} (h : Nests n m t) :
    ∀ p, p <+: t → spanCloses p ≤ n + spanOpens p := by
  induction h with
  | nil n =>
    intro p hp
    rw [List.prefix_nil.mp hp]
    exact Nat.zero_le _
  | add ht hn _ ih =>
    intro p hp
    rcases ht.split hp with hnone | ⟨q, hq, rfl⟩
    · rw [hnone]
      exact Nat.zero_le _
    · have hlater := ih q hq
      rw [ht.closes_append, ht.opens_append]
      omega

theorem Nests.total {n m : Nat} {t : Text} (h : Nests n m t) :
    n + spanOpens t = m + spanCloses t := by
  induction h with
  | nil n => rfl
  | add ht hn _ ih =>
    rw [ht.opens_append, ht.closes_append]
    omega

theorem Nests.wellNested {t : Text} (h : Nests 0 0 t) : WellNested t where
  prefixes p hp := by simpa only [Nat.zero_add] using h.prefixes p hp
  total := by simpa only [Nat.zero_add] using h.total.symm

end Text

end Highlighter
