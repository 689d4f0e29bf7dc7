import Highlighter.Proofs.Lexeme.Kind
import Highlighter.Proofs.Rule.Replacing

/-! The matches of the languages' patterns in a text, character by character, as their recognizers
find them. Patterns of comments and strings look only ahead, so that it is the same text wherever it
stands. -/
namespace Highlighter

namespace Lexeme

theorem framed_blockComment {t u v : Text} (h : blockComment id none t = some (u, v)) :
    u.Framed := by
  obtain ⟨a, _, _, _, rfl, ha, h⟩ := after?_eq_some h
  obtain ⟨b, _, _, _, rfl, _, h⟩ := after?_eq_some h
  obtain ⟨_, c, hlast, hc⟩ := upToClose_eq_some h
  have hslash : ('/' : Char).utf8Size = 1 ∧ '/' ≠ ' ' := by decide
  obtain rfl : a = '/' := of_decide_eq_true ha
  obtain rfl : c = '/' := hc
  exact ⟨⟨_, rfl, hslash⟩,
    ⟨_, by rw [List.getLast?_cons_cons, List.getLast?_cons, hlast]; rfl, hslash⟩⟩

theorem framed_string {t u v : Text} (h : string id none t = some (u, v)) : u.Framed := by
  obtain ⟨a, _, _, _, rfl, ha, h⟩ := after?_eq_some h
  obtain ⟨_, c, hlast, hc⟩ := upToQuote_eq_some h
  obtain rfl : c = a := hc
  have hquote : c.utf8Size = 1 ∧ c ≠ ' ' := by
    rcases isQuote_iff.mp ha with rfl | rfl <;> decide
  exact ⟨⟨_, rfl, hquote⟩, ⟨_, by rw [List.getLast?_cons, hlast]; rfl, hquote⟩⟩

namespace Kind

variable {k : Kind} {left right u v : Text}

theorem successive_of_recognizer (h : k.recognizer id left.head? right = some (u, v)) :
    k.pattern.regex.successive left right =
      ⟨[], u, v⟩ :: k.pattern.regex.successive (u.reverse ++ left) v :=
  Regex.successive_of_ne (first?_of_recognizer h) (k.sound.ne_nil h)

theorem successive_nil (k : Kind) (left : Text) : k.pattern.regex.successive left [] = [] :=
  Regex.successive_of_none (Regex.first?_nil (endsAt_eq_nil.mpr (k.sound.eq_none_of_nil id _)))

theorem successive_cons {c : Char} (h : k.recognizer id left.head? (c :: right) = none) :
    k.pattern.regex.successive left (c :: right) =
      (k.pattern.regex.successive (c :: left) right).modifyHead (Match.skipping c) :=
  Regex.successive_cons (endsAt_eq_nil.mpr h)

/-- Block comments and strings begin and end with characters of ASCII. -/
theorem framed_of_first? (hk : k = blockComment ∨ k = string) {m : Match}
    (h : k.pattern.regex.first? left right = some m) : Text.Framed m.matched := by
  rcases hk with rfl | rfl
  · exact framed_blockComment (recognizer_of_first? h)
  · exact framed_string (recognizer_of_first? h)

/-- The rules for block comments and strings replace all matches of the remainder. -/
theorem edit_replaces (hk : k = blockComment ∨ k = string) (handler : Handler) {b : Buffers}
    (hb : b.Mirrored) :
    let ms := k.pattern.regex.successive [] b.remainder
    Match.replaceBoth? handler ms b = some ((Rule.regex k.pattern handler).apply b) ∧
      ∃ d, (Rule.regex k.pattern handler).edit b = .ok d ∧
        d.buffers = (Rule.regex k.pattern handler).apply b ∧
        Substitution.origins 0 0 d.log = Match.ranges 0 ms := by
  refine Rule.edit_replaces_of_mirrored handler ?_ ?_ (fun _ _ _ => framed_of_first? hk) hb
  · rcases hk with rfl | rfl <;> rfl
  · rcases hk with rfl | rfl <;> rfl

end Kind

end Lexeme

end Highlighter
