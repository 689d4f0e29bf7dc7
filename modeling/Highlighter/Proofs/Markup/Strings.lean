import Highlighter.Proofs.Lexeme.Fading
import Highlighter.Proofs.Lexeme.Successive

/-! The string rule against a reading of quotes from left to right. A string ends at the first quote
that no backslash escapes; where all further quotes of its kind are escaped it still ends at one of
them, and where there is none it does not begin. -/
namespace Highlighter

namespace Text

/-- A text up to the first unescaped quote, with this quote, and the rest. A backslash takes the
character behind it along, unless that is a newline. -/
def upToUnescaped? (quote : Char) : Text → Option (Text × Text)
  | [] => none
  | [a] => if a = quote then some ([a], []) else none
  | a :: b :: t =>
    if a = quote then some ([a], b :: t)
    else if a = '\\' ∧ b ≠ '\n' then (upToUnescaped? quote t).map fun (u, v) => (a :: b :: u, v)
    else (upToUnescaped? quote (b :: t)).map fun (u, v) => (a :: u, v)

/-- A string can end with `u`, if its opening quote is followed by `u` and `v`: at the first unescaped
quote if there is one, and in any case behind a quote before which all others are escaped. -/
structure EndsString (quote : Char) (u v : Text) : Prop where
  last : u.getLast? = some quote
  unescaped : ∀ w, upToUnescaped? quote (u ++ v) = some w → w = (u, v)
  inside : ∀ x y, u = x ++ quote :: y → y ≠ [] → x.getLast? = some '\\'

/-- The matches are the strings of a text, read from left to right. -/
inductive Strings : Text → List Match → Prop
  | done : Strings [] []
  /-- A character that is no quote. -/
  | other {c : Char} {t : Text} {ms : List Match} (hc : Lexeme.isQuote c = false)
      (later : Strings t ms) : Strings (c :: t) (ms.modifyHead (Match.skipping c))
  /-- A quote with no other one of its kind behind it. -/
  | alone {quote : Char} {t : Text} {ms : List Match} (hquote : Lexeme.isQuote quote = true)
      (ht : quote ∉ t) (later : Strings t ms) :
      Strings (quote :: t) (ms.modifyHead (Match.skipping quote))
  /-- A quote that opens a string. -/
  | string {quote : Char} {u v : Text} {ms : List Match} (hquote : Lexeme.isQuote quote = true)
      (hu : EndsString quote u v) (later : Strings v ms) :
      Strings (quote :: (u ++ v)) (⟨[], quote :: u, v⟩ :: ms)

end Text

namespace Lexeme

open Text (upToUnescaped? EndsString Strings)

variable {quote : Char} {t u v : Text}

/-- Where there is an unescaped quote, the pattern goes up to it. -/
theorem upToQuote_of_upToUnescaped? {w : Text × Text} (h : upToUnescaped? quote t = some w) :
    upToQuote quote id t = some w := by
  fun_induction upToUnescaped? quote t generalizing w with
  | case1 => exact absurd h (by simp)
  | case2 | case4 => exact (if_pos rfl).trans h
  | case3 => exact absurd h (by simp)
  | case5 a b t ha hab ih =>
    obtain ⟨w', hw', rfl⟩ := Option.map_eq_some_iff.mp h
    rw [upToQuote, if_neg (by exact ha), if_pos (by exact hab), ih hw']
    rfl
  | case6 a b t ha hab ih =>
    obtain ⟨w', hw', rfl⟩ := Option.map_eq_some_iff.mp h
    rw [upToQuote, if_neg (by exact ha), if_neg (by exact hab), ih hw']
    rfl

theorem getLast?_cons_of_some {a d : Char} {x : Text} (h : x.getLast? = some d) :
    (a :: x).getLast? = some d := by
  rw [List.getLast?_cons, h]
  rfl

/-- What a text begins with belongs to the part of it before a quote, if it is no such quote. -/
theorem exists_cons_of_append_eq {a : Char} {x y : Text} (ha : a ≠ quote)
    (h : a :: u = x ++ quote :: y) : ∃ x', x = a :: x' ∧ u = x' ++ quote :: y := by
  cases x with
  | nil => exact absurd (List.cons.inj h).1 ha
  | cons b x =>
    obtain ⟨rfl, hu⟩ := List.cons.inj h
    exact ⟨x, rfl, hu⟩

/-- Before the quote that closes a string, all others of its kind are escaped. -/
theorem escaped_of_upToQuote (h : upToQuote quote id t = some (u, v)) {x y : Text}
    (hu : u = x ++ quote :: y) (hy : y ≠ []) : x.getLast? = some '\\' := by
  have hone {a : Char} {x : Text} (hu : [a] = x ++ quote :: y) : y = [] := by
    have hlen := congrArg List.length hu
    simp only [List.length_append, List.length_cons, List.length_nil] at hlen
    exact List.length_eq_zero_iff.mp (by omega)
  fun_induction upToQuote quote id t generalizing u x with
  | case1 | case3 => exact absurd h (by simp)
  | case2 | case4 =>
    obtain ⟨rfl, _⟩ := Prod.mk.inj (Option.some.inj h)
    exact absurd (hone hu) hy
  | case5 a b t ha hab ihescape ihplain =>
    rcases Option.or_eq_some_iff.mp h with h | ⟨_, h⟩
    · obtain ⟨u', hu', rfl⟩ := map_prepend_eq_some h
      obtain ⟨x, rfl, hrest⟩ := exists_cons_of_append_eq ha hu
      cases x with
      | nil => exact congrArg some hab.1
      | cons c x =>
        obtain ⟨_, hlater⟩ := List.cons.inj hrest
        exact getLast?_cons_of_some (getLast?_cons_of_some (ihescape hu' hlater))
    · obtain ⟨u', hu', rfl⟩ := map_prepend_eq_some h
      obtain ⟨x, rfl, hrest⟩ := exists_cons_of_append_eq ha hu
      exact getLast?_cons_of_some (ihplain hu' hrest)
  | case6 a b t ha hab ih =>
    obtain ⟨u', hu', rfl⟩ := map_prepend_eq_some h
    obtain ⟨x, rfl, hrest⟩ := exists_cons_of_append_eq ha hu
    exact getLast?_cons_of_some (ih hu' hrest)

theorem endsString_of_upToQuote (h : upToQuote quote id t = some (u, v)) :
    t = u ++ v ∧ EndsString quote u v := by
  obtain ⟨rfl, a, hlast, ha⟩ := upToQuote_eq_some h
  obtain rfl : a = quote := ha
  refine ⟨rfl, hlast, fun w hw => ?_, fun x y => escaped_of_upToQuote h⟩
  exact Option.some.inj ((upToQuote_of_upToUnescaped? hw).symm.trans h)

/-- No string begins at a quote that is the last of its kind. -/
theorem not_mem_of_string_eq_none {c : Char} (hc : isQuote c = true)
    (h : string id none (c :: t) = none) : c ∉ t := by
  rw [string, after?_cons_of_pos hc, Option.map_eq_none_iff] at h
  exact fun hmem => upToQuote_eq_none_iff.mp h c hmem rfl

/-- A string begins with a quote and ends with the first one that can end it. -/
theorem endsString_of_string {c : Char} (h : string id none (c :: t) = some (u, v)) :
    isQuote c = true ∧ ∃ u', u = c :: u' ∧ t = u' ++ v ∧ EndsString c u' v := by
  obtain ⟨_, _, u', ht, rfl, hc, h⟩ := after?_eq_some h
  obtain ⟨rfl, rfl⟩ := List.cons.inj ht
  exact ⟨hc, u', rfl, endsString_of_upToQuote h⟩

/-- The matches of the pattern are the strings of the text. -/
theorem strings_successive (left t : Text) :
    Strings t (Kind.string.pattern.regex.successive left t) := by
  cases t with
  | nil =>
    rw [Kind.successive_nil]
    exact .done
  | cons c t =>
    -- The recognizer decides what stands next; the recursion goes on behind it.
    cases hr : Kind.string.recognizer id left.head? (c :: t) with
    | none =>
      have hlater := strings_successive (c :: left) t
      rw [Kind.successive_cons hr]
      cases hc : isQuote c with
      | false => exact .other hc hlater
      | true => exact .alone hc (not_mem_of_string_eq_none hc hr) hlater
    | some w =>
      obtain ⟨u, v⟩ := w
      rw [Kind.successive_of_recognizer hr]
      obtain ⟨hc, u', rfl, rfl, hends⟩ := endsString_of_string hr
      exact .string hc hends (strings_successive _ v)
  termination_by t.length

end Lexeme

/-- Outside its strings a text has at most one quote of each kind. -/
theorem Text.Strings.count_le {t : Text} {ms : List Match} (h : Strings t ms) {quote : Char}
    (hquote : Lexeme.isQuote quote = true) :
    (quote ∉ t → (Match.replaceEach (fun _ => []) ms t).count quote = 0) ∧
      (Match.replaceEach (fun _ => []) ms t).count quote ≤ 1 := by
  -- A lone quote is the last of its kind, so that the first part counts for what is behind it.
  induction h with
  | done => exact ⟨fun _ => rfl, Nat.zero_le 1⟩
  | @other c t ms hc _ ih =>
    have hne : c ≠ quote := by
      rintro rfl
      exact Bool.false_ne_true (hc.symm.trans hquote)
    rw [Match.replaceEach_skipping, List.count_cons_of_ne hne]
    exact ⟨fun hmem => ih.1 (mt (List.mem_cons_of_mem c) hmem), ih.2⟩
  | @alone c t ms _ ht _ ih =>
    rw [Match.replaceEach_skipping]
    by_cases hc : c = quote
    · subst hc
      rw [List.count_cons_self, ih.1 ht]
      exact ⟨fun hmem => absurd List.mem_cons_self hmem, Nat.le_refl 1⟩
    · rw [List.count_cons_of_ne hc]
      exact ⟨fun hmem => ih.1 (mt (List.mem_cons_of_mem c) hmem), ih.2⟩
  | @string c u v ms _ _ _ ih =>
    change (_ → (Match.replaceEach _ ms v).count quote = 0) ∧
      (Match.replaceEach _ ms v).count quote ≤ 1
    exact ⟨fun hmem => ih.1 fun h => hmem (List.mem_cons_of_mem c (List.mem_append_right u h)), ih.2⟩

namespace Language

open Lexeme

/-- The string rule reads the quotes of the remainder from left to right, in every state whose
remainder mirrors the result. A string ends at the first unescaped quote of its kind, or else behind
some later one with a backslash before all others in between; a quote with no other one of its kind
behind it begins no string. These strings and nothing else are put into spans, and at most one quote
of each kind remains. -/
theorem strings_read (s : Styler) (b : Buffers) (hb : b.Mirrored) :
    let b' := (spanRule s .string .string).apply b
    ∃ ms, Text.Strings b.remainder ms ∧
      Match.replaceBoth? (s.span .string) ms b = some b' ∧
      (∃ d, (spanRule s .string .string).edit b = .ok d ∧ d.buffers = b' ∧
        Substitution.origins 0 0 d.log = Match.ranges 0 ms) ∧
      b'.remainder.count '"' ≤ 1 ∧ b'.remainder.count '\'' ≤ 1 := by
  intro b'
  have hstrings := strings_successive [] b.remainder
  obtain ⟨hboth, hedit⟩ := Kind.edit_replaces (k := .string) (Or.inr rfl) (s.span .string) hb
  have hcount {quote : Char} (hquote : isQuote quote = true) : b'.remainder.count quote ≤ 1 :=
    Nat.le_trans (Nat.le_of_eq (Match.count_of_replaceBoth? hboth (ne_space_of_isQuote hquote)))
      (hstrings.count_le hquote).2
  exact ⟨_, hstrings, hboth, hedit, hcount rfl, hcount rfl⟩

/-- A string with an escaped quote, one that has no other quote to end at, and a lone quote, behind
markup. -/
theorem strings_read_of_escapes :
    let s : Styler := ⟨.byClass, .default, []⟩
    let b : Buffers := ⟨"¥'a\\'b' \"c\\\" '", "  'a\\'b' \"c\\\" '"⟩
    let b' := (spanRule s .string .string).apply b
    b.Mirrored ∧
      b'.result =
        "¥<span class='string'>'a\\'b'</span> <span class='string'>\"c\\\"</span> '" ∧
      ∃ ms, Text.Strings b.remainder ms ∧
        Match.replaceBoth? (s.span .string) ms b = some b' ∧
        (∃ d, (spanRule s .string .string).edit b = .ok d ∧ d.buffers = b' ∧
          Substitution.origins 0 0 d.log = Match.ranges 0 ms) ∧
        b'.remainder.count '"' ≤ 1 ∧ b'.remainder.count '\'' ≤ 1 := by
  intro s b b'
  have hb : b.Mirrored := (Buffers.mirrored_iff b).mpr (by unfold Text.Mirrors; decide)
  have hb' : b'.result =
      "¥<span class='string'>'a\\'b'</span> <span class='string'>\"c\\\"</span> '" := by
    decide +kernel
  exact ⟨hb, hb', strings_read s b hb⟩

end Language

end Highlighter
