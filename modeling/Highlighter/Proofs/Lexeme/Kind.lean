import Highlighter.Proofs.Lexeme.Finding
import Highlighter.Proofs.Rule.Tiles

/-! The rules of the languages by the kind of lexeme that each of them marks: its pattern, the
recognizer that finds what the pattern finds, and the tags that the rule puts around it. -/
namespace Highlighter

/-- A tag of a span. -/
inductive Tag where
  | start (c : Category)
  | stop
  deriving DecidableEq, Repr

namespace Tag

def text (s : Styler) : Tag → Text
  | start c => s.spanStart c
  | stop => Styler.spanEnd

end Tag

/-- The tags that a rule puts before and after what it has matched. -/
structure Wrap where
  front : List Tag
  back : List Tag
  deriving DecidableEq, Repr

namespace Wrap

/-- A whole span. -/
def around (c : Category) : Wrap := ⟨[.start c], [.stop]⟩

/-- The beginning of a span. -/
def opening (c : Category) : Wrap := ⟨[.start c], []⟩

/-- The end of a span. -/
def closing : Wrap := ⟨[], [.stop]⟩

def handler (w : Wrap) (s : Styler) : Handler := fun t =>
  w.front.flatMap (Tag.text s) ++ t ++ w.back.flatMap (Tag.text s)

theorem handler_ne_nil (w : Wrap) {s : Styler} {t : Text} (h : t ≠ []) : w.handler s t ≠ [] := by
  intro hnil
  obtain ⟨hfront, _⟩ := List.append_eq_nil_iff.mp hnil
  exact h (List.append_eq_nil_iff.mp hfront).2

theorem span_eq (s : Styler) (c : Category) : s.span c = (around c).handler s := by
  funext t
  simp only [Styler.span, Styler.openSpan, handler, around, List.flatMap_singleton, Tag.text]

theorem openSpan_eq (s : Styler) (c : Category) : s.openSpan c = (opening c).handler s := by
  funext t
  simp only [Styler.openSpan, handler, opening, List.flatMap_singleton, Tag.text, List.flatMap_nil,
    List.append_nil]

theorem closeSpan_eq (s : Styler) : Styler.closeSpan = closing.handler s := by
  funext t
  simp only [Styler.closeSpan, handler, closing, List.flatMap_singleton, Tag.text,
    List.flatMap_nil, List.nil_append]

end Wrap

namespace Lexeme

inductive Kind where
  | lineComment
  | blockComment
  | decorator
  | functionOpen
  | closingParen
  | string
  | radix
  | keyword
  | data
  deriving DecidableEq, Repr

namespace Kind

def pattern : Kind → Pattern
  | lineComment => .lineComment
  | blockComment => .blockComment
  | decorator => .decorator
  | functionOpen => .functionOpen
  | closingParen => .closingParen
  | string => .string
  | radix => .radix
  | keyword => .keyword
  | data => .data

def recognizer : Kind → Recognizer
  | lineComment => Lexeme.lineComment
  | blockComment => Lexeme.blockComment
  | decorator => Lexeme.decorator
  | functionOpen => Lexeme.functionOpen
  | closingParen => Lexeme.closingParen
  | string => Lexeme.string
  | radix => Lexeme.radix
  | keyword => Lexeme.keyword
  | data => Lexeme.data

def wrap : Kind → Wrap
  | lineComment => .around .comment
  | blockComment => .around .comment
  | decorator => .around .decorator
  | functionOpen => .opening .function
  | closingParen => .closing
  | string => .around .string
  | radix => .around .radix
  | keyword => .around .decorator
  | data => .around .data

def rule (s : Styler) (k : Kind) : Rule := .regex k.pattern (k.wrap.handler s)

/-- The source of each pattern is read as the pattern. -/
theorem ofText?_source (k : Kind) : Pattern.ofText? k.pattern.source = some k.pattern :=
  match k with
  | lineComment => Pattern.ofText?_lineComment
  | blockComment => Pattern.ofText?_blockComment
  | decorator => Pattern.ofText?_decorator
  | functionOpen => Pattern.ofText?_functionOpen
  | closingParen => Pattern.ofText?_closingParen
  | string => Pattern.ofText?_string
  | radix => Pattern.ofText?_radix
  | keyword => Pattern.ofText?_keyword
  | data => Pattern.ofText?_data

theorem sound (k : Kind) : Recognizer.Sound k.recognizer :=
  match k with
  | lineComment => sound_lineComment
  | blockComment => sound_blockComment
  | decorator => sound_decorator
  | functionOpen => sound_functionOpen
  | closingParen => sound_closingParen
  | string => sound_string
  | radix => sound_radix
  | keyword => sound_keyword
  | data => sound_data

theorem finds (k : Kind) (role : Regex.Role) (left right : Text) :
    k.pattern.regex.Finds role left right (k.recognizer id left.head? right) :=
  match k with
  | lineComment => Regex.finds_lineComment
  | blockComment => Regex.finds_blockComment
  | decorator => Regex.finds_decorator
  | functionOpen => Regex.finds_functionOpen
  | closingParen => Regex.finds_closingParen
  | string => Regex.finds_string
  | radix => Regex.finds_radix
  | keyword => Regex.finds_keyword
  | data => Regex.finds_data

theorem firm {k : Kind} (h : k ≠ lineComment) : Recognizer.Firm k.recognizer :=
  match k with
  | lineComment => absurd rfl h
  | blockComment => firm_blockComment
  | decorator => firm_decorator
  | functionOpen => firm_functionOpen
  | closingParen => firm_closingParen
  | string => firm_string
  | radix => firm_radix
  | keyword => firm_keyword
  | data => firm_data

/-- Where a pattern has an end, this is what its recognizer finds, and the other way round. -/
theorem endsAt_head? (k : Kind) (left right : Text) : (k.pattern.regex.endsAt left right).head? =
    (k.recognizer id left.head? right).map (Spot.past left) :=
  k.finds k.pattern.regex.lastRole left right

theorem endsAt_eq_nil {k : Kind} {left right : Text} :
    k.pattern.regex.endsAt left right = [] ↔ k.recognizer id left.head? right = none := by
  rw [← List.head?_eq_none_iff, endsAt_head?, Option.map_eq_none_iff]

theorem first?_of_recognizer {k : Kind} {left right u v : Text}
    (h : k.recognizer id left.head? right = some (u, v)) :
    k.pattern.regex.first? left right = some ⟨[], u, v⟩ := by
  have hhead := k.endsAt_head? left right
  rw [h, Option.map_some] at hhead
  obtain ⟨es, hes⟩ := List.head?_eq_some_iff.mp hhead
  obtain ⟨rfl, _⟩ := k.sound.divides h
  have hlen : (u ++ v).length - v.length = u.length := by
    rw [List.length_append, Nat.add_sub_cancel]
  rw [Regex.first?_of_ends hes]
  change some (Match.mk [] ((u ++ v).take ((u ++ v).length - v.length))
    ((u ++ v).drop ((u ++ v).length - v.length))) = _
  rw [hlen, List.take_left, List.drop_left]

/-- What the pattern matches is what the recognizer finds at some place. -/
theorem recognizer_of_first? {k : Kind} {left right : Text} {m : Match}
    (h : k.pattern.regex.first? left right = some m) :
    k.recognizer id (m.skipped.reverse ++ left).head? (m.matched ++ m.rest) =
      some (m.matched, m.rest) := by
  induction right generalizing left m with
  | nil =>
    cases hr : k.recognizer id left.head? [] with
    | none => exact absurd ((Regex.first?_nil (endsAt_eq_nil.mpr hr)).symm.trans h) (by simp)
    | some w =>
      obtain rfl := Option.some.inj ((first?_of_recognizer hr).symm.trans h)
      obtain ⟨hw, _⟩ := k.sound.divides hr
      exact hw ▸ hr
  | cons c right ih =>
    cases hr : k.recognizer id left.head? (c :: right) with
    | none =>
      rw [Regex.first?_cons (endsAt_eq_nil.mpr hr)] at h
      obtain ⟨m', hm', rfl⟩ := Option.map_eq_some_iff.mp h
      have hlater := ih hm'
      rw [Match.skipping, List.reverse_cons, List.append_assoc, List.singleton_append]
      exact hlater
    | some w =>
      obtain rfl := Option.some.inj ((first?_of_recognizer hr).symm.trans h)
      obtain ⟨hw, _⟩ := k.sound.divides hr
      exact hw ▸ hr

/-- Every match but that of a comment to the end of a line begins and ends with no space. -/
theorem solid {k : Kind} (h : k ≠ lineComment) : k.pattern.Solid := fun left right m hm => by
  have hr := recognizer_of_first? (Pattern.first?_of_found hm)
  exact ⟨(k.sound.divides hr).2, (firm h).last hr⟩

end Kind

end Lexeme

namespace Language

open Lexeme

/-- What the rules of a language mark, in their order. -/
def kinds : Language → List Kind
  | lavendeux => [.lineComment, .blockComment, .decorator, .functionOpen, .closingParen, .string,
      .radix, .data]
  | javascript => [.lineComment, .blockComment, .functionOpen, .closingParen, .string, .radix,
      .keyword, .data]

theorem regexRules_eq (s : Styler) (l : Language) :
    l.regexRules s = l.kinds.map (Kind.rule s) := by
  cases l <;>
    simp only [regexRules, spanRule, functionOpenRule, closingParenRule, Wrap.span_eq,
      Wrap.openSpan_eq, Wrap.closeSpan_eq s] <;> rfl

theorem length_regexRules (s : Styler) (l : Language) :
    (l.regexRules s).length = l.kinds.length := by
  rw [regexRules_eq, List.length_map]

/-- A rule in some place is the one for the kind of lexeme in this place. -/
theorem exists_kind {s : Styler} {l : Language} {i : Nat} {r : Rule}
    (h : (l.regexRules s)[i]? = some r) : ∃ k, l.kinds[i]? = some k ∧ r = k.rule s := by
  rw [regexRules_eq, List.getElem?_map] at h
  obtain ⟨k, hk, rfl⟩ := Option.map_eq_some_iff.mp h
  exact ⟨k, hk, rfl⟩

end Language

end Highlighter
