import Highlighter.Proofs.Lexeme.Fading
import Highlighter.Proofs.Lexeme.Kind
import Mathlib.Data.List.Chain

/-! A line break parts what is found before it from what is found after it. Only strings and block
comments may run over the end of a line; where none begins in what stands before the break, every
recognizer finds there what it finds where the text ends at the break (`Kind.recognizer_break`), and
behind the break it finds what it finds at the beginning of a text (`Kind.recognizer_behind_break`). -/
namespace Highlighter

open Lexeme

variable {α : Type} {sym : α → Char}

/-- Nothing that may run over the end of a line begins in the row: it shows no quote, and no `*` right
after a `/`. -/
structure WithinLines (sym : α → Char) (l : List α) : Prop where
  noQuote : ∀ a ∈ l, isQuote (sym a) = false
  noOpening : l.IsChain fun a b => ¬ (sym a = '/' ∧ sym b = '*')

namespace WithinLines

variable {a : α} {l l' : List α}

theorem of_cons (h : WithinLines sym (a :: l)) : WithinLines sym l where
  noQuote b hb := h.noQuote b (List.mem_cons_of_mem a hb)
  noOpening := h.noOpening.tail

theorem of_append {u v : List α} (h : WithinLines sym (u ++ v)) : WithinLines sym v := by
  induction u with
  | nil => exact h
  | cons a u ih => exact ih h.of_cons

/-- A row stays so however it fades. -/
theorem fades (h : WithinLines sym l) (hf : Fades sym l l') : WithinLines sym l' where
  noQuote a ha := by
    cases hq : isQuote (sym a) with
    | false => rfl
    | true =>
      have hmem := hf.mem ha (ne_space_of_isQuote hq)
      exact absurd ((h.noQuote a hmem).symm.trans hq) Bool.false_ne_true
  noOpening := by
    have hchain := h.noOpening
    clear h
    -- A blank is no part of `/*`, and what shows right after a mark that is kept was there before.
    have hblank {b : α} {r : List α} (hb : sym b = ' ')
        (hr : r.IsChain fun a b => ¬ (sym a = '/' ∧ sym b = '*')) :
        (b :: r).IsChain fun a b => ¬ (sym a = '/' ∧ sym b = '*') := by
      cases r with
      | nil => exact List.IsChain.singleton b
      | cons c r =>
        refine List.isChain_cons_cons.mpr ⟨fun hopen => ?_, hr⟩
        exact absurd (hb.symm.trans hopen.1) (by decide)
    induction hf with
    | nil => exact List.IsChain.nil
    | @keep a l l' hf ih =>
      cases l' with
      | nil => exact List.IsChain.singleton a
      | cons b l' =>
        refine List.isChain_cons_cons.mpr ⟨fun hopen => ?_, ih hchain.tail⟩
        obtain ⟨r, rfl, _⟩ := hf.cons_of_ne (by rw [hopen.2]; decide)
        exact (List.isChain_cons_cons.mp hchain).1 hopen
    | blank a hb _ ih => exact hblank hb (ih hchain.tail)
    | insert hb _ ih => exact hblank hb (ih hchain)

/-- A text shows no more than its characters. -/
theorem of_text {t : Text} (hdouble : '"' ∉ t) (hsingle : '\'' ∉ t) (hopen : ¬ "/*".toList <:+: t) :
    WithinLines id t where
  noQuote c hc := by
    rw [← Bool.not_eq_true]
    intro hq
    rcases isQuote_iff.mp hq with rfl | rfl
    · exact hdouble hc
    · exact hsingle hc
  noOpening := by
    induction t with
    | nil => exact List.IsChain.nil
    | cons c t ih =>
      have hlater := ih (fun hc => hdouble (List.mem_cons_of_mem c hc))
        (fun hc => hsingle (List.mem_cons_of_mem c hc))
        fun hrest => hopen (hrest.trans (List.suffix_cons c t).isInfix)
      cases t with
      | nil => exact List.IsChain.singleton c
      | cons d t =>
        refine List.isChain_cons_cons.mpr ⟨?_, hlater⟩
        rintro ⟨rfl, rfl⟩
        exact hopen ⟨[], t, rfl⟩

end WithinLines

namespace Lexeme

/-- The division of a longer list that leaves what comes after the list to the rest. -/
def extend (more : List α) (w : List α × List α) : List α × List α := (w.1, w.2 ++ more)

section Break

variable {n : α} {r : List α}

theorem map_prepend_extend (x more : List α) (o : Option (List α × List α)) :
    (o.map (extend more)).map (prepend x) = (o.map (prepend x)).map (extend more) := by
  cases o <;> rfl

theorem or_map_extend (more : List α) (o o' : Option (List α × List α)) :
    (o.map (extend more)).or (o'.map (extend more)) = (o.or o').map (extend more) := by
  cases o <;> rfl

theorem takeWhile_break {P : Char → Bool} (hn : P (sym n) = false) (l : List α) :
    (l ++ n :: r).takeWhile (P ∘ sym) = l.takeWhile (P ∘ sym) := by
  have hstop : ¬ (P ∘ sym) n = true := by
    rw [Function.comp_apply, hn]
    exact Bool.false_ne_true
  induction l with
  | nil => exact List.takeWhile_cons_of_neg hstop
  | cons a l ih => rw [List.cons_append, List.takeWhile_cons, List.takeWhile_cons, ih]

theorem dropWhile_break {P : Char → Bool} (hn : P (sym n) = false) (l : List α) :
    (l ++ n :: r).dropWhile (P ∘ sym) = l.dropWhile (P ∘ sym) ++ n :: r := by
  have hall : l.takeWhile (P ∘ sym) ++ (l ++ n :: r).dropWhile (P ∘ sym) = l ++ n :: r := by
    rw [← takeWhile_break hn l, List.takeWhile_append_dropWhile]
  apply List.append_cancel_left (hall.trans _)
  rw [← List.append_assoc, List.takeWhile_append_dropWhile]

theorem run?_break {set : CharSet} (hn : set.has (sym n) = false) (l : List α) :
    run? set sym (l ++ n :: r) = (run? set sym l).map (extend (n :: r)) := by
  have htake := takeWhile_break (r := r) hn l
  by_cases hl : l.takeWhile (set.has ∘ sym) = []
  · rw [run?_of_eq hl, run?_of_eq (htake.trans hl)]
    rfl
  · rw [run?_of_ne hl, run?_of_ne (by rw [htake]; exact hl), htake, dropWhile_break hn]
    rfl

theorem after?_break {first : Char → Bool} {later : Char → List α → Option (List α × List α)}
    (hn : first (sym n) = false)
    (hlater : ∀ c l, later c (l ++ n :: r) = (later c l).map (extend (n :: r))) (l : List α) :
    after? first sym later (l ++ n :: r) = (after? first sym later l).map (extend (n :: r)) := by
  cases l with
  | nil => exact after?_cons_of_neg hn r
  | cons a l =>
    rw [List.cons_append]
    cases ha : first (sym a) with
    | true => rw [after?_cons_of_pos ha, after?_cons_of_pos ha, hlater, map_prepend_extend]
    | false =>
      rw [after?_cons_of_neg ha, after?_cons_of_neg ha]
      rfl

variable (hn : sym n = '\n')

include hn

theorem lineComment_break (prev : Option Char) (l : List α) :
    lineComment sym prev (l ++ n :: r) = (lineComment sym prev l).map (extend (n :: r)) := by
  have hslash : decide (sym n = '/') = false := by rw [hn]; decide
  have hline : CharSet.notNewline.has (sym n) = false := by rw [hn]; decide
  refine after?_break hslash (fun _ => after?_break hslash fun _ l => ?_) l
  rw [line, takeWhile_break hline, dropWhile_break hline]
  rfl

theorem decorator_break (prev : Option Char) (l : List α) :
    decorator sym prev (l ++ n :: r) = (decorator sym prev l).map (extend (n :: r)) :=
  after?_break (by rw [hn]; decide) (fun _ => run?_break (by rw [hn]; decide)) l

theorem functionOpen_break (prev : Option Char) (l : List α) :
    functionOpen sym prev (l ++ n :: r) = (functionOpen sym prev l).map (extend (n :: r)) := by
  unfold functionOpen
  rw [run?_break (by rw [hn]; decide)]
  cases run? Pattern.nameSet sym l with
  | none => rfl
  | some w =>
    have hparen : decide (sym n = '(') = false := by rw [hn]; decide
    rw [Option.map_some, Option.bind_some, Option.bind_some, extend]
    dsimp only
    rw [after?_break hparen fun _ _ => rfl, map_prepend_extend]

theorem closingParen_break (prev : Option Char) (l : List α) :
    closingParen sym prev (l ++ n :: r) = (closingParen sym prev l).map (extend (n :: r)) :=
  after?_break (by rw [hn]; decide) (fun _ _ => rfl) l

theorem radix_break (prev : Option Char) (l : List α) :
    radix sym prev (l ++ n :: r) = (radix sym prev l).map (extend (n :: r)) :=
  after?_break (by rw [hn]; rfl) (fun _ => run?_break (by rw [hn]; decide)) l

/-- A word may end at the break. -/
theorem word?_break {w : Text} (hw : '\n' ∉ w) (l : List α) :
    word? sym w (l ++ n :: r) = (word? sym w l).map (extend (n :: r)) := by
  induction w generalizing l with
  | nil =>
    have hword : Unicode.isWord (sym n) = false := by
      rw [hn]
      decide
    cases l with
    | nil => exact if_neg (by rw [List.nil_append, List.head?_cons, Option.any_some,
        Function.comp_apply, hword]; exact Bool.false_ne_true)
    | cons a l =>
      rw [List.cons_append, word?, word?, List.head?_cons, List.head?_cons]
      split <;> rfl
  | cons c w ih =>
    obtain ⟨hc, hw⟩ := not_or.mp (mt List.mem_cons.mpr hw)
    exact after?_break (by rw [hn]; exact decide_eq_false hc) (fun _ => ih hw) l

theorem keyword_break (prev : Option Char) (l : List α) :
    keyword sym prev (l ++ n :: r) = (keyword sym prev l).map (extend (n :: r)) := by
  unfold keyword
  rw [word?_break hn (by decide), word?_break hn (by decide), or_map_extend]
  split <;> rfl

theorem exponent?_break (l : List α) :
    exponent? sym (l ++ n :: r) = (exponent? sym l).map (extend (n :: r)) :=
  after?_break (by rw [hn]; decide)
    (fun _ => after?_break (by rw [hn]; decide) fun _ _ => rfl) l

theorem data_break (prev : Option Char) (l : List α) :
    data sym prev (l ++ n :: r) = (data sym prev l).map (extend (n :: r)) := by
  unfold data
  rw [run?_break (by rw [hn]; decide), Option.map_map, Option.map_map]
  refine congrArg ((run? Pattern.dataSet sym l).map ·) (funext fun w => ?_)
  change prepend w.1 ((exponent? sym (w.2 ++ n :: r)).getD ([], w.2 ++ n :: r)) =
    extend (n :: r) (prepend w.1 ((exponent? sym w.2).getD ([], w.2)))
  rw [exponent?_break hn]
  cases exponent? sym w.2 <;> rfl

theorem blockComment_break {l : List α} (h : WithinLines sym l) (prev : Option Char) :
    blockComment sym prev (l ++ n :: r) = (blockComment sym prev l).map (extend (n :: r)) := by
  have hslash : decide (sym n = '/') = false := by rw [hn]; decide
  have hstar : decide (sym n = '*') = false := by rw [hn]; decide
  -- No `/*` begins the row, with the break behind it or without.
  cases l with
  | nil => exact after?_cons_of_neg hslash r
  | cons a l =>
    rw [List.cons_append]
    unfold blockComment
    cases ha : decide (sym a = '/') with
    | false =>
      rw [after?_cons_of_neg ha, after?_cons_of_neg ha]
      rfl
    | true =>
      rw [after?_cons_of_pos ha, after?_cons_of_pos ha]
      cases l with
      | nil =>
        rw [List.nil_append, after?_cons_of_neg hstar]
        rfl
      | cons b l =>
        have hb : decide (sym b = '*') = false := decide_eq_false fun hb =>
          (List.isChain_cons_cons.mp h.noOpening).1 ⟨of_decide_eq_true ha, hb⟩
        rw [List.cons_append, after?_cons_of_neg hb, after?_cons_of_neg hb]
        rfl

theorem string_break {l : List α} (h : WithinLines sym l) (prev : Option Char) :
    string sym prev (l ++ n :: r) = (string sym prev l).map (extend (n :: r)) := by
  unfold string
  cases l with
  | nil => exact after?_cons_of_neg (by rw [hn]; decide) r
  | cons a l =>
    have ha := h.noQuote a List.mem_cons_self
    rw [List.cons_append, after?_cons_of_neg ha, after?_cons_of_neg ha]
    rfl

namespace Kind

/-- Before a line break every recognizer finds what it finds where the text ends there. -/
theorem recognizer_break {l : List α} (h : WithinLines sym l) (k : Kind) (prev : Option Char) :
    k.recognizer sym prev (l ++ n :: r) = (k.recognizer sym prev l).map (extend (n :: r)) :=
  match k with
  | lineComment => lineComment_break hn prev l
  | blockComment => blockComment_break hn h prev
  | decorator => decorator_break hn prev l
  | functionOpen => functionOpen_break hn prev l
  | closingParen => closingParen_break hn prev l
  | string => string_break hn h prev
  | radix => radix_break hn prev l
  | keyword => keyword_break hn prev l
  | data => data_break hn prev l

omit hn in
/-- Behind a line break every recognizer finds what it finds at the beginning of a text. -/
theorem recognizer_behind_break (k : Kind) (sym : α → Char) (l : List α) :
    k.recognizer sym (some '\n') l = k.recognizer sym none l := by
  have hnumber : (some '\n').any Pattern.numberSet.has = none.any Pattern.numberSet.has := by decide
  have hword : (some '\n').any Unicode.isWord = none.any Unicode.isWord := by decide
  cases k with
  | radix =>
    change Lexeme.radix sym (some '\n') l = Lexeme.radix sym none l
    unfold Lexeme.radix
    rw [hnumber]
  | keyword =>
    change Lexeme.keyword sym (some '\n') l = Lexeme.keyword sym none l
    unfold Lexeme.keyword
    rw [hword]
  | _ => rfl

end Kind

end Break

end Lexeme

end Highlighter
