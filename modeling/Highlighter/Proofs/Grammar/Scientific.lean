import Highlighter.Proofs.Grammar.Identifiers

/-! A number in scientific notation is one span only if a single octal digit stands behind the sign
of its exponent. The pattern of numbers takes no more than one such digit, and any other exponent is
torn. -/
namespace Highlighter

open Grammar Lexeme

namespace Grammar

def IsDigits (t : Text) : Prop := t ≠ [] ∧ ∀ c ∈ t, c.isDigit = true

instance (t : Text) : Decidable (IsDigits t) := inferInstanceAs (Decidable (_ ∧ _))

/-- Digits that begin with no zero, with a point and digits behind them or without, or a point and
digits. -/
inductive IsMantissa : Text → Prop
  | whole {w : Text} (hw : IsDigits w) (hzero : w.head? ≠ some '0') : IsMantissa w
  | decimal {w f : Text} (hw : IsDigits w) (hzero : w.head? ≠ some '0') (hf : IsDigits f) :
      IsMantissa (w ++ '.' :: f)
  | fraction {f : Text} (hf : IsDigits f) : IsMantissa ('.' :: f)

theorem isNumeric_of_isDigit {c : Char} (h : c.isDigit = true) : isNumeric c = true := by
  rw [isNumeric, h, Bool.true_or]

namespace IsMantissa

variable {m : Text}

theorem isNumeric (h : IsMantissa m) : ∀ c ∈ m, isNumeric c = true := by
  have hdigits {t : Text} (ht : IsDigits t) : ∀ c ∈ t, Grammar.isNumeric c = true :=
    fun c hc => isNumeric_of_isDigit (ht.2 c hc)
  cases h with
  | whole hw => exact hdigits hw
  | decimal hw _ hf =>
    exact List.forall_mem_append.mpr ⟨hdigits hw, List.forall_mem_cons.mpr ⟨by decide, hdigits hf⟩⟩
  | fraction hf => exact List.forall_mem_cons.mpr ⟨by decide, hdigits hf⟩

theorem exists_head (h : IsMantissa m) : ∃ c, m.head? = some c ∧ c ≠ '0' := by
  have hwhole {w : Text} (hw : IsDigits w) (hzero : w.head? ≠ some '0') :
      ∃ c, w.head? = some c ∧ c ≠ '0' := by
    refine ⟨w.head hw.1, List.head?_eq_some_head hw.1, fun hc => hzero ?_⟩
    rw [List.head?_eq_some_head hw.1, hc]
  cases h with
  | whole hw hzero => exact hwhole hw hzero
  | decimal hw hzero _ =>
    obtain ⟨c, hc, hne⟩ := hwhole hw hzero
    exact ⟨c, by rw [List.head?_append, hc]; rfl, hne⟩
  | fraction _ => exact ⟨'.', rfl, by decide⟩

end IsMantissa

end Grammar

/-- A number in scientific notation with a sign in its exponent. -/
structure Scientific where
  mantissa : Text
  letter : Char
  sign : Char
  digits : Text
  isMantissa : IsMantissa mantissa
  isLetter : letter = 'e' ∨ letter = 'E'
  isSign : sign = '+' ∨ sign = '-'
  isDigits : IsDigits digits

namespace Scientific

variable (n : Scientific)

def text : Text := n.mantissa ++ [n.letter] ++ n.sign :: n.digits

theorem mem_text {c : Char} (h : c ∈ n.text) : isNumeric c = true ∨ c ∈ ['e', 'E', '+', '-'] := by
  rcases List.mem_append.mp h with h | h
  · rcases List.mem_append.mp h with h | h
    · exact Or.inl (n.isMantissa.isNumeric c h)
    · rw [List.mem_singleton.mp h]
      rcases n.isLetter with hl | hl <;> rw [hl] <;> decide
  · rcases List.mem_cons.mp h with rfl | h
    · rcases n.isSign with hs | hs <;> rw [hs] <;> decide
    · exact Or.inl (isNumeric_of_isDigit (n.isDigits.2 c h))

theorem isPlain : IsPlain n.text where
  left hnil := List.cons_ne_nil _ _ (List.append_eq_nil_iff.mp hnil).2
  right c hc := by
    rcases n.mem_text hc with h | h
    · rw [isPlainChar, h, Bool.or_true, Bool.true_or]
    · have hall : ∀ c ∈ ['e', 'E', '+', '-'], isPlainChar c = true := by decide
      exact hall c h

theorem head?_text_ne_zero : n.text.head? ≠ some '0' := by
  obtain ⟨c, hc, hne⟩ := n.isMantissa.exists_head
  rw [text, List.append_assoc, List.head?_append, hc]
  exact fun h => hne (Option.some.inj h)

theorem ofText_text : Mark.ofText n.text =
    Mark.ofText (n.mantissa ++ [n.letter]) ++ Mark.ofText (n.sign :: n.digits) := List.map_append

/-- The mantissa and the letter are taken as a name, and the exponent comes next. -/
theorem run?_text (rest : List Mark) :
    run? Pattern.dataSet Mark.sym (Mark.ofText n.text ++ rest) =
      some (Mark.ofText (n.mantissa ++ [n.letter]), Mark.ofText (n.sign :: n.digits) ++ rest) := by
  have hname : ∀ c ∈ n.mantissa ++ [n.letter], Pattern.dataSet.has c = true := by
    refine List.forall_mem_append.mpr ⟨fun c hc => ?_, ?_⟩
    · rw [has_dataSet, n.isMantissa.isNumeric c hc, Bool.or_true]
    · rcases n.isLetter with hl | hl <;> rw [hl] <;> decide
  have hsign : ∀ m ∈ (Mark.ofText (n.sign :: n.digits) ++ rest).head?,
      Pattern.dataSet.has m.sym = false := by
    intro m hm
    obtain rfl := Option.some.inj hm
    change Pattern.dataSet.has n.sign = false
    rcases n.isSign with hs | hs <;> rw [hs] <;> decide
  rw [ofText_text, List.append_assoc]
  exact run?_ofText (by simp) hname hsign

/-- The rule for numbers takes the whole number only if one octal digit stands in the exponent. -/
theorem digits_of_takes (h : Kind.data.Takes n.text) : ∃ d, n.digits = [d] ∧ isOctal d = true := by
  obtain ⟨prev, rest, h⟩ := h
  have hfound : data Mark.sym prev (Mark.ofText n.text ++ rest) =
      some (Mark.ofText n.text, rest) := h
  obtain ⟨name, later, hrun, hend⟩ := data_eq_some hfound
  obtain ⟨rfl, rfl⟩ := Prod.mk.inj (Option.some.inj (hrun.symm.trans (n.run?_text rest)))
  rw [ofText_text] at hend
  rcases hend with ⟨_, hname, _⟩ | ⟨e, he, heq⟩
  · exact absurd (List.append_right_eq_self.mp hname) (List.cons_ne_nil _ _)
  · obtain ⟨a, b, _, rfl, _, hb⟩ := exponent?_eq_some he
    obtain ⟨_, hdigits⟩ := List.cons.inj (List.append_cancel_left heq)
    obtain ⟨d, hd, rfl⟩ := List.map_eq_singleton_iff.mp hdigits
    exact ⟨d, hd, hb⟩

/-- No keyword begins in the number. -/
theorem not_mem_text {c : Char} (hc : c ∈ ['r', 'f']) : c ∉ n.text := by
  have hnot : ∀ c ∈ ['r', 'f'], ¬ (isNumeric c = true ∨ c ∈ ['e', 'E', '+', '-']) := by decide
  exact fun h => hnot c hc (n.mem_text h)

theorem not_takes_keyword : ¬ Kind.keyword.Takes n.text := by
  intro h
  rcases Kind.eq_of_takes_keyword h with hword | hword
  · exact n.not_mem_text (c := 'r') (by decide) (hword ▸ by decide)
  · exact n.not_mem_text (c := 'f') (by decide) (hword ▸ by decide)

variable {n} {d : Char}

theorem passes_radix (hd : n.digits = [d]) : Kind.radix.Passes none (Mark.ofText n.text) [] := by
  rw [passes_radix_iff n.head?_text_ne_zero, text, hd, List.append_assoc]
  intro h
  -- Only the exponent is left to search, and its one character before the last is the sign.
  obtain ⟨a, b, hinfix, _⟩ := h.of_append n.isMantissa.isNumeric
  have hexponent := hinfix.eq_of_length rfl
  obtain ⟨_, hrest⟩ := List.cons.inj hexponent
  have hsign : '0' = n.sign := (List.cons.inj hrest).1
  rcases n.isSign with hs | hs <;> rw [hs] at hsign <;> exact absurd hsign (by decide)

theorem passes_keyword : Kind.keyword.Passes none (Mark.ofText n.text) [] := by
  apply passes_ofText
  intro c hc
  rw [← Bool.not_eq_true]
  intro hstarts
  have hletter : c ∈ ['r', 'f'] := by simpa [Kind.starts] using hstarts
  exact n.not_mem_text hletter hc

theorem data_text (hd : n.digits = [d]) (hoctal : isOctal d = true) (prev : Option Char) :
    data Mark.sym prev (Mark.ofText n.text) = some (Mark.ofText n.text, []) := by
  have hsign : Lexeme.isSign n.sign = true := by
    rcases n.isSign with hs | hs <;> rw [hs] <;> decide
  have hexponent : exponent? Mark.sym (Mark.ofText (n.sign :: n.digits)) =
      some (Mark.ofText (n.sign :: n.digits), []) := by
    rw [hd]
    change after? Lexeme.isSign Mark.sym _ (.char n.sign true :: [.char d true]) = _
    rw [after?_cons_of_pos (a := Mark.char n.sign true) hsign,
      after?_cons_of_pos (a := Mark.char d true) hoctal]
    rfl
  have hrun := n.run?_text []
  rw [List.append_nil, List.append_nil] at hrun
  rw [data, hrun, Option.map_some]
  change some (prepend _ ((exponent? Mark.sym (Mark.ofText (n.sign :: n.digits))).getD _)) = _
  rw [hexponent, ofText_text]
  rfl

end Scientific

namespace Language

/-- A number in scientific notation is one span of data exactly if its exponent is a single octal
digit, in both languages and with every styler, whether or not a search gives up. -/
theorem format_scientific_iff (l : Language) (n : Scientific) (s : Styler) :
    (l.engine s).format n.text = s.outer (s.span .data n.text) ↔
      ∃ d, n.digits = [d] ∧ isOctal d = true := by
  constructor
  · intro hformat
    obtain ⟨ps, hps, hparts⟩ := l.exists_parts n.isPlain s
    have htext := s.outer_injective (hparts.symm.trans hformat)
    obtain ⟨k, rfl⟩ :=
      hps.eq_span (fun _ => l.ofWords_of_mem) (n.isPlain.not_mem (by decide)) s htext
    obtain ⟨hk, htakes⟩ := hps.takes k n.text List.mem_cons_self
    -- The one span is of a kind that takes the whole number, and only data can.
    cases l.ofWords_of_mem hk with
    | radix => exact absurd (Kind.isRadix_of_takes htakes).1 n.head?_text_ne_zero
    | keyword => exact absurd htakes n.not_takes_keyword
    | data => exact n.digits_of_takes htakes
  · rintro ⟨d, hd, hoctal⟩
    refine l.format_of_whole n.isPlain s (fun k hk hne => ?_) (Scientific.data_text hd hoctal none)
    cases l.ofWords_of_mem hk with
    | radix => exact Scientific.passes_radix hd
    | keyword => exact Scientific.passes_keyword
    | data => exact absurd rfl hne

/-- An exponent of two digits is torn behind the first one. -/
theorem format_scientific_ne :
    let n : Scientific := ⟨"6.02", 'e', '+', "23",
      .decimal (w := ['6']) (f := ['0', '2']) (by decide) (by decide) (by decide),
      Or.inl rfl, Or.inl rfl, by decide⟩
    n.text = "6.02e+23" ∧
      (lavendeux.engine .default).format n.text =
        Styler.default.outer
          (Styler.default.span .data "6.02e+2" ++ Styler.default.span .data "3") ∧
      (lavendeux.engine .default).format n.text ≠
        Styler.default.outer (Styler.default.span .data n.text) := by
  decide +kernel

end Language

end Highlighter
