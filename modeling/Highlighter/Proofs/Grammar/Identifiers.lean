import Highlighter.Proofs.Grammar.Parts

/-! An identifier is one span of data if no number in another base begins in it. The rule for such
numbers looks only for characters of numbers in front of a zero, so a zero behind a letter or an
underscore tears the identifier if a letter or a digit follows it. -/
namespace Highlighter

open Grammar Lexeme

namespace Grammar

/-- A letter or underscore, and then letters, underscores and digits. -/
def IsVariable (t : Text) : Prop := t.head?.any isLetter = true ∧ ∀ c ∈ t, isNameChar c = true

instance (t : Text) : Decidable (IsVariable t) := inferInstanceAs (Decidable (_ ∧ _))

/-- Somewhere in the text there is a zero behind a character of no number, and a letter or digit
comes next. -/
def HoldsRadix (t : Text) : Prop :=
  ∃ c d, [c, '0', d] <:+: t ∧ isNumeric c = false ∧ d.isAlphanum = true

variable {t : Text}

theorem HoldsRadix.cons {c : Char} (h : HoldsRadix t) : HoldsRadix (c :: t) := by
  obtain ⟨a, b, hinfix, ha, hb⟩ := h
  exact ⟨a, b, List.infix_cons hinfix, ha, hb⟩

theorem holdsRadix_of_zero {c d : Char} (hc : isNumeric c = false) (hd : d.isAlphanum = true)
    (t : Text) : HoldsRadix (c :: '0' :: d :: t) := ⟨c, d, ⟨[], t, rfl⟩, hc, hd⟩

/-- Behind characters of a number no such zero comes first. -/
theorem HoldsRadix.of_append {x y : Text} (hx : ∀ c ∈ x, isNumeric c = true)
    (h : HoldsRadix (x ++ y)) : HoldsRadix y := by
  induction x with
  | nil => exact h
  | cons a x ih =>
    obtain ⟨c, d, hinfix, hc, hd⟩ := h
    refine ih (fun c hc => hx c (List.mem_cons_of_mem a hc)) ⟨c, d, ?_, hc, hd⟩
    rcases List.infix_cons_iff.mp hinfix with hprefix | hinfix
    · obtain ⟨rfl, _⟩ := List.cons_prefix_cons.mp hprefix
      exact absurd (hc.symm.trans (hx c List.mem_cons_self)) Bool.false_ne_true
    · exact hinfix

theorem IsVariable.isPlain (h : IsVariable t) : IsPlain t where
  left := by
    rintro rfl
    exact Bool.false_ne_true h.1
  right c hc := by rw [isPlainChar, h.2 c hc, Bool.true_or, Bool.true_or]

theorem IsVariable.head?_ne_zero (h : IsVariable t) : t.head? ≠ some '0' := by
  intro hhead
  have hletter := h.1
  rw [hhead] at hletter
  exact absurd hletter (by decide)

end Grammar

/-! Where numbers in another base are found. -/

namespace Lexeme

variable {t : Text}

theorem Kind.Passes.of_append {k : Kind} {prev : Option Char} {us vs rest : List Mark}
    (h : k.Passes prev (us ++ vs) rest) : k.Passes (lastSym prev us) vs rest := by
  induction us generalizing prev with
  | nil => exact h
  | cons m us ih => exact ih h.2

/-- Where no number goes on, a zero is found with the letters and digits behind it. -/
theorem radix_of_zero {prev : Option Char} (hprev : prev.any isNumeric = false) (us : List Mark) :
    radix Mark.sym prev (.char '0' true :: us) =
      (run? Pattern.alphanumeric Mark.sym us).map (prepend [.char '0' true]) := by
  have hset : Pattern.numberSet.has = isNumeric := funext has_numberSet
  have hfirst : (decide ('0' = '0') && !prev.any Pattern.numberSet.has) = true := by
    rw [hset, hprev]
    rfl
  change after? _ Mark.sym _ (Mark.char '0' true :: us) = _
  rw [after?_cons_of_pos (a := Mark.char '0' true) hfirst]

theorem not_passes_of_holdsRadix (h : HoldsRadix t) (prev : Option Char) :
    ¬ Kind.radix.Passes prev (Mark.ofText t) [] := by
  obtain ⟨c, d, ⟨x, y, rfl⟩, hc, hd⟩ := h
  intro hpasses
  rw [List.append_assoc, Mark.ofText, List.map_append] at hpasses
  have hprev : (some c).any isNumeric = false := hc
  have hnone : radix Mark.sym (some c)
      (.char '0' true :: .char d true :: (Mark.ofText y ++ [])) = none := hpasses.of_append.2.1
  rw [radix_of_zero hprev, Option.map_eq_none_iff] at hnone
  have hhead : (Pattern.alphanumeric.has ∘ Mark.sym) (.char d true) = true :=
    (has_alphanumeric d).trans hd
  rw [run?_of_ne (by rw [List.takeWhile_cons_of_pos hhead]; exact List.cons_ne_nil _ _)] at hnone
  exact Option.some_ne_none _ hnone

/-- Nothing else is found behind a first character. -/
theorem passes_radix_behind {c : Char} (h : ¬ HoldsRadix (c :: t)) :
    Kind.radix.Passes (some c) (Mark.ofText t) [] := by
  induction t generalizing c with
  | nil => trivial
  | cons d t ih =>
    refine ⟨?_, ih fun hlater => h hlater.cons⟩
    cases hfound : Kind.radix.recognizer Mark.sym (some c)
        (.char d true :: (Mark.ofText t ++ [])) with
    | none => exact hfound
    | some w =>
      -- What would be found is a zero behind `c`, and a letter or digit: what the text does not hold.
      exfalso
      obtain ⟨a, us, u, hus, _, ha, hc, hrun⟩ := radix_eq_some hfound
      obtain ⟨rfl, rfl⟩ := List.cons.inj hus
      obtain rfl : d = '0' := ha
      obtain ⟨hsplit, hne, hall⟩ := run?_eq_some hrun
      rw [Option.any_some, has_numberSet] at hc
      cases t with
      | nil => exact hne (List.append_eq_nil_iff.mp hsplit.symm).1
      | cons e t =>
        obtain ⟨m, u, rfl⟩ := List.exists_cons_of_ne_nil hne
        obtain ⟨rfl, _⟩ := List.cons.inj hsplit
        have he := (has_alphanumeric e).symm.trans (hall (.char e true) List.mem_cons_self)
        exact h (holdsRadix_of_zero hc he t)

theorem passes_radix_iff (ht : t.head? ≠ some '0') :
    Kind.radix.Passes none (Mark.ofText t) [] ↔ ¬ HoldsRadix t := by
  refine ⟨fun hpasses h => not_passes_of_holdsRadix h none hpasses, fun h => ?_⟩
  cases t with
  | nil => trivial
  | cons c t =>
    have hc : Kind.radix.starts c = false := decide_eq_false fun hzero => ht (congrArg some hzero)
    exact ⟨Kind.recognizer_of_starts hc none _, passes_radix_behind h⟩

end Lexeme

namespace Language

variable {t : Text}

/-- An identifier in which no number in another base begins is one span, whether or not a search
gives up. -/
theorem format_of_not_holdsRadix (l : Language) (ht : IsVariable t) (hk : l.isKeyword t = false)
    (hradix : ¬ HoldsRadix t) (s : Styler) :
    (l.engine s).format t = s.outer (s.span .data t) := by
  apply l.format_of_whole ht.isPlain s
  · intro k hmem hne
    cases l.ofWords_of_mem hmem with
    | radix => exact (passes_radix_iff ht.head?_ne_zero).mpr hradix
    | keyword =>
      cases l with
      | lavendeux => exact absurd hmem (by decide)
      | javascript =>
        have hwords := of_decide_eq_false hk
        simp only [List.mem_cons, List.not_mem_nil, or_false, not_or] at hwords
        exact passes_keyword ht.2 hwords shut_nil
    | data => exact absurd rfl hne
  · have hdata : ∀ c ∈ t, Pattern.dataSet.has c = true := fun c hc => by
      rw [has_dataSet, ht.2 c hc, Bool.true_or]
    have hfound := data_ofText ht.isPlain.1 hdata none shut_nil
    rwa [List.append_nil] at hfound

/-- The first rule for words does not give up on a plain text if no search does. -/
theorem radix_never_stops {l : Language} {s : Styler} (ht : IsPlain t)
    (h : (l.engine s).NeverStops t) :
    ∀ ev ∈ (Kind.radix.rule s).events (Mark.buffers s (Mark.ofText t)), ev.isStop = false := by
  obtain ⟨inner, hwords, _⟩ := l.words_eq
  intro ev hev
  apply h ev
  -- The rules in front of those for words find nothing, so this one still reads the text itself.
  rw [Engine.events, engine, Engine.eventsFrom_append, regexRules_eq, ← l.takeWhile_append_words,
    List.map_append, Engine.eventsFrom_append, Buffers.ofInput, ht.tight.trim_eq,
    ← Mark.buffers_ofText s t, Kind.run_of_passes s fun k hk => ht.passes l hk, hwords]
  exact List.mem_append_left _ (List.mem_append_right _ (List.mem_append_left _ hev))

/-- Where a number in another base begins in a plain text, it has a span of its own. -/
theorem exists_radix_part {l : Language} {s : Styler} (ht : IsPlain t)
    (h : (l.engine s).NeverStops t) (hradix : HoldsRadix t) :
    ∃ ps u, Parted l.words t ps ∧ .span .radix u ∈ ps ∧
      (l.engine s).format t = s.outer (ps.flatMap (Part.text s)) := by
  obtain ⟨inner, hwords, _⟩ := l.words_eq
  have hlater : ∀ k ∈ inner ++ [.data], k ∈ l.words :=
    fun k hk => hwords ▸ List.mem_cons_of_mem _ hk
  obtain ⟨_, ⟨pieces, hreads, rfl⟩, happly⟩ := Kind.radix.exists_makes s _ (radix_never_stops ht h)
  obtain ⟨qs, hmarks, hmarked, hspan⟩ := hreads.exists_marked .radix (List.forall_mem_nil _)
    (Part.flatMap_marks_clear t).symm
  obtain ⟨u, hu⟩ := hspan (hreads.exists_hit (not_passes_of_holdsRadix hradix none))
  have hqs : Parted l.words t qs :=
    (Parted.clear _ t).step (hwords ▸ List.mem_append_left _ List.mem_cons_self) hmarked
  -- The rules after this one cut the clear pieces only, so the span stays.
  obtain ⟨ps, hrun, hps, hkeep⟩ :=
    hqs.run s (fun k hk => l.ofWords_of_mem (hlater k hk)) hlater
  refine ⟨ps, u, hps, hkeep .radix u hu, ?_⟩
  rw [l.format_of_plain ht s, hwords, List.cons_append, List.map_cons, Engine.run_cons, happly,
    hmarks, List.nil_append, hrun, Mark.buffers_result, Part.flatMap_text]

/-- Such a number in a plain text is styled as a number, and is no more than a piece of the text. -/
theorem exists_radix_span {l : Language} {s : Styler} (ht : IsPlain t)
    (h : (l.engine s).NeverStops t) (hradix : HoldsRadix t) : ∃ x u y, IsRadix u ∧ u <:+: t ∧
      (l.engine s).format t = s.outer (x ++ s.span .radix u ++ y) := by
  obtain ⟨ps, u, hps, hu, hformat⟩ := exists_radix_part ht h hradix
  obtain ⟨front, back, rfl⟩ := List.append_of_mem hu
  have htext : (Part.span .radix u).text s = s.span .radix u := Part.text_span rfl s u
  refine ⟨front.flatMap (Part.text s), u, back.flatMap (Part.text s),
    Kind.isRadix_of_takes (hps.takes .radix u hu).2, ?_, ?_⟩
  · refine ⟨front.flatMap Part.chars, back.flatMap Part.chars, ?_⟩
    rw [← hps.chars, List.flatMap_append, List.flatMap_cons, List.append_assoc]
    rfl
  · rw [hformat, List.flatMap_append, List.flatMap_cons, htext, List.append_assoc]

/-- An identifier that is no keyword is one span of data exactly if no number in another base begins
in it, if no search gives up. -/
theorem format_variable_iff {l : Language} {s : Styler} (ht : IsVariable t)
    (hk : l.isKeyword t = false) (h : (l.engine s).NeverStops t) :
    (l.engine s).format t = s.outer (s.span .data t) ↔ ¬ HoldsRadix t := by
  refine ⟨fun hformat hradix => ?_, fun hradix => l.format_of_not_holdsRadix ht hk hradix s⟩
  obtain ⟨ps, u, hps, hu, hparts⟩ := exists_radix_part ht.isPlain h hradix
  have htext := s.outer_injective (hparts.symm.trans hformat)
  obtain ⟨k, rfl⟩ :=
    hps.eq_span (fun _ => l.ofWords_of_mem) (ht.isPlain.not_mem (by decide)) s htext
  -- The one span would be that of the number, which begins with a zero.
  obtain ⟨rfl, rfl⟩ := Part.span.inj (List.mem_singleton.mp hu)
  exact ht.head?_ne_zero (Kind.isRadix_of_takes (hps.takes .radix u hu).2).1

/-- A name with a digit behind a letter, and one with a zero there. -/
theorem format_variable_of_digits :
    let l := javascript
    let s := Styler.default
    (IsVariable "x10" ∧ l.isKeyword "x10" = false ∧ (l.engine s).NeverStops "x10" ∧
      ((l.engine s).format "x10" = s.outer (s.span .data "x10") ↔ ¬ HoldsRadix "x10")) ∧
    IsVariable "x01" ∧ l.isKeyword "x01" = false ∧ (l.engine s).NeverStops "x01" ∧
      ((l.engine s).format "x01" = s.outer (s.span .data "x01") ↔ ¬ HoldsRadix "x01") := by
  have ht : IsVariable "x10" := by decide
  have ht' : IsVariable "x01" := by decide
  have hk : javascript.isKeyword "x10" = false := by decide
  have hk' : javascript.isKeyword "x01" = false := by decide
  have h : (javascript.engine .default).NeverStops "x10" := by decide +kernel
  have h' : (javascript.engine .default).NeverStops "x01" := by decide +kernel
  exact ⟨⟨ht, hk, h, format_variable_iff ht hk h⟩, ht', hk', h', format_variable_iff ht' hk' h'⟩

/-- A letter and a number in another base are not one span of data. -/
theorem format_variable_ne :
    IsVariable "x01" ∧ lavendeux.isKeyword "x01" = false ∧
      (lavendeux.engine .default).format "x01" =
        Styler.default.outer (Styler.default.span .data "x" ++ Styler.default.span .radix "01") ∧
      (lavendeux.engine .default).format "x01" ≠
        Styler.default.outer (Styler.default.span .data "x01") := by
  decide +kernel

end Language

end Highlighter
