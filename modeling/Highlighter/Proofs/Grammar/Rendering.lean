import Highlighter.Proofs.Grammar.Marking
import Highlighter.Proofs.Regex.DeadEnds
import Highlighter.Proofs.Text.Tight

/-! A script is rendered part by part, if no search of its highlighting gives up. A search can give
up on a text that is long enough, and then a lexeme is taken for one of another kind. -/
namespace Highlighter

open Grammar Lexeme

/-! A script begins and ends with a lexeme. -/

section Tightness

variable {l : Language}

theorem isWhiteSpace_of_isAlphanum {c : Char} (h : c.isAlphanum = true) :
    Unicode.isWhiteSpace c = false := by
  have hc := toNat_of_isAlphanum h
  simp [Unicode.isWhiteSpace, Unicode.whiteSpaceRanges, Unicode.Ranges.covers]
  omega

theorem isWhiteSpace_of_isNameChar {c : Char} (h : isNameChar c = true) :
    Unicode.isWhiteSpace c = false := by
  rcases (Bool.or_eq_true _ _).mp h with h | h
  · exact isWhiteSpace_of_isAlphanum h
  · rw [of_decide_eq_true h]
    decide

theorem isWhiteSpace_of_isNumeric {c : Char} (h : isNumeric c = true) :
    Unicode.isWhiteSpace c = false := by
  rcases (Bool.or_eq_true _ _).mp h with h | h
  · exact isWhiteSpace_of_isAlphanum (by rw [isAlphanum_eq, h, Bool.or_true])
  · have hall : ∀ c ∈ ['.', ',', '$', '¥', '€', '£'], Unicode.isWhiteSpace c = false := by decide
    exact hall c (of_decide_eq_true h)

theorem isWhiteSpace_of_isOperatorChar {c : Char} (h : isOperatorChar c = true) :
    Unicode.isWhiteSpace c = false := by
  have hall : ∀ c ∈ "+-*=<>|&^!?:;%~[]\x7b\x7d".toList, Unicode.isWhiteSpace c = false := by decide
  exact hall c (of_decide_eq_true h)

theorem Grammar.IsName.tight {t : Text} (h : IsName t) : t.Tight :=
  .of_forall h.1 fun c hc => isWhiteSpace_of_isNameChar (h.2 c hc)

theorem Atom.tight_text (a : Atom l) : a.text.Tight := by
  cases a with
  | number t h =>
    refine .of_forall ?_ fun c hc => isWhiteSpace_of_isNumeric (h.isNumeric c hc)
    rcases h with rfl | ⟨hne, _⟩
    · exact List.cons_ne_nil _ _
    · exact hne
  | identifier t h =>
    refine .of_forall ?_ fun c hc => isWhiteSpace_of_isNameChar (h.2 c hc).1
    rintro rfl
    exact absurd h.1 Bool.false_ne_true
  | radix t h =>
    refine .of_forall ?_ fun c hc => isWhiteSpace_of_isAlphanum (h.2.2 c hc)
    rintro rfl
    exact absurd h.1 (by simp)
  | decorator name h hl =>
    refine .of_forall (List.cons_ne_nil _ _) fun c hc => ?_
    rcases List.mem_cons.mp hc with rfl | hc
    · decide
    · exact isWhiteSpace_of_isNameChar (h.2 c hc)
  | string quote content hq h =>
    have hquote : Unicode.isWhiteSpace quote = false := by rcases hq with rfl | rfl <;> decide
    exact (Text.tight_singleton hquote).append content (Text.tight_singleton hquote)
  | operator t h => exact .of_forall h.1 fun c hc => isWhiteSpace_of_isOperatorChar (h.2 c hc)

theorem Term.tight_text (t : Term l) : t.text.Tight := by
  cases t with
  | atom a =>
    rw [text]
    exact a.tight_text
  | call name h args =>
    rw [text, List.append_assoc name]
    exact h.tight.append _ (Text.tight_singleton (by decide))

theorem Comment.tight_source (c : Comment) : c.source.Tight where
  front := ⟨'/', rfl, by decide⟩
  back := by
    rw [source, List.getLast?_append]
    cases hlast : c.text.getLast? with
    | none => exact ⟨'/', rfl, by decide⟩
    | some d =>
      have htrimmed := c.trimmed
      rw [hlast] at htrimmed
      exact ⟨d, rfl, htrimmed⟩

theorem Line.tight_text (t : Line l) : t.text.Tight := by
  cases t with
  | terms first more comment =>
    have hterms : Text.Tight ([' '].intercalate ((first :: more).map Term.text)) := by
      refine .intercalate (List.cons_ne_nil _ _) fun u hu => ?_
      obtain ⟨t, _, rfl⟩ := List.mem_map.mp hu
      exact t.tight_text
    cases comment with
    | none => exact hterms
    | some c => exact hterms.append [' '] c.tight_source
  | comment c => exact c.tight_source

theorem Script.tight_text (t : Script l) : t.text.Tight := by
  refine .intercalate (List.cons_ne_nil _ _) fun u hu => ?_
  obtain ⟨line, _, rfl⟩ := List.mem_map.mp hu
  exact line.tight_text

end Tightness

/-! On a long operator the search for a number in another base gives up, and the number after it is
taken for a number of the common kind. -/

section LongOperator

variable {l : Language}

/-- Rules for regular patterns mark the tokens of their kinds, whatever rules come after them. -/
theorem Token.run_of_isRegular (s : Styler) {ts : List (Token l)} (hfit : Fitting ts)
    (done ks later : List Kind) (hks : l.kinds = done ++ (ks ++ later))
    (hregular : ∀ k ∈ ks, k.pattern.regex.isRegular = true) :
    Engine.run (ks.map (Kind.rule s)) (Mark.buffers s (row done ts)) =
      Mark.buffers s (row (done ++ ks) ts) := by
  induction ks generalizing done with
  | nil =>
    rw [List.append_nil]
    rfl
  | cons k ks ih =>
    have hks' : l.kinds = done ++ [k] ++ (ks ++ later) := by
      rw [hks, List.append_assoc]
      rfl
    rw [List.map_cons, Engine.run_cons,
      Kind.apply_of_isRegular s (hregular k List.mem_cons_self) (makes_row hfit hks),
      ih _ hks' fun k' hk' => hregular k' (List.mem_cons_of_mem k hk'), List.append_assoc]
    rfl

variable {u t : Text}

/-- An operator and a number in another base. -/
def Script.afterOperator (u t : Text) (hu : IsOperator u) (ht : IsRadix t) : Script .lavendeux :=
  ⟨.terms (.atom (.operator u hu)) [.atom (.radix t ht)] none, []⟩

theorem Script.text_afterOperator (hu : IsOperator u) (ht : IsRadix t) :
    (afterOperator u t hu ht).text = u ++ [' '] ++ t := by
  simp only [afterOperator, text, lines, Line.text, List.map, Term.text]
  rw [Text.unlines, List.intercalate_singleton, List.intercalate_cons_cons,
    List.intercalate_singleton]
  rfl

theorem Script.render_afterOperator (hu : IsOperator u) (ht : IsRadix t) (s : Styler) :
    (afterOperator u t hu ht).render s = u ++ [' '] ++ s.span .radix t := by
  simp only [afterOperator, render, lines, Line.render, List.map, Term.render]
  rw [Text.unlines, List.intercalate_singleton, List.intercalate_cons_cons,
    List.intercalate_singleton]
  rfl

theorem Grammar.isOperator_replicate {n : Nat} (hn : n ≠ 0) {c : Char}
    (hc : isOperatorChar c = true) : IsOperator (List.replicate n c) := by
  refine ⟨fun hnil => hn (List.replicate_eq_nil_iff c |>.mp hnil), fun d hd => ?_⟩
  rw [List.eq_of_mem_replicate hd]
  exact hc

theorem Styler.outer_injective (s : Styler) {t u : Text} (h : s.outer t = s.outer u) : t = u :=
  List.append_cancel_left (List.append_cancel_right h)

/-- The last rule takes a number in another base that has been left for a number of the common
kind. -/
theorem makes_data_after (hu : IsOperator u) (ht : IsRadix t) :
    Kind.data.Makes (Mark.ofText (u ++ [' '] ++ t))
      (Mark.ofText (u ++ [' ']) ++ Kind.data.wrap.marks (Mark.ofText t)) := by
  have hne : t ≠ [] := by
    rintro rfl
    exact absurd ht.1 (by simp)
  have hdata : ∀ c ∈ t, Pattern.dataSet.has c = true := fun c hc => by
    rw [has_dataSet, isNameChar_of_isAlphanum (ht.2.2 c hc), Bool.true_or]
  have hfound := data_ofText hne hdata (some ' ') shut_nil
  rw [List.append_nil] at hfound
  have hpasses : Kind.data.Passes none (Mark.ofText (u ++ [' '])) (Mark.ofText t) := by
    refine Token.passes_of_operator (by decide) (fun c hc => ?_) none _
    rcases List.mem_append.mp hc with hc | hc
    · exact Or.inr (Or.inr (hu.2 c hc))
    · exact Or.inl (List.mem_singleton.mp hc)
  refine ⟨(Mark.ofText (u ++ [' '])).map .pass ++ [.hit (Mark.ofText t)], ?_, ?_⟩
  · have hword : Reads Kind.data .noMatch (some ' ') (Mark.ofText t) [.hit (Mark.ofText t)] :=
      .hit hfound (.done _)
    have hlast : lastSym none (Mark.ofText (u ++ [' '])) = some ' ' := by
      rw [Mark.ofText, List.map_append, List.map_singleton, lastSym_append]
      rfl
    rw [Mark.ofText, List.map_append]
    exact .of_passes hpasses (hlast ▸ hword)
  · rw [List.flatMap_append, Piece.flatMap_marks_pass, List.flatMap_singleton]
    rfl

end LongOperator

namespace Language

/-- Highlighting is compositional: on a script of numbers, names, strings, operators, calls and
comments, in both languages and with every styler, every part is rendered by itself, if no search
gives up. -/
theorem format_script (l : Language) (t : Script l) (s : Styler)
    (h : (l.engine s).NeverStops t.text) : (l.engine s).format t.text = s.outer (t.render s) := by
  -- The run goes through the rows of the tokens, since a row is read in one way only.
  obtain ⟨rows, final, hrows, _, hformat⟩ := exists_rows h
  obtain ⟨rows', hrows'⟩ := Rows.of_tokens t.fitting_tokens (List.nil_append l.kinds).symm
  rw [t.tight_text.trim_eq, ← t.flatMap_text,
    ← Token.row_of_not_mem fun _ _ _ _ => List.not_mem_nil] at hrows
  obtain ⟨_, rfl⟩ := hrows.unique hrows'
  rw [hformat, Token.text_row s fun _ _ _ hk => Token.kind?_mem hk, t.flatMap_render]

/-- A call with a string, a call and a comment, and a line with a keyword. -/
theorem format_script_of_call :
    let call : Term javascript := .call "max" (by decide +kernel)
      [.atom (.string '"' "a b" (Or.inl rfl) (by decide +kernel)), .call "f" (by decide +kernel) [],
        .atom (.radix "0x5" (by decide +kernel))]
    let t : Script javascript :=
      ⟨.terms call [.atom (.operator "=" (by decide +kernel))]
        (some ⟨" f(1)", by decide +kernel, by decide +kernel⟩),
        [.terms (.atom (.identifier "return" (by decide +kernel)))
          [.atom (.number "1.50" (by decide +kernel))] none]⟩
    t.text = "max(\"a b\" f() 0x5) = // f(1)\nreturn 1.50" ∧
      (javascript.engine .default).NeverStops t.text ∧
      (javascript.engine .default).format t.text = Styler.default.outer (t.render .default) := by
  intro call t
  have htext : t.text = "max(\"a b\" f() 0x5) = // f(1)\nreturn 1.50" := by
    simp only [t, call, Script.text, Script.lines, Line.text, List.map, Term.text]
    decide +kernel
  have h : (javascript.engine .default).NeverStops t.text := by
    rw [htext]
    decide +kernel
  exact ⟨htext, h, format_script javascript t .default h⟩

/-- A number in another base behind a very long operator: no such number is found. -/
theorem format_afterOperator {u t : Text} (hu : IsOperator u) (ht : IsRadix t) (s : Styler)
    (hlong : Pattern.searchLimit < 2 * u.length) :
    (lavendeux.engine s).format (u ++ [' '] ++ t) = s.outer (u ++ [' '] ++ s.span .data t) := by
  -- Nothing is left to the rules before the one that gives up, and it changes nothing either.
  let script := Script.afterOperator u t hu ht
  let before : List Kind :=
    [.lineComment, .blockComment, .decorator, .functionOpen, .closingParen, .string]
  have htokens : script.tokens = [.atom (.operator u hu), .blank, .atom (.radix t ht)] := by
    simp only [script, Script.afterOperator, Script.tokens, Script.lines, Line.tokens, List.map,
      Term.tokens]
    rfl
  have htext : script.text = u ++ [' '] ++ t := Script.text_afterOperator hu ht
  have hclear (done : List Kind) (hdone : .radix ∉ done) :
      Token.row done script.tokens = Mark.ofText (u ++ [' '] ++ t) := by
    rw [← htext, ← script.flatMap_text, htokens]
    apply Token.row_of_not_mem
    intro token hmem k hk
    simp only [List.mem_cons, List.not_mem_nil, or_false] at hmem
    rcases hmem with rfl | rfl | rfl
    · exact absurd hk (by simp [Token.kind?, Atom.kind?])
    · exact absurd hk (by simp [Token.kind?])
    · exact Option.some.inj hk ▸ hdone
  have hinput : Buffers.ofInput (u ++ [' '] ++ t) = Mark.buffers s (Token.row [] script.tokens) := by
    rw [Buffers.ofInput, ← htext, script.tight_text.trim_eq, hclear [] List.not_mem_nil,
      Mark.buffers_ofText, htext]
  have hbefore : Engine.run (before.map (Kind.rule s)) (Mark.buffers s (Token.row [] script.tokens)) =
      Mark.buffers s (Mark.ofText (u ++ [' '] ++ t)) := by
    have hrun := Token.run_of_isRegular s script.fitting_tokens [] before [.radix, .data] rfl
      (by decide)
    rw [hrun, List.nil_append, hclear before (by decide)]
  have hradix : (Kind.radix.rule s).apply (Mark.buffers s (Mark.ofText (u ++ [' '] ++ t))) =
      Mark.buffers s (Mark.ofText (u ++ [' '] ++ t)) := by
    have hall : ∀ c ∈ "+-*=<>|&^!?:;%~[]\x7b\x7d".toList, Pattern.numberSet.has c = false := by decide
    have hgave : Pattern.radix.search [] (u ++ ([' '] ++ t)) = .gaveUp :=
      Pattern.search_radix_gaveUp (fun c hc => hall c (of_decide_eq_true (hu.2 c hc))) hlong _
    rw [Mark.buffers_ofText, List.append_assoc]
    exact Rule.apply_of_not_found fun m hm => Search.noConfusion (hgave.symm.trans hm)
  have hdata := Kind.apply_of_isRegular s rfl (makes_data_after hu ht)
  have hkinds : lavendeux.kinds = before ++ [.radix, .data] := rfl
  rw [format_engine, regexRules_eq, hkinds, List.map_append, Engine.run_append, hinput, hbefore,
    List.map_cons, Engine.run_cons, hradix, List.map_singleton, Engine.run_cons, hdata]
  change s.outer (Mark.buffers s _).result = _
  rw [Mark.buffers_result, List.flatMap_append, Mark.flatMap_text_ofText, Wrap.text_marks,
    Mark.flatMap_text_ofText, Wrap.span_eq]
  rfl

theorem format_afterOperator_ne {u : Text} (hu : IsOperator u)
    (hlong : Pattern.searchLimit < 2 * u.length) :
    let t := Script.afterOperator u "0x5" hu (by decide +kernel)
    (lavendeux.engine .default).format t.text ≠ Styler.default.outer (t.render .default) := by
  intro t heq
  have hradix : IsRadix "0x5" := by decide +kernel
  rw [Script.text_afterOperator, format_afterOperator hu hradix .default hlong,
    Script.render_afterOperator] at heq
  have hspan := List.append_cancel_left (Styler.outer_injective .default heq)
  exact absurd hspan (by decide +kernel)

/-- Half a million plus signs, and a number in another base that is rendered as a common one. -/
theorem format_script_ne :
    let t := Script.afterOperator (List.replicate 500100 '+') "0x5"
      (isOperator_replicate (by decide) rfl) (by decide +kernel)
    t.text = List.replicate 500100 '+' ++ [' '] ++ "0x5".toList ∧
      (lavendeux.engine .default).format t.text ≠ Styler.default.outer (t.render .default) := by
  have hu : IsOperator (List.replicate 500100 '+') := isOperator_replicate (by decide) rfl
  have hlong : Pattern.searchLimit < 2 * (List.replicate 500100 '+').length := by
    rw [List.length_replicate]
    decide
  exact ⟨Script.text_afterOperator hu _, format_afterOperator_ne hu hlong⟩

end Language

end Highlighter
