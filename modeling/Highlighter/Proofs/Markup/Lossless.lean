import Highlighter.Proofs.Markup.Reading

/-! Highlighting keeps the text: each rule of a language keeps the characters of the row of marks that
it reads, and deleting the tags gives them back. -/
namespace Highlighter

open Lexeme

/-- The text without its tags: a tag goes from a `<` to the next `>`. -/
def stripTags : Text → Text
  | [] => []
  | c :: t =>
    if c = '<' ∧ '>' ∈ t then stripTags (t.dropWhile (· ≠ '>')).tail else c :: stripTags t
  termination_by t => t.length
  decreasing_by
    · have hdrop := (t.dropWhile_suffix (· ≠ '>')).length_le
      rw [List.length_tail, List.length_cons]
      omega
    · exact Nat.lt_succ_self _

theorem stripTags_cons {c : Char} (h : c ≠ '<') (t : Text) :
    stripTags (c :: t) = c :: stripTags t := by
  rw [stripTags, if_neg fun hc => h hc.1]

/-- A tag and nothing else. -/
def IsTag (t : Text) : Prop := ∃ inner, t = '<' :: (inner ++ ['>']) ∧ '>' ∉ inner

theorem IsTag.stripTags_append {t : Text} (h : IsTag t) (rest : Text) :
    stripTags (t ++ rest) = stripTags rest := by
  obtain ⟨inner, rfl, hinner⟩ := h
  have hall : ∀ c ∈ inner, (decide (c ≠ '>')) = true := fun c hc =>
    decide_eq_true fun heq => hinner (heq ▸ hc)
  have hdrop : (inner ++ '>' :: rest).dropWhile (· ≠ '>') = '>' :: rest := by
    rw [List.dropWhile_append_of_pos hall]
    rfl
  rw [List.cons_append, List.append_assoc, List.singleton_append, stripTags,
    if_pos ⟨rfl, List.mem_append_right _ List.mem_cons_self⟩, hdrop, List.tail_cons]

/-- The text contains no bracket of a tag. -/
def TagFree (t : Text) : Prop := '<' ∉ t ∧ '>' ∉ t

instance (t : Text) : Decidable (TagFree t) := inferInstanceAs (Decidable (_ ∧ _))

/-- The tag with `value` in quotes at its end. -/
theorem isTag_quoted {start : Text} (quote : Char) {value : Text} (hq : '>' ≠ quote)
    (hs : '>' ∉ start) (hv : '>' ∉ value) :
    IsTag ('<' :: start ++ value ++ [quote, '>']) := by
  refine ⟨start ++ value ++ [quote], by simp, ?_⟩
  simp [hq, hs, hv]

/-- No colour and no container style of the styler contains a bracket of a tag. -/
structure Styler.TagFree (s : Styler) : Prop where
  color : ∀ c, Highlighter.TagFree (s.palette.color c)
  containerStyle : Highlighter.TagFree s.containerStyle

theorem isTag_spanStart {s : Styler} (h : s.TagFree) (c : Category) : IsTag (s.spanStart c) := by
  unfold Styler.spanStart
  cases s.mode with
  | inline => exact isTag_quoted '"' (by decide) (by decide) (h.color c).2
  | byClass => exact isTag_quoted '\'' (by decide) (by decide) (by cases c <;> decide)

theorem isTag_containerStart {s : Styler} (h : s.TagFree) : IsTag s.containerStart := by
  unfold Styler.containerStart
  cases s.mode with
  | inline => exact isTag_quoted '"' (by decide) (by decide) h.containerStyle.2
  | byClass => exact isTag_quoted '\'' (by decide) (by decide) (by decide)

theorem isTag_text {s : Styler} (h : s.TagFree) (t : Tag) : IsTag (t.text s) := by
  cases t with
  | start c => exact isTag_spanStart h c
  | stop => exact ⟨"/span", rfl, by decide⟩

/-- Deleting the tags of a row of marks gives its characters back. -/
theorem Mark.stripTags_text {s : Styler} (h : s.TagFree) {us : List Mark} (hus : '<' ∉ chars us)
    (rest : Text) : stripTags (us.flatMap (text s) ++ rest) = chars us ++ stripTags rest := by
  induction us with
  | nil => rfl
  | cons m us ih =>
    rw [List.flatMap_cons, List.append_assoc]
    cases m with
    | char c clear =>
      obtain ⟨hc, hus⟩ := not_or.mp (mt List.mem_cons.mpr hus)
      change stripTags (c :: (us.flatMap (text s) ++ rest)) = c :: (chars us ++ stripTags rest)
      rw [stripTags_cons (Ne.symm hc), ih hus]
    | tag t =>
      rw [text_tag, (isTag_text h t).stripTags_append]
      exact ih hus

/-- Deleting the tags of a whole sample deletes those around it as well. -/
theorem stripTags_outer {s : Styler} (h : s.TagFree) {inner t : Text}
    (hinner : ∀ rest, stripTags (inner ++ rest) = t ++ stripTags rest) :
    stripTags (s.outer inner) = t := by
  have hcode : IsTag "<code>" := ⟨"code", rfl, by decide⟩
  have hcode' : IsTag "</code>" := ⟨"/code", rfl, by decide⟩
  have hpre' : IsTag "</pre>" := ⟨"/pre", rfl, by decide⟩
  have hend : stripTags "</code></pre>" = [] := by
    have happend : ("</code></pre>" : Text) = "</code>".toList ++ ("</pre>".toList ++ []) := rfl
    rw [happend, hcode'.stripTags_append, hpre'.stripTags_append, stripTags]
  rw [Styler.outer, List.append_assoc, List.append_assoc,
    (isTag_containerStart h).stripTags_append, hcode.stripTags_append, hinner, hend, List.append_nil]

namespace Lexeme.Kind

/-- A rule of a language keeps the characters. -/
theorem chars_of_reads {k : Kind} {e : Ending} {prev : Option Char} {us : List Mark}
    {ps : List Piece} (h : Reads k e prev us ps) :
    Mark.chars (ps.flatMap (Piece.marks k.wrap)) = Mark.chars us := by
  rw [← h.flatMap_source]
  clear h
  induction ps with
  | nil => rfl
  | cons p ps ih =>
    rw [List.flatMap_cons, List.flatMap_cons, Mark.chars_append, Mark.chars_append, ih]
    cases p with
    | pass m => rfl
    | hit us => rw [Piece.marks, Piece.source, Wrap.chars_marks]

end Lexeme.Kind

theorem Text.mem_of_mem_trim {c : Char} {t : Text} (h : c ∈ t.trim) : c ∈ t := by
  have hback := List.mem_reverse.mp h
  have hfront := List.mem_reverse.mp ((List.dropWhile_suffix _).subset hback)
  exact (List.dropWhile_suffix _).subset hfront

namespace Language

/-- The rules for the lexemes make a row of marks of the input, with the characters of the trimmed
input, whether or not a search gives up. -/
theorem exists_row (s : Styler) (l : Language) (input : Text) : ∃ us : List Mark,
    Engine.run (l.regexRules s) (Buffers.ofInput input) = Mark.buffers s us ∧
      Mark.chars us = input.trim := by
  obtain ⟨us, hrun, hchars⟩ := Lexeme.Kind.run_invariant s
    (fun k (_ : k ∈ l.kinds) _ _ _ hreads hus => (Lexeme.Kind.chars_of_reads hreads).trans hus)
    (Mark.chars_ofText input.trim)
  rw [← regexRules_eq, Mark.buffers_ofText] at hrun
  exact ⟨us, hrun, hchars⟩

/-- Highlighting is lossless, in both languages, with every styler and on every text without the
brackets of tags: the formatted text without its tags is the trimmed input, and it is the result of
the rules for the lexemes as a whole sample. -/
theorem stripTags_format (s : Styler) (hs : s.TagFree) (l : Language) (input : Text)
    (hinput : TagFree input) : stripTags ((l.engine s).format input) = input.trim ∧
      (l.engine s).format input =
        s.outer (Engine.run (l.regexRules s) (Buffers.ofInput input)).result := by
  obtain ⟨us, hrun, hchars⟩ := exists_row s l input
  have hfree : '<' ∉ Mark.chars us := by
    rw [hchars]
    exact fun h => hinput.1 (Text.mem_of_mem_trim h)
  have hresult : (Engine.run (l.regexRules s) (Buffers.ofInput input)).result =
      us.flatMap (Mark.text s) := (congrArg Buffers.result hrun).trans (Mark.buffers_result s us)
  refine ⟨?_, format_engine s l input⟩
  rw [format_engine, hresult, ← hchars]
  exact stripTags_outer hs (Mark.stripTags_text hs hfree)

/-- A call with a comment. -/
theorem stripTags_format_of_call :
    let s : Styler := ⟨.inline, .default, "margin: 0;"⟩
    s.TagFree ∧ TagFree " max(1, x) /* é */ " ∧
      stripTags ((lavendeux.engine s).format " max(1, x) /* é */ ") = "max(1, x) /* é */" :=
  let s : Styler := ⟨.inline, .default, "margin: 0;"⟩
  have hs : s.TagFree := ⟨fun c => by cases c <;> decide +kernel, by decide +kernel⟩
  have hinput : TagFree " max(1, x) /* é */ " := by decide +kernel
  ⟨hs, hinput, (stripTags_format s hs lavendeux _ hinput).1.trans (by decide +kernel)⟩

end Language

end Highlighter
