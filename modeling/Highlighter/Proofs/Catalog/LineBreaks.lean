import Highlighter.Proofs.Markup.Lossless
import Highlighter.Proofs.Registry.Lookup
import Highlighter.Proofs.Text.Lines
import Highlighter.Sample

/-! The lines of a sample in HTML. Its description becomes one line, and its code keeps its lines:
each line that is shown is a line of the code with tags put in, whatever the tags of a rule span. -/
namespace Highlighter

open Lexeme

namespace Styler

/-- No colour and no container style of the styler contains a line break. -/
structure OneLine (s : Styler) : Prop where
  color : ∀ c, '\n' ∉ s.palette.color c
  containerStyle : '\n' ∉ s.containerStyle

/-- `shown` is `source` with tags of the styler put in. -/
def MarksUp (s : Styler) (source shown : Text) : Prop :=
  ∃ us : List Mark, Mark.chars us = source ∧ us.flatMap (Mark.text s) = shown

variable {s : Styler}

theorem MarksUp.nil : s.MarksUp [] [] := ⟨[], rfl, rfl⟩

theorem MarksUp.cons {source shown : Text} (h : s.MarksUp source shown) (c : Char) :
    s.MarksUp (c :: source) (c :: shown) := by
  obtain ⟨us, rfl, rfl⟩ := h
  exact ⟨.char c true :: us, rfl, rfl⟩

theorem MarksUp.tag {source shown : Text} (h : s.MarksUp source shown) (t : Tag) :
    s.MarksUp source (t.text s ++ shown) := by
  obtain ⟨us, rfl, rfl⟩ := h
  exact ⟨.tag t :: us, rfl, rfl⟩

namespace OneLine

theorem not_mem_tag (h : s.OneLine) (t : Tag) : '\n' ∉ t.text s := by
  cases t with
  | stop =>
    change '\n' ∉ spanEnd
    decide +kernel
  | start c =>
    change '\n' ∉ s.spanStart c
    unfold spanStart
    cases s.mode with
    | inline =>
      simp only [List.mem_append, not_or]
      exact ⟨⟨by decide +kernel, h.color c⟩, by decide +kernel⟩
    | byClass =>
      change '\n' ∉ "<span class='".toList ++ c.name ++ "'>".toList
      cases c <;> decide +kernel

theorem not_mem_containerStart (h : s.OneLine) : '\n' ∉ s.containerStart := by
  unfold containerStart
  cases s.mode with
  | inline =>
    simp only [List.mem_append, not_or]
    exact ⟨⟨by decide +kernel, h.containerStyle⟩, by decide +kernel⟩
  | byClass =>
    change '\n' ∉ "<pre class='".toList ++ containerClass ++ "'>".toList
    decide +kernel

end OneLine

end Styler

namespace Mark

variable {s : Styler}

/-- A row of marks is shown line by line. -/
theorem forall₂_lines (h : s.OneLine) (us : List Mark) : List.Forall₂ s.MarksUp
    ((chars us).splitOn '\n') ((us.flatMap (text s)).splitOn '\n') := by
  induction us with
  | nil => exact .cons .nil .nil
  | cons m us ih =>
    cases m with
    | tag t =>
      have hfront := Text.splitOn_append_of_not_mem (h.not_mem_tag t) (us.flatMap (text s))
      have hid : ((chars us).splitOn '\n').modifyHead id = (chars us).splitOn '\n' :=
        congrFun List.modifyHead_id _
      change List.Forall₂ _ ((chars us).splitOn '\n')
        ((t.text s ++ us.flatMap (text s)).splitOn '\n')
      rw [hfront, ← hid]
      exact forall₂_modifyHead ih fun _ _ hline => hline.tag t
    | char c clear =>
      change List.Forall₂ _ ((c :: chars us).splitOn '\n') ((c :: us.flatMap (text s)).splitOn '\n')
      rw [List.splitOn_cons_eq_if_modifyHead, List.splitOn_cons_eq_if_modifyHead]
      by_cases hc : (c == '\n') = true
      · rw [if_pos hc, if_pos hc]
        exact .cons .nil ih
      · rw [if_neg hc, if_neg hc]
        exact forall₂_modifyHead ih fun _ _ hline => hline.cons c

theorem count_lineBreaks (h : s.OneLine) (us : List Mark) :
    (us.flatMap (text s)).count '\n' = (chars us).count '\n' := by
  induction us with
  | nil => rfl
  | cons m us ih =>
    rw [List.flatMap_cons, List.count_append, ih]
    cases m with
    | tag t =>
      rw [text_tag, List.count_eq_zero_of_not_mem (h.not_mem_tag t), Nat.zero_add]
      rfl
    | char c clear =>
      change [c].count '\n' + (chars us).count '\n' = ([c] ++ chars us).count '\n'
      rw [List.count_append]

end Mark

namespace Sample

theorem breakLines_eq (t : Text) :
    breakLines t = "<br/>".toList.intercalate (t.splitOn '\n') :=
  Text.flatMap_replace '\n' "<br/>" t

theorem breakLines_unlines (lines : List Text) :
    breakLines (Text.unlines lines) = "<br/>".toList.intercalate (lines.map breakLines) :=
  flatMap_intercalate (fun c => if c = '\n' then "<br/>".toList else [c]) ['\n'] lines

theorem not_mem_breakLines (t : Text) : '\n' ∉ breakLines t := by
  intro h
  obtain ⟨c, _, hc⟩ := List.mem_flatMap.mp h
  by_cases hbreak : c = '\n'
  · rw [if_pos hbreak] at hc
    exact absurd hc (by decide)
  · rw [if_neg hbreak] at hc
    exact hbreak (List.mem_singleton.mp hc).symm

/-- The lines of the description, with what stands for each line break. -/
theorem descriptionHtml_ofLines (name format : Text) (description code : List Text) :
    (ofLines name format description code).descriptionHtml =
      "<p>".toList ++ "<br/>".toList.intercalate
        (description.map fun line => "<br/>".toList.intercalate (line.splitOn '\n')) ++
      "</p>".toList := by
  have hlines := breakLines_unlines description
  rw [List.map_congr_left fun line _ => breakLines_eq line] at hlines
  exact congrArg (fun t => "<p>".toList ++ t ++ "</p>".toList) hlines

theorem not_mem_descriptionHtml (sample : Sample) : '\n' ∉ sample.descriptionHtml := by
  simp only [descriptionHtml, List.mem_append, not_or]
  exact ⟨⟨by decide +kernel, not_mem_breakLines _⟩, by decide +kernel⟩

/-- The code of a sample as the registry of all languages formats it: a row of marks in a container,
with the characters of the trimmed code. -/
theorem exists_codeHtml (sample : Sample) (s : Styler) (tag : Text) : ∃ us : List Mark,
    Mark.chars us = sample.code.trim ∧
      sample.codeHtml ((Registry.ofStyler s).get tag) = s.outer (us.flatMap (Mark.text s)) := by
  obtain ⟨l, hl⟩ := Registry.exists_get_ofStyler s tag
  obtain ⟨us, hrun, hchars⟩ := Language.exists_row s l sample.code
  refine ⟨us, hchars, ?_⟩
  rw [hl, codeHtml, Language.format_engine, hrun, Mark.buffers_result]

/-- The lines of a sample in HTML, for every sample and tag, and every styler whose colours and
container style hold no line break. First comes the description, on one line: its lines, with
`<br/>` between each two and in the place of each line break within them. Then comes the code. All
line breaks are those of the trimmed code and stand between `<code>` and `</code>`; there are as many
lines as in the code, and each of them is the line of the code with tags put in. -/
theorem html_line_by_line (s : Styler) (hs : s.OneLine) (name format : Text)
    (description code : List Text) :
    let sample := ofLines name format description code
    let r := Registry.ofStyler s
    sample.html r = sample.descriptionHtml ++ sample.codeHtml (r.get format) ∧
    sample.descriptionHtml =
      "<p>".toList ++ "<br/>".toList.intercalate
        (description.map fun line => "<br/>".toList.intercalate (line.splitOn '\n')) ++
      "</p>".toList ∧
    '\n' ∉ sample.descriptionHtml ∧
    (sample.html r).count '\n' = (Text.unlines code).trim.count '\n' ∧
    ∃ inner, sample.codeHtml (r.get format) =
        s.containerStart ++ "<code>".toList ++ inner ++ "</code>".toList ++ "</pre>".toList ∧
      '\n' ∉ s.containerStart ∧ inner.count '\n' = (Text.unlines code).trim.count '\n' ∧
      List.Forall₂ s.MarksUp ((Text.unlines code).trim.splitOn '\n') (inner.splitOn '\n') := by
  intro sample r
  obtain ⟨us, hchars, hcode⟩ := exists_codeHtml sample s format
  have houter : sample.codeHtml (r.get format) = s.containerStart ++ "<code>".toList ++
      us.flatMap (Mark.text s) ++ "</code>".toList ++ "</pre>".toList :=
    hcode.trans (List.append_assoc _ "</code>".toList "</pre>".toList).symm
  have hinner : (us.flatMap (Mark.text s)).count '\n' = (Text.unlines code).trim.count '\n' :=
    (Mark.count_lineBreaks hs us).trans (congrArg (List.count '\n') hchars)
  have hlines := Mark.forall₂_lines hs us
  rw [hchars] at hlines
  refine ⟨rfl, descriptionHtml_ofLines name format description code,
    sample.not_mem_descriptionHtml, ?_, us.flatMap (Mark.text s), houter, hs.not_mem_containerStart,
    hinner, hlines⟩
  -- Of all parts of the sample only the marks of the code hold line breaks.
  change (sample.descriptionHtml ++ sample.codeHtml (r.get format)).count '\n' = _
  rw [houter, List.count_append, List.count_append, List.count_append, List.count_append,
    List.count_append, hinner, List.count_eq_zero_of_not_mem sample.not_mem_descriptionHtml,
    List.count_eq_zero_of_not_mem hs.not_mem_containerStart,
    List.count_eq_zero_of_not_mem (by decide : '\n' ∉ "<code>".toList),
    List.count_eq_zero_of_not_mem (by decide : '\n' ∉ "</code>".toList),
    List.count_eq_zero_of_not_mem (by decide : '\n' ∉ "</pre>".toList)]
  omega

/-- A comment and a string over two lines each, under a tag of no language. -/
theorem html_line_by_line_of_comment :
    let s : Styler := ⟨.inline, .default, "margin: 0;"⟩
    let sample := ofLines "n" "python" ["a\nb", "c"] ["f(1) /* x", "y */ 'z", "é'", ""]
    s.OneLine ∧ sample.descriptionHtml = "<p>a<br/>b<br/>c</p>" ∧
      (sample.html (Registry.ofStyler s)).count '\n' = 2 := by
  intro s sample
  have hs : s.OneLine := ⟨fun c => by cases c <;> decide +kernel, by decide +kernel⟩
  obtain ⟨_, hdescription, _, hcount, _⟩ := html_line_by_line s hs "n" "python" ["a\nb", "c"]
    ["f(1) /* x", "y */ 'z", "é'", ""]
  exact ⟨hs, hdescription.trans (by decide +kernel), hcount.trans (by decide +kernel)⟩

end Sample

end Highlighter
