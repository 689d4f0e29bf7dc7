import Highlighter.Proofs.Markup.Lossless
import Highlighter.Proofs.Markup.Rows
import Mathlib.Data.List.Find

/-! A styler has no say in what is highlighted: with another styler the result has other tags in the
same places, and what is left to each rule differs only in the lengths of its blanks. -/
namespace Highlighter

open Lexeme

/-- The text with each word of the table replaced by what stands beside it, from left to right; what
has been put in is not read again. -/
def replaceAll (table : List (Text × Text)) : Text → Text
  | [] => []
  | c :: t =>
    match table.find? (·.1.isPrefixOf (c :: t)) with
    | some (word, replacement) => replacement ++ replaceAll table (t.drop (word.length - 1))
    | none => c :: replaceAll table t
  termination_by t => t.length
  decreasing_by
    · rw [List.length_drop, List.length_cons]
      omega
    · exact Nat.lt_succ_self _

/-- The text with a single space for each run of spaces. -/
def collapseSpaces : Text → Text
  | [] => []
  | c :: t => if c = ' ' ∧ t.head? = some ' ' then collapseSpaces t else c :: collapseSpaces t

namespace IsTag

/-- A tag that stands at the front of a text is the tag that the text begins with. -/
theorem eq_of_front {t u rest : Text} (ht : IsTag t) (hu : IsTag u) (h : t <+: u ++ rest) :
    t = u := by
  obtain ⟨a, rfl, ha⟩ := ht
  obtain ⟨b, rfl, hb⟩ := hu
  have hsplit (x more : Text) (hx : '>' ∉ x) : (x ++ '>' :: more).takeWhile (· ≠ '>') = x := by
    have hall : ∀ c ∈ x, decide (c ≠ '>') = true := fun c hc =>
      decide_eq_true fun heq => hx (heq ▸ hc)
    rw [List.takeWhile_append_of_pos hall]
    exact List.append_nil x
  obtain ⟨more, hmore⟩ := h
  simp only [List.cons_append, List.append_assoc, List.nil_append] at hmore
  have hinner := congrArg (List.takeWhile (· ≠ '>')) (List.cons.inj hmore).2
  rw [hsplit a more ha, hsplit b rest hb] at hinner
  rw [hinner]

end IsTag

section Replacing

variable {table : List (Text × Text)}

/-- A table of tags replaces nothing but tags. -/
theorem replaceAll_cons (htable : ∀ p ∈ table, IsTag p.1) {c : Char} (hc : c ≠ '<') (t : Text) :
    replaceAll table (c :: t) = c :: replaceAll table t := by
  have hnone : table.find? (·.1.isPrefixOf (c :: t)) = none := by
    rw [List.find?_eq_none]
    rintro p hp hprefix
    obtain ⟨inner, hinner, _⟩ := htable p hp
    rw [hinner, List.isPrefixOf_cons_cons, Bool.and_eq_true, beq_iff_eq] at hprefix
    exact hc hprefix.1.symm
  rw [replaceAll, hnone]

theorem replaceAll_append (htable : ∀ p ∈ table, IsTag p.1) {t : Text} (ht : '<' ∉ t) (rest : Text) :
    replaceAll table (t ++ rest) = t ++ replaceAll table rest := by
  induction t with
  | nil => rfl
  | cons c t ih =>
    obtain ⟨hc, ht⟩ := not_or.mp (mt List.mem_cons.mpr ht)
    rw [List.cons_append, replaceAll_cons htable (Ne.symm hc), ih ht, List.cons_append]

/-- At a tag the table is looked up. -/
theorem find?_tag (htable : ∀ p ∈ table, IsTag p.1) {t : Text} (ht : IsTag t) (rest : Text) :
    table.find? (·.1.isPrefixOf (t ++ rest)) = table.find? (·.1 = t) := by
  apply List.find?_congr
  intro p hp
  rw [Bool.eq_iff_iff, List.isPrefixOf_iff_prefix, decide_eq_true_iff]
  constructor
  · exact (htable p hp).eq_of_front ht
  · rintro rfl
    exact List.prefix_append _ _

theorem replaceAll_of_find? (htable : ∀ p ∈ table, IsTag p.1) {t replacement : Text} (ht : IsTag t)
    (h : table.find? (·.1 = t) = some (t, replacement)) (rest : Text) :
    replaceAll table (t ++ rest) = replacement ++ replaceAll table rest := by
  have hfind := (find?_tag htable ht rest).trans h
  obtain ⟨inner, rfl, _⟩ := ht
  rw [List.cons_append] at hfind
  rw [List.cons_append, replaceAll, hfind]
  change replacement ++ replaceAll table ((inner ++ ['>'] ++ rest).drop (inner ++ ['>']).length) = _
  rw [List.drop_left]

/-- A tag that the table does not list is kept. -/
theorem replaceAll_of_find?_eq_none (htable : ∀ p ∈ table, IsTag p.1) {inner : Text}
    (ht : IsTag ('<' :: inner)) (hinner : '<' ∉ inner)
    (h : table.find? (·.1 = '<' :: inner) = none) (rest : Text) :
    replaceAll table ('<' :: inner ++ rest) = '<' :: inner ++ replaceAll table rest := by
  have hfind := (find?_tag htable ht rest).trans h
  rw [List.cons_append] at hfind
  rw [List.cons_append, replaceAll, hfind, replaceAll_append htable hinner, List.cons_append]

end Replacing

namespace Styler

/-- The opening tags that a styler writes with classes, and what stands for them in inline mode. -/
def restyling (s : Styler) : List (Text × Text) :=
  ("<pre class='formatted-sample'>", "<pre style=\"" ++ s.containerStyle ++ "\">") ::
    Category.all.map fun c => ("<span class='" ++ c.name ++ "'>",
      "<span style=\"color:" ++ s.palette.color c ++ "\">")

variable {s s' : Styler}

theorem isTag_restyling (s : Styler) : ∀ p ∈ s.restyling, IsTag p.1 := by
  intro p hp
  rcases List.mem_cons.mp hp with rfl | hp
  · exact ⟨"pre class='formatted-sample'", rfl, by decide⟩
  · obtain ⟨c, _, rfl⟩ := List.mem_map.mp hp
    exact isTag_quoted '\'' (by decide) (by decide) (by cases c <;> decide)

theorem restyle_spanStart (h : s.mode = .inline) (h' : s'.mode = .byClass) (c : Category)
    (rest : Text) : replaceAll s.restyling (s'.spanStart c ++ rest) =
      s.spanStart c ++ replaceAll s.restyling rest := by
  have hfind : s.restyling.find? (·.1 = s'.spanStart c) = some (s'.spanStart c, s.spanStart c) := by
    rw [spanStart, spanStart, h, h']
    cases c <;> rfl
  have htag : IsTag (s'.spanStart c) := by
    rw [spanStart, h']
    exact isTag_quoted '\'' (by decide) (by decide) (by cases c <;> decide)
  exact replaceAll_of_find? s.isTag_restyling htag hfind rest

theorem restyle_containerStart (h : s.mode = .inline) (h' : s'.mode = .byClass) (rest : Text) :
    replaceAll s.restyling (s'.containerStart ++ rest) =
      s.containerStart ++ replaceAll s.restyling rest := by
  have hfind : s.restyling.find? (·.1 = s'.containerStart) =
      some (s'.containerStart, s.containerStart) := by
    rw [containerStart, containerStart, h, h']
    rfl
  have htag : IsTag s'.containerStart := by
    rw [containerStart, h']
    exact isTag_quoted '\'' (by decide) (by decide) (by decide)
  exact replaceAll_of_find? s.isTag_restyling htag hfind rest

/-- Restyling a row of marks writes its tags as the other styler does. -/
theorem restyle_text (h : s.mode = .inline) (h' : s'.mode = .byClass) {us : List Mark}
    (hus : '<' ∉ Mark.chars us) (rest : Text) :
    replaceAll s.restyling (us.flatMap (Mark.text s') ++ rest) =
      us.flatMap (Mark.text s) ++ replaceAll s.restyling rest := by
  induction us with
  | nil => rfl
  | cons m us ih =>
    rw [List.flatMap_cons, List.flatMap_cons, List.append_assoc, List.append_assoc]
    cases m with
    | char c clear =>
      obtain ⟨hc, hus⟩ := not_or.mp (mt List.mem_cons.mpr hus)
      rw [← ih hus]
      exact replaceAll_cons s.isTag_restyling (Ne.symm hc) _
    | tag t =>
      rw [← ih hus]
      cases t with
      | start c => exact restyle_spanStart h h' c _
      | stop =>
        exact replaceAll_of_find?_eq_none s.isTag_restyling ⟨"/span", rfl, by decide⟩ (by decide) rfl _

theorem restyle_outer (h : s.mode = .inline) (h' : s'.mode = .byClass) {us : List Mark}
    (hus : '<' ∉ Mark.chars us) : replaceAll s.restyling (s'.outer (us.flatMap (Mark.text s'))) =
      s.outer (us.flatMap (Mark.text s)) := by
  have hcode (rest : Text) : replaceAll s.restyling ("<code>" ++ rest) =
      "<code>" ++ replaceAll s.restyling rest :=
    replaceAll_of_find?_eq_none s.isTag_restyling ⟨"code", rfl, by decide⟩ (by decide) rfl rest
  have hcode' (rest : Text) : replaceAll s.restyling ("</code>" ++ rest) =
      "</code>" ++ replaceAll s.restyling rest :=
    replaceAll_of_find?_eq_none s.isTag_restyling ⟨"/code", rfl, by decide⟩ (by decide) rfl rest
  have hpre' (rest : Text) : replaceAll s.restyling ("</pre>" ++ rest) =
      "</pre>" ++ replaceAll s.restyling rest :=
    replaceAll_of_find?_eq_none s.isTag_restyling ⟨"/pre", rfl, by decide⟩ (by decide) rfl rest
  have hend : replaceAll s.restyling "</code></pre>" = "</code></pre>" := by
    have happend : ("</code></pre>" : Text) = "</code>".toList ++ ("</pre>".toList ++ []) := rfl
    rw [happend, hcode', hpre', replaceAll]
  rw [outer, outer, List.append_assoc, List.append_assoc, restyle_containerStart h h', hcode,
    restyle_text h h' hus, hend, List.append_assoc, List.append_assoc]

end Styler

theorem collapseSpaces_replicate (n : Nat) (t : Text) :
    collapseSpaces (List.replicate (n + 1) ' ' ++ t) = collapseSpaces (' ' :: t) := by
  induction n with
  | zero => rfl
  | succ n ih =>
    rw [← ih, List.replicate_succ, List.cons_append, collapseSpaces, if_pos ⟨rfl, rfl⟩]

/-- Texts that begin with the same character stay the same behind a further one. -/
theorem collapseSpaces_cons {t u : Text} (h : collapseSpaces t = collapseSpaces u)
    (hhead : t.head? = u.head?) (c : Char) : collapseSpaces (c :: t) = collapseSpaces (c :: u) := by
  rw [collapseSpaces, collapseSpaces, h, hhead]

/-- But for the lengths of the blanks, a styler sees the characters that the marks stand for. -/
theorem Mark.collapseSpaces_seen (s : Styler) (us : List Mark) :
    collapseSpaces (us.flatMap (seen s)) = collapseSpaces (us.map sym) := by
  induction us with
  | nil => rfl
  | cons m us ih =>
    have hlater := collapseSpaces_cons ih
      (((Mark.spread s).head?_flatMap us).trans List.head?_map.symm) m.sym
    obtain ⟨n, hn, rfl | hblank⟩ := Mark.spread s m
    · rw [List.flatMap_cons, hn]
      exact hlater
    · rw [hblank] at hlater hn
      rw [List.flatMap_cons, hn, collapseSpaces_replicate, hlater, List.map_cons, hblank]

/-- Rows keep the characters. -/
theorem Rows.chars_final {ks : List Kind} {us final : List Mark} {rows : List (List Mark)}
    (h : Rows ks us rows final) : Mark.chars final = Mark.chars us := by
  induction h with
  | nil => rfl
  | cons hmakes _ ih =>
    obtain ⟨ps, hps, rfl⟩ := hmakes
    rw [ih, Kind.chars_of_reads hps]

namespace Language

/-- Highlighting does not depend on the styler, in both languages and on every input on which no
search gives up. On an input without `<`, the text that a styler makes in inline mode is the text
that another one makes with classes, with the opening tags replaced; and for any two stylers, what
is left of the text at the beginning and after each rule is the same but for the lengths of runs of
spaces. -/
theorem format_restyled (l : Language) (input : Text) (s s' : Styler)
    (h : (l.engine s).NeverStops input) (h' : (l.engine s').NeverStops input) :
    ('<' ∉ input → s.mode = .inline → s'.mode = .byClass →
      (l.engine s).format input = replaceAll s.restyling ((l.engine s').format input)) ∧
    (Engine.states (l.regexRules s) (Buffers.ofInput input)).map (collapseSpaces ·.remainder) =
      (Engine.states (l.regexRules s') (Buffers.ofInput input)).map
        (collapseSpaces ·.remainder) := by
  obtain ⟨rows, final, hrows, hstates, hformat⟩ := exists_rows h
  obtain ⟨rows', final', hrows', hstates', hformat'⟩ := exists_rows h'
  -- Both runs go through the same rows, which name no styler.
  obtain ⟨rfl, rfl⟩ := hrows.unique hrows'
  refine ⟨fun hinput hs hs' => ?_, ?_⟩
  · have hfree : '<' ∉ Mark.chars final := by
      rw [hrows.chars_final, Mark.chars_ofText]
      exact mt Text.mem_of_mem_trim hinput
    rw [hformat, hformat', Styler.restyle_outer hs hs' hfree]
  · rw [hstates, hstates', List.map_map, List.map_map]
    apply List.map_congr_left
    intro us _
    simp only [Function.comp_apply, Mark.buffers_remainder, Mark.collapseSpaces_seen]

/-- A call with a string, in short and in long tags. -/
theorem format_restyled_of_call :
    let s : Styler := ⟨.inline, .default, "margin: 0;"⟩
    let s' : Styler := ⟨.byClass, .default, []⟩
    let input : Text := "f('a', 0x1) // é"
    (lavendeux.engine s).NeverStops input ∧ (lavendeux.engine s').NeverStops input ∧
      '<' ∉ input ∧ (lavendeux.engine s).format input =
        replaceAll s.restyling ((lavendeux.engine s').format input) :=
  let s : Styler := ⟨.inline, .default, "margin: 0;"⟩
  let s' : Styler := ⟨.byClass, .default, []⟩
  let input : Text := "f('a', 0x1) // é"
  have h : (lavendeux.engine s).NeverStops input := by decide +kernel
  have h' : (lavendeux.engine s').NeverStops input := by decide +kernel
  have hinput : '<' ∉ input := by decide +kernel
  ⟨h, h', hinput, (format_restyled lavendeux input s s' h h').1 hinput rfl rfl⟩

end Language

end Highlighter
