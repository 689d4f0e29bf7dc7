import Highlighter.Proofs.Lexeme.Successive
import Highlighter.Proofs.Markup.Reading

/-! The comment rules against scanners that read a text as a person does: comments to the end of the
line are looked for line by line, and block comments are read from left to right. -/
namespace Highlighter

namespace Text

/-- What stands before the first occurrence of a word in a text, and what follows the word. -/
def splitFirst? (w : Text) : Text → Option (Text × Text)
  | [] => none
  | c :: t =>
    if w.isPrefixOf (c :: t) then some ([], (c :: t).drop w.length)
    else (splitFirst? w t).map fun (front, rest) => (c :: front, rest)

theorem append_of_splitFirst? {w t front rest : Text} (h : splitFirst? w t = some (front, rest)) :
    front ++ w ++ rest = t := by
  induction t generalizing front with
  | nil => exact absurd h (by simp [splitFirst?])
  | cons c t ih =>
    rw [splitFirst?] at h
    split at h
    · rename_i hw
      obtain ⟨rest', hrest⟩ := List.isPrefixOf_iff_prefix.mp hw
      obtain ⟨rfl, rfl⟩ := Prod.mk.inj (Option.some.inj h)
      rw [← hrest, List.drop_left, List.nil_append]
    · obtain ⟨⟨front', rest'⟩, hsplit, hw⟩ := Option.map_eq_some_iff.mp h
      obtain ⟨rfl, rfl⟩ := Prod.mk.inj hw
      exact congrArg (c :: ·) (ih hsplit)

/-- A line with what the handler makes of its comment, of the first `//` and all that is behind it. -/
def commentLine (handler : Handler) (line : Text) : Text :=
  match splitFirst? "//" line with
  | some (code, comment) => code ++ handler ("//" ++ comment)
  | none => line

/-- The block comment that a text begins with, and the rest: `/*` and everything up to the end of the
first `*/` behind it. -/
def blockComment? : Text → Option (Text × Text)
  | '/' :: '*' :: t =>
    (splitFirst? "*/" t).map fun (inside, rest) => ("/*" ++ inside ++ "*/", rest)
  | _ => none

theorem append_of_blockComment? {t comment rest : Text} (h : blockComment? t = some (comment, rest)) :
    comment ++ rest = t ∧ comment ≠ [] := by
  unfold blockComment? at h
  split at h
  · rename_i t
    obtain ⟨⟨inside, rest⟩, hsplit, hw⟩ := Option.map_eq_some_iff.mp h
    obtain ⟨rfl, rfl⟩ := Prod.mk.inj hw
    exact ⟨congrArg ('/' :: '*' :: ·) (append_of_splitFirst? hsplit), List.cons_ne_nil _ _⟩
  · exact absurd h (by simp)

/-- The block comments of a text from left to right. A `/*` with no `*/` behind it is left alone. -/
def blockComments : Text → List Match
  | [] => []
  | c :: t =>
    match h : blockComment? (c :: t) with
    | some (comment, rest) =>
      have : rest.length < t.length + 1 := by
        obtain ⟨htext, hne⟩ := append_of_blockComment? h
        have hlen := congrArg List.length htext
        have hpos := List.length_pos_iff.mpr hne
        rw [List.length_append, List.length_cons] at hlen
        omega
      ⟨[], comment, rest⟩ :: blockComments rest
    | none => (blockComments t).modifyHead (Match.skipping c)
  termination_by t => t.length

end Text

namespace Lexeme

/-- Two given characters, and behind them what `later` finds. -/
theorem after?_after? (a b : Char) (later : Text → Option (Text × Text)) (t : Text) :
    after? (· = a) id (fun _ => after? (· = b) id fun _ => later) t =
      if [a, b].isPrefixOf t then (later (t.drop 2)).map (prepend [a, b]) else none := by
  cases t with
  | nil => rfl
  | cons c t =>
    by_cases hc : c = a
    · subst hc
      rw [after?_cons_of_pos (by exact decide_eq_true rfl)]
      cases t with
      | nil => simp [after?, List.isPrefixOf]
      | cons d t =>
        by_cases hd : d = b
        · subst hd
          rw [after?_cons_of_pos (by exact decide_eq_true rfl), if_pos (by simp [List.isPrefixOf]),
            map_prepend_prepend]
          rfl
        · rw [after?_cons_of_neg (by exact decide_eq_false hd),
            if_neg (by simp [List.isPrefixOf, Ne.symm hd]), Option.map_none]
    · rw [after?_cons_of_neg (by exact decide_eq_false hc),
        if_neg (by simp [List.isPrefixOf, Ne.symm hc])]

theorem after?_after?_eq_none {a b : Char} {later : Text → Option (Text × Text)} {t : Text}
    (h : ¬ [a, b] <+: t) :
    after? (· = a) id (fun _ => after? (· = b) id fun _ => later) t = none := by
  rw [after?_after?, if_neg (mt List.isPrefixOf_iff_prefix.mp h)]

theorem close?_eq (t : Text) :
    close? id t = if ['*', '/'].isPrefixOf t then some (['*', '/'], t.drop 2) else none :=
  after?_after? '*' '/' (fun v => some ([], v)) t

/-- What is found up to the end of a comment is what stands before the first `*/`, with this. -/
theorem upToClose_eq (t : Text) : upToClose id t =
    (Text.splitFirst? "*/" t).map fun (inside, rest) => (inside ++ "*/", rest) := by
  induction t with
  | nil => rfl
  | cons c t ih =>
    change (close? id (c :: t)).or _ =
      Option.map _ (if ['*', '/'].isPrefixOf (c :: t) then _ else _)
    rw [close?_eq, ih]
    split
    · rfl
    · rw [Option.none_or, Option.map_map, Option.map_map]
      rfl

/-- The recognizer of block comments finds the block comment that a text begins with. -/
theorem blockComment_eq (t : Text) : blockComment id none t = Text.blockComment? t := by
  unfold Text.blockComment?
  split
  · rename_i t
    refine (after?_after? '/' '*' (upToClose id) _).trans ?_
    rw [if_pos (by simp [List.isPrefixOf])]
    change (upToClose id t).map _ = _
    rw [upToClose_eq, Option.map_map]
    rfl
  · rename_i hno
    refine after?_after?_eq_none fun hopen => ?_
    obtain ⟨rest, hrest⟩ := hopen
    exact hno rest hrest.symm

theorem lineComment_eq_none {t : Text} (h : ¬ ['/', '/'] <+: t) : lineComment id none t = none :=
  after?_after?_eq_none h

/-- A line ends before the first newline. -/
theorem line_append {t rest : Text} (ht : '\n' ∉ t) (hrest : ∀ c ∈ rest.head?, c = '\n') :
    line id (t ++ rest) = (t, rest) := by
  have hall : ∀ c ∈ t, (CharSet.notNewline.has ∘ id) c = true := by
    intro c hc
    have hne : c ≠ '\n' := fun h => ht (h ▸ hc)
    rw [Function.comp_apply, id, CharSet.has_notNewline, decide_eq_false hne, Bool.not_false]
  have hstop : rest.takeWhile (CharSet.notNewline.has ∘ id) = [] ∧
      rest.dropWhile (CharSet.notNewline.has ∘ id) = rest := by
    cases rest with
    | nil => exact ⟨rfl, rfl⟩
    | cons c rest =>
      have hc : ¬ (CharSet.notNewline.has ∘ id) c = true := by
        rw [hrest c rfl]
        decide
      exact ⟨List.takeWhile_cons_of_neg hc, List.dropWhile_cons_of_neg hc⟩
  rw [line, List.takeWhile_append_of_pos hall, List.dropWhile_append_of_pos hall, hstop.1, hstop.2,
    List.append_nil]

/-- A comment goes to the end of its line. -/
theorem lineComment_eq {t rest : Text} (ht : '\n' ∉ t) (hrest : ∀ c ∈ rest.head?, c = '\n') :
    lineComment id none ('/' :: '/' :: (t ++ rest)) = some ("//" ++ t, rest) := by
  refine (after?_after? '/' '/' (fun v => some (line id v)) _).trans ?_
  rw [if_pos (by simp [List.isPrefixOf])]
  exact congrArg (fun w => some (prepend ['/', '/'] w)) (line_append ht hrest)

/-- The matches of the pattern for block comments are those that the scanner finds. -/
theorem successive_blockComment (left t : Text) :
    Kind.blockComment.pattern.regex.successive left t = Text.blockComments t := by
  fun_induction Text.blockComments t generalizing left with
  | case1 => exact Kind.blockComment.successive_nil left
  | case2 c t comment rest h _ ih =>
    have hr : Kind.blockComment.recognizer id left.head? (c :: t) = some (comment, rest) :=
      (blockComment_eq (c :: t)).trans h
    rw [Kind.successive_of_recognizer hr, ih]
  | case3 c t h ih =>
    have hr : Kind.blockComment.recognizer id left.head? (c :: t) = none :=
      (blockComment_eq (c :: t)).trans h
    rw [Kind.successive_cons hr, ih]

/-- The slash that opens a comment does not close it, and an opening within it counts for nothing. -/
example : Text.blockComments "a/*/ /* */b/*" =
    [⟨['a'], "/*/ /* */", ['b', '/', '*']⟩] := by decide +kernel

theorem commentLine_cons (handler : Handler) {c : Char} {t : Text} (h : ¬ ['/', '/'] <+: c :: t) :
    Text.commentLine handler (c :: t) = c :: Text.commentLine handler t := by
  have hno : ¬ ['/', '/'].isPrefixOf (c :: t) = true := mt List.isPrefixOf_iff_prefix.mp h
  have hsplit : Text.splitFirst? ['/', '/'] (c :: t) =
      (Text.splitFirst? ['/', '/'] t).map fun (front, rest) => (c :: front, rest) := if_neg hno
  unfold Text.commentLine
  change (match Text.splitFirst? ['/', '/'] (c :: t) with | some (_, _) => _ | none => _) = c ::
    (match Text.splitFirst? ['/', '/'] t with | some (_, _) => _ | none => _)
  rw [hsplit]
  cases Text.splitFirst? ['/', '/'] t <;> rfl

/-- The text with what the handler makes of each comment to the end of a line. -/
def replaceComments (handler : Handler) (t : Text) : Text :=
  Match.replaceEach handler (Kind.lineComment.pattern.regex.successive [] t) t

section Lines

variable {handler : Handler} {c : Char} {t u v rest : Text}

theorem replaceComments_of_comment (h : lineComment id none t = some (u, v)) :
    replaceComments handler t = handler u ++ replaceComments handler v := by
  have hr : Kind.lineComment.recognizer id (List.head? []) t = some (u, v) := h
  have hlater := Regex.successive_congr (r := Kind.lineComment.pattern.regex) rfl
    (u.reverse ++ []) [] v
  rw [replaceComments, Kind.successive_of_recognizer hr, hlater]
  rfl

theorem replaceComments_cons (h : lineComment id none (c :: t) = none) :
    replaceComments handler (c :: t) = c :: replaceComments handler t := by
  have hr : Kind.lineComment.recognizer id (List.head? []) (c :: t) = none := h
  have hlater := Regex.successive_congr (r := Kind.lineComment.pattern.regex) rfl [c] [] t
  rw [replaceComments, Kind.successive_cons hr, hlater, Match.replaceEach_skipping]
  rfl

theorem replaceComments_nil (handler : Handler) : replaceComments handler [] = [] :=
  congrArg (Match.replaceEach handler · []) (Kind.lineComment.successive_nil [])

/-- The comment of a line does not go beyond it. -/
theorem replaceComments_append (ht : '\n' ∉ t) (hrest : ∀ c ∈ rest.head?, c = '\n') :
    replaceComments handler (t ++ rest) =
      Text.commentLine handler t ++ replaceComments handler rest := by
  induction t with
  | nil => rfl
  | cons c t ih =>
    obtain ⟨_, ht'⟩ := not_or.mp (mt List.mem_cons.mpr ht)
    by_cases hopen : ['/', '/'] <+: c :: t
    · obtain ⟨more, hmore⟩ := hopen
      rw [← hmore] at ht ⊢
      have hno : '\n' ∉ more := fun h => ht (List.mem_append_right _ h)
      exact replaceComments_of_comment (lineComment_eq hno hrest)
    · -- A comment would need both slashes, and the second one cannot be that of a line break.
      have hno : ¬ ['/', '/'] <+: c :: (t ++ rest) := by
        rintro ⟨more, hmore⟩
        obtain ⟨rfl, hslash⟩ := List.cons.inj hmore
        cases t with
        | nil =>
          have hhead := hrest '/' (by rw [← List.nil_append rest, ← hslash]; rfl)
          exact absurd hhead (by decide)
        | cons d t =>
          obtain ⟨rfl, _⟩ := List.cons.inj hslash
          exact hopen ⟨t, rfl⟩
      rw [commentLine_cons handler hopen, List.cons_append, List.cons_append, ← ih ht']
      exact replaceComments_cons (lineComment_eq_none hno)

theorem replaceComments_eq (handler : Handler) (t : Text) : replaceComments handler t =
    Text.unlines ((t.splitOn '\n').map (Text.commentLine handler)) := by
  by_cases h : '\n' ∈ t
  · obtain ⟨line, rest, ht, hline⟩ := List.eq_append_cons_of_mem h
    have hlater := replaceComments_eq handler rest
    have hbreak : ¬ ['/', '/'] <+: '\n' :: rest := by
      rintro ⟨_, hopen⟩
      exact absurd (List.cons.inj hopen).1 (by decide)
    have hrest : ∀ c ∈ List.head? ('\n' :: rest), c = '\n' := fun c hc => (Option.some.inj hc).symm
    -- The first line, its line break, in which no comment begins, and the lines behind it.
    rw [ht, List.splitOn_append_cons_self_of_not_mem hline, replaceComments_append hline hrest,
      replaceComments_cons (lineComment_eq_none hbreak), hlater, List.map_cons, Text.unlines,
      Text.unlines, List.intercalate_cons_of_ne_nil (by simp [List.splitOn_ne_nil]),
      List.append_assoc, List.singleton_append]
  · have happend : replaceComments handler (t ++ []) =
        Text.commentLine handler t ++ replaceComments handler [] :=
      replaceComments_append h (by simp)
    rw [List.append_nil, replaceComments_nil, List.append_nil] at happend
    rw [List.splitOn_eq_singleton h, happend, List.map_singleton, Text.unlines,
      List.intercalate_singleton]
  termination_by t.length
  decreasing_by
    rw [ht, List.length_append, List.length_cons]
    omega

end Lines

end Lexeme

namespace Language

open Lexeme

/-- The comment rules find what a reader finds. Behind the first rule each line of the trimmed input
has its comment in a span, from the first `//` to the end of the line, and blanks for it in the
remainder. Behind the second rule each block comment has one, with all that the first rule has put
there: the remainder is read from left to right, a `/*` goes with the first `*/` behind it, and one
with none behind it is left alone. -/
theorem comments_scanned (s : Styler) (l : Language) (input : Text) :
    let start : Text := match s.mode with
      | .inline => "<span style=\"color:" ++ s.palette.color .comment ++ "\">"
      | .byClass => "<span class='comment'>"
    let wrap : Handler := fun t => start ++ t ++ "</span>"
    let lines := input.trim.splitOn '\n'
    let b : Buffers := ⟨Text.unlines (lines.map (Text.commentLine wrap)),
      Text.unlines (lines.map (Text.commentLine fun t => (wrap t).shadow))⟩
    ((l.engine s).trace input)[1]? = some b ∧
      ∃ b', ((l.engine s).trace input)[2]? = some b' ∧
        Match.replaceBoth? wrap (Text.blockComments b.remainder) b = some b' := by
  intro start wrap lines b
  have hwrap : s.span .comment = wrap := by
    have hstart : s.spanStart .comment = start := by
      simp only [Styler.spanStart, start]
      cases s.mode <;> rfl
    funext t
    rw [Styler.span, Styler.openSpan, hstart]
    rfl
  have hfirst : (Rule.regex .lineComment wrap).apply (Buffers.ofInput input) = b := by
    have hnever : Pattern.lineComment.NeverEmpty := fun _ _ _ =>
      Kind.matched_ne_nil (k := .lineComment)
    have happly := Rule.apply_ofInput rfl hnever
      (Rule.ending_ne_gaveUp wrap rfl (Buffers.ofInput input))
    have hresult := replaceComments_eq wrap input.trim
    have hremainder := replaceComments_eq (fun t => (wrap t).shadow) input.trim
    exact happly.trans (congrArg₂ Buffers.mk hresult hremainder)
  have hmirrored : b.Mirrored :=
    hfirst ▸ Rule.mirrored_apply (Rule.mirrored_same input.trim) (.regex .lineComment wrap)
  have hsecond := (Kind.edit_replaces (k := .blockComment) (Or.inl rfl) wrap hmirrored).1
  rw [successive_blockComment] at hsecond
  have htrace : ((l.engine s).trace input)[1]? =
        some ((Rule.regex .lineComment wrap).apply (Buffers.ofInput input)) ∧
      ((l.engine s).trace input)[2]? = some ((Rule.regex .blockComment wrap).apply
        ((Rule.regex .lineComment wrap).apply (Buffers.ofInput input))) := by
    rw [← hwrap]
    cases l <;> exact ⟨rfl, rfl⟩
  rw [hfirst] at htrace
  exact ⟨htrace.1, _, htrace.2, hsecond⟩

end Language

end Highlighter
