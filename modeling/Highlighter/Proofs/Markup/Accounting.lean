import Highlighter.Proofs.Markup.Balance
import Highlighter.Proofs.Markup.Lossless
import Mathlib.Data.List.Infix

/-! The spans of a highlighted text. How many more are opened than closed is decided by the rules for
calls alone, and where these match each other, all spans are well nested. -/
namespace Highlighter

open Lexeme Text

namespace Mark

/-- What a styler without `<` writes for a mark. -/
theorem adds_text {s : Styler} (hs : ∀ c, '<' ∉ s.palette.color c) {m : Mark}
    (hm : '<' ∉ chars [m]) :
    Adds (m.text s) (if m.isStart then 1 else 0) (if m.isStop then 1 else 0) := by
  cases m with
  | char c clear => exact adds_of_free hm
  | tag t =>
    cases t with
    | stop => exact adds_spanEnd
    | start c =>
      change Adds (s.spanStart c) 1 0
      unfold Styler.spanStart
      cases s.mode with
      | inline =>
        have hbody : '<' ∉ "span style=\"color:".toList ++ s.palette.color c ++ "\">".toList := by
          simp [hs c]
        exact adds_of_other_tag hbody (fun _ => rfl) fun _ => rfl
      | byClass =>
        have hbody : '<' ∉ "span class='".toList ++ c.name ++ "'>".toList := by
          cases c <;> decide
        exact adds_of_other_tag hbody (fun _ => rfl) fun _ => rfl

section Rows

variable {s : Styler} {us : List Mark}

theorem free_cons {m : Mark} (h : '<' ∉ chars (m :: us)) : '<' ∉ chars [m] ∧ '<' ∉ chars us := by
  rwa [← List.singleton_append, chars_append, List.mem_append, not_or] at h

theorem excess_text (hs : ∀ c, '<' ∉ s.palette.color c) (hus : '<' ∉ chars us) (rest : Text) :
    (spanOpens (us.flatMap (text s) ++ rest) : ℤ) - spanCloses (us.flatMap (text s) ++ rest) =
      excess us + (spanOpens rest - spanCloses rest) := by
  induction us with
  | nil => exact (Int.zero_add _).symm
  | cons m us ih =>
    have hadds := adds_text hs (free_cons hus).1
    have hlater := ih (free_cons hus).2
    rw [List.flatMap_cons, List.append_assoc, hadds.opens_append, hadds.closes_append, excess,
      List.countP_cons, List.countP_cons]
    rw [excess] at hlater
    omega

/-- What a mark adds, before a row. -/
theorem nests_cons (hs : ∀ c, '<' ∉ s.palette.color c) {m : Mark} (hus : '<' ∉ chars (m :: us))
    {n k l : Nat} {rest : Text}
    (hn : n + (if m.isStart then 1 else 0) = k + if m.isStop then 1 else 0)
    (hrest : '<' ∉ chars us → Nests k l (us.flatMap (text s) ++ rest)) :
    Nests n l ((m :: us).flatMap (text s) ++ rest) := by
  rw [List.flatMap_cons, List.append_assoc]
  exact .add (adds_text hs (free_cons hus).1) hn (hrest (free_cons hus).2)

/-- Levels of a row are levels of what it shows. -/
theorem nests_text (hs : ∀ c, '<' ∉ s.palette.color c) (hus : '<' ∉ chars us) {n m k : Nat}
    {rest : Text} (h : level? isStart isStop n us = some m) (hrest : Nests m k rest) :
    Nests n k (us.flatMap (text s) ++ rest) := by
  revert hus
  refine level?_induction ?nil ?raise ?lower ?keep h
  case nil => exact fun _ => hrest
  case raise =>
    intro n u us hstart ih hus
    exact nests_cons hs hus (by rw [hstart, isStop_of_isStart hstart]; rfl) ih
  case lower =>
    intro n u us hstart hstop ih hus
    exact nests_cons hs hus (by rw [hstart, hstop]; rfl) ih
  case keep =>
    intro n u us hstart hstop ih hus
    exact nests_cons hs hus (by rw [hstart, hstop]) ih

end Rows

end Mark

theorem adds_containerStart {s : Styler} (hs : '<' ∉ s.containerStyle) :
    Adds s.containerStart 0 0 := by
  unfold Styler.containerStart
  cases s.mode with
  | inline =>
    have hbody : '<' ∉ "pre style=\"".toList ++ s.containerStyle ++ "\">".toList := by
      simp [hs]
    exact adds_of_other_tag hbody (fun _ => rfl) fun _ => rfl
  | byClass =>
    have hbody : '<' ∉ "pre class='".toList ++ Styler.containerClass ++ "'>".toList := by decide
    exact adds_of_other_tag hbody (fun _ => rfl) fun _ => rfl

/-- The tags around a whole sample belong to no span. -/
theorem outer_eq {s : Styler} (hs : '<' ∉ s.containerStyle) (inner : Text) :
    ∃ front back, s.outer inner = front ++ (inner ++ (back ++ [])) ∧ Adds front 0 0 ∧
      Adds back 0 0 := by
  have hcode : Adds "<code>" 0 0 :=
    adds_of_other_tag (by decide : '<' ∉ "code>".toList) (fun _ => rfl) fun _ => rfl
  have hcode' : Adds "</code>" 0 0 :=
    adds_of_other_tag (by decide : '<' ∉ "/code>".toList) (fun _ => rfl) fun _ => rfl
  have hpre' : Adds "</pre>" 0 0 :=
    adds_of_other_tag (by decide : '<' ∉ "/pre>".toList) (fun _ => rfl) fun _ => rfl
  refine ⟨s.containerStart ++ "<code>".toList, "</code>".toList ++ "</pre>".toList, ?_,
    (adds_containerStart hs).append hcode, hcode'.append hpre'⟩
  rw [List.append_nil, Styler.outer, List.append_assoc _ inner]
  rfl

namespace Lexeme.Kind

/-- The rules that put whole spans around what they find. -/
theorem wrap_of_ne {k : Kind} (ho : k ≠ functionOpen) (hc : k ≠ closingParen) :
    ∃ c, k.wrap = .around c ∧ c ≠ .function := by
  cases k with
  | functionOpen => exact absurd rfl ho
  | closingParen => exact absurd rfl hc
  | lineComment | blockComment | decorator | string | radix | keyword | data =>
    exact ⟨_, rfl, by decide⟩

end Lexeme.Kind

/-- What the rules that put whole spans around slices keep of a row of marks. -/
structure Mark.Kept (us us' : List Mark) : Prop where
  chars : chars us' = chars us
  excess : excess us' = excess us
  spans : ∀ n m, level? isStart isStop n us = some m → level? isStart isStop n us' = some m
  otherSpans : ∀ n m, level? isOtherStart isStop n us = some m →
    level? isOtherStart isStop n us' = some m

theorem Mark.Kept.refl (us : List Mark) : Kept us us :=
  ⟨rfl, rfl, fun _ _ h => h, fun _ _ h => h⟩

theorem Mark.Kept.trans {us us' us'' : List Mark} (h : Kept us us') (h' : Kept us' us'') :
    Kept us us'' :=
  ⟨h'.chars.trans h.chars, h'.excess.trans h.excess, fun n m hl => h'.spans n m (h.spans n m hl),
    fun n m hl => h'.otherSpans n m (h.otherSpans n m hl)⟩

theorem Reads.kept {k : Kind} {e : Ending} {prev : Option Char} {us : List Mark} {ps : List Piece}
    (h : Reads k e prev us ps) (ho : k ≠ .functionOpen) (hc : k ≠ .closingParen) :
    Mark.Kept us (ps.flatMap (Piece.marks k.wrap)) := by
  obtain ⟨c, hw, hne⟩ := Kind.wrap_of_ne ho hc
  have hchars := Kind.chars_of_reads h
  have hsource := h.flatMap_source
  rw [hw] at hchars ⊢
  refine ⟨hchars, ?_, fun n m hl => ?_, fun n m hl => ?_⟩
  · rw [Mark.excess_pieces (Mark.excess_around c), hsource, Int.mul_zero, Int.add_zero]
  · refine Mark.level?_pieces (fun n m us => Mark.level?_around ?_ ?_ rfl rfl rfl)
      (by rw [hsource]; exact hl)
    · exact Mark.isStart_hide
    · exact Mark.isStop_hide
  · refine Mark.level?_pieces (fun n m us => Mark.level?_around ?_ ?_ (decide_eq_true hne) rfl rfl)
      (by rw [hsource]; exact hl)
    · exact Mark.isOtherStart_hide
    · exact Mark.isStop_hide

/-- Rules that put whole spans around slices keep the row together. -/
theorem Lexeme.Kind.kept_run (s : Styler) {ks : List Kind}
    (hks : ∀ k ∈ ks, k ≠ functionOpen ∧ k ≠ closingParen) (us : List Mark) :
    ∃ us', Engine.run (ks.map (rule s)) (Mark.buffers s us) = Mark.buffers s us' ∧
      Mark.Kept us us' :=
  run_invariant s (fun k hk _ _ _ hreads hus =>
    hus.trans (hreads.kept (hks k hk).1 (hks k hk).2)) (Mark.Kept.refl us)

/-- What the rule for calls has found and the closing parentheses that are left match: from left to
right there are always at least as many calls as parentheses, and in the end as many. -/
structure Edited.CallsMatch (d : Edited) : Prop where
  prefixes : ∀ p, p <+: d.buffers.remainder →
    p.count ')' ≤ (d.log.filter fun u => u.newStop ≤ Text.byteLength p).length
  total : d.buffers.remainder.count ')' = d.log.length

instance (d : Edited) : Decidable d.CallsMatch :=
  decidable_of_iff ((∀ p ∈ d.buffers.remainder.inits,
      p.count ')' ≤ (d.log.filter fun u => u.newStop ≤ Text.byteLength p).length) ∧
      d.buffers.remainder.count ')' = d.log.length)
    ⟨fun h => ⟨fun p hp => h.1 p ((List.mem_inits p _).mpr hp), h.2⟩,
      fun h => ⟨fun p hp => h.prefixes p ((List.mem_inits p _).mp hp), h.total⟩⟩

namespace Mark

/-- The rule for calls begins no other spans. -/
theorem otherSpans_opening {n m : Nat} {us : List Mark}
    (h : level? isOtherStart isStop n us = some m) :
    level? isOtherStart isStop n ((Wrap.opening .function).marks us) = some m := by
  have hmarks : (Wrap.opening .function).marks us = tag (.start .function) :: us.map hide :=
    List.append_nil _
  rw [hmarks, level?_cons_other rfl rfl, level?_map_hide isOtherStart_hide isStop_hide]
  exact h

theorem isStop_of_isOtherStart (m : Mark) (h : m.isOtherStart = true) : m.isStop = false := by
  cases m with
  | char => rfl
  | tag t =>
    cases t with
    | start => rfl
    | stop => exact absurd h Bool.false_ne_true

theorem isParen_of_isCall (m : Mark) (h : m.isCall = true) : m.isParen = false := by
  cases m with
  | char => exact absurd h Bool.false_ne_true
  | tag => rfl

theorem countP_isStart (us : List Mark) :
    us.countP isStart = us.countP isOtherStart + us.countP isCall := by
  induction us with
  | nil => rfl
  | cons m us ih =>
    have hm : (if m.isStart then 1 else 0) =
        (if m.isOtherStart then 1 else 0) + if m.isCall then 1 else 0 := by
      cases m with
      | char => rfl
      | tag t =>
        cases t with
        | start c => by_cases hc : c = .function <;> simp [isStart, isOtherStart, isCall, hc]
        | stop => rfl
    simp only [List.countP_cons]
    omega

/-- Where calls and parentheses match, no call is closed that is not open. -/
theorem level?_of_callsMatch {s : Styler} {e : Ending} {ps : List Piece}
    (h : Edited.CallsMatch ⟨buffers s (ps.flatMap (Piece.marks (.opening .function))), e,
      Piece.log s (.opening .function) 0 ps⟩)
    (hexcess : excess (ps.flatMap Piece.source) = 0)
    (hspans : level? isOtherStart isStop 0 (ps.flatMap (Piece.marks (.opening .function))) = some 0) :
    level? isCall isParen 0 (ps.flatMap (Piece.marks (.opening .function))) = some 0 := by
  obtain ⟨hprefixes, htotal⟩ := h
  dsimp only at hprefixes htotal
  rw [buffers_remainder] at hprefixes htotal
  refine level?_of_prefixes isParen_of_isCall (fun v hv => ?_) ?_
  · -- A part of the row shows a part of the remainder, in which the condition counts.
    obtain ⟨t, ht⟩ := hv
    have hseen := hprefixes (v.flatMap (seen s)) ⟨t.flatMap (seen s), by
      rw [← List.flatMap_append, ht]⟩
    have hlog := @Piece.length_filter_log_le s 0 ps v ⟨t, ht⟩
    rw [Nat.zero_add] at hlog ⊢
    rw [count_paren, byteLength_seen] at hseen
    exact hseen.trans hlog
  · have hcount := level?_count isStop_of_isOtherStart hspans
    have hcalls := excess_pieces (excess_opening .function) ps
    have hstarts := countP_isStart (ps.flatMap (Piece.marks (.opening .function)))
    rw [count_paren, Piece.length_log] at htotal
    rw [hexcess, excess] at hcalls
    omega

theorem excess_ofText (t : Text) : excess (ofText t) = 0 := by
  induction t with
  | nil => rfl
  | cons c t ih =>
    change excess ([char c true] ++ ofText t) = 0
    rw [excess_append, ih]
    rfl

theorem otherSpans_ofText (t : Text) : level? isOtherStart isStop 0 (ofText t) = some 0 := by
  induction t with
  | nil => rfl
  | cons c t ih => exact (level?_cons_other rfl rfl).trans ih

end Mark

namespace Language

/-- The place of the rule that opens calls; the rule that closes them comes next. -/
def openingAt : Language → Nat
  | lavendeux => 3
  | javascript => 2

theorem kinds_eq (l : Language) : ∃ before after, before.length = l.openingAt ∧
    l.kinds = before ++ .functionOpen :: .closingParen :: after ∧
    (∀ k ∈ before, k ≠ .functionOpen ∧ k ≠ .closingParen) ∧
    ∀ k ∈ after, k ≠ .functionOpen ∧ k ≠ .closingParen := by
  cases l with
  | lavendeux =>
    exact ⟨[.lineComment, .blockComment, .decorator], [.string, .radix, .data], rfl, rfl,
      by decide, by decide⟩
  | javascript =>
    exact ⟨[.lineComment, .blockComment], [.string, .radix, .keyword, .data], rfl, rfl, by decide,
      by decide⟩

theorem functionOpenRule_eq (s : Styler) : functionOpenRule s = Kind.functionOpen.rule s :=
  congrArg (Rule.regex .functionOpen) (Wrap.openSpan_eq s .function)

theorem closingParenRule_eq (s : Styler) : closingParenRule = Kind.closingParen.rule s :=
  congrArg (Rule.regex .closingParen) (Wrap.closeSpan_eq s)

theorem rules_eq (s : Styler) {l : Language} {before after : List Kind}
    (h : l.kinds = before ++ .functionOpen :: .closingParen :: after) :
    l.regexRules s = before.map (Kind.rule s) ++
      functionOpenRule s :: closingParenRule :: after.map (Kind.rule s) := by
  rw [regexRules_eq, h, List.map_append, List.map_cons, List.map_cons, functionOpenRule_eq,
    closingParenRule_eq s]

/-- The rows of marks of a run: `us` when the rule for calls starts, which reads the pieces `ps`, and
`us'` when all rules for lexemes are done. -/
structure CallRows (s : Styler) (l : Language) (input : Text) (before : List Kind)
    (us us' : List Mark) (ps : List Piece) (e : Ending) : Prop where
  reached : Engine.run (before.map (Kind.rule s)) (Buffers.ofInput input) = Mark.buffers s us
  kept : Mark.Kept (Mark.ofText input.trim) us
  reads : Reads .functionOpen .noMatch none us ps
  source : ps.flatMap Piece.source = us
  edit : (functionOpenRule s).edit (Mark.buffers s us) =
    .ok ⟨Mark.buffers s (ps.flatMap (Piece.marks (.opening .function))), e,
      Piece.log s (.opening .function) 0 ps⟩
  closed : Mark.Kept (Mark.closeParens (ps.flatMap (Piece.marks (.opening .function)))) us'
  excess : Mark.excess us' = Mark.excess (ps.flatMap (Piece.marks (.opening .function))) -
    (ps.flatMap (Piece.marks (.opening .function))).countP Mark.isParen
  chars : Mark.chars us' = input.trim
  done : Engine.run (l.regexRules s) (Buffers.ofInput input) = Mark.buffers s us'

/-- From the row that the rule for calls starts with, a run goes on through such rows. -/
theorem exists_callRows_of_reached {s : Styler} {l : Language} {input : Text} {before after : List Kind}
    (hkinds : l.kinds = before ++ .functionOpen :: .closingParen :: after)
    (hafter : ∀ k ∈ after, k ≠ .functionOpen ∧ k ≠ .closingParen) {us : List Mark}
    (hreached : Engine.run (before.map (Kind.rule s)) (Buffers.ofInput input) = Mark.buffers s us)
    (hkept : Mark.Kept (Mark.ofText input.trim) us) :
    ∃ us' ps e, CallRows s l input before us us' ps e := by
  obtain ⟨e, ps, hreads, hedit, hend⟩ := Kind.functionOpen.edit_buffers s us
  obtain rfl : e = .noMatch := hend.resolve_right fun h => absurd h.2.1 (by decide)
  obtain ⟨e', qs, hreads', hedit', hend'⟩ := Kind.closingParen.edit_buffers s
    (ps.flatMap (Piece.marks (.opening .function)))
  obtain rfl : e' = .noMatch := hend'.resolve_right fun h => absurd h.2.1 (by decide)
  obtain ⟨hclosed, hhits⟩ := Mark.reads_closingParen hreads'
  obtain ⟨us', hrun', hkept'⟩ := Kind.kept_run s hafter (qs.flatMap (Piece.marks .closing))
  have happly : (functionOpenRule s).apply (Mark.buffers s us) =
      Mark.buffers s (ps.flatMap (Piece.marks (.opening .function))) := by
    rw [functionOpenRule_eq]
    exact Kind.apply_of_edit hedit
  have happly' : closingParenRule.apply
      (Mark.buffers s (ps.flatMap (Piece.marks (.opening .function)))) =
      Mark.buffers s (qs.flatMap (Piece.marks .closing)) := by
    rw [closingParenRule_eq s]
    exact Kind.apply_of_edit hedit'
  refine ⟨us', ps, .noMatch, ⟨hreached, hkept, hreads, hreads.flatMap_source, ?_, ?_, ?_, ?_, ?_⟩⟩
  · rw [functionOpenRule_eq]
    exact hedit
  · rw [← hclosed]
    exact hkept'
  · rw [hkept'.excess, Mark.excess_pieces Mark.excess_closing, hreads'.flatMap_source, hhits]
    omega
  · rw [hkept'.chars]
    exact (Kind.chars_of_reads hreads').trans ((Kind.chars_of_reads hreads).trans
      (hkept.chars.trans (Mark.chars_ofText _)))
  · rw [rules_eq s hkinds, Engine.run_append, hreached, Engine.run_cons, Engine.run_cons, happly,
      happly', hrun']

theorem exists_callRows (s : Styler) (l : Language) (input : Text) {before after : List Kind}
    (hkinds : l.kinds = before ++ .functionOpen :: .closingParen :: after)
    (hbefore : ∀ k ∈ before, k ≠ .functionOpen ∧ k ≠ .closingParen)
    (hafter : ∀ k ∈ after, k ≠ .functionOpen ∧ k ≠ .closingParen) :
    ∃ us us' ps e, CallRows s l input before us us' ps e := by
  obtain ⟨us, hrun, hkept⟩ := Kind.kept_run s hbefore (Mark.ofText input.trim)
  have hinput : Buffers.ofInput input = Mark.buffers s (Mark.ofText input.trim) :=
    (Mark.buffers_ofText s input.trim).symm
  rw [← hinput] at hrun
  exact ⟨us, exists_callRows_of_reached hkinds hafter hrun hkept⟩

namespace CallRows

variable {s : Styler} {l : Language} {input : Text} {before : List Kind} {us us' : List Mark}
  {ps : List Piece} {e : Ending}

/-- The row after the rule for calls. -/
theorem opened (h : CallRows s l input before us us' ps e) :
    Engine.run (before.map (Kind.rule s) ++ [functionOpenRule s]) (Buffers.ofInput input) =
      Mark.buffers s (ps.flatMap (Piece.marks (.opening .function))) := by
  rw [Engine.run_append, h.reached, Engine.run_cons, functionOpenRule_eq]
  exact Kind.apply_of_edit (functionOpenRule_eq s ▸ h.edit)

theorem excess_source (h : CallRows s l input before us us' ps e) :
    Mark.excess (ps.flatMap Piece.source) = 0 := by
  rw [h.source, h.kept.excess, Mark.excess_ofText]

/-- Only the rules for calls make one kind of tag without the other. -/
theorem excess_done (h : CallRows s l input before us us' ps e) : Mark.excess us' =
    (Piece.log s (.opening .function) 0 ps).length -
      ((Mark.buffers s (ps.flatMap (Piece.marks (.opening .function)))).remainder.count ')' : ℤ) := by
  have hcalls := Mark.excess_pieces (Mark.excess_opening .function) ps
  rw [h.excess_source] at hcalls
  rw [h.excess, Piece.length_log, Mark.buffers_remainder, Mark.count_paren]
  omega

/-- The spans of other rules are whole when the rule for calls is done. -/
theorem otherSpans_opened (h : CallRows s l input before us us' ps e) :
    Mark.level? Mark.isOtherStart Mark.isStop 0
      (ps.flatMap (Piece.marks (.opening .function))) = some 0 := by
  refine Mark.level?_pieces (fun _ _ _ => Mark.otherSpans_opening) ?_
  rw [h.source]
  exact h.kept.otherSpans 0 0 (Mark.otherSpans_ofText _)

/-- Where no call is closed that is not open, the spans of the last row are well nested. -/
theorem level?_of_calls (h : CallRows s l input before us us' ps e)
    (hcalls : Mark.level? Mark.isCall Mark.isParen 0
      (ps.flatMap (Piece.marks (.opening .function))) = some 0) :
    Mark.level? Mark.isStart Mark.isStop 0 us' = some 0 :=
  h.closed.spans _ _ (Mark.level?_closeParens h.otherSpans_opened hcalls)

/-- Where calls and parentheses match, the spans of the last row are well nested. -/
theorem level?_done (h : CallRows s l input before us us' ps e)
    (hmatch : Edited.CallsMatch
      ⟨Mark.buffers s (ps.flatMap (Piece.marks (.opening .function))), e,
        Piece.log s (.opening .function) 0 ps⟩) :
    Mark.level? Mark.isStart Mark.isStop 0 us' = some 0 :=
  h.level?_of_calls (Mark.level?_of_callsMatch hmatch h.excess_source h.otherSpans_opened)

/-- The spans of the text are those of the last row. -/
theorem format_eq (h : CallRows s l input before us us' ps e) (hcontainer : '<' ∉ s.containerStyle) :
    ∃ front back, (l.engine s).format input =
        front ++ (us'.flatMap (Mark.text s) ++ (back ++ [])) ∧ Adds front 0 0 ∧ Adds back 0 0 := by
  rw [format_engine, h.done, Mark.buffers_result]
  exact outer_eq hcontainer _

theorem chars_free (h : CallRows s l input before us us' ps e) (hinput : '<' ∉ input) :
    '<' ∉ Mark.chars us' := by
  rw [h.chars]
  exact fun hmem => hinput (Text.mem_of_mem_trim hmem)

/-- As many more spans are opened than closed as in the last row. -/
theorem excess_format (h : CallRows s l input before us us' ps e)
    (hcolor : ∀ c, '<' ∉ s.palette.color c) (hcontainer : '<' ∉ s.containerStyle)
    (hinput : '<' ∉ input) : (spanOpens ((l.engine s).format input) : ℤ) -
      spanCloses ((l.engine s).format input) = Mark.excess us' := by
  obtain ⟨front, back, hformat, hfront, hback⟩ := h.format_eq hcontainer
  have htext := Mark.excess_text hcolor (h.chars_free hinput) (back ++ [])
  have hnil : spanOpens [] = 0 ∧ spanCloses [] = 0 := ⟨rfl, rfl⟩
  rw [hback.opens_append, hback.closes_append] at htext
  rw [hformat, hfront.opens_append, hfront.closes_append]
  omega

theorem wellNested_format (h : CallRows s l input before us us' ps e)
    (hcolor : ∀ c, '<' ∉ s.palette.color c) (hcontainer : '<' ∉ s.containerStyle)
    (hinput : '<' ∉ input) (hlevel : Mark.level? Mark.isStart Mark.isStop 0 us' = some 0) :
    WellNested ((l.engine s).format input) := by
  obtain ⟨front, back, hformat, hfront, hback⟩ := h.format_eq hcontainer
  rw [hformat]
  apply Nests.wellNested
  apply Nests.add hfront rfl
  exact Mark.nests_text hcolor (h.chars_free hinput) hlevel (.add hback rfl (.nil 0))

end CallRows

/-- The spans of a highlighted text, for both languages, every styler and every text without `<`:
more are opened than closed by as many as the rule for calls has made substitutions, less the
closing parentheses that are left in the remainder when the next rule starts. If these match, all
spans are well nested. -/
theorem spans_of_calls (s : Styler) (hcolor : ∀ c, '<' ∉ s.palette.color c)
    (hcontainer : '<' ∉ s.containerStyle) (l : Language) (input : Text) (hinput : '<' ∉ input) :
    ∃ b d, (l.engine s).rules[l.openingAt]? = some (functionOpenRule s) ∧
      (l.engine s).rules[l.openingAt + 1]? = some closingParenRule ∧
      ((l.engine s).trace input)[l.openingAt]? = some b ∧ (functionOpenRule s).edit b = .ok d ∧
      ((l.engine s).trace input)[l.openingAt + 1]? = some d.buffers ∧
      (spanOpens ((l.engine s).format input) : ℤ) - spanCloses ((l.engine s).format input) =
        d.log.length - d.buffers.remainder.count ')' ∧
      (d.CallsMatch → WellNested ((l.engine s).format input)) := by
  obtain ⟨before, after, hlen, hkinds, hbefore, hafter⟩ := l.kinds_eq
  obtain ⟨us, us', ps, e, hrows⟩ := exists_callRows s l input hkinds hbefore hafter
  have hrules : (l.engine s).rules = before.map (Kind.rule s) ++
      ([functionOpenRule s] ++ (closingParenRule :: after.map (Kind.rule s) ++ [outerRule s])) := by
    rw [engine, rules_eq s hkinds, List.append_assoc]
    rfl
  have hplace : (before.map (Kind.rule s)).length = l.openingAt := by rw [List.length_map, hlen]
  refine ⟨_, _, ?_, ?_, ?_, hrows.edit, ?_, ?_, fun hmatch => ?_⟩
  · rw [hrules, ← hplace, List.getElem?_append_right (Nat.le_refl _), Nat.sub_self]
    rfl
  · rw [hrules, ← hplace, List.getElem?_append_right (Nat.le_add_right _ 1),
      Nat.add_sub_cancel_left]
    rfl
  · rw [Engine.trace, hrules, ← hplace, Engine.getElem?_states, hrows.reached]
  · have hlength : l.openingAt + 1 = (before.map (Kind.rule s) ++ [functionOpenRule s]).length := by
      rw [List.length_append, hplace]
      rfl
    rw [Engine.trace, hrules, ← List.append_assoc, hlength, Engine.getElem?_states, hrows.opened]
  · rw [hrows.excess_format hcolor hcontainer hinput, hrows.excess_done]
  · exact hrows.wellNested_format hcolor hcontainer hinput (hrows.level?_done hmatch)

/-- The spans of a call in a call. -/
theorem spans_of_calls_of_nested_call :
    let s : Styler := ⟨.inline, .default, "margin: 0;"⟩
    (∀ c, '<' ∉ s.palette.color c) ∧ '<' ∉ s.containerStyle ∧ '<' ∉ ("f(g(x))" : Text) ∧
      WellNested ((lavendeux.engine s).format "f(g(x))") := by
  intro s
  have hcolor : ∀ c, '<' ∉ s.palette.color c := fun c => by cases c <;> decide +kernel
  have hcontainer : '<' ∉ s.containerStyle := by decide +kernel
  have hinput : '<' ∉ ("f(g(x))" : Text) := by decide
  obtain ⟨b, d, _, _, hb, hd, _, _, hnested⟩ :=
    spans_of_calls s hcolor hcontainer lavendeux "f(g(x))" hinput
  have hb' : ((lavendeux.engine s).trace "f(g(x))")[lavendeux.openingAt]? =
      some ⟨"f(g(x))", "f(g(x))"⟩ := by decide +kernel
  obtain rfl := Option.some.inj (hb'.symm.trans hb)
  have hmatch : ((functionOpenRule s).edit ⟨"f(g(x))", "f(g(x))"⟩).toOption.any
      (fun d => d.CallsMatch) = true := by decide +kernel
  rw [hd] at hmatch
  exact ⟨hcolor, hcontainer, hinput, hnested (of_decide_eq_true hmatch)⟩

end Language

end Highlighter
