import Highlighter.Proofs.Engine.Stretches
import Highlighter.Style

/-! No text is lost where handlers keep what they are given. A replacement takes a slice of the result
as it is, with all markup in it, and so every step of every scan only adds to the result: what was
there before is a subsequence of what is there after it. -/
namespace Highlighter

namespace Styler

theorem infix_tagWrap (t tag className : Text) (leaveOpen : Bool) :
    t <:+: tagWrap t tag className leaveOpen := ⟨_, _, rfl⟩

theorem infix_openSpan (s : Styler) (c : Category) (t : Text) : t <:+: s.openSpan c t :=
  (List.suffix_append _ t).isInfix

theorem infix_closeSpan (t : Text) : t <:+: closeSpan t := (List.prefix_append t _).isInfix

theorem infix_span (s : Styler) (c : Category) (t : Text) : t <:+: s.span c t :=
  (s.infix_openSpan c t).trans (infix_closeSpan (s.openSpan c t))

theorem infix_outer (s : Styler) (t : Text) : t <:+: s.outer t :=
  ⟨s.containerStart ++ "<code>", "</code></pre>", rfl⟩

end Styler

namespace Rule

variable {pattern : Pattern} {handler : Handler}

/-- A run only adds to the text that no handler has seen. -/
theorem Scans.sublist (hk : ∀ t, t <:+: handler t) {n : Nat}
    {left right pending result remainder : Text} {gap : Nat} {ending : Ending}
    {log : List Substitution}
    (h : Scans pattern handler n left right gap pending result remainder ending log) :
    pending.Sublist result := by
  -- Only a replacement changes the result, and it keeps its slice between what stands beside it.
  induction h with
  | cutOff | noMatch | gaveUp | pastEnd => exact List.Sublist.refl _
  | pass _ _ _ _ ih => exact ih
  | @replace _ _ _ _ kept slice _ _ _ _ _ _ _ _ _ _ _ ih =>
    have hslice : slice.Sublist (handler slice) := (hk slice).sublist
    exact ((List.Sublist.refl kept).append hslice).append ih

theorem sublist_scanWithin (hk : ∀ t, t <:+: handler t) (b : Buffers) (searches : Nat) :
    b.result.Sublist (scanWithin pattern handler searches b).result := by
  obtain ⟨log, hrun⟩ := scans_scanWithin pattern handler searches b
  exact hrun.sublist hk

theorem sublist_apply {r : Rule} (h : r.Keeps) (b : Buffers) :
    b.result.Sublist (r.apply b).result := by
  cases r with
  | regex pattern handler => exact sublist_scanWithin h b _
  | wholeText handler => exact (h b.result).sublist

end Rule

namespace Engine

theorem sublist_run {rules : List Rule} (h : ∀ r ∈ rules, r.Keeps) (b : Buffers) :
    b.result.Sublist (run rules b).result := by
  induction rules generalizing b with
  | nil => exact List.Sublist.refl _
  | cons r rules ih =>
    have hfirst := Rule.sublist_apply (h r List.mem_cons_self) b
    exact hfirst.trans (ih (fun r' hr' => h r' (List.mem_cons_of_mem r hr')) (r.apply b))

/-- Each state keeps the results of all states before it. -/
theorem pairwise_states {rules : List Rule} (h : ∀ r ∈ rules, r.Keeps) (b : Buffers) :
    (∀ b' ∈ states rules b, b.result.Sublist b'.result) ∧
      (states rules b).Pairwise fun b b' => b.result.Sublist b'.result := by
  induction rules generalizing b with
  | nil => exact ⟨List.forall_mem_singleton.mpr (List.Sublist.refl _), List.pairwise_singleton _ b⟩
  | cons r rules ih =>
    obtain ⟨hlater, hpairs⟩ := ih (fun r' hr' => h r' (List.mem_cons_of_mem r hr')) (r.apply b)
    have hfirst := Rule.sublist_apply (h r List.mem_cons_self) b
    have hall : ∀ b' ∈ states rules (r.apply b), b.result.Sublist b'.result :=
      fun b' hb' => hfirst.trans (hlater b' hb')
    exact ⟨List.forall_mem_cons.mpr ⟨List.Sublist.refl _, hall⟩, List.pairwise_cons.mpr ⟨hall, hpairs⟩⟩

/-- No text is lost. Where all handlers return a text that contains what they were given, whatever the
patterns and their order, the trimmed input is a subsequence of what is formatted, and each result on
the way is one of every later result. This holds of a scan that is stopped after any number of
searches. All ways in which a styler writes a text contain that text. -/
theorem input_sublist_format :
    (∀ e : Engine, (∀ r ∈ e.rules, r.Keeps) → ∀ input : Text,
      input.trim.Sublist (e.format input) ∧
        (e.trace input).Pairwise fun b b' => b.result.Sublist b'.result) ∧
    (∀ (pattern : Pattern) (handler : Handler), (∀ t, t <:+: handler t) →
      ∀ (b : Buffers) (searches : Nat),
        b.result.Sublist (Rule.scanWithin pattern handler searches b).result) ∧
    ∀ (s : Styler) (c : Category) (t tag className : Text) (leaveOpen : Bool),
      t <:+: s.span c t ∧ t <:+: s.openSpan c t ∧ t <:+: Styler.closeSpan t ∧ t <:+: s.outer t ∧
        t <:+: Styler.tagWrap t tag className leaveOpen := by
  refine ⟨fun e h input => ⟨?_, ?_⟩, fun pattern handler h b searches => ?_,
    fun s c t tag className leaveOpen => ?_⟩
  · exact sublist_run h (Buffers.ofInput input)
  · exact (pairwise_states h (Buffers.ofInput input)).2
  · exact Rule.sublist_scanWithin h b searches
  · exact ⟨s.infix_span c t, s.infix_openSpan c t, Styler.infix_closeSpan t, s.infix_outer t,
      Styler.infix_tagWrap t tag className leaveOpen⟩

/-- A match that spans an earlier replacement keeps its markup. -/
theorem input_sublist_format_across_markup :
    let bracket : Handler := fun t => "[" ++ t ++ "]"
    let spaces : Regex := .seq (.char ' ') (.many (.single ' ') true)
    let spanning : Pattern := ⟨"a +c", .concat [.char 'a', spaces, .char 'c']⟩
    let e : Engine := ⟨[.regex ⟨"b", .char 'b'⟩ bracket, .regex spanning bracket]⟩
    (∀ r ∈ e.rules, r.Keeps) ∧ e.format " abc" = "[a[b]c]" ∧
      ("abc" : Text).Sublist (e.format " abc") ∧
      ("a[b]c" : Text).Sublist (Rule.scanWithin spanning bracket 1 ⟨"a[b]c", "a   c"⟩).result := by
  intro bracket spaces spanning e
  have hbracket : ∀ t, t <:+: bracket t := fun t => ⟨_, _, rfl⟩
  have hkeeps : ∀ r ∈ e.rules, r.Keeps := by
    intro r hr
    rcases List.mem_pair.mp hr with rfl | rfl
    · exact hbracket
    · exact hbracket
  obtain ⟨hformat, hscan, _⟩ := input_sublist_format
  exact ⟨hkeeps, by decide +kernel, (hformat e hkeeps " abc").1,
    hscan spanning bracket hbracket ⟨"a[b]c", "a   c"⟩ 1⟩

end Engine

end Highlighter
