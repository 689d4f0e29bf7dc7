import Highlighter.Proofs.Markup.Rows

/-! The languages never skip a match. While a rule works on a row of marks, its cursor always stands
between two of them, and what it finds goes from the edge of one mark to the edge of another; the
result is cut at the same marks, so both edges are edges of characters there, however a styler writes
its tags. -/
namespace Highlighter

open Lexeme

/-- The event tells that a match was skipped. -/
def Event.isSkip : Event → Bool
  | skippedMatch .. => true
  | _ => false

/-- The cursor is an edge of a character of the remainder, and both edges of what is found from there
are edges of characters of the result. -/
def Editing.FindsWhole (pattern : Pattern) (e : Editing) : Prop :=
  ∃ front ahead, e.remainder.cutAt? e.cursor = some (front, ahead) ∧
    ∀ m, pattern.search front.reverse ahead = .found m →
      e.result.isBoundary (e.cursor + m.skipped.byteLength) = true ∧
        e.result.isBoundary (e.cursor + m.skipped.byteLength + m.matched.byteLength) = true

/-- The cursor stands between the marks `past` and `ahead`, all of which both texts show. -/
def Editing.Between (s : Styler) (past ahead : List Mark) (e : Editing) : Prop :=
  e.At (past.flatMap (Mark.seen s)).reverse (ahead.flatMap (Mark.seen s))
    (past.flatMap (Mark.text s)) 0 (ahead.flatMap (Mark.text s))

theorem Editing.between_start (s : Styler) (us : List Mark) :
    (Editing.start (Mark.buffers s us)).Between s [] us := by
  have hstart := Editing.at_start (Mark.aligned_buffers s us)
  rwa [Mark.buffers_remainder, Mark.buffers_result] at hstart

namespace Lexeme.Kind

variable {s : Styler} {k : Kind}

/-- What is found from between two marks divides the marks ahead, as both texts show them. -/
theorem exists_marks_ahead {left : Text} {us : List Mark} {m : Match}
    (h : k.pattern.search left (us.flatMap (Mark.seen s)) = .found m) :
    ∃ x u v, us = x ++ u ++ v ∧ m.skipped = x.flatMap (Mark.seen s) ∧
      m.rest = v.flatMap (Mark.seen s) ∧
      us.flatMap (Mark.text s) = x.flatMap (Mark.text s) ++ u.flatMap (Mark.text s) ++
        v.flatMap (Mark.text s) ∧
      Text.byteLength (x.flatMap (Mark.text s)) = 0 + m.skipped.byteLength ∧
      Text.byteLength (u.flatMap (Mark.text s)) = m.matched.byteLength := by
  obtain ⟨x, u, v, hus, hx, _, hv, hslice, _⟩ := exists_marks_of_found h []
  exact ⟨x, u, v, hus, hx, hv, Text.sliceAt?_eq_some_iff.mp hslice⟩

/-- A search from between two marks finds no match with an edge inside a character of the result. -/
theorem findsWhole_of_between {past ahead : List Mark} {e : Editing} (h : e.Between s past ahead) :
    e.FindsWhole k.pattern := by
  refine ⟨_, _, h.cutAt?, fun m hs => ?_⟩
  rw [List.reverse_reverse] at hs
  obtain ⟨x, u, v, _, _, _, htext, hk, hl⟩ := exists_marks_ahead hs
  have hedges := (h.isBoundary_iff m).mpr (by
    rw [htext, ← hk, ← hl, Text.sliceAt?_append]
    exact Option.some_ne_none _)
  exact (Bool.and_eq_true _ _).mp hedges

/-- What a search from between two marks leads to stands between two marks again. -/
theorem between_of_step {past ahead : List Mark} {e e' : Editing} {done : List Substitution}
    (h : e.Between s past ahead)
    (hs : e.step k.pattern (k.wrap.handler s) = .ok (.next e' done)) :
    ∃ past' ahead', e'.Between s past' ahead' := by
  cases hfound : k.pattern.search (past.flatMap (Mark.seen s)).reverse
      (ahead.flatMap (Mark.seen s)) with
  | nowhere => exact absurd (hs.symm.trans (h.step_of_stop.1 hfound)) (by simp)
  | gaveUp => exact absurd (hs.symm.trans (h.step_of_stop.2 hfound)) (by simp)
  | found m =>
    -- The match is replaced, and the cursor goes on behind what the rule makes of its marks.
    obtain ⟨x, u, v, rfl, hx, hv, htext, hk, hl⟩ := exists_marks_ahead hfound
    have hat := h
    rw [Editing.Between, htext] at hat
    obtain ⟨e'', hstep, hnext⟩ := hat.replace hfound hk hl fun hnil => matched_ne_nil hfound hnil.1
    obtain ⟨rfl, _⟩ := Step.next.inj (Except.ok.inj (hs.symm.trans hstep))
    refine ⟨past ++ x ++ k.wrap.marks u, v, ?_⟩
    rw [hx, hv, ← Wrap.seen_marks, ← List.reverse_append, ← List.append_assoc, ← Wrap.text_marks]
      at hnext
    simpa only [Editing.Between, List.flatMap_append] using hnext

/-- A rule of a language always stands between two marks. -/
theorem between_of_reached {us : List Mark} {e : Editing}
    (h : Editing.Reached k.pattern (k.wrap.handler s) (Mark.buffers s us) e) :
    ∃ past ahead, e.Between s past ahead := by
  induction h with
  | start => exact ⟨[], us, Editing.between_start s us⟩
  | step _ _ hs ih =>
    obtain ⟨past, ahead, hbetween⟩ := ih
    exact between_of_step hbetween hs

/-- A scan that goes on from between two marks skips no match. -/
theorem isSkip_scan (n position : Nat) (left : Text) (us : List Mark) :
    ∀ ev ∈ (Rule.scan k.pattern (k.wrap.handler s) n position left (us.flatMap (Mark.seen s)) 0
      (us.flatMap (Mark.text s))).events, ev.isSkip = false := by
  induction n generalizing position left us with
  | zero => exact fun ev hev => absurd hev List.not_mem_nil
  | succ n ih =>
    unfold Rule.scan
    cases hs : k.pattern.search left (us.flatMap (Mark.seen s)) with
    | nowhere => exact fun ev hev => absurd hev List.not_mem_nil
    | gaveUp => exact List.forall_mem_singleton.mpr rfl
    | found m =>
      obtain ⟨x, u, v, rfl, _, hv, htext, hk, hl⟩ := exists_marks_ahead hs
      have hn : ¬ (m.matched = [] ∧ k.wrap.handler s (u.flatMap (Mark.text s)) = []) :=
        fun hnil => matched_ne_nil hs hnil.1
      dsimp only
      rw [htext, Rule.treat_of_replace _ hk hl hn, hv]
      exact ih _ _ v

theorem isSkip_events (s : Styler) (k : Kind) (us : List Mark) :
    ∀ ev ∈ (k.rule s).events (Mark.buffers s us), ev.isSkip = false := by
  change ∀ ev ∈ (Rule.scanAll k.pattern (k.wrap.handler s) (Mark.buffers s us)).events, _
  rw [Rule.scanAll, Mark.buffers_remainder, Mark.buffers_result]
  exact isSkip_scan _ 0 [] us

/-- Rules of languages one after another skip no match. -/
theorem isSkip_eventsFrom (s : Styler) (ks : List Kind) (us : List Mark) :
    ∀ ev ∈ Engine.eventsFrom (ks.map (rule s)) (Mark.buffers s us), ev.isSkip = false := by
  induction ks generalizing us with
  | nil => exact fun ev hev => absurd hev List.not_mem_nil
  | cons k ks ih =>
    obtain ⟨_, ps, _, hedit, _⟩ := k.edit_buffers s us
    intro ev hev
    rw [List.map_cons, Engine.eventsFrom, apply_of_edit hedit] at hev
    rcases List.mem_append.mp hev with hev | hev
    · exact isSkip_events s k us ev hev
    · exact ih _ ev hev

end Lexeme.Kind

namespace Language

/-- The languages never skip a match. Whatever the styler and the input, each rule for a lexeme finds
only matches both of whose edges are edges of characters of the result, at every step of its scan; and
nothing that is said about formatting the input tells of a skipped match. -/
theorem matches_never_skipped (s : Styler) (l : Language) (input : Text) :
    (∀ (i : Nat) (r : Rule), (l.regexRules s)[i]? = some r → ∃ pattern handler b,
      r = .regex pattern handler ∧ ((l.engine s).trace input)[i]? = some b ∧
        ∀ e, Editing.Reached pattern handler b e → e.FindsWhole pattern) ∧
    ∀ ev ∈ (l.engine s).events input, ev.isSkip = false := by
  have hinput : Buffers.ofInput input = Mark.buffers s (Mark.ofText input.trim) :=
    (Mark.buffers_ofText s _).symm
  constructor
  · intro i r hr
    obtain ⟨k, hk, rfl⟩ := exists_kind hr
    obtain ⟨hi, _⟩ := List.getElem?_eq_some_iff.mp hk
    obtain ⟨us, hrun, _⟩ : ∃ us, Engine.run ((l.kinds.take i).map (Kind.rule s))
        (Mark.buffers s (Mark.ofText input.trim)) = Mark.buffers s us ∧ True :=
      Kind.run_invariant s (fun _ _ _ _ _ _ _ => trivial) trivial
    have hstate : ((l.engine s).trace input)[i]? = some (Mark.buffers s us) := by
      rw [getElem?_trace s l input (Nat.le_of_lt hi), hinput, hrun]
    refine ⟨k.pattern, k.wrap.handler s, _, rfl, hstate, fun e he => ?_⟩
    obtain ⟨past, ahead, hbetween⟩ := Kind.between_of_reached he
    exact Kind.findsWhole_of_between hbetween
  · intro ev hev
    rw [Engine.events, engine, Engine.eventsFrom_append, regexRules_eq, hinput] at hev
    rcases List.mem_append.mp hev with hev | hev
    · exact Kind.isSkip_eventsFrom s l.kinds _ ev hev
    · exact absurd hev List.not_mem_nil

/-- Colours and a string of characters of more than one byte. -/
theorem matches_never_skipped_in_string :
    let s : Styler := ⟨.inline, ⟨fun _ => "é€"⟩, "ü"⟩
    let input : Text := "f('€ é') // ¥"
    (lavendeux.regexRules s)[5]? = some (spanRule s .string .string) ∧
      ∃ b, ((lavendeux.engine s).trace input)[5]? = some b ∧
        (Editing.start b).FindsWhole .string ∧
        ∀ ev ∈ (lavendeux.engine s).events input, ev.isSkip = false := by
  intro s input
  obtain ⟨hrules, hevents⟩ := matches_never_skipped s lavendeux input
  obtain ⟨pattern, handler, b, hr, hb, hwhole⟩ := hrules 5 _ rfl
  obtain ⟨rfl, rfl⟩ := Rule.regex.inj hr
  exact ⟨rfl, b, hb, hwhole _ .start, hevents⟩

end Language

end Highlighter
