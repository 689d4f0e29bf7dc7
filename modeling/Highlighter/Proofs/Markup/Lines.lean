import Highlighter.Proofs.Lexeme.Lines
import Highlighter.Proofs.Markup.Exhaustion
import Highlighter.Proofs.Text.Tight

/-! Highlighting line by line. Where no string and no block comment begins before a line break, each
rule makes of the whole row what it makes of the two sides of the break, and its result is again such
a row; so what is highlighted on one side does not depend on the other. -/
namespace Highlighter

open Lexeme

namespace Mark

/-- A line break that no rule has replaced. -/
def lineBreak : Mark := char '\n' true

theorem withinLines_ofText {t : Text} (h : WithinLines id t) : WithinLines sym (ofText t) where
  noQuote m hm := by
    obtain ⟨c, hc, rfl⟩ := List.mem_map.mp hm
    exact h.noQuote c hc
  noOpening := (List.isChain_map (char · true)).mpr h.noOpening

theorem ofText_lineBreak (a b : Text) :
    ofText (a ++ '\n' :: b) = ofText a ++ lineBreak :: ofText b := by
  rw [ofText, List.map_append, List.map_cons]
  rfl

theorem text_lineBreak (s : Styler) (us vs : List Mark) :
    (us ++ lineBreak :: vs).flatMap (text s) =
      us.flatMap (text s) ++ '\n' :: vs.flatMap (text s) := by
  rw [List.flatMap_append, List.flatMap_cons]
  rfl

end Mark

namespace Reads

variable {k : Kind} {e : Ending} {prev prev' : Option Char} {us vs : List Mark} {ps qs : List Piece}

/-- A rule reads a row in the same way behind characters that make no difference to its recognizer. -/
theorem of_prev_eq (h : Reads k e prev us ps)
    (hprev : k.recognizer Mark.sym prev' us = k.recognizer Mark.sym prev us) :
    Reads k e prev' us ps := by
  cases h with
  | done => exact .done prev'
  | stop he _ us => exact .stop he prev' us
  | pass hnone later => exact .pass (hprev.trans hnone) later
  | hit hfound later => exact .hit (hprev.trans hfound) later

/-- A rule reads the sides of a line break one after the other and passes over the break. -/
theorem append_lineBreak (h : Reads k .noMatch prev us ps) (hus : WithinLines Mark.sym us)
    (h' : Reads k .noMatch none vs qs) :
    Reads k .noMatch prev (us ++ Mark.lineBreak :: vs) (ps ++ .pass Mark.lineBreak :: qs) := by
  have hbreak (prev : Option Char) {us : List Mark} (hus : WithinLines Mark.sym us) :=
    Kind.recognizer_break (n := Mark.lineBreak) (r := vs) rfl hus k prev
  generalize he : Ending.noMatch = e at h
  -- Each piece of the first side is found as before; where they end, the break itself is passed over,
  -- and the second side is read as a text of its own.
  induction h with
  | done prev =>
    have hnone : k.recognizer Mark.sym prev (Mark.lineBreak :: vs) = none := by
      have hhere := hbreak prev hus
      rwa [List.nil_append, k.recognizer_nil, Option.map_none] at hhere
    exact .pass hnone (h'.of_prev_eq (k.recognizer_behind_break Mark.sym vs))
  | stop hne => exact absurd he.symm hne
  | @pass e prev m us ps hnone later ih =>
    have hhere := hbreak prev hus
    rw [hnone, Option.map_none] at hhere
    exact .pass hhere (ih hus.of_cons he)
  | @hit e prev us u v ps hfound later ih =>
    have hhere := hbreak prev hus
    rw [hfound, Option.map_some] at hhere
    obtain ⟨rfl, _⟩ := k.sound.divides hfound
    exact .hit hhere (ih hus.of_append he)

end Reads

namespace Lexeme.Kind.Makes

variable {k : Kind} {us us' vs vs' : List Mark}

theorem withinLines (h : k.Makes us us') (hus : WithinLines Mark.sym us) :
    WithinLines Mark.sym us' := by
  obtain ⟨ps, hreads, rfl⟩ := h
  exact hus.fades hreads.fades

/-- A rule makes of two rows with a line break between them what it makes of each. -/
theorem append_lineBreak (h : k.Makes us us') (hus : WithinLines Mark.sym us) (h' : k.Makes vs vs') :
    k.Makes (us ++ Mark.lineBreak :: vs) (us' ++ Mark.lineBreak :: vs') := by
  obtain ⟨ps, hps, rfl⟩ := h
  obtain ⟨qs, hqs, rfl⟩ := h'
  refine ⟨_, hps.append_lineBreak hus hqs, ?_⟩
  rw [List.flatMap_append, List.flatMap_cons]
  rfl

end Lexeme.Kind.Makes

/-- So do rules one after another, at each step of the run. -/
theorem Rows.append_lineBreak {ks : List Kind} {us vs final final' : List Mark}
    {rows rows' : List (List Mark)} (h : Rows ks us rows final) (hus : WithinLines Mark.sym us)
    (h' : Rows ks vs rows' final') :
    Rows ks (us ++ Mark.lineBreak :: vs)
      (List.zipWith (fun row row' => row ++ Mark.lineBreak :: row') rows rows')
      (final ++ Mark.lineBreak :: final') := by
  induction h generalizing vs rows' with
  | nil us =>
    cases h'
    exact .nil _
  | cons hmakes later ih =>
    cases h' with
    | cons hmakes' later' =>
      exact .cons (hmakes.append_lineBreak hus hmakes') (ih (hmakes.withinLines hus) later')

namespace Language

/-- The highlighted text, without the tags of the whole sample. -/
def inner (s : Styler) (l : Language) (input : Text) : Text :=
  (Engine.run (l.regexRules s) (Buffers.ofInput input)).result

/-- The last row of an input that is formatted without a search that gives up. -/
theorem exists_inner_row {s : Styler} {l : Language} {input : Text}
    (h : (l.engine s).NeverStops input) : ∃ rows final,
      Rows l.kinds (Mark.ofText input.trim) rows final ∧
        l.inner s input = final.flatMap (Mark.text s) := by
  obtain ⟨rows, final, hrows, _, hrun⟩ := exists_run h
  refine ⟨rows, final, hrows, ?_⟩
  rw [inner, hrun, Mark.buffers_result]

/-- Two parts of a text with a line break between them are highlighted each by itself, in both
languages and by every styler, if no search gives up. The first part holds no quote and no `/*`; the
second one may be any text. Neither begins or ends with white space. So a change of one part leaves
the highlighting of the other as it is. -/
theorem inner_append_lineBreak (s : Styler) (l : Language) {a b : Text} (ha : a.Tight) (hb : b.Tight)
    (hdouble : '"' ∉ a) (hsingle : '\'' ∉ a) (hopen : ¬ "/*".toList <:+: a)
    (hstops : (l.engine s).NeverStops (a ++ '\n' :: b)) (hstopsa : (l.engine s).NeverStops a)
    (hstopsb : (l.engine s).NeverStops b) :
    l.inner s (a ++ '\n' :: b) = l.inner s a ++ '\n' :: l.inner s b := by
  have hjoin : a ++ '\n' :: b = a ++ ['\n'] ++ b := by simp
  have htight : Text.Tight (a ++ '\n' :: b) := hjoin ▸ ha.append ['\n'] hb
  obtain ⟨rows, final, hrows, hinner⟩ := exists_inner_row hstops
  obtain ⟨rowsa, finala, hrowsa, hinnera⟩ := exists_inner_row hstopsa
  obtain ⟨rowsb, finalb, hrowsb, hinnerb⟩ := exists_inner_row hstopsb
  rw [htight.trim_eq, Mark.ofText_lineBreak] at hrows
  rw [ha.trim_eq] at hrowsa
  rw [hb.trim_eq] at hrowsb
  have hwithin : WithinLines Mark.sym (Mark.ofText a) :=
    Mark.withinLines_ofText (.of_text hdouble hsingle hopen)
  obtain ⟨_, rfl⟩ := hrows.unique (hrowsa.append_lineBreak hwithin hrowsb)
  rw [hinner, Mark.text_lineBreak, hinnera, hinnerb]

/-- An open call with a comment behind it, and a string over two lines. -/
theorem inner_append_lineBreak_of_call :
    let s : Styler := .default
    let a : Text := "f(@x // (€"
    let b : Text := "'é\n') 2"
    a.Tight ∧ b.Tight ∧ '"' ∉ a ∧ '\'' ∉ a ∧ ¬ "/*".toList <:+: a ∧
      (lavendeux.engine s).NeverStops (a ++ '\n' :: b) ∧ (lavendeux.engine s).NeverStops a ∧
      (lavendeux.engine s).NeverStops b ∧
      lavendeux.inner s (a ++ '\n' :: b) = lavendeux.inner s a ++ '\n' :: lavendeux.inner s b := by
  intro s a b
  have ha : a.Tight := ⟨⟨'f', by decide +kernel, by decide⟩, ⟨'€', by decide +kernel, by decide⟩⟩
  have hb : b.Tight := ⟨⟨'\'', by decide +kernel, by decide⟩, ⟨'2', by decide +kernel, by decide⟩⟩
  have hdouble : '"' ∉ a := by decide +kernel
  have hsingle : '\'' ∉ a := by decide +kernel
  have hopen : ¬ "/*".toList <:+: a := by decide +kernel
  have hstops : (lavendeux.engine s).NeverStops (a ++ '\n' :: b) := by decide +kernel
  have hstopsa : (lavendeux.engine s).NeverStops a := by decide +kernel
  have hstopsb : (lavendeux.engine s).NeverStops b := by decide +kernel
  exact ⟨ha, hb, hdouble, hsingle, hopen, hstops, hstopsa, hstopsb,
    inner_append_lineBreak s lavendeux ha hb hdouble hsingle hopen hstops hstopsa hstopsb⟩

end Language

end Highlighter
