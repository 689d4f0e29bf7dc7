import Highlighter.Proofs.Engine.States
import Highlighter.Proofs.Rule.Editing
import Mathlib.Data.List.Nodup

/-! Text is consumed at most once. The remainder is a row of cells, each of which holds a character of
the source or is blank. A substitution takes a slice of cells out of the row and puts blank ones in, so
that a character that has been in one slice is in no later one, and nothing that a handler writes ever
comes into the row. -/
namespace Highlighter

/-- The characters of a text other than spaces. -/
def Text.ink (t : Text) : Text := t.filter (· ≠ ' ')

inductive Cell where
  /-- A character of the source and its place there. -/
  | source (c : Char) (place : Nat)
  | blank
  deriving DecidableEq, Repr

namespace Cell

/-- What the remainder shows of a cell. -/
def seen : Cell → Char
  | source c _ => c
  | blank => ' '

/-- The cell holds a character of the source other than a space. -/
def isInk : Cell → Bool
  | source c _ => c ≠ ' '
  | blank => false

/-- What the remainder shows of a row. -/
def text (row : List Cell) : Text := row.map seen

/-- The cells of a row that hold a character other than a space. -/
def inked (row : List Cell) : List Cell := row.filter isInk

/-- The row of a text of which nothing has been substituted. -/
def ofText (t : Text) : List Cell := t.zipIdx.map fun (c, place) => source c place

/-- As many blank cells as the text has bytes. -/
def ofShadow (t : Text) : List Cell := List.replicate t.byteLength blank

theorem text_append (row row' : List Cell) : text (row ++ row') = text row ++ text row' :=
  List.map_append

theorem inked_append (row row' : List Cell) : inked (row ++ row') = inked row ++ inked row' :=
  List.filter_append ..

theorem text_ofText (t : Text) : text (ofText t) = t := by
  rw [text, ofText, List.map_map]
  exact List.zipIdx_map_fst 0 t

theorem nodup_ofText (t : Text) : (ofText t).Nodup := by
  have hplaces : (t.zipIdx.map Prod.snd).Nodup := by
    rw [List.zipIdx_map_snd]
    exact List.nodup_range'
  refine hplaces.of_map.map fun p q hpq => ?_
  obtain ⟨hc, hplace⟩ := source.inj hpq
  exact Prod.ext hc hplace

theorem text_ofShadow (t : Text) : text (ofShadow t) = t.shadow := List.map_replicate

theorem inked_ofShadow (t : Text) : inked (ofShadow t) = [] := List.filter_replicate_of_neg (by decide)

/-- The characters of a row other than spaces are those that its inked cells hold. -/
theorem text_inked (row : List Cell) : text (inked row) = (text row).ink := by
  have hseen : ((· ≠ ' ') : Char → Bool) ∘ seen = isInk := by
    funext cell
    cases cell <;> rfl
  rw [text, inked, ← hseen]
  exact List.filter_map.symm

/-- A part of a row shows each part of what the row shows. -/
theorem exists_append {row : List Cell} {t u : Text} (h : text row = t ++ u) :
    ∃ front back, row = front ++ back ∧ text front = t ∧ text back = u :=
  List.map_eq_append_iff.mp h

end Cell

open Cell

/-- The substitutions, one after another, take the slices out of a row and make it another one. -/
inductive Consumes : List Cell → List Substitution → List (List Cell) → List Cell → Prop
  | done (row : List Cell) : Consumes row [] [] row
  | step {front slice tail row : List Cell} {s : Substitution} {log : List Substitution}
      {slices : List (List Cell)} (hstart : (text front).byteLength = s.start)
      (hstop : (text (front ++ slice)).byteLength = s.stop)
      (later : Consumes (front ++ ofShadow s.replacement ++ tail) log slices row) :
      Consumes (front ++ slice ++ tail) (s :: log) (slice :: slices) row

namespace Consumes

open scoped List

variable {row row' row'' : List Cell} {log log' : List Substitution} {slices slices' : List (List Cell)}

theorem append (h : Consumes row log slices row') (h' : Consumes row' log' slices' row'') :
    Consumes row (log ++ log') (slices ++ slices') row'' := by
  induction h with
  | done => exact h'
  | step hstart hstop _ ih => exact .step hstart hstop (ih h')

/-- No cell comes into the row that holds a character. -/
theorem inked_sublist (h : Consumes row log slices row') : (inked row').Sublist (inked row) := by
  induction h with
  | done => exact List.Sublist.refl _
  | @step front slice tail row s log slices _ _ _ ih =>
    refine ih.trans ?_
    rw [inked_append, inked_append, inked_ofShadow, List.append_nil, inked_append, inked_append]
    exact (List.sublist_append_left _ _).append (List.Sublist.refl _)

/-- What a row has lost is in the slices, and nothing else is. -/
theorem inked_perm (h : Consumes row log slices row') :
    (inked row).Perm (inked row' ++ slices.flatMap inked) := by
  induction h with
  | done row => rw [List.flatMap_nil, List.append_nil]
  | @step front slice tail row s log slices _ _ _ ih =>
    rw [inked_append, inked_append, inked_ofShadow, List.append_nil] at ih
    rw [inked_append, inked_append, List.flatMap_cons]
    -- What the first slice holds goes to the front, and the rest is divided by the later slices.
    calc inked front ++ inked slice ++ inked tail
      _ ~ inked slice ++ (inked front ++ inked tail) := by
        rw [← List.append_assoc]
        exact List.perm_append_comm.append_right _
      _ ~ inked slice ++ (inked row ++ slices.flatMap inked) := ih.append_left _
      _ ~ inked row ++ (inked slice ++ slices.flatMap inked) := by
        rw [← List.append_assoc, ← List.append_assoc]
        exact List.perm_append_comm.append_right _

theorem ink_sublist (h : Consumes row log slices row') : (text row').ink.Sublist (text row).ink := by
  rw [← text_inked, ← text_inked]
  exact h.inked_sublist.map seen

/-- Slices of a row without repetition share no cell that holds a character, with each other or with
what is left. -/
theorem nodup (h : Consumes row log slices row') (hrow : row.Nodup) :
    (inked row' ++ slices.flatMap inked).Nodup :=
  h.inked_perm.nodup (hrow.filter _)

end Consumes

/-- A match that is left as it is takes nothing out of the row. -/
theorem Match.IsLeft.consumes {m : Match} {handler : Handler} {start gap : Nat} {pending : Text}
    {here : List Substitution} (h : m.IsLeft handler start gap pending here) {front : List Cell}
    (hstart : (Cell.text front).byteLength = start) (tail : List Cell) :
    ∃ slices, Consumes (front ++ tail) here slices (front ++ tail) := by
  cases h with
  | torn => exact ⟨[], .done _⟩
  | idle =>
    have hsame : front ++ [] ++ tail = front ++ tail := by rw [List.append_nil]
    have hstep : Consumes (front ++ [] ++ tail) [⟨start, start, []⟩] [[]] (front ++ [] ++ tail) :=
      .step hstart (by rwa [List.append_nil]) (.done _)
    rw [hsame] at hstep
    exact ⟨_, hstep⟩

namespace Rule

variable {pattern : Pattern} {handler : Handler}

/-- The substitutions of a run take slices out of the row of the remainder. -/
theorem Scans.consumes {n : Nat} {left right pending result remainder : Text} {gap : Nat}
    {ending : Ending} {log : List Substitution}
    (h : Scans pattern handler n left right gap pending result remainder ending log)
    (before row : List Cell) (hbefore : text before = left.reverse) (hrow : text row = right) :
    ∃ slices row', Consumes (before ++ row) log slices (before ++ row') ∧ text row' = remainder := by
  -- Along the run `before` takes up what has been passed over and what has been put in.
  have hplace {left skipped : Text} {before front : List Cell} (hbefore : text before = left.reverse)
      (hfront : text front = skipped) :
      (text (before ++ front)).byteLength = left.byteLength + skipped.byteLength := by
    rw [text_append, Text.byteLength_append, hbefore, hfront, Text.byteLength_reverse]
  induction h generalizing before row with
  | cutOff | noMatch | gaveUp => exact ⟨[], row, .done _, hrow⟩
  | pastEnd hs hl _ =>
    subst hrow
    have hright := Pattern.text_of_found hs
    rw [List.append_assoc] at hright
    obtain ⟨front, tail, rfl, hfront, _⟩ := exists_append hright.symm
    obtain ⟨slices, hslices⟩ := hl.consumes (hplace hbefore hfront) tail
    rw [List.append_assoc] at hslices
    exact ⟨slices, front ++ tail, hslices, rfl⟩
  | @pass _ left right _ _ m passed rest _ remainder _ here log hs hl hp _ ih =>
    subst hrow
    have hright := Pattern.text_of_found hs
    rw [List.append_assoc, (Match.passed?_eq_some hp).1] at hright
    obtain ⟨front, back, rfl, hfront, hback⟩ := exists_append hright.symm
    obtain ⟨mid, tail, rfl, hmid, htail⟩ := exists_append hback
    obtain ⟨slices, hslices⟩ := hl.consumes (hplace hbefore hfront) (mid ++ tail)
    have hbefore' : text (before ++ front ++ mid) = ((m.skipped ++ passed).reverse ++ left).reverse := by
      rw [text_append, text_append, hbefore, hfront, hmid, List.reverse_append,
        List.reverse_reverse, List.append_assoc]
    obtain ⟨slices', row', hlater, hrow'⟩ := ih _ tail hbefore' htail
    rw [List.append_assoc (before ++ front)] at hlater
    refine ⟨slices ++ slices', front ++ mid ++ row', ?_, ?_⟩
    · have hall := hslices.append hlater
      simpa only [List.append_assoc] using hall
    · rw [text_append, text_append, hfront, hmid, hrow']
  | @replace _ left right _ _ slice _ m _ remainder _ log hs _ _ _ _ ih =>
    subst hrow
    have hright := Pattern.text_of_found hs
    obtain ⟨back, tail, rfl, hback, htail⟩ := exists_append hright.symm
    obtain ⟨front, mid, rfl, hfront, hmid⟩ := exists_append hback
    have hbefore' : text (before ++ front ++ ofShadow (handler slice)) =
        ((m.skipped ++ (handler slice).shadow).reverse ++ left).reverse := by
      rw [text_append, text_append, hbefore, hfront, text_ofShadow, List.reverse_append,
        List.reverse_reverse, List.append_assoc]
    obtain ⟨slices, row', hlater, hrow'⟩ := ih _ tail hbefore' htail
    refine ⟨mid :: slices, front ++ ofShadow (handler slice) ++ row', ?_, ?_⟩
    · have hstop : (text (before ++ front ++ mid)).byteLength =
          left.byteLength + m.skipped.byteLength + m.matched.byteLength := by
        rw [text_append, Text.byteLength_append, hplace hbefore hfront, hmid]
      have hall : Consumes (before ++ front ++ mid ++ tail)
          (⟨_, left.byteLength + m.skipped.byteLength + m.matched.byteLength, handler slice⟩ :: log)
          (mid :: slices) _ := .step (hplace hbefore hfront) hstop hlater
      simpa only [List.append_assoc] using hall
    · rw [text_append, text_append, hfront, text_ofShadow, hrow']

/-- The substitutions of a rule for a pattern take slices out of the row of the remainder. -/
theorem consumes_edit {r : Rule} (hr : r.isWholeText = false) {b : Buffers} (hb : b.Aligned)
    {d : Edited} (hd : r.edit b = .ok d) {row : List Cell} (hrow : text row = b.remainder) :
    ∃ slices row', Consumes row d.log slices row' ∧ text row' = d.buffers.remainder := by
  cases r with
  | wholeText handler => exact absurd hr (by simp [isWholeText])
  | regex pattern handler =>
    obtain ⟨log, hrun, hscan⟩ := edit_regex pattern handler hb (searchBound pattern b)
    obtain rfl := Except.ok.inj (hrun.symm.trans hd)
    exact hscan.consumes [] row rfl hrow

end Rule

namespace Engine

/-- What the substitutions of some rules for patterns take out of the row of the remainder. -/
theorem consumes_editFrom {rules : List Rule} {b b' : Buffers} (hb : b.Aligned) {ds : List Edited}
    (hds : editFrom rules b = .ok ds) {n : Nat} (hr : ∀ r ∈ rules.take n, r.isWholeText = false)
    (hb' : (states rules b)[n]? = some b') {row : List Cell} (hrow : text row = b.remainder) :
    ∃ slices row', Consumes row ((ds.take n).flatMap Edited.log) slices row' ∧
      text row' = b'.remainder := by
  induction n generalizing rules b ds row with
  | zero =>
    obtain rfl := Option.some.inj ((getElem?_states_zero rules b).symm.trans hb')
    exact ⟨[], row, .done row, hrow⟩
  | succ n ih =>
    cases rules with
    | nil => exact absurd hb' (by simp [states])
    | cons r rules =>
      obtain ⟨d, hd, happly, ha⟩ := r.edit_eq hb
      obtain ⟨more, rfl, hmore⟩ := editFrom_cons_of_ok hd hds
      obtain ⟨hfirst, hlater⟩ := List.forall_mem_cons.mp hr
      obtain ⟨slices, mid, hmid, htext⟩ := Rule.consumes_edit hfirst hb hd hrow
      rw [states, List.getElem?_cons_succ, ← happly] at hb'
      obtain ⟨slices', row', hrest, htext'⟩ := ih ha hmore hlater hb' htext
      rw [List.take_succ_cons, List.flatMap_cons]
      exact ⟨slices ++ slices', row', hmid.append hrest, htext'⟩

/-- The rules from one state on make the states from there on. -/
theorem editFrom_drop {rules : List Rule} {b b' : Buffers} (hb : b.Aligned) {ds : List Edited}
    (hds : editFrom rules b = .ok ds) {n : Nat} (hb' : (states rules b)[n]? = some b') :
    b'.Aligned ∧ editFrom (rules.drop n) b' = .ok (ds.drop n) ∧
      states (rules.drop n) b' = (states rules b).drop n := by
  induction n generalizing rules b ds with
  | zero =>
    obtain rfl := Option.some.inj ((getElem?_states_zero rules b).symm.trans hb')
    exact ⟨hb, hds, rfl⟩
  | succ n ih =>
    cases rules with
    | nil => exact absurd hb' (by simp [states])
    | cons r rules =>
      obtain ⟨d, hd, happly, ha⟩ := r.edit_eq hb
      obtain ⟨more, rfl, hmore⟩ := editFrom_cons_of_ok hd hds
      rw [states, List.getElem?_cons_succ, ← happly] at hb'
      rw [states, ← happly]
      exact ih ha hmore hb'

/-- What the substitutions between two states before a rule for the whole text take out of the
remainder. -/
theorem consumes_between {rules : List Rule} {b₀ b b' : Buffers} (h₀ : b₀.Aligned) {ds : List Edited}
    (hds : editFrom rules b₀ = .ok ds) {i j : Nat} (hij : i ≤ j) (hb : (states rules b₀)[i]? = some b)
    (hb' : (states rules b₀)[j]? = some b') (hr : ∀ r ∈ rules.take j, r.isWholeText = false) :
    ∃ slices row, Consumes (ofText b.remainder) (((ds.take j).drop i).flatMap Edited.log) slices row ∧
      text row = b'.remainder := by
  obtain ⟨ha, hdrop, hstates⟩ := editFrom_drop h₀ hds hb
  rw [← Nat.add_sub_cancel' hij, ← List.getElem?_drop, ← hstates] at hb'
  have hr' : ∀ r ∈ (rules.drop i).take (j - i), r.isWholeText = false := by
    rw [← List.drop_take]
    exact fun r hmem => hr r (List.mem_of_mem_drop hmem)
  rw [List.drop_take]
  exact consumes_editFrom ha hdrop hr' hb' (text_ofText b.remainder)

/-- Text is consumed at most once. Of two states before a rule for the whole text, the characters of
the later remainder other than spaces are a subsequence of those of the earlier one, and so of the
trimmed input. The ranges that are substituted in between take slices out of the earlier remainder:
what it has lost is exactly what is in the slices, no character of it is in two of them or still there
afterwards, and nothing else than its characters and blanks is there. -/
theorem text_consumed_once (e : Engine) (input : Text) :
    ∃ ds, e.edit input = .ok ds ∧ Buffers.ofInput input :: ds.map Edited.buffers = e.trace input ∧
      ∀ (i j : Nat) (b b' : Buffers), i ≤ j → (e.trace input)[i]? = some b →
        (e.trace input)[j]? = some b' → (∀ r ∈ e.rules.take j, r.isWholeText = false) →
        b'.remainder.ink.Sublist b.remainder.ink ∧ b.remainder.ink.Sublist input.trim.ink ∧
        ∃ slices row,
          Consumes (ofText b.remainder) (((ds.take j).drop i).flatMap Edited.log) slices row ∧
          text row = b'.remainder ∧ (inked row).Sublist (inked (ofText b.remainder)) ∧
          (inked (ofText b.remainder)).Perm (inked row ++ slices.flatMap inked) ∧
          (inked row ++ slices.flatMap inked).Nodup ∧
          slices.Pairwise fun u v => (inked u).Disjoint (inked v) := by
  have hinput := aligned_ofInput input
  obtain ⟨ds, hds, hstates, _⟩ := editFrom_eq e.rules hinput
  refine ⟨ds, hds, hstates, fun i j b b' hij hb hb' hr => ?_⟩
  have hr' : ∀ r ∈ e.rules.take i, r.isWholeText = false := fun r hmem =>
    hr r ((List.take_sublist_take_left hij).subset hmem)
  obtain ⟨first, row₀, hfirst, htext₀⟩ :=
    consumes_between hinput hds (Nat.zero_le i) (getElem?_states_zero _ _) hb hr'
  obtain ⟨slices, row, hrow, htext⟩ := consumes_between hinput hds hij hb hb' hr
  have hlater := hrow.ink_sublist
  have hearlier := hfirst.ink_sublist
  rw [text_ofText, htext] at hlater
  rw [text_ofText, htext₀] at hearlier
  have hnodup := hrow.nodup (nodup_ofText b.remainder)
  have hapart := (List.nodup_flatMap.mp (List.nodup_append.mp hnodup).2.1).2
  exact ⟨hlater, hearlier, slices, row, hrow, htext, hrow.inked_sublist, hrow.inked_perm, hnodup,
    hapart⟩

/-- A handler that writes what the next rule looks for: only the `b` of the input is found. -/
theorem text_consumed_once_of_rewriting :
    let e : Engine := ⟨[.regex ⟨"a", .char 'a'⟩ fun _ => "ab",
      .regex ⟨"b", .char 'b'⟩ fun t => "<" ++ t ++ ">"]⟩
    let b : Buffers := ⟨"abb ab", "  b   "⟩
    (e.trace " ab a")[1]? = some b ∧ (e.trace " ab a")[2]? = some ⟨"ab<b> ab", "        "⟩ ∧
      (∀ r ∈ e.rules.take 2, r.isWholeText = false) ∧
      ∃ ds slices row, e.edit " ab a" = .ok ds ∧
        Consumes (ofText b.remainder) (((ds.take 2).drop 1).flatMap Edited.log) slices row ∧
        (inked (ofText b.remainder)).Perm (inked row ++ slices.flatMap inked) := by
  intro e b
  have hb : (e.trace " ab a")[1]? = some b := by decide +kernel
  have hb' : (e.trace " ab a")[2]? = some ⟨"ab<b> ab", "        "⟩ := by decide +kernel
  have hr : ∀ r ∈ e.rules.take 2, r.isWholeText = false := by decide
  obtain ⟨ds, hds, _, hall⟩ := text_consumed_once e " ab a"
  obtain ⟨_, _, slices, row, hrow, _, _, hperm, _⟩ := hall 1 2 b _ (by decide) hb hb' hr
  exact ⟨hb, hb', hr, ds, slices, row, hds, hrow, hperm⟩

end Engine

end Highlighter
