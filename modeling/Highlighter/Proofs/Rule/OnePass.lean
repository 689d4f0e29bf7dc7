import Highlighter.Proofs.Rule.Ending
import Highlighter.Proofs.Text.Boundaries
import Mathlib.Data.List.Chain

/-! A scan in terms of the texts it began with. The matches that it replaces divide both original
texts into cuts, in order; the scan gives each slice of the result to the handler as it was, and it
finds each next match in what it has not come to yet, behind the blanks of what it has replaced. -/
namespace Highlighter

/-- A part of two texts that ends with a slice to be replaced: `slice` in the result and `matched` in
the remainder, with `kept` and `clear` before them. -/
structure Cut where
  kept : Text
  slice : Text
  clear : Text
  matched : Text
  kept_length : kept.byteLength = clear.byteLength
  slice_length : slice.byteLength = matched.byteLength

namespace Cut

def result (c : Cut) : Text := c.kept ++ c.slice

def remainder (c : Cut) : Text := c.clear ++ c.matched

/-- The part of the result with what the handler makes of the slice. -/
def newResult (handler : Handler) (c : Cut) : Text := c.kept ++ handler c.slice

/-- The part of the remainder with as many blanks as the handler makes bytes of the slice. -/
def newRemainder (handler : Handler) (c : Cut) : Text := c.clear ++ (handler c.slice).shadow

/-- The slices as ranges of bytes of the original texts, where the first cut begins at a byte. -/
def ranges : Nat → List Cut → List (Nat × Nat)
  | _, [] => []
  | place, c :: cuts =>
    (place + c.kept.byteLength, place + c.result.byteLength) ::
      ranges (place + c.result.byteLength) cuts

/-- Nothing was found and replaced by nothing. -/
def IsIdle (handler : Handler) (c : Cut) : Prop := c.matched = [] ∧ handler c.slice = []

instance (handler : Handler) (c : Cut) : Decidable (c.IsIdle handler) :=
  inferInstanceAs (Decidable (_ ∧ _))

end Cut

/-- What the searches after `passed` lead to, past all matches whose edges are no edges of characters
of `shown`: a match there, no further match or a search that gives up. The text `seen` stands before
it all in the remainder; `shown` is the result from the end of `seen` on. -/
inductive LeadsTo (pattern : Pattern) (seen shown : Text) : (passed ahead : Text) → Search → Prop
  | found {passed ahead : Text} {m : Match}
      (hs : pattern.search (seen ++ passed).reverse ahead = .found m)
      (he : shown.sliceAt? (Text.byteLength (passed ++ m.skipped)) m.matched.byteLength ≠ none) :
      LeadsTo pattern seen shown passed ahead (.found { m with skipped := passed ++ m.skipped })
  | nowhere {passed ahead : Text}
      (hs : pattern.search (seen ++ passed).reverse ahead = .nowhere) :
      LeadsTo pattern seen shown passed ahead .nowhere
  | gaveUp {passed ahead : Text}
      (hs : pattern.search (seen ++ passed).reverse ahead = .gaveUp) :
      LeadsTo pattern seen shown passed ahead .gaveUp
  | skipped {passed ahead more rest : Text} {m : Match} {s : Search}
      (hs : pattern.search (seen ++ passed).reverse ahead = .found m)
      (ht : shown.sliceAt? (Text.byteLength (passed ++ m.skipped)) m.matched.byteLength = none)
      (hp : m.passed? = some (more, rest))
      (later : LeadsTo pattern seen shown (passed ++ (m.skipped ++ more)) rest s) :
      LeadsTo pattern seen shown passed ahead s
  | skippedAtEnd {passed ahead : Text} {m : Match}
      (hs : pattern.search (seen ++ passed).reverse ahead = .found m)
      (ht : shown.sliceAt? (Text.byteLength (passed ++ m.skipped)) m.matched.byteLength = none)
      (hp : m.passed? = none) : LeadsTo pattern seen shown passed ahead .nowhere

/-- What comes after the cuts `front`, which leave `shown` and `ahead` of both texts: the searches go
on from the end of the last cut, or one character further after one that is idle. -/
def ComesNext (pattern : Pattern) (handler : Handler) (front : List Cut) (shown ahead : Text)
    (s : Search) : Prop :=
  let seen := front.flatMap (Cut.newRemainder handler)
  if ∃ c ∈ front.getLast?, c.IsIdle handler then
    match ahead with
    | [] => s = .nowhere
    | c :: rest => LeadsTo pattern seen shown [c] rest s
  else LeadsTo pattern seen shown [] ahead s

/-- The search that ends with the next of these cuts, or with none if there is no further one. -/
def Cut.IsNext (rest : Text) : List Cut → Search → Prop
  | [], s => s = .nowhere ∨ s = .gaveUp
  | c :: cuts, s => s = .found ⟨c.clear, c.matched, cuts.flatMap Cut.remainder ++ rest⟩

/-- A rule makes `b'` of `b` in one pass over these cuts, behind which `tail` and `rest` of both
texts remain as they are. -/
structure OnePass (pattern : Pattern) (handler : Handler) (b b' : Buffers) (cuts : List Cut)
    (tail rest : Text) : Prop where
  result : b.result = cuts.flatMap Cut.result ++ tail
  remainder : b.remainder = cuts.flatMap Cut.remainder ++ rest
  tail_length : tail.byteLength = rest.byteLength
  inOrder : (Cut.ranges 0 cuts).IsChain fun r r' => r.2 ≤ r'.1
  newResult : b'.result = cuts.flatMap (Cut.newResult handler) ++ tail
  newRemainder : b'.remainder = cuts.flatMap (Cut.newRemainder handler) ++ rest
  /-- Wherever the cuts are divided, the first one behind is what comes next. -/
  next : ∀ front back, cuts = front ++ back →
    ∃ s, Cut.IsNext rest back s ∧ ComesNext pattern handler front
      (back.flatMap Cut.result ++ tail) (back.flatMap Cut.remainder ++ rest) s

namespace Cut

theorem byteLength_eq (cuts : List Cut) :
    Text.byteLength (cuts.flatMap result) = Text.byteLength (cuts.flatMap remainder) := by
  induction cuts with
  | nil => rfl
  | cons c cuts ih =>
    rw [List.flatMap_cons, List.flatMap_cons, Text.byteLength_append, Text.byteLength_append, ih,
      result, remainder, Text.byteLength_append, Text.byteLength_append, c.kept_length,
      c.slice_length]

theorem isChain_ranges (place : Nat) (cuts : List Cut) :
    (ranges place cuts).IsChain fun r r' => r.2 ≤ r'.1 := by
  induction cuts generalizing place with
  | nil => exact .nil
  | cons c cuts ih =>
    cases cuts with
    | nil => exact .singleton _
    | cons c' cuts => exact .cons_cons (Nat.le_add_right _ _) (ih _)

end Cut

namespace Rule

variable {pattern : Pattern} {handler : Handler}

/-- The cuts that a scan makes from a place on. Before it lie the cuts `front`, and `passed` is what
the scan has passed over in the remainder since the last of them. -/
structure CutsFrom (pattern : Pattern) (handler : Handler) (front : List Cut)
    (passed right shown result remainder : Text) (cuts : List Cut) (tail rest : Text) : Prop where
  shown_eq : shown = cuts.flatMap Cut.result ++ tail
  ahead_eq : passed ++ right = cuts.flatMap Cut.remainder ++ rest
  result_eq : result = cuts.flatMap (Cut.newResult handler) ++ tail
  remainder_eq : passed ++ remainder = cuts.flatMap (Cut.newRemainder handler) ++ rest
  first : ∃ s, Cut.IsNext rest cuts s ∧
    LeadsTo pattern (front.flatMap (Cut.newRemainder handler)) shown passed right s
  later : ∀ c more back, cuts = c :: more ++ back →
    ∃ s, Cut.IsNext rest back s ∧ ComesNext pattern handler (front ++ c :: more)
      (back.flatMap Cut.result ++ tail) (back.flatMap Cut.remainder ++ rest) s

/-- The searches that come next after a cut begin one character after it, if it is idle. -/
theorem comesNext_concat {front : List Cut} {c : Cut} {passed right shown : Text} {s : Search}
    (hp : if c.IsIdle handler then passed.length = 1 else passed = [])
    (h : LeadsTo pattern ((front ++ [c]).flatMap (Cut.newRemainder handler)) shown passed right s) :
    ComesNext pattern handler (front ++ [c]) shown (passed ++ right) s := by
  have hlast : (∃ d ∈ (front ++ [c]).getLast?, d.IsIdle handler) ↔ c.IsIdle handler := by
    rw [List.getLast?_concat]
    simp only [Option.mem_def, Option.some.injEq, exists_eq_left']
  unfold ComesNext
  dsimp only
  by_cases hidle : c.IsIdle handler
  · rw [if_pos hidle] at hp
    obtain ⟨d, rfl⟩ := List.length_eq_one_iff.mp hp
    rw [if_pos (hlast.mpr hidle)]
    exact h
  · rw [if_neg hidle] at hp
    subst hp
    rw [if_neg (hlast.not.mpr hidle)]
    exact h

/-- The cuts after a cut, together with it. -/
theorem CutsFrom.cons {front cuts : List Cut} {c : Cut}
    {passed right passed' right' shown' result' remainder remainder' tail rest : Text}
    (h : CutsFrom pattern handler (front ++ [c]) passed' right' shown' result' remainder' cuts tail
      rest)
    (hfirst : LeadsTo pattern (front.flatMap (Cut.newRemainder handler)) (c.result ++ shown') passed
      right (.found ⟨c.clear, c.matched, passed' ++ right'⟩))
    (hp : if c.IsIdle handler then passed'.length = 1 else passed' = [])
    (hahead : passed ++ right = c.remainder ++ (passed' ++ right'))
    (hremainder : passed ++ remainder = c.newRemainder handler ++ (passed' ++ remainder')) :
    CutsFrom pattern handler front passed right (c.result ++ shown')
      (c.newResult handler ++ result') remainder (c :: cuts) tail rest where
  shown_eq := by rw [h.shown_eq, List.flatMap_cons, List.append_assoc]
  ahead_eq := by rw [hahead, h.ahead_eq, List.flatMap_cons, List.append_assoc]
  result_eq := by rw [h.result_eq, List.flatMap_cons, List.append_assoc]
  remainder_eq := by rw [hremainder, h.remainder_eq, List.flatMap_cons, List.append_assoc]
  first := ⟨_, by rw [Cut.IsNext, h.ahead_eq], hfirst⟩
  later := by
    -- What follows the new cut comes first from there on; all else is as it was behind the cut.
    intro d more back hsplit
    obtain ⟨rfl, hcuts⟩ := List.cons.inj hsplit
    cases more with
    | nil =>
      obtain ⟨s, hnext, hs⟩ := h.first
      have hback : cuts = back := hcuts
      subst hback
      refine ⟨s, hnext, ?_⟩
      rw [← h.ahead_eq, ← h.shown_eq]
      exact comesNext_concat hp hs
    | cons d' more =>
      obtain ⟨s, hnext, hs⟩ := h.later d' more back hcuts
      refine ⟨s, hnext, ?_⟩
      rwa [List.append_assoc, List.singleton_append] at hs

/-- There are no cuts where the scan comes to its end. -/
theorem cutsFrom_nil {front : List Cut} {passed right shown : Text} {s : Search}
    (hs : s = .nowhere ∨ s = .gaveUp)
    (h : LeadsTo pattern (front.flatMap (Cut.newRemainder handler)) shown passed right s) :
    CutsFrom pattern handler front passed right shown shown right [] shown (passed ++ right) where
  shown_eq := rfl
  ahead_eq := rfl
  result_eq := rfl
  remainder_eq := rfl
  first := ⟨s, hs, h⟩
  later := fun _ _ _ h => absurd h (by simp)

/-- A slice of what no handler has seen, as a cut of the text that follows `before` in it. -/
theorem exists_cut {before shown passed kept slice tail : Text} {gap : Nat} {m : Match}
    (hgap : gap = before.byteLength + passed.byteLength)
    (hpending : kept ++ slice ++ tail = before ++ shown)
    (hk : kept.byteLength = gap + m.skipped.byteLength)
    (hl : slice.byteLength = m.matched.byteLength) :
    ∃ c : Cut, c.clear = passed ++ m.skipped ∧ c.matched = m.matched ∧ c.slice = slice ∧
      kept = before ++ c.kept ∧ shown = c.result ++ tail := by
  rw [List.append_assoc] at hpending
  obtain ⟨own, rfl, rfl⟩ := Text.prefix_of_byteLength_le hpending.symm (by omega)
  refine ⟨⟨own, slice, passed ++ m.skipped, m.matched, ?_, hl⟩, rfl, rfl, rfl, rfl, ?_⟩
  · rw [Text.byteLength_append] at hk ⊢
    omega
  · exact (List.append_assoc own slice tail).symm

/-- A match found at a cut. -/
theorem leadsTo_cut {seen passed right : Text} {m : Match} {c : Cut} (tail : Text)
    (hs : pattern.search (seen ++ passed).reverse right = .found m)
    (hclear : c.clear = passed ++ m.skipped) (hm : c.matched = m.matched) :
    LeadsTo pattern seen (c.result ++ tail) passed right (.found ⟨c.clear, c.matched, m.rest⟩) := by
  have hslice : Text.sliceAt? (Text.byteLength (passed ++ m.skipped)) m.matched.byteLength
      (c.result ++ tail) ≠ none := by
    rw [← hclear, ← hm, ← c.kept_length, ← c.slice_length, Cut.result, Text.sliceAt?_append]
    exact Option.some_ne_none _
  have hfound := LeadsTo.found hs hslice
  rwa [← hclear, ← hm] at hfound

/-- A match that is passed over comes before the first cut. -/
theorem CutsFrom.skipped {front cuts : List Cut}
    {passed right more rest' shown result remainder tail rest : Text} {m : Match}
    (h : CutsFrom pattern handler front (passed ++ (m.skipped ++ more)) rest' shown result remainder
      cuts tail rest)
    (hs : pattern.search (front.flatMap (Cut.newRemainder handler) ++ passed).reverse right =
      .found m)
    (ht : shown.sliceAt? (Text.byteLength (passed ++ m.skipped)) m.matched.byteLength = none)
    (hp : m.passed? = some (more, rest')) :
    CutsFrom pattern handler front passed right shown result (m.skipped ++ more ++ remainder) cuts
      tail rest where
  shown_eq := h.shown_eq
  ahead_eq := by
    rw [← h.ahead_eq, ← Pattern.text_of_found hs, List.append_assoc m.skipped,
      (Match.passed?_eq_some hp).1]
    simp only [List.append_assoc]
  result_eq := h.result_eq
  remainder_eq := by
    rw [← h.remainder_eq]
    simp only [List.append_assoc]
  first := by
    obtain ⟨s, hnext, hlater⟩ := h.first
    exact ⟨s, hnext, .skipped hs ht hp hlater⟩
  later := h.later

/-- An idle cut at the end is the last one. -/
theorem cutsFrom_idle_end {front : List Cut} {c : Cut} {passed right tail : Text}
    (hc : c.IsIdle handler) (hahead : passed ++ right = c.remainder)
    (hfirst : LeadsTo pattern (front.flatMap (Cut.newRemainder handler)) (c.result ++ tail) passed
      right (.found ⟨c.clear, c.matched, []⟩)) :
    CutsFrom pattern handler front passed right (c.result ++ tail) (c.newResult handler ++ tail)
      right [c] tail [] where
  shown_eq := by rw [List.flatMap_singleton]
  ahead_eq := by rw [hahead, List.flatMap_singleton, List.append_nil]
  result_eq := by rw [List.flatMap_singleton]
  remainder_eq := by
    rw [hahead, List.flatMap_singleton, List.append_nil, Cut.remainder, Cut.newRemainder, hc.1,
      hc.2, Text.shadow_nil]
  first := ⟨_, rfl, hfirst⟩
  later := by
    intro d more back hsplit
    obtain ⟨rfl, hrest⟩ := List.cons.inj hsplit
    obtain ⟨rfl, rfl⟩ := List.append_eq_nil_iff.mp hrest.symm
    refine ⟨.nowhere, Or.inl rfl, ?_⟩
    have hlast : ∃ d ∈ (front ++ [c]).getLast?, d.IsIdle handler :=
      ⟨c, List.getLast?_concat, hc⟩
    unfold ComesNext
    dsimp only
    rw [if_pos hlast]
    rfl

theorem sliceAt?_eq_none_of_append {before shown : Text} {n k : Nat}
    (h : Text.sliceAt? (before.byteLength + n) k (before ++ shown) = none) :
    shown.sliceAt? n k = none := by
  rw [Text.sliceAt?_eq_none_iff, Nat.add_assoc, Text.isBoundary_append_add,
    Text.isBoundary_append_add] at h
  exact Text.sliceAt?_eq_none_iff.mpr h

/-- How the place of a scan stands to the cuts `front` before it: since the last of them the scan has
passed over `before` in the result, which `shown` follows, and over `passed` in the remainder. -/
structure Since (handler : Handler) (front : List Cut) (before shown passed left pending : Text)
    (gap : Nat) : Prop where
  left_eq : left = (front.flatMap (Cut.newRemainder handler) ++ passed).reverse
  pending_eq : pending = before ++ shown
  gap_eq : gap = before.byteLength + passed.byteLength

namespace Since

variable {front : List Cut} {before shown passed left pending right : Text} {gap : Nat} {m : Match}

theorem search_eq (h : Since handler front before shown passed left pending gap) {s : Search}
    (hs : pattern.search left right = s) :
    pattern.search (front.flatMap (Cut.newRemainder handler) ++ passed).reverse right = s := by
  rw [← h.left_eq]
  exact hs

theorem torn (h : Since handler front before shown passed left pending gap)
    (ht : pending.sliceAt? (gap + m.skipped.byteLength) m.matched.byteLength = none) :
    shown.sliceAt? (Text.byteLength (passed ++ m.skipped)) m.matched.byteLength = none := by
  rw [h.pending_eq, h.gap_eq, Nat.add_assoc, ← Text.byteLength_append] at ht
  exact sliceAt?_eq_none_of_append ht

/-- More is passed over. -/
theorem past (h : Since handler front before shown passed left pending gap) (more : Text) :
    Since handler front before shown (passed ++ (m.skipped ++ more))
      ((m.skipped ++ more).reverse ++ left) pending
      (gap + Text.byteLength (m.skipped ++ more)) where
  left_eq := by
    rw [h.left_eq]
    simp only [List.reverse_append, List.append_assoc]
  pending_eq := h.pending_eq
  gap_eq := by rw [h.gap_eq, Text.byteLength_append passed, Nat.add_assoc]

/-- A match that is found is a cut of what is shown. -/
theorem cut {kept slice tail : Text} (h : Since handler front before shown passed left pending gap)
    (hpending : pending = kept ++ slice ++ tail)
    (hk : kept.byteLength = gap + m.skipped.byteLength)
    (hl : slice.byteLength = m.matched.byteLength) :
    ∃ c : Cut, c.clear = passed ++ m.skipped ∧ c.matched = m.matched ∧ c.slice = slice ∧
      kept = before ++ c.kept ∧ shown = c.result ++ tail :=
  exists_cut h.gap_eq (hpending.symm.trans h.pending_eq) hk hl

/-- Behind an idle cut, the character that is passed over belongs to no cut yet. -/
theorem past_idle {c : Cut} {tail : Text}
    (h : Since handler front before (c.result ++ tail) passed left pending gap)
    (hidle : c.IsIdle handler) (hclear : c.clear = passed ++ m.skipped) (more : Text) :
    Since handler (front ++ [c]) (before ++ c.kept) tail more
      ((m.skipped ++ more).reverse ++ left) pending
      (gap + Text.byteLength (m.skipped ++ more)) where
  left_eq := by
    rw [h.left_eq, List.flatMap_append, List.flatMap_singleton, Cut.newRemainder, hidle.2, hclear,
      Text.shadow_nil]
    simp only [List.reverse_append, List.append_assoc, List.append_nil]
  pending_eq := by
    have hslice : c.slice = [] := by
      rw [← Text.byteLength_eq_zero_iff, c.slice_length, hidle.1, Text.byteLength_nil]
    rw [h.pending_eq, Cut.result, hslice, List.append_nil, List.append_assoc]
  gap_eq := by
    have hk := c.kept_length
    rw [hclear] at hk
    rw [h.gap_eq]
    simp only [Text.byteLength_append] at hk ⊢
    omega

/-- Behind a cut that is replaced, nothing has been passed over. -/
theorem past_cut {c : Cut} {tail : Text}
    (h : Since handler front before shown passed left pending gap)
    (hclear : c.clear = passed ++ m.skipped) :
    Since handler (front ++ [c]) [] tail []
      ((m.skipped ++ (handler c.slice).shadow).reverse ++ left) tail 0 where
  left_eq := by
    rw [h.left_eq, List.flatMap_append, List.flatMap_singleton, Cut.newRemainder, hclear]
    simp only [List.reverse_append, List.append_assoc, List.append_nil]
  pending_eq := rfl
  gap_eq := rfl

end Since

/-- An idle match in front of the cuts behind it. -/
theorem CutsFrom.idle {front cuts : List Cut} {c : Cut}
    {passed right more rest' shown result remainder tail rest : Text} {m : Match}
    (h : CutsFrom pattern handler (front ++ [c]) more rest' shown result remainder cuts tail rest)
    (hs : pattern.search (front.flatMap (Cut.newRemainder handler) ++ passed).reverse right =
      .found m)
    (hclear : c.clear = passed ++ m.skipped) (hmatched : c.matched = m.matched)
    (hidle : c.IsIdle handler) (hp : m.passed? = some (more, rest')) :
    CutsFrom pattern handler front passed right (c.result ++ shown)
      (c.newResult handler ++ result) (m.skipped ++ more ++ remainder) (c :: cuts) tail rest := by
  obtain ⟨hparts, hne, hkind⟩ := Match.passed?_eq_some hp
  have hm : m.matched = [] := hmatched.symm.trans hidle.1
  have hone : more.length = 1 := by
    rcases hkind with ⟨_, h⟩ | ⟨h, _⟩
    · exact h
    · exact absurd (h.symm.trans hm) hne
  have hrest : m.rest = more ++ rest' := by rw [← hparts, hm, List.nil_append]
  have hfirst := leadsTo_cut shown hs hclear hmatched
  rw [hrest] at hfirst
  refine h.cons hfirst (by rw [if_pos hidle, hone]) ?_ ?_
  · rw [Cut.remainder, hclear, hmatched, ← Pattern.text_of_found hs, hrest]
    simp only [List.append_assoc]
  · rw [Cut.newRemainder, hidle.2, hclear, Text.shadow_nil]
    simp only [List.append_assoc, List.append_nil]

/-- A match that is replaced in front of the cuts behind it. -/
theorem CutsFrom.replaced {front cuts : List Cut} {c : Cut}
    {passed right shown result remainder tail rest : Text} {m : Match}
    (h : CutsFrom pattern handler (front ++ [c]) [] m.rest shown result remainder cuts tail rest)
    (hs : pattern.search (front.flatMap (Cut.newRemainder handler) ++ passed).reverse right =
      .found m)
    (hclear : c.clear = passed ++ m.skipped) (hmatched : c.matched = m.matched)
    (hidle : ¬ c.IsIdle handler) :
    CutsFrom pattern handler front passed right (c.result ++ shown)
      (c.newResult handler ++ result) (m.skipped ++ (handler c.slice).shadow ++ remainder)
      (c :: cuts) tail rest := by
  refine h.cons (leadsTo_cut shown hs hclear hmatched) (by rw [if_neg hidle]) ?_ ?_
  · rw [Cut.remainder, hclear, hmatched, ← Pattern.text_of_found hs]
    simp only [List.append_assoc, List.nil_append]
  · rw [Cut.newRemainder, hclear]
    simp only [List.append_assoc, List.nil_append]

/-- Every run that ends comes from cuts. -/
theorem Scans.cutsFrom {n : Nat} {left right pending result remainder : Text} {gap : Nat}
    {ending : Ending} {log : List Substitution}
    (h : Scans pattern handler n left right gap pending result remainder ending log)
    (he : ending ≠ .cutOff) {front : List Cut} {before shown passed : Text}
    (hsince : Since handler front before shown passed left pending gap) :
    ∃ cuts tail rest result', result = before ++ result' ∧
      CutsFrom pattern handler front passed right shown result' remainder cuts tail rest := by
  -- By induction on the run: what follows the step comes from cuts, to which the step adds one at
  -- the front, unless it passes over a match that is torn.
  induction h generalizing front before shown passed with
  | cutOff => exact absurd rfl he
  | noMatch hs =>
    exact ⟨[], _, _, shown, hsince.pending_eq,
      cutsFrom_nil (Or.inl rfl) (.nowhere (hsince.search_eq hs))⟩
  | gaveUp hs =>
    exact ⟨[], _, _, shown, hsince.pending_eq,
      cutsFrom_nil (Or.inr rfl) (.gaveUp (hsince.search_eq hs))⟩
  | @pastEnd _ left right gap pending m here hs hl hp =>
    obtain ⟨hm, hrest⟩ := Match.passed?_eq_none hp
    have htext := Pattern.text_of_found hs
    have hs := hsince.search_eq hs
    cases hl with
    | torn ht =>
      exact ⟨[], _, _, shown, hsince.pending_eq,
        cutsFrom_nil (Or.inl rfl) (.skippedAtEnd hs (hsince.torn ht) hp)⟩
    | idle kept tail ht _ hh =>
      obtain ⟨hparts, hk, hl⟩ := Text.sliceAt?_eq_some_iff.mp ht
      obtain ⟨c, hclear, hmatched, hslice, rfl, rfl⟩ := hsince.cut hparts hk hl
      have hidle : c.IsIdle handler := ⟨hmatched.trans hm, by rw [hslice, hh]⟩
      have hfirst := leadsTo_cut tail hs hclear hmatched
      rw [hrest] at hfirst
      have hahead : passed ++ right = c.remainder := by
        rw [Cut.remainder, hclear, hmatched, ← htext, hrest, List.append_nil, List.append_assoc]
      refine ⟨[c], tail, [], _, ?_, cutsFrom_idle_end hidle hahead hfirst⟩
      rw [hsince.pending_eq, Cut.newResult, hidle.2, Cut.result, hslice]
  | @pass _ left right gap pending m more rest' result remainder ending here log hs hl hp later ih =>
    have hs := hsince.search_eq hs
    cases hl with
    | torn ht =>
      obtain ⟨cuts, tail, rest, result', hresult, hcuts⟩ := ih he (hsince.past more)
      exact ⟨cuts, tail, rest, result', hresult, hcuts.skipped hs (hsince.torn ht) hp⟩
    | idle kept tail ht hm hh =>
      obtain ⟨hparts, hk, hl⟩ := Text.sliceAt?_eq_some_iff.mp ht
      obtain ⟨c, hclear, hmatched, hslice, rfl, rfl⟩ := hsince.cut hparts hk hl
      have hidle : c.IsIdle handler := ⟨hmatched.trans hm, by rw [hslice, hh]⟩
      obtain ⟨cuts, tail', rest, result', hresult, hcuts⟩ :=
        ih he (hsince.past_idle hidle hclear more)
      refine ⟨c :: cuts, tail', rest, _, ?_, hcuts.idle hs hclear hmatched hidle hp⟩
      rw [hresult, Cut.newResult, hidle.2, List.append_nil, List.append_assoc]
  | @replace _ left right gap kept slice tail m result remainder ending log hs hk hl hn later ih =>
    obtain ⟨c, hclear, hmatched, rfl, rfl, rfl⟩ := hsince.cut rfl hk hl
    have hidle : ¬ c.IsIdle handler := by
      rw [Cut.IsIdle, hmatched]
      exact hn
    obtain ⟨cuts, tail', rest, result', hresult, hcuts⟩ := ih he (hsince.past_cut hclear)
    refine ⟨c :: cuts, tail', rest, _, ?_,
      hcuts.replaced (hsince.search_eq hs) hclear hmatched hidle⟩
    rw [hresult, Cut.newResult]
    simp only [List.append_assoc, List.nil_append]

/-- A rule makes one pass over the original texts, if its scan ends: between slices that it leaves
as they are it gives slices of the original result to the handler, in order and without overlap,
and puts what the handler makes of them in their place, and as many blanks into the remainder. Each
of them is what the search finds next in the part of the remainder that is still as it was, behind
the blanks of those before. -/
theorem apply_is_one_pass (pattern : Pattern) (handler : Handler) (b : Buffers)
    (hb : b.result.byteLength = b.remainder.byteLength)
    (he : ∃ searches, (scanWithin pattern handler searches b).ending ≠ .cutOff) :
    ∃ cuts tail rest,
      OnePass pattern handler b ((regex pattern handler).apply b) cuts tail rest := by
  obtain ⟨searches, he⟩ := he
  obtain ⟨log, hrun⟩ := scans_scanWithin pattern handler searches b
  have hstart : Since handler [] [] b.result [] [] b.result 0 := ⟨rfl, rfl, rfl⟩
  obtain ⟨cuts, tail, rest, result, hresult, hcuts⟩ := hrun.cutsFrom he hstart
  rw [(apply_eq_of_ends he).1]
  have htail : tail.byteLength = rest.byteLength := by
    have hahead : b.remainder = cuts.flatMap Cut.remainder ++ rest := hcuts.ahead_eq
    rw [hcuts.shown_eq, hahead, Text.byteLength_append, Text.byteLength_append,
      Cut.byteLength_eq] at hb
    exact Nat.add_left_cancel hb
  refine ⟨cuts, tail, rest, hcuts.shown_eq, hcuts.ahead_eq, htail, Cut.isChain_ranges 0 cuts, ?_,
    hcuts.remainder_eq, ?_⟩
  · change (scanWithin pattern handler searches b).result = _
    rw [hresult, List.nil_append, hcuts.result_eq]
  · -- Before the first cut the scan is at the beginning; behind others it is where a cut ends.
    intro front back hsplit
    cases front with
    | nil =>
      obtain ⟨s, hnext, hs⟩ := hcuts.first
      have hback : cuts = back := hsplit
      subst hback
      refine ⟨s, hnext, ?_⟩
      rw [← hcuts.shown_eq, ← hcuts.ahead_eq]
      unfold ComesNext
      dsimp only
      rw [if_neg (by simp)]
      exact hs
    | cons c more => exact hcuts.later c more back hsplit

/-- What is put in for a match could match again; it is not looked at. -/
theorem apply_is_one_pass_of_doubling :
    let pattern : Pattern := ⟨"ab", .seq (.char 'a') (.char 'b')⟩
    let b : Buffers := ⟨"ab¥ab", "ab  ab"⟩
    let b' : Buffers := ⟨"abab¥abab", "          "⟩
    b.result.byteLength = b.remainder.byteLength ∧
      (scanWithin pattern (fun t => t ++ t) 9 b).ending ≠ .cutOff ∧
      ∃ cuts tail rest, OnePass pattern (fun t => t ++ t) b b' cuts tail rest := by
  intro pattern b b'
  have hb : b.result.byteLength = b.remainder.byteLength := by decide
  have he : (scanWithin pattern (fun t => t ++ t) 9 b).ending ≠ .cutOff := by decide +kernel
  have hb' : (regex pattern fun t => t ++ t).apply b = b' := by decide +kernel
  exact ⟨hb, he, hb' ▸ apply_is_one_pass pattern (fun t => t ++ t) b hb ⟨9, he⟩⟩

end Rule

end Highlighter
