import Highlighter.Proofs.Regex.Ahead
import Highlighter.Proofs.Rule.Editing
import Highlighter.Proofs.Rule.Mirror
import Highlighter.Proofs.Text.Ascii

/-! Replacing all matches of a text at once. A scan searches a remainder in which what it has replaced
already is blank and may have any length. A pattern that looks only ahead finds there what it finds
in the text as it was at first, so that the rule replaces the successive matches of the original
remainder. -/
namespace Highlighter

namespace Regex

variable {r : Regex} {left right : Text} {m : Match}

theorem length_rest_lt (h : r.first? left right = some m) (hm : m.matched ≠ []) :
    m.rest.length < right.length := by
  have hlen := congrArg List.length (first?_text h)
  have hpos := List.length_pos_iff.mpr hm
  simp only [Match.text, List.length_append] at hlen
  omega

/-- The matches that are found one after another, each in what follows the one before; `left` (nearest
character first) stands before them all. Nothing is looked for after an empty match. -/
def successive (r : Regex) (left right : Text) : List Match :=
  match h : r.first? left right with
  | none => []
  | some m =>
    if hm : m.matched = [] then [m]
    else
      have := length_rest_lt h hm
      m :: r.successive ((m.skipped ++ m.matched).reverse ++ left) m.rest
  termination_by right.length

theorem successive_of_none (h : r.first? left right = none) : r.successive left right = [] := by
  unfold successive
  split
  · rfl
  · rename_i h'
    exact absurd (h.symm.trans h') (by simp)

theorem successive_of_some (h : r.first? left right = some m) :
    r.successive left right = if m.matched = [] then [m]
      else m :: r.successive ((m.skipped ++ m.matched).reverse ++ left) m.rest := by
  conv_lhs => unfold successive
  split
  · rename_i h'
    exact absurd (h.symm.trans h') (by simp)
  · rename_i h'
    obtain rfl := Option.some.inj (h.symm.trans h')
    rfl

theorem successive_of_ne (h : r.first? left right = some m) (hm : m.matched ≠ []) :
    r.successive left right =
      m :: r.successive ((m.skipped ++ m.matched).reverse ++ left) m.rest := by
  rw [successive_of_some h, if_neg hm]

/-- Where a pattern cannot begin, its matches are those after the next character. -/
theorem successive_cons {c : Char} (h : r.endsAt left (c :: right) = []) :
    r.successive left (c :: right) =
      (r.successive (c :: left) right).modifyHead (Match.skipping c) := by
  cases hfirst : r.first? (c :: left) right with
  | none =>
    have hnone : r.first? left (c :: right) = none := by rw [first?_cons h, hfirst, Option.map_none]
    rw [successive_of_none hfirst, successive_of_none hnone, List.modifyHead_nil]
  | some m =>
    have hsome : r.first? left (c :: right) = some (m.skipping c) := by
      rw [first?_cons h, hfirst, Option.map_some]
    have hplace : ((c :: m.skipped) ++ m.matched).reverse ++ left =
        (m.skipped ++ m.matched).reverse ++ c :: left := by
      rw [List.cons_append, List.reverse_cons, List.append_assoc, List.singleton_append]
    rw [successive_of_some hfirst, successive_of_some hsome]
    simp only [Match.skipping, hplace]
    split <;> rfl

/-- What stands before makes no difference to the matches of a pattern that looks only ahead. -/
theorem successive_congr (hr : r.looksAhead = true) (left left' right : Text) :
    r.successive left right = r.successive left' right := by
  fun_induction successive r left right generalizing left' with
  | case1 left right h => rw [successive_of_none ((first?_congr hr left' left right).trans h)]
  | case2 left right m h hm =>
    rw [successive_of_some ((first?_congr hr left' left right).trans h), if_pos hm]
  | case3 left right m h hm _ ih =>
    rw [successive_of_ne ((first?_congr hr left' left right).trans h) hm]
    exact congrArg (m :: ·) (ih _)

end Regex

namespace Match

/-- The text with what the handler makes of each match in its place. Each match lies in what follows
the one before. -/
def replaceEach (handler : Handler) : List Match → Text → Text
  | [], t => t
  | m :: ms, _ => m.skipped ++ handler m.matched ++ replaceEach handler ms m.rest

theorem replaceEach_skipping (handler : Handler) (c : Char) (ms : List Match) (t : Text) :
    replaceEach handler (ms.modifyHead (skipping c)) (c :: t) = c :: replaceEach handler ms t := by
  cases ms <;> rfl

/-- The matches as ranges of bytes, where the text in which the first one lies begins at `place`. -/
def ranges (place : Nat) : List Match → List (Nat × Nat)
  | [] => []
  | m :: ms =>
    let start := place + m.skipped.byteLength
    let stop := start + m.matched.byteLength
    (start, stop) :: ranges stop ms

/-- Both texts with what the handler makes of the slice of the result beside each match of the
remainder, and with its shadow in the remainder; none if an edge of such a slice is no edge of a
character. -/
def replaceBoth? (handler : Handler) : List Match → Buffers → Option Buffers
  | [], b => some b
  | m :: ms, b =>
    match b.result.sliceAt? m.skipped.byteLength m.matched.byteLength with
    | none => none
    | some (kept, slice, tail) =>
      (replaceBoth? handler ms ⟨tail, m.rest⟩).map fun b' =>
        ⟨kept ++ handler slice ++ b'.result, m.skipped ++ (handler slice).shadow ++ b'.remainder⟩

theorem replaceBoth?_cons (handler : Handler) {m : Match} {ms : List Match} {kept slice tail : Text}
    {right : Text} (hk : kept.byteLength = m.skipped.byteLength)
    (hl : slice.byteLength = m.matched.byteLength) :
    replaceBoth? handler (m :: ms) ⟨kept ++ slice ++ tail, right⟩ =
      (replaceBoth? handler ms ⟨tail, m.rest⟩).map fun b' =>
        ⟨kept ++ handler slice ++ b'.result,
          m.skipped ++ (handler slice).shadow ++ b'.remainder⟩ := by
  rw [replaceBoth?, ← hk, ← hl, Text.sliceAt?_append]

/-- Apart from blanks there remains what stands between the matches. -/
theorem count_of_replaceBoth? {handler : Handler} {ms : List Match} {b b' : Buffers}
    (h : replaceBoth? handler ms b = some b') {c : Char} (hc : c ≠ ' ') :
    b'.remainder.count c = (replaceEach (fun _ => []) ms b.remainder).count c := by
  induction ms generalizing b b' with
  | nil =>
    obtain rfl := Option.some.inj h
    rfl
  | cons m ms ih =>
    rw [replaceBoth?] at h
    split at h
    · exact absurd h (by simp)
    · rename_i kept slice tail _
      obtain ⟨later, hlater, rfl⟩ := Option.map_eq_some_iff.mp h
      have hblank : (handler slice).shadow.count c = 0 :=
        List.count_eq_zero.mpr fun hmem => hc (Text.eq_space_of_mem_shadow hmem)
      rw [replaceEach, List.count_append, List.count_append, hblank, ih hlater, List.count_append,
        List.count_append, List.count_nil]

/-- Slices can be cut out beside all matches if their edges are edges of characters of the result,
which begins with `front`. -/
theorem isSome_replaceBoth? (handler : Handler) {ms : List Match} (front : Text)
    {shown right : Text}
    (h : ∀ r ∈ ranges front.byteLength ms, Text.isBoundary (front ++ shown) r.1 = true ∧
      Text.isBoundary (front ++ shown) r.2 = true) :
    (replaceBoth? handler ms ⟨shown, right⟩).isSome = true := by
  induction ms generalizing front shown right with
  | nil => rfl
  | cons m ms ih =>
    obtain ⟨hstart, hstop⟩ := h _ List.mem_cons_self
    rw [Text.isBoundary_append_add] at hstart
    rw [Nat.add_assoc, Text.isBoundary_append_add] at hstop
    cases hs : shown.sliceAt? m.skipped.byteLength m.matched.byteLength with
    | none => exact absurd ⟨hstart, hstop⟩ (Text.sliceAt?_eq_none_iff.mp hs)
    | some parts =>
      obtain ⟨kept, slice, tail⟩ := parts
      obtain ⟨rfl, hk, hl⟩ := Text.sliceAt?_eq_some_iff.mp hs
      rw [replaceBoth?_cons handler hk hl, Option.isSome_map]
      refine ih (front ++ kept ++ slice) fun r hr => ?_
      have hfront : Text.byteLength (front ++ kept ++ slice) =
          front.byteLength + m.skipped.byteLength + m.matched.byteLength := by
        rw [Text.byteLength_append, Text.byteLength_append, hk, hl]
      rw [hfront] at hr
      have hedges := h r (List.mem_cons_of_mem _ hr)
      rwa [← List.append_assoc, ← List.append_assoc] at hedges

/-- Beside matches that begin and end with characters of ASCII a text can be cut that is mirrored. -/
theorem isSome_replaceBoth?_of_mirrors (handler : Handler) {r : Regex}
    (hframed : ∀ left right m, r.first? left right = some m → Text.Framed m.matched)
    {left right shown : Text} (h : Text.Mirrors shown right) :
    (replaceBoth? handler (r.successive left right) ⟨shown, right⟩).isSome = true := by
  fun_induction Regex.successive r left right generalizing shown with
  | case1 => rfl
  | case2 left right m hfirst hm => exact absurd hm (hframed _ _ _ hfirst).ne_nil
  | case3 left right m hfirst hm _ ih =>
    rw [← Regex.first?_text hfirst, text] at h
    obtain ⟨kept, slice, tail, rfl, hk, hl, htail⟩ := h.exists_slice (hframed _ _ _ hfirst)
    rw [replaceBoth?_cons handler hk hl, Option.isSome_map]
    exact ih htail

/-- Of two equal texts the slices beside the matches are the matches themselves. -/
theorem replaceBoth?_successive (handler : Handler) (r : Regex) (left t : Text) :
    replaceBoth? handler (r.successive left t) ⟨t, t⟩ =
      some ⟨replaceEach handler (r.successive left t) t,
        replaceEach (fun u => (handler u).shadow) (r.successive left t) t⟩ := by
  fun_induction Regex.successive r left t with
  | case1 => rfl
  | case2 left t m h hm =>
    have htext := Regex.first?_text h
    conv_lhs => rw [← htext, text, replaceBoth?_cons handler rfl rfl]
    rfl
  | case3 left t m h hm _ ih =>
    have htext := Regex.first?_text h
    conv_lhs => rw [← htext, text, replaceBoth?_cons handler rfl rfl, ih]
    rfl

end Match

/-- Substitutions as ranges of bytes of the texts as they were before the first of them, if `put`
bytes have come to stand there for the first `taken` bytes. -/
def Substitution.origins : (put taken : Nat) → List Substitution → List (Nat × Nat)
  | _, _, [] => []
  | put, taken, s :: log =>
    let start := taken + (s.start - put)
    let stop := start + (s.stop - s.start)
    (start, stop) :: origins (s.start + s.replacement.byteLength) stop log

namespace Rule

variable {pattern : Pattern} {handler : Handler}

/-- A run replaces the successive matches of the text ahead, whatever stands before it at first and
later, if all slices beside them can be cut out. -/
theorem Scans.replaceBoth?_eq {n : Nat} {left right pending result remainder : Text} {gap : Nat}
    {ending : Ending} {log : List Substitution}
    (h : Scans pattern handler n left right gap pending result remainder ending log)
    (hahead : pattern.regex.looksAhead = true) (hnever : pattern.NeverEmpty) (hgap : gap = 0)
    (hends : ending = .noMatch) {seen : Text}
    (hedges : (Match.replaceBoth? handler (pattern.regex.successive seen right)
      ⟨pending, right⟩).isSome = true) (taken : Nat) :
    Match.replaceBoth? handler (pattern.regex.successive seen right) ⟨pending, right⟩ =
        some ⟨result, remainder⟩ ∧
      Substitution.origins left.byteLength taken log =
        Match.ranges taken (pattern.regex.successive seen right) := by
  -- By induction on the run. `seen` is what stood before the place at first; the run has blanks of
  -- any length there for what it has replaced.
  have hfirst (left seen right : Text) :
      pattern.regex.first? seen right = pattern.regex.first? left right :=
    Regex.first?_congr hahead seen left right
  induction h generalizing seen taken with
  | cutOff | gaveUp | pastEnd => exact absurd hends Ending.noConfusion
  | @noMatch _ left right gap pending hs =>
    rw [Regex.successive_of_none ((hfirst left seen right).trans (Pattern.first?_of_nowhere hs))]
    exact ⟨rfl, rfl⟩
  | @pass _ left right gap pending m passed rest result remainder ending here log hs hl =>
    have hm := hnever _ _ _ hs
    cases hl with
    | torn ht =>
      rw [Regex.successive_of_ne ((hfirst left seen right).trans (Pattern.first?_of_found hs)) hm,
        Match.replaceBoth?] at hedges
      rw [hgap, Nat.zero_add] at ht
      rw [ht] at hedges
      exact absurd hedges (by simp)
    | idle _ _ _ hempty => exact absurd hempty hm
  | @replace _ left right gap kept slice tail m result remainder ending log hs hk hl hn later ih =>
    have hm := hnever _ _ _ hs
    rw [hgap, Nat.zero_add] at hk
    rw [Regex.successive_of_ne ((hfirst left seen right).trans (Pattern.first?_of_found hs)) hm,
      Match.replaceBoth?_cons handler hk hl] at hedges ⊢
    rw [Option.isSome_map] at hedges
    obtain ⟨hboth, horigins⟩ := ih rfl hends hedges
      (taken + m.skipped.byteLength + m.matched.byteLength)
    refine ⟨by rw [hboth]; rfl, ?_⟩
    rw [← position_after_replace] at horigins
    rw [Substitution.origins, Match.ranges, Nat.add_sub_cancel_left, Nat.add_sub_cancel_left,
      horigins]

/-- A rule replaces the successive matches of the remainder, if its pattern looks only ahead and never
matches the empty text, no search gives up and all slices can be cut out. -/
theorem edit_replaces (hahead : pattern.regex.looksAhead = true) (hnever : pattern.NeverEmpty)
    {b : Buffers} (hb : b.Aligned) (hgave : (scanAll pattern handler b).ending ≠ .gaveUp)
    (hedges : (Match.replaceBoth? handler (pattern.regex.successive [] b.remainder) b).isSome = true) :
    Match.replaceBoth? handler (pattern.regex.successive [] b.remainder) b =
        some ((regex pattern handler).apply b) ∧
      ∃ d, (regex pattern handler).edit b = .ok d ∧ d.buffers = (regex pattern handler).apply b ∧
        Substitution.origins 0 0 d.log =
          Match.ranges 0 (pattern.regex.successive [] b.remainder) := by
  obtain ⟨log, hedit, hrun⟩ := edit_regex pattern handler hb (searchBound pattern b)
  have hbound : b.remainder.length < searchBound pattern b := by
    unfold searchBound
    rw [Nat.mul_add]
    omega
  have hends : (scanAll pattern handler b).ending = .noMatch :=
    (hrun.ending_of_matched hnever hbound).resolve_right hgave
  obtain ⟨hboth, horigins⟩ := hrun.replaceBoth?_eq hahead hnever rfl hends hedges 0
  exact ⟨hboth, _, hedit, rfl, horigins⟩

theorem ending_ne_gaveUp (handler : Handler) (hregular : pattern.regex.isRegular = true)
    (b : Buffers) : (scanAll pattern handler b).ending ≠ .gaveUp := by
  obtain ⟨log, hrun⟩ := scans_scanWithin pattern handler (searchBound pattern b) b
  exact hrun.ending_ne_gaveUp hregular

/-- What such a rule makes of an input. -/
theorem apply_ofInput (hahead : pattern.regex.looksAhead = true) (hnever : pattern.NeverEmpty)
    {input : Text} (hgave : (scanAll pattern handler (Buffers.ofInput input)).ending ≠ .gaveUp) :
    let ms := pattern.regex.successive [] input.trim
    (regex pattern handler).apply (Buffers.ofInput input) =
      ⟨Match.replaceEach handler ms input.trim,
        Match.replaceEach (fun t => (handler t).shadow) ms input.trim⟩ := by
  have hplain := Match.replaceBoth?_successive handler pattern.regex [] input.trim
  have hrule := (edit_replaces hahead hnever (Engine.aligned_ofInput input) hgave
    (Option.isSome_of_eq_some hplain)).1
  exact Option.some.inj (hrule.symm.trans hplain)

/-- If all matches begin and end with characters of ASCII, then a rule replaces them all in every state
whose remainder mirrors its result. -/
theorem edit_replaces_of_mirrored (handler : Handler) (hahead : pattern.regex.looksAhead = true)
    (hregular : pattern.regex.isRegular = true)
    (hframed : ∀ left right m, pattern.regex.first? left right = some m → Text.Framed m.matched)
    {b : Buffers} (hb : b.Mirrored) :
    Match.replaceBoth? handler (pattern.regex.successive [] b.remainder) b =
        some ((regex pattern handler).apply b) ∧
      ∃ d, (regex pattern handler).edit b = .ok d ∧ d.buffers = (regex pattern handler).apply b ∧
        Substitution.origins 0 0 d.log =
          Match.ranges 0 (pattern.regex.successive [] b.remainder) := by
  have hnever : pattern.NeverEmpty := fun _ _ _ hfound =>
    (hframed _ _ _ (Pattern.first?_of_found hfound)).ne_nil
  exact edit_replaces hahead hnever hb.byteLength_eq (ending_ne_gaveUp handler hregular b)
    (Match.isSome_replaceBoth?_of_mirrors handler hframed ((Buffers.mirrored_iff b).mp hb))

/-- A rule is a plain replacement of all matches. Its pattern looks only ahead and never matches the
empty text, and no search gives up. If the edges of the successive matches of a remainder are edges of
characters of the result, then the rule replaces these and nothing else, although it searches behind
blanks of any length; so it makes of an input what the handler makes of each of its matches. -/
theorem apply_replaces_successive (pattern : Pattern) (handler : Handler)
    (hahead : pattern.regex.looksAhead = true) (hnever : pattern.NeverEmpty) :
    (∀ b : Buffers, b.Aligned → (scanAll pattern handler b).ending ≠ .gaveUp →
      let ms := pattern.regex.successive [] b.remainder
      (∀ r ∈ Match.ranges 0 ms,
        b.result.isBoundary r.1 = true ∧ b.result.isBoundary r.2 = true) →
      Match.replaceBoth? handler ms b = some ((regex pattern handler).apply b) ∧
        ∃ d, (regex pattern handler).edit b = .ok d ∧ d.buffers = (regex pattern handler).apply b ∧
          Substitution.origins 0 0 d.log = Match.ranges 0 ms) ∧
    ∀ input : Text, (scanAll pattern handler (Buffers.ofInput input)).ending ≠ .gaveUp →
      ((regex pattern handler).apply (Buffers.ofInput input)).result =
        Match.replaceEach handler (pattern.regex.successive [] input.trim) input.trim := by
  constructor
  · intro b hb hgave ms hedges
    exact edit_replaces hahead hnever hb hgave (Match.isSome_replaceBoth? handler [] hedges)
  · intro input hgave
    exact congrArg Buffers.result (apply_ofInput hahead hnever hgave)

/-- Crosses before a doubled letter, one of them between markup; a cross before anything else stays. -/
theorem apply_replaces_successive_of_doubled :
    let pattern : Pattern := ⟨"x(?=(a|é)\\1)",
      .seq (.char 'x') (.ahead (.seq (.group 1 (.alt (.char 'a') (.char 'é'))) (.same 1 false)))⟩
    let handler : Handler := fun t => "¥" ++ t
    let b : Buffers := ⟨"xéé€xaaxa", "xéé   xaaxa"⟩
    let b' : Buffers := ⟨"¥xéé€¥xaaxa", "   éé      aaxa"⟩
    pattern.regex.looksAhead = true ∧ pattern.NeverEmpty ∧ b.Aligned ∧
      (scanAll pattern handler b).ending ≠ .gaveUp ∧
      (regex pattern handler).apply b = b' ∧
      (∃ d, (regex pattern handler).edit b = .ok d ∧ d.buffers = b' ∧
        Substitution.origins 0 0 d.log = [(0, 1), (8, 9)]) ∧
      ((regex pattern handler).apply (Buffers.ofInput b.remainder)).result =
        "¥xéé   ¥xaaxa" := by
  intro pattern handler b b'
  have hahead : pattern.regex.looksAhead = true := rfl
  have hnever : pattern.NeverEmpty := by
    refine Pattern.neverEmpty_of_ends fun left right e he => ?_
    obtain ⟨t, ht, he⟩ := List.mem_flatMap.mp he
    obtain ⟨u, _, rfl⟩ := Option.map_eq_some_iff.mp (Option.mem_toList.mp he)
    cases right with
    | nil => exact absurd ht List.not_mem_nil
    | cons c right =>
      obtain rfl := List.mem_singleton.mp (List.mem_ite_nil_right.mp ht).2
      exact Nat.lt_succ_self _
  have hb : b.Aligned := by decide
  have hgave : (scanAll pattern handler b).ending ≠ .gaveUp := by decide +kernel
  have hgave' : (scanAll pattern handler (Buffers.ofInput b.remainder)).ending ≠ .gaveUp := by
    decide +kernel
  have hb' : (regex pattern handler).apply b = b' := by decide +kernel
  have hranges : Match.ranges 0 (pattern.regex.successive [] b.remainder) = [(0, 1), (8, 9)] := by
    decide +kernel
  have hresult : Match.replaceEach handler
      (pattern.regex.successive [] (Text.trim b.remainder)) (Text.trim b.remainder) =
        "¥xéé   ¥xaaxa" := by
    decide +kernel
  obtain ⟨hstate, hinput⟩ := apply_replaces_successive pattern handler hahead hnever
  obtain ⟨_, d, hd, hbuffers, horigins⟩ := hstate b hb hgave (by rw [hranges]; decide)
  exact ⟨hahead, hnever, hb, hgave, hb', ⟨d, hd, hbuffers.trans hb', horigins.trans hranges⟩,
    (hinput b.remainder hgave').trans hresult⟩

end Rule

end Highlighter
