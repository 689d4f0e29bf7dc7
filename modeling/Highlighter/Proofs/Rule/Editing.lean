import Highlighter.Proofs.Rule.Ending
import Highlighter.Proofs.Text.Boundaries

/-! A scan that edits both texts in place. A cursor, counted in bytes, runs over the remainder, and
each match is cut out of both texts by its bytes; where a byte is no edge of a character, such an
edit is a fault. On texts of the same length in bytes no fault is ever reached, and the edits make
what the scan makes of the two texts (`Scans.run_eq`). -/
namespace Highlighter

/-- Both texts have as many bytes. -/
def Buffers.Aligned (b : Buffers) : Prop := b.result.byteLength = b.remainder.byteLength

instance (b : Buffers) : Decidable b.Aligned := inferInstanceAs (Decidable (_ = _))

/-- Both texts while a rule edits them, and the byte of the remainder at which it searches next. -/
structure Editing where
  result : Text
  remainder : Text
  cursor : Nat
  deriving DecidableEq, Repr

/-- What an edit can ask for that the texts do not allow. -/
inductive Fault where
  /-- A search from inside a character of the remainder or from beyond its end. -/
  | search
  /-- A slice of the result whose edges are no edges of characters. -/
  | slice
  /-- A replacement in the result where there are no such edges. -/
  | result
  /-- A replacement in the remainder where there are no such edges. -/
  | remainder
  /-- Texts of different lengths after a substitution. -/
  | lengths
  deriving DecidableEq, Repr

/-- What one search leads to. -/
inductive Step where
  | stop (ending : Ending)
  /-- The scan goes on; a substitution is told of. -/
  | next (e : Editing) (done : List Substitution)

/-- What a rule has made of both texts, how its scan ended and its substitutions in order. -/
structure Edited where
  buffers : Buffers
  ending : Ending
  log : List Substitution
  deriving DecidableEq, Repr

namespace Editing

/-- Before the first search. -/
def start (b : Buffers) : Editing := ⟨b.result, b.remainder, 0⟩

def buffers (e : Editing) : Buffers := ⟨e.result, e.remainder⟩

/-- Replaces the bytes from `start` to `stop` in both texts. -/
def substitute (handler : Handler) (start stop : Nat) (e : Editing) : Except Fault Step :=
  match e.result.slice? start stop with
  | none => .error .slice
  | some slice =>
    let replacement := handler slice
    match e.result.splice? start stop replacement,
      e.remainder.splice? start stop replacement.shadow with
    | none, _ => .error .result
    | some _, none => .error .remainder
    | some result, some remainder =>
      if result.byteLength = remainder.byteLength then
        let cursor := if start = stop ∧ replacement = [] then remainder.nextBoundary start
          else start + replacement.byteLength
        .ok (.next ⟨result, remainder, cursor⟩ [⟨start, stop, replacement⟩])
      else .error .lengths

/-- One search from the cursor, and what is done about the match. -/
def step (pattern : Pattern) (handler : Handler) (e : Editing) : Except Fault Step :=
  match e.remainder.cutAt? e.cursor with
  | none => .error .search
  | some (front, ahead) =>
    match pattern.search front.reverse ahead with
    | .nowhere => .ok (.stop .noMatch)
    | .gaveUp => .ok (.stop .gaveUp)
    | .found m =>
      let start := e.cursor + m.skipped.byteLength
      let stop := start + m.matched.byteLength
      if e.result.isBoundary start && e.result.isBoundary stop then
        e.substitute handler start stop
      else
        let cursor := if start < stop then stop else e.remainder.nextBoundary start
        .ok (.next { e with cursor } [])

/-- Searches and edits until the scan ends, with at most so many searches. -/
def run (pattern : Pattern) (handler : Handler) : Nat → Editing → Except Fault Edited
  | n, e =>
    if e.remainder.byteLength < e.cursor then .ok ⟨e.buffers, .pastEnd, []⟩
    else match n with
      | 0 => .ok ⟨e.buffers, .cutOff, []⟩
      | n + 1 =>
        match step pattern handler e with
        | .error fault => .error fault
        | .ok (.stop ending) => .ok ⟨e.buffers, ending, []⟩
        | .ok (.next e' done) =>
          (run pattern handler n e').map fun d => { d with log := done ++ d.log }

/-- The states of a scan of `b` from one search to the next. -/
inductive Reached (pattern : Pattern) (handler : Handler) (b : Buffers) : Editing → Prop
  | start : Reached pattern handler b (start b)
  | step {e e' : Editing} {done : List Substitution} (he : Reached pattern handler b e)
      (hc : e.cursor ≤ e.remainder.byteLength)
      (hs : e.step pattern handler = .ok (.next e' done)) : Reached pattern handler b e'

/-- The cursor stands between `left` (nearest character first) and `right` in the remainder, which
are known texts; in the result `done` ends `gap` bytes before the cursor and `pending` follows. -/
structure At (e : Editing) (left right done : Text) (gap : Nat) (pending : Text) : Prop where
  remainder : e.remainder = left.reverse ++ right
  cursor : e.cursor = left.byteLength
  result : e.result = done ++ pending
  position : done.byteLength + gap = left.byteLength
  aligned : pending.byteLength = gap + right.byteLength

variable {pattern : Pattern} {handler : Handler}

theorem at_start {b : Buffers} (h : b.Aligned) : (start b).At [] b.remainder [] 0 b.result := by
  refine ⟨rfl, rfl, rfl, rfl, ?_⟩
  rw [Nat.zero_add]
  exact h

namespace At

variable {e : Editing} {left right done pending : Text} {gap : Nat}

theorem aligned_buffers (h : e.At left right done gap pending) : e.buffers.Aligned := by
  have hg := h.position
  have ha := h.aligned
  change e.result.byteLength = e.remainder.byteLength
  rw [h.result, h.remainder, Text.byteLength_append, Text.byteLength_append,
    Text.byteLength_reverse]
  omega

theorem cutAt? (h : e.At left right done gap pending) :
    e.remainder.cutAt? e.cursor = some (left.reverse, right) := by
  rw [h.remainder, h.cursor, ← left.byteLength_reverse, Text.cutAt?_append]

theorem cursor_le (h : e.At left right done gap pending) :
    e.cursor ≤ e.remainder.byteLength := by
  rw [h.cursor, h.remainder, Text.byteLength_append, Text.byteLength_reverse]
  omega

theorem step_of_stop (h : e.At left right done gap pending) :
    (pattern.search left right = .nowhere → e.step pattern handler = .ok (.stop .noMatch)) ∧
      (pattern.search left right = .gaveUp → e.step pattern handler = .ok (.stop .gaveUp)) := by
  unfold step
  rw [h.cutAt?]
  dsimp only
  rw [List.reverse_reverse]
  constructor
  · intro hs
    rw [hs]
  · intro hs
    rw [hs]

/-- The edges of a match in the result, relative to what no handler has seen. -/
theorem isBoundary_iff (h : e.At left right done gap pending) (m : Match) :
    (e.result.isBoundary (e.cursor + m.skipped.byteLength) &&
        e.result.isBoundary (e.cursor + m.skipped.byteLength + m.matched.byteLength)) = true ↔
      pending.sliceAt? (gap + m.skipped.byteLength) m.matched.byteLength ≠ none := by
  have hg := h.position
  have h1 : e.cursor + m.skipped.byteLength = done.byteLength + (gap + m.skipped.byteLength) := by
    rw [h.cursor]
    omega
  have h2 : e.cursor + m.skipped.byteLength + m.matched.byteLength =
      done.byteLength + (gap + m.skipped.byteLength + m.matched.byteLength) := by
    rw [h.cursor]
    omega
  rw [Ne, Text.sliceAt?_eq_none_iff, not_not, Bool.and_eq_true, h2, h1, h.result,
    Text.isBoundary_append_add, Text.isBoundary_append_add]

/-- A match is replaced in both texts where the slice of the result is known. -/
theorem step_of_slice (handler : Handler) {m : Match} {kept slice tail : Text}
    (h : e.At left right done gap (kept ++ slice ++ tail))
    (hs : pattern.search left right = .found m)
    (hk : kept.byteLength = gap + m.skipped.byteLength)
    (hl : slice.byteLength = m.matched.byteLength) :
    let start := left.byteLength + m.skipped.byteLength
    let stop := start + m.matched.byteLength
    let remainder : Text := left.reverse ++ m.skipped ++ (handler slice).shadow ++ m.rest
    e.step pattern handler = .ok (.next ⟨done ++ kept ++ handler slice ++ tail, remainder,
      if start = stop ∧ handler slice = [] then remainder.nextBoundary start
      else start + (handler slice).byteLength⟩ [⟨start, stop, handler slice⟩]) := by
  have hg := h.position
  have ha := h.aligned
  have htext := Pattern.text_of_found hs
  have hedge := (h.isBoundary_iff m).mpr (by rw [← hk, ← hl, Text.sliceAt?_append]; simp)
  have hres : e.result = (done ++ kept) ++ slice ++ tail := by
    rw [h.result]
    simp only [List.append_assoc]
  have hrem : e.remainder = (left.reverse ++ m.skipped) ++ m.matched ++ m.rest := by
    rw [h.remainder, ← htext]
    simp only [List.append_assoc]
  have hfront : Text.byteLength (done ++ kept) = left.byteLength + m.skipped.byteLength := by
    rw [Text.byteLength_append, hk]
    omega
  have hfront' : Text.byteLength (left.reverse ++ m.skipped) =
      left.byteLength + m.skipped.byteLength := by
    rw [Text.byteLength_append, Text.byteLength_reverse]
  have hlengths : Text.byteLength (done ++ kept ++ handler slice ++ tail) =
      Text.byteLength (left.reverse ++ m.skipped ++ (handler slice).shadow ++ m.rest) := by
    rw [← htext] at ha
    simp only [Text.byteLength_append, Text.byteLength_reverse, Text.byteLength_shadow] at ha ⊢
    omega
  unfold step
  rw [h.cutAt?]
  dsimp only
  rw [List.reverse_reverse, hs]
  dsimp only
  rw [if_pos hedge, h.cursor, substitute,
    Text.slice?_of_append hres hfront (by rw [hl])]
  dsimp only
  rw [Text.splice?_of_append _ hres hfront (by rw [hl]),
    Text.splice?_of_append _ hrem hfront' rfl]
  dsimp only
  rw [if_pos hlengths]

/-- A match that is torn in the result is passed over. -/
theorem step_of_torn {m : Match} (h : e.At left right done gap pending)
    (hs : pattern.search left right = .found m)
    (ht : pending.sliceAt? (gap + m.skipped.byteLength) m.matched.byteLength = none) :
    let start := left.byteLength + m.skipped.byteLength
    let stop := start + m.matched.byteLength
    e.step pattern handler = .ok (.next { e with
      cursor := if start < stop then stop else e.remainder.nextBoundary start } []) := by
  have hedge := (h.isBoundary_iff m).not.mpr (not_not.mpr ht)
  unfold step
  rw [h.cutAt?]
  dsimp only
  rw [List.reverse_reverse, hs]
  dsimp only
  rw [if_neg hedge, h.cursor]

/-- Where a match is left as it is, both texts stay the same, and the cursor moves over what is
passed. -/
theorem step_of_isLeft {m : Match} {here : List Substitution} {start : Nat}
    (h : e.At left right done gap pending) (hs : pattern.search left right = .found m)
    (hl : m.IsLeft handler start gap pending here)
    (hstart : start = left.byteLength + m.skipped.byteLength) :
    e.step pattern handler = .ok (.next { e with
      cursor := if m.matched = [] then e.remainder.nextBoundary start
        else start + m.matched.byteLength } here) := by
  subst hstart
  have htext := Pattern.text_of_found hs
  cases hl with
  | torn ht =>
    rw [h.step_of_torn hs ht]
    by_cases hm : m.matched = []
    · rw [if_pos hm, hm, if_neg (by rw [Text.byteLength_nil]; omega)]
    · have hpos := Text.byteLength_pos_of_ne_nil hm
      rw [if_neg hm, if_pos (by omega)]
  | idle kept tail ht hm hh =>
    obtain ⟨rfl, hk, _⟩ := Text.sliceAt?_eq_some_iff.mp ht
    have hstep := h.step_of_slice handler hs hk (by rw [hm])
    rw [hstep, hh, hm, if_pos rfl, Text.byteLength_nil, Nat.add_zero, if_pos ⟨rfl, rfl⟩]
    have hres : done ++ kept ++ [] ++ tail = e.result := by
      rw [h.result]
      simp only [List.append_assoc, List.nil_append]
    have hrem : left.reverse ++ m.skipped ++ [] ++ m.rest = e.remainder := by
      rw [hm, List.append_nil] at htext
      rw [h.remainder, ← htext]
      simp only [List.append_assoc, List.nil_append]
    rw [Text.shadow_nil, hres, hrem]

/-- A match that is left as it is moves the cursor over what is passed. -/
theorem pass {m : Match} {passed rest : Text} {here : List Substitution}
    (h : e.At left right done gap pending) (hs : pattern.search left right = .found m)
    (hl : m.IsLeft handler (left.byteLength + m.skipped.byteLength) gap pending here)
    (hp : m.passed? = some (passed, rest)) :
    ∃ e' : Editing, e.step pattern handler = .ok (.next e' here) ∧
      e'.At ((m.skipped ++ passed).reverse ++ left) rest done
        (gap + (m.skipped ++ passed).byteLength) pending := by
  -- The cursor is a number of bytes, so it has to be seen that it comes to stand behind `passed`.
  have htext := Pattern.text_of_found hs
  obtain ⟨hparts, _, hkind⟩ := Match.passed?_eq_some hp
  rw [List.append_assoc, hparts] at htext
  have hcursor : (if m.matched = [] then
      e.remainder.nextBoundary (left.byteLength + m.skipped.byteLength)
      else left.byteLength + m.skipped.byteLength + m.matched.byteLength) =
      left.byteLength + m.skipped.byteLength + passed.byteLength := by
    rcases hkind with ⟨hm, hlen⟩ | ⟨rfl, rfl⟩
    · obtain ⟨c, rfl⟩ := List.length_eq_one_iff.mp hlen
      have hrem : e.remainder = (left.reverse ++ m.skipped) ++ c :: rest := by
        rw [h.remainder, ← htext]
        simp only [List.append_assoc, List.cons_append, List.nil_append]
      have hnext := Text.nextBoundary_append_cons (left.reverse ++ m.skipped) rest c
      rw [Text.byteLength_append, Text.byteLength_reverse] at hnext
      rw [if_pos hm, hrem, hnext, Text.byteLength_cons, Text.byteLength_nil, Nat.add_zero]
    · obtain ⟨_, hne, _⟩ := Match.passed?_eq_some hp
      rw [if_neg hne]
  refine ⟨_, h.step_of_isLeft hs hl rfl, ?_, ?_, h.result, ?_, ?_⟩
  · dsimp only
    rw [h.remainder, ← htext]
    simp only [List.reverse_append, List.reverse_reverse, List.append_assoc]
  · dsimp only
    rw [hcursor, Rule.position_after]
  · have hg := h.position
    rw [← Rule.position_after, Text.byteLength_append]
    omega
  · have ha := h.aligned
    rw [← htext, Text.byteLength_append, Text.byteLength_append] at ha
    rw [ha, Text.byteLength_append]
    omega

/-- An empty match at the end that is left as it is moves the cursor beyond the end. -/
theorem pastEnd {m : Match} {here : List Substitution} (h : e.At left right done gap pending)
    (hs : pattern.search left right = .found m)
    (hl : m.IsLeft handler (left.byteLength + m.skipped.byteLength) gap pending here)
    (hp : m.passed? = none) :
    ∃ e' : Editing, e.step pattern handler = .ok (.next e' here) ∧ e'.buffers = e.buffers ∧
      e'.remainder.byteLength < e'.cursor := by
  have htext := Pattern.text_of_found hs
  obtain ⟨hm, hrest⟩ := Match.passed?_eq_none hp
  rw [hm, hrest, List.append_nil, List.append_nil] at htext
  have hlen : e.remainder.byteLength = left.byteLength + m.skipped.byteLength := by
    rw [h.remainder, Text.byteLength_append, Text.byteLength_reverse, ← htext]
  refine ⟨_, h.step_of_isLeft hs hl rfl, rfl, ?_⟩
  dsimp only
  rw [if_pos hm, Text.nextBoundary_of_le (Nat.le_of_eq hlen), hlen]
  exact Nat.lt_succ_self _

/-- A replaced match moves the cursor to the end of what was put in. -/
theorem replace {m : Match} {kept slice tail : Text}
    (h : e.At left right done gap (kept ++ slice ++ tail))
    (hs : pattern.search left right = .found m)
    (hk : kept.byteLength = gap + m.skipped.byteLength)
    (hl : slice.byteLength = m.matched.byteLength)
    (hn : ¬ (m.matched = [] ∧ handler slice = [])) :
    ∃ e' : Editing, e.step pattern handler = .ok (.next e'
        [⟨left.byteLength + m.skipped.byteLength,
          left.byteLength + m.skipped.byteLength + m.matched.byteLength, handler slice⟩]) ∧
      e'.At ((m.skipped ++ (handler slice).shadow).reverse ++ left) m.rest
        (done ++ kept ++ handler slice) 0 tail := by
  have htext := Pattern.text_of_found hs
  have hmoves : ¬ (left.byteLength + m.skipped.byteLength =
      left.byteLength + m.skipped.byteLength + m.matched.byteLength ∧ handler slice = []) := by
    rintro ⟨hz, he⟩
    exact hn ⟨(Text.byteLength_eq_zero_iff _).mp (by omega), he⟩
  have hg := h.position
  refine ⟨_, h.step_of_slice handler hs hk hl, ?_, ?_, rfl, ?_, ?_⟩
  · dsimp only
    simp only [List.reverse_append, List.reverse_reverse, List.append_assoc, Text.reverse_shadow]
  · dsimp only
    rw [if_neg hmoves, Rule.position_after_replace]
  · rw [← Rule.position_after_replace, Text.byteLength_append, Text.byteLength_append]
    omega
  · have ha := h.aligned
    rw [← htext] at ha
    simp only [Text.byteLength_append] at ha
    omega

end At

theorem run_of_lt {e : Editing} (h : e.remainder.byteLength < e.cursor) (n : Nat) :
    run pattern handler n e = .ok ⟨e.buffers, .pastEnd, []⟩ := by
  unfold run
  rw [if_pos h]

theorem run_succ {e : Editing} (h : e.cursor ≤ e.remainder.byteLength) (n : Nat) :
    run pattern handler (n + 1) e = match step pattern handler e with
      | .error fault => .error fault
      | .ok (.stop ending) => .ok ⟨e.buffers, ending, []⟩
      | .ok (.next e' done) =>
        (run pattern handler n e').map fun d => { d with log := done ++ d.log } := by
  conv_lhs => unfold run
  rw [if_neg (Nat.not_lt.mpr h)]

end Editing

open Editing in
/-- The edits make what the scan makes of the two texts, and reach no fault. -/
theorem Rule.Scans.run_eq {pattern : Pattern} {handler : Handler} {n : Nat}
    {left right pending result remainder : Text} {gap : Nat} {ending : Ending}
    {log : List Substitution}
    (h : Scans pattern handler n left right gap pending result remainder ending log) (e : Editing)
    (done : Text) (he : e.At left right done gap pending) :
    Editing.run pattern handler n e =
      .ok ⟨⟨done ++ result, left.reverse ++ remainder⟩, ending, log⟩ := by
  -- Both take the same steps: the place of the scan is always where the cursor stands (`At`).
  induction h generalizing e done with
  | cutOff =>
    unfold run
    rw [if_neg (Nat.not_lt.mpr he.cursor_le), ← he.result, ← he.remainder]
    rfl
  | noMatch hs =>
    rw [run_succ he.cursor_le, he.step_of_stop.1 hs, ← he.result, ← he.remainder]
    rfl
  | gaveUp hs =>
    rw [run_succ he.cursor_le, he.step_of_stop.2 hs, ← he.result, ← he.remainder]
    rfl
  | pastEnd hs hl hp =>
    obtain ⟨e', hstep, hb, hlt⟩ := he.pastEnd hs hl hp
    rw [run_succ he.cursor_le, hstep]
    dsimp only
    rw [run_of_lt hlt, hb, ← he.result, ← he.remainder]
    simp only [Except.map, List.append_nil]
    rfl
  | pass hs hl hp later ih =>
    obtain ⟨e', hstep, he'⟩ := he.pass hs hl hp
    rw [run_succ he.cursor_le, hstep]
    dsimp only
    rw [ih e' done he']
    simp only [Except.map, List.reverse_append, List.reverse_reverse, List.append_assoc]
  | replace hs hk hl hn later ih =>
    obtain ⟨e', hstep, he'⟩ := he.replace hs hk hl hn
    rw [run_succ he.cursor_le, hstep]
    dsimp only
    rw [ih e' _ he']
    simp only [Except.map, List.reverse_append, List.reverse_reverse, List.append_assoc,
      Text.reverse_shadow, List.singleton_append]

namespace Editing

variable {pattern : Pattern} {handler : Handler}

/-- The cursor stands between two characters of the remainder, or the scan is over. -/
def Sound (e : Editing) : Prop :=
  (∃ left right done gap pending, e.At left right done gap pending) ∨
    e.buffers.Aligned ∧ e.remainder.byteLength < e.cursor

theorem At.sound {e : Editing} {left right done pending : Text} {gap : Nat}
    (h : e.At left right done gap pending) : e.Sound := Or.inl ⟨left, right, done, gap, pending, h⟩

/-- A step goes on from a place of the remainder between `left` and `right`. -/
inductive Moves (pattern : Pattern) (handler : Handler) (e : Editing) (left right : Text) : Prop
  /-- It comes past the end and leaves both texts as they are. -/
  | pastEnd {e' : Editing} {here : List Substitution}
      (hstep : e.step pattern handler = .ok (.next e' here)) (hb : e'.buffers = e.buffers)
      (hlt : e'.remainder.byteLength < e'.cursor)
  /-- The cursor stands between two characters again and has `taken` behind it; if that is nothing,
  an empty match has been replaced by something. -/
  | on {e' : Editing} {here : List Substitution} {m : Match} {taken rest left' done' pending' : Text}
      {gap' : Nat} (hstep : e.step pattern handler = .ok (.next e' here))
      (hat : e'.At left' rest done' gap' pending') (hs : pattern.search left right = .found m)
      (hright : right = taken ++ rest) (htaken : taken = [] → m.matched = [] ∧ handler [] ≠ [])

/-- All that a search between two characters of the remainder can lead to: the scan stops or goes
on. -/
theorem At.step_cases (pattern : Pattern) (handler : Handler) {e : Editing}
    {left right done pending : Text} {gap : Nat} (h : e.At left right done gap pending) :
    (∃ ending, e.step pattern handler = .ok (.stop ending) ∧ ending ≠ .cutOff) ∨
      e.Moves pattern handler left right := by
  -- Torn matches and those that replace nothing by nothing are left alone in the same way.
  have hleave (m : Match) (here : List Substitution) (hs : pattern.search left right = .found m)
      (hl : m.IsLeft handler (left.byteLength + m.skipped.byteLength) gap pending here) :
      e.Moves pattern handler left right := by
    cases hp : m.passed? with
    | none =>
      obtain ⟨e', hstep, hb, hlt⟩ := h.pastEnd hs hl hp
      exact .pastEnd hstep hb hlt
    | some pr =>
      obtain ⟨passed, rest⟩ := pr
      obtain ⟨e', hstep, he'⟩ := h.pass hs hl hp
      obtain ⟨hparts, hne, _⟩ := Match.passed?_eq_some hp
      have hright : right = m.skipped ++ passed ++ rest := by
        rw [List.append_assoc, ← hparts, ← List.append_assoc, Pattern.text_of_found hs]
      exact .on hstep he' hs hright fun hnil => absurd (List.append_eq_nil_iff.mp hnil).2 hne
  cases hs : pattern.search left right with
  | nowhere => exact Or.inl ⟨_, h.step_of_stop.1 hs, by decide⟩
  | gaveUp => exact Or.inl ⟨_, h.step_of_stop.2 hs, by decide⟩
  | found m =>
    right
    cases ht : pending.sliceAt? (gap + m.skipped.byteLength) m.matched.byteLength with
    | none => exact hleave m _ hs (.torn ht)
    | some parts =>
      obtain ⟨kept, slice, tail⟩ := parts
      obtain ⟨rfl, hk, hl⟩ := Text.sliceAt?_eq_some_iff.mp ht
      have hslice (hm : m.matched = []) : slice = [] := by
        rwa [hm, Text.byteLength_nil, Text.byteLength_eq_zero_iff] at hl
      by_cases hn : m.matched = [] ∧ handler slice = []
      · obtain rfl := hslice hn.1
        exact hleave m _ hs (.idle kept tail ht hn.1 hn.2)
      · obtain ⟨e', hstep, he'⟩ := h.replace hs hk hl hn
        refine .on hstep he' hs (Pattern.text_of_found hs).symm fun hnil => ?_
        have hm := (List.append_eq_nil_iff.mp hnil).2
        obtain rfl := hslice hm
        exact ⟨hm, fun hh => hn ⟨hm, hh⟩⟩

/-- A search between two characters of the remainder reaches no fault, and what it leads to is sound
again. -/
theorem At.step_sound (pattern : Pattern) (handler : Handler) {e : Editing}
    {left right done pending : Text} {gap : Nat} (h : e.At left right done gap pending) :
    (∃ ending, e.step pattern handler = .ok (.stop ending)) ∨
      ∃ e' here, e.step pattern handler = .ok (.next e' here) ∧ e'.Sound := by
  rcases h.step_cases pattern handler with ⟨ending, hstop, _⟩ | hmoves
  · exact Or.inl ⟨ending, hstop⟩
  · cases hmoves with
    | pastEnd hstep hb hlt => exact Or.inr ⟨_, _, hstep, Or.inr ⟨hb ▸ h.aligned_buffers, hlt⟩⟩
    | on hstep hat => exact Or.inr ⟨_, _, hstep, hat.sound⟩

theorem Reached.sound {b : Buffers} (hb : b.Aligned) {e : Editing}
    (h : Reached pattern handler b e) : e.Sound := by
  induction h with
  | start => exact (at_start hb).sound
  | step _ hc hs ih =>
    rcases ih with ⟨left, right, done, gap, pending, hat⟩ | ⟨_, hlt⟩
    · rcases hat.step_sound pattern handler with ⟨_, hstop⟩ | hnext
      · exact absurd (hs.symm.trans hstop) (by simp)
      · obtain ⟨e', here, hstep, hsound⟩ := hnext
        obtain ⟨rfl, _⟩ := Step.next.inj (Except.ok.inj (hs.symm.trans hstep))
        exact hsound
    · omega

theorem Sound.aligned {e : Editing} (h : e.Sound) : e.buffers.Aligned := by
  rcases h with ⟨_, _, _, _, _, hat⟩ | ⟨ha, _⟩
  · exact hat.aligned_buffers
  · exact ha

/-- A sound scan that is not over searches from an edge of a character and reaches no fault. -/
theorem Sound.step_ok {e : Editing} (h : e.Sound) (hc : e.cursor ≤ e.remainder.byteLength) :
    e.remainder.isBoundary e.cursor = true ∧ ∃ s, e.step pattern handler = .ok s := by
  rcases h with ⟨left, right, done, gap, pending, hat⟩ | ⟨_, hlt⟩
  · refine ⟨by rw [Text.isBoundary, hat.cutAt?, Option.isSome_some], ?_⟩
    rcases hat.step_sound pattern handler with ⟨_, hs⟩ | ⟨_, _, hs, _⟩
    · exact ⟨_, hs⟩
    · exact ⟨_, hs⟩
  · omega

end Editing

namespace Rule

/-- What a rule makes of both texts when it edits them in place. -/
def edit : Rule → Buffers → Except Fault Edited
  | regex pattern handler, b =>
    Editing.run pattern handler (searchBound pattern b) (Editing.start b)
  | wholeText handler, b =>
    let t := handler b.result
    .ok ⟨⟨t, t⟩, .noMatch, [⟨0, b.result.byteLength, t⟩]⟩

/-- The edits of a rule are those of a run of its scan. -/
theorem edit_regex (pattern : Pattern) (handler : Handler) {b : Buffers} (h : b.Aligned) (n : Nat) :
    ∃ log, Editing.run pattern handler n (Editing.start b) =
        .ok ⟨(scanWithin pattern handler n b).buffers, (scanWithin pattern handler n b).ending,
          log⟩ ∧
      Scans pattern handler n [] b.remainder 0 b.result (scanWithin pattern handler n b).result
        (scanWithin pattern handler n b).remainder (scanWithin pattern handler n b).ending log := by
  obtain ⟨log, hlog⟩ := scans_scanWithin pattern handler n b
  exact ⟨log, hlog.run_eq _ _ (Editing.at_start h), hlog⟩

/-- On texts of the same length a rule can be applied by edits, and they have the same length
again. -/
theorem edit_eq (r : Rule) {b : Buffers} (h : b.Aligned) :
    ∃ d, r.edit b = .ok d ∧ d.buffers = r.apply b ∧ d.buffers.Aligned := by
  cases r with
  | wholeText handler => exact ⟨_, rfl, rfl, rfl⟩
  | regex pattern handler =>
    obtain ⟨log, hrun, hlog⟩ := edit_regex pattern handler h (searchBound pattern b)
    refine ⟨_, hrun, rfl, ?_⟩
    have hlen := hlog.byteLength_eq (h.trans (Nat.zero_add _).symm)
    rwa [Nat.zero_add] at hlen

end Rule

namespace Engine

/-- What the rules make of both texts one after another, by edits. -/
def editFrom : List Rule → Buffers → Except Fault (List Edited)
  | [], _ => .ok []
  | r :: rules, b =>
    match r.edit b with
    | .error fault => .error fault
    | .ok d => (editFrom rules d.buffers).map (d :: ·)

/-- What the rules make of an input, by edits. -/
def edit (e : Engine) (input : Text) : Except Fault (List Edited) :=
  editFrom e.rules (Buffers.ofInput input)

/-- What the edits of a list of rules end with. -/
def lastOf (ds : List Edited) (b : Buffers) : Buffers := (ds.getLast?.map Edited.buffers).getD b

theorem lastOf_cons (d : Edited) (ds : List Edited) (b : Buffers) :
    lastOf (d :: ds) b = lastOf ds d.buffers := by
  cases ds with
  | nil => rfl
  | cons d' ds =>
    simp only [lastOf, List.getLast?_cons, Option.map_some, Option.getD_some]

theorem editFrom_cons_of_ok {r : Rule} {rules : List Rule} {b : Buffers} {d : Edited}
    {ds : List Edited} (hd : r.edit b = .ok d) (h : editFrom (r :: rules) b = .ok ds) :
    ∃ more, ds = d :: more ∧ editFrom rules d.buffers = .ok more := by
  rw [editFrom, hd] at h
  dsimp only at h
  cases hmore : editFrom rules d.buffers with
  | error fault => rw [hmore] at h; exact absurd h (by simp [Except.map])
  | ok more =>
    rw [hmore] at h
    exact ⟨more, (Except.ok.inj h).symm, rfl⟩

/-- Edits rule by rule make the states of the rules. -/
theorem editFrom_eq (rules : List Rule) {b : Buffers} (h : b.Aligned) :
    ∃ ds, editFrom rules b = .ok ds ∧ b :: ds.map Edited.buffers = states rules b ∧
      run rules b = lastOf ds b := by
  induction rules generalizing b with
  | nil => exact ⟨[], rfl, rfl, rfl⟩
  | cons r rules ih =>
    obtain ⟨d, hd, hb, ha⟩ := r.edit_eq h
    obtain ⟨ds, hds, hstates, hrun⟩ := ih ha
    refine ⟨d :: ds, ?_, ?_, ?_⟩
    · rw [editFrom, hd]
      dsimp only
      rw [hds]
      rfl
    · rw [states, ← hb, ← hstates]
      rfl
    · rw [run, List.foldl_cons, ← hb, ← run, hrun, lastOf_cons]

theorem aligned_ofInput (input : Text) : (Buffers.ofInput input).Aligned := rfl

/-- No edit of any scan is a fault. From texts of the same length every scan searches only from edges
of characters of the remainder, cuts both texts only at edges of their characters, and has texts of
the same length again after every substitution; so edits in place make what every rule, every trace
and every formatting makes. -/
theorem edits_reach_no_fault :
    (∀ (pattern : Pattern) (handler : Handler) (b : Buffers), b.Aligned →
      ∀ e, Editing.Reached pattern handler b e → e.buffers.Aligned ∧
        (e.cursor ≤ e.remainder.byteLength → e.remainder.isBoundary e.cursor = true ∧
          ∃ s, e.step pattern handler = .ok s)) ∧
    (∀ (r : Rule) (b : Buffers), b.Aligned →
      ∃ d, r.edit b = .ok d ∧ d.buffers = r.apply b ∧ d.buffers.Aligned) ∧
    ∀ (e : Engine) (input : Text), ∃ ds, e.edit input = .ok ds ∧
      Buffers.ofInput input :: ds.map Edited.buffers = e.trace input ∧
      e.format input = (lastOf ds (Buffers.ofInput input)).result := by
  refine ⟨?_, ?_, ?_⟩
  · intro pattern handler b hb e he
    have hsound := he.sound hb
    exact ⟨hsound.aligned, hsound.step_ok⟩
  · intro r b hb
    exact r.edit_eq hb
  · intro e input
    obtain ⟨ds, hds, hstates, hrun⟩ := editFrom_eq e.rules (aligned_ofInput input)
    exact ⟨ds, hds, hstates, congrArg Buffers.result hrun⟩

/-- A match that ends inside a character of the result is passed over. -/
theorem edits_reach_no_fault_inside_markup :
    let b : Buffers := ⟨"é¥", "a   "⟩
    let r := Rule.regex ⟨"a", .char 'a'⟩ fun _ => "€"
    b.Aligned ∧ Editing.Reached ⟨"a", .char 'a'⟩ (fun _ => "€") b (Editing.start b) ∧
      (Editing.start b).buffers.Aligned ∧ ∃ d, r.edit b = .ok d ∧ d.buffers = r.apply b ∧
        d.buffers.Aligned :=
  have hb : Buffers.Aligned ⟨"é¥", "a   "⟩ := by decide
  have hr := Editing.Reached.start
  ⟨hb, hr, (edits_reach_no_fault.1 _ _ _ hb _ hr).1, edits_reach_no_fault.2.1 _ _ hb⟩

end Engine

end Highlighter
