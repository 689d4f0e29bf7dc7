import Highlighter.Engine
import Highlighter.Proofs.Regex.First
import Highlighter.Proofs.Text.Slices

/-! What a scan can do, step by step. At each place it stops, passes over a match, or replaces one;
`Rule.Scans` has one constructor for each of these, and every scan is a run of such steps
(`scans_scan`). A run also tells which substitutions it made. What holds of all scans is proved by
induction on the run. -/
namespace Highlighter

/-- The bytes from `start` to `stop`, of both texts as they are at the time, give way to
`replacement` in the result and to its shadow in the remainder. -/
structure Substitution where
  start : Nat
  stop : Nat
  replacement : Text
  deriving DecidableEq, Repr

namespace Match

/-- A match at the byte `start` is left as it is where one of its edges is no edge of a character of
the result, and where nothing is replaced by nothing. -/
inductive IsLeft (m : Match) (handler : Handler) (start gap : Nat) (pending : Text) :
    List Substitution → Prop
  | torn (h : pending.sliceAt? (gap + m.skipped.byteLength) m.matched.byteLength = none) :
      IsLeft m handler start gap pending []
  | idle (kept tail : Text)
      (h : pending.sliceAt? (gap + m.skipped.byteLength) m.matched.byteLength =
        some (kept, [], tail))
      (hm : m.matched = []) (hh : handler [] = []) :
      IsLeft m handler start gap pending [⟨start, start, []⟩]

theorem isLeft_of_treat {m : Match} {source : Text} {handler : Handler} {start gap : Nat}
    {pending : Text} {events : List Event}
    (h : m.treat source handler start gap pending = .leave events) :
    ∃ log, m.IsLeft handler start gap pending log := by
  unfold treat at h
  split at h
  · rename_i hs
    exact ⟨_, .torn hs⟩
  · rename_i kept slice tail hs
    dsimp only at h
    split at h
    · rename_i he
      obtain ⟨_, _, hl⟩ := Text.sliceAt?_eq_some_iff.mp hs
      rw [he.1, Text.byteLength_nil, Text.byteLength_eq_zero_iff] at hl
      subst hl
      exact ⟨_, .idle kept tail hs he.1 he.2⟩
    · exact absurd h Treatment.noConfusion

theorem replace_of_treat {m : Match} {source : Text} {handler : Handler} {start gap : Nat}
    {pending kept replacement tail : Text}
    (h : m.treat source handler start gap pending = .replace kept replacement tail) :
    ∃ slice, pending = kept ++ slice ++ tail ∧ kept.byteLength = gap + m.skipped.byteLength ∧
      slice.byteLength = m.matched.byteLength ∧ replacement = handler slice ∧
      ¬ (m.matched = [] ∧ replacement = []) := by
  unfold treat at h
  split at h
  · exact absurd h Treatment.noConfusion
  · rename_i kept' slice tail' hs
    dsimp only at h
    split at h
    · exact absurd h Treatment.noConfusion
    · rename_i hn
      obtain ⟨rfl, rfl, rfl⟩ := Treatment.replace.inj h
      obtain ⟨hp, hk, hl⟩ := Text.sliceAt?_eq_some_iff.mp hs
      exact ⟨slice, hp, hk, hl, rfl, hn⟩

/-- What is passed over is the match itself, or one character where the match is empty. -/
theorem passed?_eq_some {m : Match} {passed rest : Text} (h : m.passed? = some (passed, rest)) :
    m.matched ++ m.rest = passed ++ rest ∧ passed ≠ [] ∧
      (m.matched = [] ∧ passed.length = 1 ∨ m.matched = passed ∧ m.rest = rest) := by
  obtain ⟨skipped, matched, rest'⟩ := m
  cases matched with
  | nil =>
    cases rest' with
    | nil => exact absurd h (by simp [passed?])
    | cons c rest' =>
      obtain ⟨rfl, rfl⟩ := Prod.mk.inj (Option.some.inj h)
      exact ⟨rfl, List.cons_ne_nil _ _, Or.inl ⟨rfl, rfl⟩⟩
  | cons c matched =>
    obtain ⟨rfl, rfl⟩ := Prod.mk.inj (Option.some.inj h)
    exact ⟨rfl, List.cons_ne_nil _ _, Or.inr ⟨rfl, rfl⟩⟩

theorem passed?_eq_none {m : Match} (h : m.passed? = none) : m.matched = [] ∧ m.rest = [] := by
  obtain ⟨skipped, matched, rest⟩ := m
  cases matched with
  | nil =>
    cases rest with
    | nil => exact ⟨rfl, rfl⟩
    | cons c rest => exact absurd h (by simp [passed?])
  | cons c matched => exact absurd h (by simp [passed?])

end Match

/-- Both texts as a scan leaves them. -/
def Scan.buffers (s : Scan) : Buffers := ⟨s.result, s.remainder⟩

namespace Rule

section Places

variable (left passed : Text) (m : Match)

theorem left_after_pass : passed.reverseAux (m.skipped.reverseAux left) =
    (m.skipped ++ passed).reverse ++ left := by
  simp only [List.reverseAux_eq, List.reverse_append, List.append_assoc]

theorem left_after_replace : passed.shadow ++ m.skipped.reverseAux left =
    (m.skipped ++ passed.shadow).reverse ++ left := by
  simp only [List.reverseAux_eq, List.reverse_append, Text.reverse_shadow, List.append_assoc]

theorem gap_after_pass (gap : Nat) : gap + m.skipped.byteLength + passed.byteLength =
    gap + (m.skipped ++ passed).byteLength := by
  rw [Text.byteLength_append, Nat.add_assoc]

theorem position_after : left.byteLength + m.skipped.byteLength + passed.byteLength =
    Text.byteLength ((m.skipped ++ passed).reverse ++ left) := by
  rw [Text.byteLength_append, Text.byteLength_reverse, Text.byteLength_append]
  omega

theorem position_after_replace : left.byteLength + m.skipped.byteLength + passed.byteLength =
    Text.byteLength ((m.skipped ++ passed.shadow).reverse ++ left) := by
  rw [← position_after, Text.byteLength_shadow]

end Places

/-- The runs of a scan from a place on: how many searches it may make, what stands before the place
(nearest character first) and after it in the remainder, how many bytes before it the part of the
result begins that no handler has seen, this part, what becomes of both texts, how the scan ends and
which substitutions it makes. -/
inductive Scans (pattern : Pattern) (handler : Handler) :
    (searches : Nat) → (left right : Text) → (gap : Nat) → (pending result remainder : Text) →
    Ending → List Substitution → Prop
  | cutOff (left right : Text) (gap : Nat) (pending : Text) :
      Scans pattern handler 0 left right gap pending pending right .cutOff []
  | noMatch {n : Nat} {left right : Text} {gap : Nat} {pending : Text}
      (hs : pattern.search left right = .nowhere) :
      Scans pattern handler (n + 1) left right gap pending pending right .noMatch []
  | gaveUp {n : Nat} {left right : Text} {gap : Nat} {pending : Text}
      (hs : pattern.search left right = .gaveUp) :
      Scans pattern handler (n + 1) left right gap pending pending right .gaveUp []
  | pastEnd {n : Nat} {left right : Text} {gap : Nat} {pending : Text} {m : Match}
      {here : List Substitution} (hs : pattern.search left right = .found m)
      (hl : m.IsLeft handler (left.byteLength + m.skipped.byteLength) gap pending here)
      (hp : m.passed? = none) :
      Scans pattern handler (n + 1) left right gap pending pending right .pastEnd here
  | pass {n : Nat} {left right : Text} {gap : Nat} {pending : Text} {m : Match}
      {passed rest result remainder : Text} {ending : Ending} {here log : List Substitution}
      (hs : pattern.search left right = .found m)
      (hl : m.IsLeft handler (left.byteLength + m.skipped.byteLength) gap pending here)
      (hp : m.passed? = some (passed, rest))
      (later : Scans pattern handler n ((m.skipped ++ passed).reverse ++ left) rest
        (gap + (m.skipped ++ passed).byteLength) pending result remainder ending log) :
      Scans pattern handler (n + 1) left right gap pending result (m.skipped ++ passed ++ remainder)
        ending (here ++ log)
  | replace {n : Nat} {left right : Text} {gap : Nat} {kept slice tail : Text} {m : Match}
      {result remainder : Text} {ending : Ending} {log : List Substitution}
      (hs : pattern.search left right = .found m)
      (hk : kept.byteLength = gap + m.skipped.byteLength)
      (hl : slice.byteLength = m.matched.byteLength)
      (hn : ¬ (m.matched = [] ∧ handler slice = []))
      (later : Scans pattern handler n ((m.skipped ++ (handler slice).shadow).reverse ++ left)
        m.rest 0 tail result remainder ending log) :
      Scans pattern handler (n + 1) left right gap (kept ++ slice ++ tail)
        (kept ++ handler slice ++ result) (m.skipped ++ (handler slice).shadow ++ remainder) ending
        (⟨left.byteLength + m.skipped.byteLength,
          left.byteLength + m.skipped.byteLength + m.matched.byteLength, handler slice⟩ :: log)

/-- Every scan is a run, whatever number of searches it is allowed. -/
theorem scans_scan (pattern : Pattern) (handler : Handler) (searches : Nat) (left right : Text)
    (gap : Nat) (pending : Text) :
    let s := scan pattern handler searches left.byteLength left right gap pending
    ∃ log, Scans pattern handler searches left right gap pending s.result s.remainder s.ending
      log := by
  induction searches generalizing left right gap pending with
  | zero => exact ⟨_, .cutOff left right gap pending⟩
  | succ searches ih =>
    unfold scan
    cases hs : pattern.search left right with
    | nowhere => exact ⟨_, .noMatch hs⟩
    | gaveUp => exact ⟨_, .gaveUp hs⟩
    | found m =>
      dsimp only
      cases ht : m.treat pattern.source handler (left.byteLength + m.skipped.byteLength) gap
        pending with
      | leave events =>
        obtain ⟨here, hl⟩ := Match.isLeft_of_treat ht
        dsimp only
        cases hp : m.passed? with
        | none => exact ⟨_, .pastEnd hs hl hp⟩
        | some pr =>
          obtain ⟨passed, rest⟩ := pr
          dsimp only
          rw [left_after_pass, position_after, gap_after_pass]
          obtain ⟨log, hlog⟩ := ih ((m.skipped ++ passed).reverse ++ left) rest _ pending
          exact ⟨_, .pass hs hl hp hlog⟩
      | replace kept replacement tail =>
        obtain ⟨slice, rfl, hk, hl, rfl, hn⟩ := Match.replace_of_treat ht
        dsimp only
        rw [left_after_replace, position_after_replace]
        obtain ⟨log, hlog⟩ := ih ((m.skipped ++ (handler slice).shadow).reverse ++ left) m.rest 0 tail
        exact ⟨_, .replace hs hk hl hn hlog⟩

/-- A rule whose first search finds nothing changes nothing. -/
theorem apply_of_not_found {pattern : Pattern} {handler : Handler} {b : Buffers}
    (h : ∀ m, pattern.search [] b.remainder ≠ .found m) : (regex pattern handler).apply b = b := by
  obtain ⟨n, hn⟩ : ∃ n, searchBound pattern b = n + 1 :=
    Nat.exists_eq_add_one_of_ne_zero (Nat.mul_ne_zero (Nat.succ_ne_zero _) (Nat.succ_ne_zero _))
  change Buffers.mk (scanAll pattern handler b).result (scanAll pattern handler b).remainder = b
  rw [scanAll, hn, scan]
  cases hs : pattern.search [] b.remainder with
  | nowhere | gaveUp => rfl
  | found m => exact absurd hs (h m)

/-- A run keeps how far the text that no handler has seen reaches back. -/
theorem Scans.byteLength_eq {pattern : Pattern} {handler : Handler} {n : Nat}
    {left right pending result remainder : Text} {gap : Nat} {ending : Ending}
    {log : List Substitution}
    (h : Scans pattern handler n left right gap pending result remainder ending log)
    (ha : pending.byteLength = gap + right.byteLength) :
    result.byteLength = gap + remainder.byteLength := by
  induction h with
  | cutOff | noMatch | gaveUp | pastEnd => exact ha
  | pass hs _ hp _ ih =>
    rw [← Pattern.text_of_found hs, List.append_assoc, (Match.passed?_eq_some hp).1] at ha
    simp only [Text.byteLength_append] at ha ih ⊢
    have hlater := ih (by omega)
    omega
  | replace hs hk hl _ _ ih =>
    rw [← Pattern.text_of_found hs] at ha
    simp only [Text.byteLength_append, Text.byteLength_shadow] at ha ih ⊢
    have hlater := ih (by omega)
    omega

/-- The scan over the whole of both texts, with at most so many searches. -/
def scanWithin (pattern : Pattern) (handler : Handler) (searches : Nat) (b : Buffers) : Scan :=
  scan pattern handler searches 0 [] b.remainder 0 b.result

theorem scans_scanWithin (pattern : Pattern) (handler : Handler) (searches : Nat) (b : Buffers) :
    let s := scanWithin pattern handler searches b
    ∃ log, Scans pattern handler searches [] b.remainder 0 b.result s.result s.remainder s.ending
      log :=
  scans_scan pattern handler searches [] b.remainder 0 b.result

end Rule

end Highlighter
