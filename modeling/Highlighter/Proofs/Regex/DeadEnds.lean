import Highlighter.Language
import Highlighter.Proofs.Regex.First

/-! Searches that give up: on a long text the search for a number in another base meets more dead
ends than it is allowed, even where every place is soon left. -/
namespace Highlighter

namespace Regex

variable {origin : Place}

section DeadEnds

variable {α : Type} [Answer (Point origin) α] {set : CharSet} {role : Role} {p : Point origin}
  {k : Point origin → α}

/-- The next character is not in the set. -/
theorem run_one_of_not_has (h : p.after.head?.any set.has = false) :
    run (one set) role p k = Answer.deadEnd := by
  obtain ⟨b, a, i, g, ht, hi⟩ := p
  cases a with
  | nil => rfl
  | cons c a =>
    have hc : set.has c = false := h
    exact if_neg (hc ▸ Bool.false_ne_true)

/-- The character before is not in the set. -/
theorem run_behind_of_not_has (h : p.before.head?.any set.has = false) :
    run (seq (back 1) (one set)) role p k = Answer.deadEnd := by
  obtain ⟨b, a, i, g, ht, hi⟩ := p
  cases b with
  | nil => rfl
  | cons c b =>
    have hc : set.has c = false := h
    exact if_neg (hc ▸ Bool.false_ne_true)

end DeadEnds

/-- At a place where no number goes on and no zero comes next, the search for a number in another
base meets two dead ends. -/
theorem attempt_radix {p : Point origin} (hb : p.before.head?.any Pattern.numberSet.has = false)
    (ha : p.after.head?.any (CharSet.single '0').has = false) :
    Pattern.radix.regex.attempt p = ⟨2, none⟩ := by
  have hregular : Pattern.radix.regex.isRegular = false := rfl
  have hrun (a b c : Regex) (role : Role) : run (seq (notAhead a) (seq b c)) role p
      (Answer.found : _ → Counted (Point origin)) =
      Answer.barring (run a a.lastRole p Answer.found) fun _ =>
        run b (role.ending (seq b c)).followed p fun q =>
          run c ((role.ending (seq b c)).ending c) q Answer.found := rfl
  have hshape : ∃ r, Pattern.radix.regex =
      seq (notAhead (seq (back 1) (one Pattern.numberSet))) (seq (one (.single '0')) r) := ⟨_, rfl⟩
  have hbarring (k : Unit → Counted (Point origin)) :
      Answer.barring (Answer.deadEnd : Counted (Point origin)) k = (k ()).after 1 := rfl
  obtain ⟨r, hr⟩ := hshape
  unfold attempt
  rw [hregular, if_neg Bool.false_ne_true, hr, hrun, run_behind_of_not_has hb, hbarring,
    run_one_of_not_has ha]
  rfl

/-- A search gives up on a text that costs it too many dead ends, `cost` of them at each place. -/
theorem searchFrom_gaveUp_of_cost {r : Regex} {S : Char → Bool} {cost : Nat}
    (hcost : ∀ p : Point origin, p.before.head?.any S = false → p.after.head?.any S = false →
      r.attempt p = ⟨cost, none⟩) {u rest : Text} (hu : ∀ c ∈ u, S c = false) {b : Text} {i : Int}
    {ht : b.reverseAux (u ++ rest) = origin.text} {hi : b.length = i + origin.before.length}
    {allowed : Nat} (hb : b.head?.any S = false) (hallowed : allowed < cost * u.length) :
    r.searchFrom b (u ++ rest) i ht hi allowed = .gaveUp := by
  -- Each place takes `cost` from what is allowed, and fewer characters are left for the rest.
  induction u generalizing b i allowed with
  | nil => exact absurd hallowed (Nat.not_lt_zero _)
  | cons c u ih =>
    have hc := hu c List.mem_cons_self
    have hattempt := hcost ⟨b, c :: (u ++ rest), i, [], ht, hi⟩ hb hc
    by_cases hd : allowed < cost
    · exact searchFrom_gaveUp (hattempt ▸ hd)
    · have hlater : r.searchFrom (c :: b) (u ++ rest) (i + 1) ht (Point.length_next c hi)
          (allowed - cost) = .gaveUp := by
        apply ih (fun d hd => hu d (List.mem_cons_of_mem c hd))
        · exact hc
        rw [List.length_cons, Nat.mul_succ] at hallowed
        omega
      change r.searchFrom b (c :: (u ++ rest)) i ht hi allowed = .gaveUp
      unfold searchFrom
      dsimp only
      rw [hattempt]
      dsimp only
      rw [if_neg hd, hlater]
      rfl

end Regex

/-- The search for a number in another base gives up on a text that is long enough and in which no
number goes on. -/
theorem Pattern.search_radix_gaveUp {u : Text} (hu : ∀ c ∈ u, numberSet.has c = false)
    (hlength : searchLimit < 2 * u.length) (rest : Text) :
    Pattern.radix.search [] (u ++ rest) = .gaveUp := by
  have hzero (c : Char) (hc : (CharSet.single '0').has c = true) : numberSet.has c = true := by
    rw [CharSet.has_single] at hc
    rw [of_decide_eq_true hc]
    decide
  have hcost (p : Point ⟨[], u ++ rest⟩) (hb : p.before.head?.any numberSet.has = false)
      (ha : p.after.head?.any numberSet.has = false) :
      Pattern.radix.regex.attempt p = ⟨2, none⟩ := by
    apply Regex.attempt_radix hb
    cases hh : p.after.head? with
    | none => rfl
    | some c =>
      rw [hh] at ha
      rw [← Bool.not_eq_true]
      exact fun hc => Bool.false_ne_true (ha.symm.trans (hzero c hc))
  exact Regex.searchFrom_gaveUp_of_cost hcost hu rfl hlength

end Highlighter
