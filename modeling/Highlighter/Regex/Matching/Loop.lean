import Highlighter.Regex.Matching

/-!
The equation of a loop: one more round and then the loop again, or what comes after the loop,
in the order of preference.
-/
namespace Highlighter

namespace Point

variable {origin : Place}

/-- A point is determined by its index and what is remembered there. -/
theorem eq_of_index_eq {p q : Point origin} (hi : p.index = q.index) (hg : p.groups = q.groups) :
    p = q := by
  obtain ⟨b, a, i, g, ht, hb⟩ := p
  obtain ⟨b', a', i', g', ht', hb'⟩ := q
  simp only at hi hg
  subst hi hg
  have h : b.reverse ++ a = b'.reverse ++ a' := by
    rw [← List.reverseAux_eq, ← List.reverseAux_eq, ht, ht']
  have hl : b.reverse.length = b'.reverse.length := by
    simp only [List.length_reverse]
    omega
  obtain ⟨h1, h2⟩ := List.append_inj h hl
  have h1 : b = b' := List.reverse_inj.1 h1
  subst h1 h2
  rfl

theorem length_after (p : Point origin) : p.index + p.after.length = origin.after.length := by
  have h := congrArg List.length p.reverseAux_before
  have hb := p.length_before
  simp only [Place.text, List.reverseAux_eq, List.length_append, List.length_reverse] at h
  omega

end Point

namespace Regex

variable {origin : Place} {α : Type} [Answer (Point origin) α]
variable {step : Point origin → (Point origin → α) → α} {role : Role} {greedy : Bool}
  {k : Point origin → α}

/-- What the table for the rounds from `p` on says at `p`. -/
def roundsAt (step : Point origin → (Point origin → α) → α) (role : Role) (greedy : Bool)
    (k : Point origin → α) (p : Point origin) : α :=
  ((rounds step role greedy k p.before p.after p.index p.reverseAux_before p.length_before).get? 0
    p.groups).getD Answer.deadEnd

theorem get?_rounds (q : Point origin) : ∀ (a b : Text) (i : Int)
    (ht : b.reverseAux a = origin.text) (hi : b.length = i + origin.before.length), i ≤ q.index →
    ((rounds step role greedy k b a i ht hi).get? (q.index - i).toNat q.groups).getD
      Answer.deadEnd = roundsAt step role greedy k q
  | a, b, i, ht, hi, hq => by
    by_cases heq : i = q.index
    · have hp : (⟨b, a, i, q.groups, ht, hi⟩ : Point origin) = q := Point.eq_of_index_eq heq rfl
      rw [← hp]
      simp [roundsAt]
    · have hlen := q.length_after
      have hlen' := (⟨b, a, i, q.groups, ht, hi⟩ : Point origin).length_after
      match a with
      | [] =>
        simp only [List.length_nil, Int.cast_ofNat_Int] at hlen'
        omega
      | c :: a =>
        have h := get?_rounds q a (c :: b) (i + 1) ht (by simp; omega) (by omega)
        rw [show (q.index - i).toNat = (q.index - (i + 1)).toNat + 1 by omega]
        exact h

theorem roundsAt_eq (p : Point origin) :
    roundsAt step role greedy k p = round step role greedy k (roundsAt step role greedy k) p := by
  obtain ⟨b, a, i, g, ht, hi⟩ := p
  match a with
  | [] =>
    have hrest : ∀ q : Point origin, ¬ i < q.index := by
      intro q
      have h1 := q.length_after
      have h2 := (⟨b, [], i, g, ht, hi⟩ : Point origin).length_after
      simp only [List.length_nil, Int.cast_ofNat_Int] at h2
      omega
    by_cases hg : g = [] <;> simp [roundsAt, rounds, Rounds.get?, round, Thunk.get, hg, hrest]
  | c :: a =>
    have hrest : ∀ q : Point origin, i < q.index →
        ((rounds step role greedy k (c :: b) a (i + 1) ht (Point.length_next c hi)).get?
          (q.index - (i + 1)).toNat q.groups).getD Answer.deadEnd = roundsAt step role greedy k q :=
      fun q hq => get?_rounds q a (c :: b) (i + 1) ht (by simp; omega) hq
    have hif : ∀ (d : α) (q : Point origin), (if i < q.index then
        ((rounds step role greedy k (c :: b) a (i + 1) ht (Point.length_next c hi)).get?
          (q.index - (i + 1)).toNat q.groups).getD Answer.deadEnd else d) =
        if i < q.index then roundsAt step role greedy k q else d := by
      intro d q
      by_cases hq : i < q.index
      · rw [if_pos hq, if_pos hq, hrest q hq]
      · rw [if_neg hq, if_neg hq]
    by_cases hg : g = [] <;> simp [roundsAt, rounds, Rounds.get?, round, Thunk.get, hg, hif]

/-- A loop is one more round and the loop again, or what comes after it. -/
theorem run_loop (a : Regex) (greedy : Bool) (role : Role) (p : Point origin)
    (k : Point origin → α) : run (loop a greedy) role p k =
      round (run a role.followed) role greedy k (fun q => run (loop a greedy) role q k) p :=
  roundsAt_eq p

end Regex

end Highlighter
