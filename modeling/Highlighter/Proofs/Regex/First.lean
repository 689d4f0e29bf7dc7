import Highlighter.Pattern
import Highlighter.Proofs.Regex.Ends

/-! The search without its limit on dead ends. A search either gives up or finds the first place at
which the pattern has an end at all, and takes the first end there (`search_eq`); a regular pattern
never gives up. What was searched through is always the text before, in and after the match. -/
namespace Highlighter

/-- The text in which a match was found. -/
def Match.text (m : Match) : Text := m.skipped ++ m.matched ++ m.rest

/-- The match, if it began one character earlier to look for it. -/
def Match.skipping (c : Char) (m : Match) : Match := { m with skipped := c :: m.skipped }

/-- What a search says that is not limited. -/
def Search.ofMatch? : Option Match → Search
  | some m => .found m
  | none => .nowhere

theorem Search.skipping_ofMatch? (c : Char) (o : Option Match) :
    (Search.ofMatch? o).skipping c = Search.ofMatch? (o.map (Match.skipping c)) := by
  cases o <;> rfl

namespace Regex

variable {origin : Place}

/-- Where the pattern can end between `left` (nearest character first) and `right`. -/
def endsAt (r : Regex) (left right : Text) : List Spot := r.ends r.lastRole ⟨left, right, []⟩

/-- The match in `right` that ends at the spot `e`. -/
def matchUpTo (right : Text) (e : Spot) : Match :=
  ⟨[], right.take (right.length - e.after.length), right.drop (right.length - e.after.length)⟩

/-- The first match in `right`, where `left` (nearest character first) stands before it. -/
def first? (r : Regex) : (left right : Text) → Option Match
  | left, right =>
    match r.endsAt left right, right with
    | e :: _, right => some (matchUpTo right e)
    | [], [] => none
    | [], c :: rest => (first? r (c :: left) rest).map (Match.skipping c)
  termination_by structural _ right => right

theorem first?_of_ends {r : Regex} {left right : Text} {e : Spot} {es : List Spot}
    (h : r.endsAt left right = e :: es) : r.first? left right = some (matchUpTo right e) := by
  unfold first?
  rw [h]

theorem first?_nil {r : Regex} {left : Text} (h : r.endsAt left [] = []) :
    r.first? left [] = none := by
  unfold first?
  rw [h]

theorem first?_cons {r : Regex} {left right : Text} {c : Char}
    (h : r.endsAt left (c :: right) = []) :
    r.first? left (c :: right) = (r.first? (c :: left) right).map (Match.skipping c) := by
  conv_lhs => unfold first?
  rw [h]

theorem first?_text {r : Regex} {left right : Text} {m : Match}
    (h : r.first? left right = some m) : m.text = right := by
  induction right generalizing left m with
  | nil =>
    cases he : r.endsAt left [] with
    | nil => exact absurd ((first?_nil he).symm.trans h) (by simp)
    | cons e es =>
      rw [first?_of_ends he] at h
      cases h
      simp only [matchUpTo, Match.text, List.nil_append, List.take_append_drop]
  | cons c right ih =>
    cases he : r.endsAt left (c :: right) with
    | nil =>
      rw [first?_cons he] at h
      obtain ⟨m', hm', rfl⟩ := Option.map_eq_some_iff.mp h
      exact congrArg (c :: ·) (ih hm')
    | cons e es =>
      rw [first?_of_ends he] at h
      cases h
      simp only [matchUpTo, Match.text, List.nil_append, List.take_append_drop]

theorem lastRole_of_isRegular {r : Regex} (h : r.isRegular = true) : r.lastRole = .regular :=
  if_pos h

theorem attempt_answer (r : Regex) (p : Point origin) :
    (r.attempt p).answer.map Point.spot = (r.ends r.lastRole p.spot).head? := by
  unfold attempt
  by_cases hr : r.isRegular = true
  · rw [if_pos hr, lastRole_of_isRegular hr, ← findSome?_some]
    exact view_run (view_plain origin) r .regular p some some fun _ => rfl
  · rw [if_neg hr, lastRole, if_neg hr, ← findSome?_some]
    exact view_run (view_counted origin) r .last p Answer.found some fun _ => rfl

theorem deadEnds_attempt_of_isRegular {r : Regex} (h : r.isRegular = true) (p : Point origin) :
    (r.attempt p).deadEnds = 0 := by
  rw [attempt, if_pos h]

section Step

variable {r : Regex} {b a : Text} {i : Int} {ht : b.reverseAux a = origin.text}
  {hi : b.length = i + origin.before.length} {allowed : Nat}

theorem searchFrom_gaveUp
    (hd : allowed < (r.attempt (⟨b, a, i, [], ht, hi⟩ : Point origin)).deadEnds) :
    r.searchFrom b a i ht hi allowed = .gaveUp := by
  unfold searchFrom
  dsimp only
  rw [if_pos hd]

theorem searchFrom_of_ends {e : Spot} {es : List Spot} (he : r.endsAt b a = e :: es)
    (hd : (r.attempt (⟨b, a, i, [], ht, hi⟩ : Point origin)).deadEnds ≤ allowed) :
    r.searchFrom b a i ht hi allowed = .found (matchUpTo a e) := by
  have hspot := r.attempt_answer (⟨b, a, i, [], ht, hi⟩ : Point origin)
  change _ = (r.endsAt b a).head? at hspot
  rw [he, List.head?_cons] at hspot
  obtain ⟨q, hq, hqe⟩ := Option.map_eq_some_iff.mp hspot
  subst hqe
  unfold searchFrom
  dsimp only
  rw [if_neg (Nat.not_lt.mpr hd), hq]
  dsimp only [matchUpTo]
  rw [Point.distance_eq]
  rfl

theorem attempt_answer_eq_none (he : r.endsAt b a = []) :
    (r.attempt (⟨b, a, i, [], ht, hi⟩ : Point origin)).answer = none := by
  have hspot := r.attempt_answer (⟨b, a, i, [], ht, hi⟩ : Point origin)
  change _ = (r.endsAt b a).head? at hspot
  rw [he] at hspot
  exact Option.map_eq_none_iff.mp hspot

end Step

theorem searchFrom_nil {r : Regex} {b : Text} {i : Int} {ht : b.reverseAux [] = origin.text}
    {hi : b.length = i + origin.before.length} {allowed : Nat} (he : r.endsAt b [] = [])
    (hd : (r.attempt (⟨b, [], i, [], ht, hi⟩ : Point origin)).deadEnds ≤ allowed) :
    r.searchFrom b [] i ht hi allowed = .nowhere := by
  unfold searchFrom
  dsimp only
  rw [if_neg (Nat.not_lt.mpr hd), attempt_answer_eq_none he]

theorem searchFrom_cons {r : Regex} {c : Char} {b a : Text} {i : Int}
    {ht : b.reverseAux (c :: a) = origin.text} {hi : b.length = i + origin.before.length}
    {allowed : Nat} (he : r.endsAt b (c :: a) = [])
    (hd : (r.attempt (⟨b, c :: a, i, [], ht, hi⟩ : Point origin)).deadEnds ≤ allowed) :
    r.searchFrom b (c :: a) i ht hi allowed =
      (r.searchFrom (c :: b) a (i + 1) ht (Point.length_next c hi)
        (allowed - (r.attempt (⟨b, c :: a, i, [], ht, hi⟩ : Point origin)).deadEnds)).skipping c := by
  conv_lhs => unfold searchFrom
  dsimp only
  rw [if_neg (Nat.not_lt.mpr hd), attempt_answer_eq_none he]

theorem searchFrom_eq (r : Regex) (a b : Text) (i : Int) (ht : b.reverseAux a = origin.text)
    (hi : b.length = i + origin.before.length) (allowed : Nat) :
    r.searchFrom b a i ht hi allowed = .gaveUp ∨
      r.searchFrom b a i ht hi allowed = .ofMatch? (r.first? b a) := by
  induction a generalizing b i allowed with
  | nil =>
    by_cases hd : allowed < (r.attempt (⟨b, [], i, [], ht, hi⟩ : Point origin)).deadEnds
    · exact Or.inl (searchFrom_gaveUp hd)
    have hd := Nat.not_lt.mp hd
    right
    cases he : r.endsAt b [] with
    | cons e es => rw [searchFrom_of_ends he hd, first?_of_ends he]; rfl
    | nil => rw [searchFrom_nil he hd, first?_nil he]; rfl
  | cons c a ih =>
    by_cases hd : allowed < (r.attempt (⟨b, c :: a, i, [], ht, hi⟩ : Point origin)).deadEnds
    · exact Or.inl (searchFrom_gaveUp hd)
    have hd := Nat.not_lt.mp hd
    cases he : r.endsAt b (c :: a) with
    | cons e es => exact Or.inr (by rw [searchFrom_of_ends he hd, first?_of_ends he]; rfl)
    | nil =>
      rw [searchFrom_cons he hd, first?_cons he, ← Search.skipping_ofMatch?]
      rcases ih (c :: b) (i + 1) ht (Point.length_next c hi) _ with h | h
      · exact Or.inl (by rw [h]; rfl)
      · exact Or.inr (congrArg (Search.skipping c) h)

theorem skipping_ne_gaveUp {c : Char} {s : Search} (h : s ≠ .gaveUp) : s.skipping c ≠ .gaveUp := by
  cases s with
  | found m => exact Search.noConfusion
  | nowhere => exact Search.noConfusion
  | gaveUp => exact absurd rfl h

theorem searchFrom_ne_gaveUp {r : Regex} (h : r.isRegular = true) (a b : Text) (i : Int)
    (ht : b.reverseAux a = origin.text) (hi : b.length = i + origin.before.length)
    (allowed : Nat) : r.searchFrom b a i ht hi allowed ≠ .gaveUp := by
  have hd (b a : Text) (i : Int) (ht : b.reverseAux a = origin.text)
      (hi : b.length = i + origin.before.length) (allowed : Nat) :
      (r.attempt (⟨b, a, i, [], ht, hi⟩ : Point origin)).deadEnds ≤ allowed := by
    rw [deadEnds_attempt_of_isRegular h]
    exact Nat.zero_le allowed
  induction a generalizing b i allowed with
  | nil =>
    cases he : r.endsAt b [] with
    | nil => rw [searchFrom_nil he (hd ..)]; exact Search.noConfusion
    | cons e es => rw [searchFrom_of_ends he (hd ..)]; exact Search.noConfusion
  | cons c a ih =>
    cases he : r.endsAt b (c :: a) with
    | nil => rw [searchFrom_cons he (hd ..)]; exact skipping_ne_gaveUp (ih _ _ _ _ _)
    | cons e es => rw [searchFrom_of_ends he (hd ..)]; exact Search.noConfusion

end Regex

namespace Pattern

/-- A search gives up or finds the first match. -/
theorem search_eq (p : Pattern) (left right : Text) :
    p.search left right = .gaveUp ∨
      p.search left right = .ofMatch? (p.regex.first? left right) :=
  Regex.searchFrom_eq p.regex right left 0 _ _ searchLimit

/-- The search for a regular pattern finds the first match. -/
theorem search_of_isRegular {p : Pattern} (h : p.regex.isRegular = true) (left right : Text) :
    p.search left right = .ofMatch? (p.regex.first? left right) :=
  (p.search_eq left right).resolve_left (Regex.searchFrom_ne_gaveUp h right left 0 _ _ searchLimit)

theorem first?_of_found {p : Pattern} {left right : Text} {m : Match}
    (h : p.search left right = .found m) : p.regex.first? left right = some m := by
  rcases p.search_eq left right with hs | hs
  · exact absurd (hs.symm.trans h) Search.noConfusion
  · rw [hs] at h
    cases hf : p.regex.first? left right with
    | none => rw [hf] at h; exact Search.noConfusion h
    | some m' =>
      rw [hf] at h
      exact congrArg some (Search.found.inj h)

theorem first?_of_nowhere {p : Pattern} {left right : Text} (h : p.search left right = .nowhere) :
    p.regex.first? left right = none := by
  rcases p.search_eq left right with hs | hs
  · exact absurd (hs.symm.trans h) Search.noConfusion
  · rw [hs] at h
    cases hf : p.regex.first? left right with
    | none => rfl
    | some m =>
      rw [hf] at h
      exact Search.noConfusion h

/-- The parts of a match make up the text that was searched. -/
theorem text_of_found {p : Pattern} {left right : Text} {m : Match}
    (h : p.search left right = .found m) : m.skipped ++ m.matched ++ m.rest = right :=
  Regex.first?_text (first?_of_found h)

/-- No search ends with a match of the empty text. -/
def NeverEmpty (p : Pattern) : Prop :=
  ∀ (left right : Text) (m : Match), p.search left right = .found m → m.matched ≠ []

/-- A pattern that never ends where it is tried does not match the empty text. -/
theorem neverEmpty_of_ends {p : Pattern}
    (h : ∀ left right, ∀ e ∈ p.regex.endsAt left right, e.after.length < right.length) :
    p.NeverEmpty := by
  intro left right m hm
  replace hm := first?_of_found hm
  induction right generalizing left m with
  | nil =>
    cases he : p.regex.endsAt left [] with
    | nil => exact absurd ((Regex.first?_nil he).symm.trans hm) (by simp)
    | cons e es => exact absurd (h left [] e (he ▸ List.mem_cons_self)) (Nat.not_lt_zero _)
  | cons c right ih =>
    cases he : p.regex.endsAt left (c :: right) with
    | nil =>
      rw [Regex.first?_cons he] at hm
      obtain ⟨m', hm', rfl⟩ := Option.map_eq_some_iff.mp hm
      exact ih (c :: left) m' hm'
    | cons e es =>
      have hlt := h left (c :: right) e (he ▸ List.mem_cons_self)
      rw [Regex.first?_of_ends he] at hm
      obtain rfl := Option.some.inj hm
      rw [Regex.matchUpTo, Ne, List.take_eq_nil_iff]
      exact fun hnil => hnil.elim (by omega) (List.cons_ne_nil _ _)

end Pattern

end Highlighter
