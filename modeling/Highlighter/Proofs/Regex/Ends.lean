import Highlighter.Regex.Matching.Loop
import Mathlib.Tactic.Common

/-! All the ways in which a pattern can match at a place, in its order of preference, as a list. The
backtracking matcher asks its continuation at the members of this list one after another
(`view_run`), so that its plain answer is the first member, whichever kind of answer is computed. -/
namespace Highlighter

/-- A place of a text with the texts that are remembered there. -/
structure Spot where
  before : Text
  after : Text
  groups : Groups
  deriving DecidableEq

namespace Spot

/-- The next character and the spot after it. -/
def next? : Spot → Option (Char × Spot)
  | ⟨_, [], _⟩ => none
  | ⟨b, c :: a, g⟩ => some (c, ⟨c :: b, a, g⟩)

/-- The spot `n` characters back. -/
def back? : Nat → Spot → Option Spot
  | 0, s => some s
  | _ + 1, ⟨[], _, _⟩ => none
  | n + 1, ⟨c :: b, a, g⟩ => back? n ⟨b, c :: a, g⟩

/-- The spots that are reached over members of `set` alone, from near to far. -/
def stopsFrom (set : CharSet) (groups : Groups) : (before after : Text) → List Spot
  | b, [] => [⟨b, [], groups⟩]
  | b, c :: a =>
    ⟨b, c :: a, groups⟩ :: if set.has c then stopsFrom set groups (c :: b) a else []

def stops (set : CharSet) (s : Spot) : List Spot := stopsFrom set s.groups s.before s.after

/-- The text between `s` and a later spot `t`. -/
def textUpTo (s t : Spot) : Text := s.after.take (s.after.length - t.after.length)

/-- The spot `t`, where the text since `s` is remembered under the number `n`. -/
def remember (s : Spot) (n : Nat) (t : Spot) : Spot :=
  { t with groups := (n, s.textUpTo t) :: t.groups }

/-- The spot `s` with what is remembered at `t`. -/
def withGroupsOf (s t : Spot) : Spot := { s with groups := t.groups }

/-- The spot after `word`, if `word` comes next. -/
def over? (anyCase : Bool) : Text → Spot → Option Spot
  | [], s => some s
  | w :: word, s =>
    match s.next? with
    | some (c, t) =>
      if c = w || anyCase && Unicode.foldCase c == Unicode.foldCase w then over? anyCase word t
      else none
    | none => none

end Spot

namespace Point

variable {origin : Place}

/-- A point without the place where the search began. -/
def spot (p : Point origin) : Spot := ⟨p.before, p.after, p.groups⟩

theorem next?_spot (p : Point origin) :
    p.spot.next? = p.next?.map fun (c, q) => (c, q.spot) := by
  obtain ⟨b, a, i, g, ht, hi⟩ := p
  cases a <;> rfl

theorem back?_spot (n : Nat) (p : Point origin) :
    p.spot.back? n = (p.back? n).map Point.spot := by
  induction n generalizing p with
  | zero => simp only [Spot.back?, back?, Option.map_some]
  | succ n ih =>
    obtain ⟨b, a, i, g, ht, hi⟩ := p
    cases b with
    | nil => rfl
    | cons c b => exact ih ⟨b, c :: a, i - 1, g, ht, length_previous hi⟩

theorem map_spot_stopsFrom (set : CharSet) (g : Groups) (b a : Text) (i : Int)
    (ht : b.reverseAux a = origin.text) (hi : b.length = i + origin.before.length) :
    (stopsFrom set g b a i ht hi).map Point.spot = Spot.stopsFrom set g b a := by
  induction a generalizing b i with
  | nil => rfl
  | cons c a ih =>
    unfold stopsFrom Spot.stopsFrom
    by_cases hc : set.has c = true
    · rw [if_pos hc, if_pos hc]
      exact congrArg (_ :: ·) (ih (c :: b) (i + 1) ht (length_next c hi))
    · rw [if_neg hc, if_neg hc]
      rfl

theorem map_spot_stops (set : CharSet) (p : Point origin) :
    (p.stops set).map Point.spot = p.spot.stops set :=
  map_spot_stopsFrom set p.groups p.before p.after p.index p.reverseAux_before p.length_before

/-- A point lies as far beyond another one as it has less text after it. -/
theorem distance_eq (p q : Point origin) : p.distance q = p.after.length - q.after.length := by
  have hp := p.length_after
  have hq := q.length_after
  unfold distance
  omega

theorem index_lt_iff (p q : Point origin) :
    p.index < q.index ↔ q.after.length < p.after.length := by
  have hp := p.length_after
  have hq := q.length_after
  omega

theorem remember_spot (p q : Point origin) (n : Nat) :
    (p.remember n q).spot = p.spot.remember n q.spot := by
  simp only [remember, textUpTo, distance_eq, spot, Spot.remember, Spot.textUpTo]

theorem over?_spot (anyCase : Bool) (word : Text) (p : Point origin) :
    p.spot.over? anyCase word = (p.over? anyCase word).map Point.spot := by
  induction word generalizing p with
  | nil => simp only [Spot.over?, over?, Option.map_some]
  | cons w word ih =>
    unfold over? Spot.over?
    rw [next?_spot]
    cases p.next? with
    | none => rfl
    | some cq =>
      obtain ⟨c, q⟩ := cq
      dsimp only [Option.map_some]
      split
      · exact ih q
      · rfl

end Point

namespace Regex

/-- The ends of the rounds of a loop from a spot on, where `step` gives the ends of one round. -/
def loopEnds (step : Spot → List Spot) (role : Role) (greedy : Bool) (s : Spot) : List Spot :=
  let further := (step s).flatMap fun t =>
    if t.after.length < s.after.length then loopEnds step role greedy t
    else if role = .regular then [s] else []
  if greedy then further ++ [s] else s :: further
  termination_by s.after.length

/-- Where the pattern can end when it is tried at a spot, the preferred end first. -/
def ends : Regex → Role → Spot → List Spot
  | empty, _, s => [s]
  | one set, _, s =>
    match s.next? with
    | some (c, t) => if set.has c then [t] else []
    | none => []
  | many set greedy, _, s => if greedy then (s.stops set).reverse else s.stops set
  | edge e, _, s => if e.holds s.before s.after then [s] else []
  | back n, _, s => (s.back? n).toList
  | seq a b, role, s => (ends a role.followed s).flatMap (ends b (role.ending b))
  | alt a b, role, s => ends a (role.ending a) s ++ ends b (role.ending b) s
  | loop a greedy, role, s => loopEnds (ends a role.followed) role greedy s
  | group n a, role, s => (ends a (role.ending a) s).map (s.remember n)
  | same n anyCase, _, s =>
    match s.groups.lookup n with
    | some word => (s.over? anyCase word).toList
    | none => []
  | atomic a, _, s => (ends a a.lastRole s).head?.toList
  | ahead a, _, s => ((ends a a.lastRole s).head?.map s.withGroupsOf).toList
  | notAhead a, _, s => if (ends a a.lastRole s).isEmpty then [s] else []

/-- What an answer says of where the match ends, in terms of spots. -/
structure View {origin : Place} {α : Type} [Answer (Point origin) α] (view : α → Option Spot) :
    Prop where
  found : ∀ q : Point origin, view (Answer.found q) = some q.spot
  deadEnd : view Answer.deadEnd = none
  orElse : ∀ (a : α) (b : Unit → α), view (Answer.orElse a b) = (view a).or (view (b ()))
  follow : ∀ (a : α) (k : Point origin → α) (K : Spot → Option Spot),
    (∀ q, view (k q) = K q.spot) → view (Answer.follow a k) = (view a).bind K
  barring : ∀ (a : α) (k : Unit → α),
    view (Answer.barring a k) = if (view a).isSome then none else view (k ())

theorem view_plain (origin : Place) :
    View (fun a : Option (Point origin) => a.map Point.spot) where
  found _ := rfl
  deadEnd := rfl
  orElse a b := by cases a <;> rfl
  follow a k K h := by
    cases a with
    | none => rfl
    | some q => exact h q
  barring a k := by cases a <;> rfl

theorem view_counted (origin : Place) :
    View (fun a : Counted (Point origin) => a.answer.map Point.spot) where
  found _ := rfl
  deadEnd := rfl
  orElse a b := by
    obtain ⟨n, a⟩ := a
    cases a <;> rfl
  follow a k K h := by
    obtain ⟨n, a⟩ := a
    cases a with
    | none => rfl
    | some q => exact h q
  barring a k := by
    obtain ⟨n, a⟩ := a
    cases a <;> rfl

variable {origin : Place} {α : Type} [Answer (Point origin) α] {view : α → Option Spot}

theorem view_firstOf (hv : View view) (k : Point origin → α) (K : Spot → Option Spot)
    (hk : ∀ q, view (k q) = K q.spot) (l : List (Point origin)) :
    view (Answer.firstOf k l) = (l.map Point.spot).findSome? K := by
  induction l with
  | nil => exact hv.deadEnd
  | cons q l ih =>
    rw [Answer.firstOf, hv.orElse, hk, ih, List.map_cons, List.findSome?_cons]
    cases K q.spot <;> rfl

theorem findSome?_flatMap (K : Spot → Option Spot) (f : Spot → List Spot) (l : List Spot) :
    (l.flatMap f).findSome? K = l.findSome? fun t => (f t).findSome? K := by
  induction l with
  | nil => rfl
  | cons s l ih =>
    rw [List.flatMap_cons, List.findSome?_append, List.findSome?_cons, ih]
    cases (f s).findSome? K <;> rfl

theorem findSome?_toList (K : Spot → Option Spot) (o : Option Spot) :
    o.toList.findSome? K = o.bind K := by
  cases o with
  | none => rfl
  | some s => exact List.findSome?_singleton

theorem findSome?_some (l : List Spot) : l.findSome? some = l.head? := by
  cases l <;> rfl

theorem findSome?_loopEnds (step : Spot → List Spot) (role : Role) (greedy : Bool)
    (K : Spot → Option Spot) (s : Spot) :
    (loopEnds step role greedy s).findSome? K =
      let further := (step s).findSome? fun t =>
        if t.after.length < s.after.length then (loopEnds step role greedy t).findSome? K
        else if role = .regular then K s else none
      if greedy then further.or (K s) else (K s).or further := by
  have hstep (t : Spot) : (if t.after.length < s.after.length then
      loopEnds step role greedy t else if role = .regular then [s] else []).findSome? K =
      if t.after.length < s.after.length then (loopEnds step role greedy t).findSome? K
      else if role = .regular then K s else none := by
    split
    · rfl
    · split
      · exact List.findSome?_singleton
      · rfl
  rw [loopEnds]
  dsimp only
  cases greedy with
  | true =>
    rw [if_pos rfl, if_pos rfl, List.findSome?_append, findSome?_flatMap,
      List.findSome?_singleton]
    simp only [hstep]
  | false =>
    rw [if_neg Bool.false_ne_true, if_neg Bool.false_ne_true, List.findSome?_cons,
      findSome?_flatMap]
    simp only [hstep]
    cases K s <;> rfl

/-- A loop asks its continuation at the ends of its rounds, if each single round does. -/
theorem view_loop (hv : View view) (a : Regex) (greedy : Bool) (role : Role)
    (ha : ∀ (p : Point origin) (k : Point origin → α) (K : Spot → Option Spot),
      (∀ q, view (k q) = K q.spot) →
        view (run a role.followed p k) = (ends a role.followed p.spot).findSome? K)
    (k : Point origin → α) (K : Spot → Option Spot) (hk : ∀ q, view (k q) = K q.spot)
    (p : Point origin) : view (run (loop a greedy) role p k) =
      (loopEnds (ends a role.followed) role greedy p.spot).findSome? K := by
  -- A round that goes forward leaves less text, on which the recursion goes down; one that stays
  -- where it is goes on to what follows the loop, or nowhere.
  have hfurther := ha p
    (fun q => if p.index < q.index then run (loop a greedy) role q k
      else if role = .regular then k p else Answer.deadEnd)
    (fun t => if t.after.length < p.spot.after.length then
        (loopEnds (ends a role.followed) role greedy t).findSome? K
      else if role = .regular then K p.spot else none) (by
    intro q
    by_cases hq : p.index < q.index
    · have hlt : q.after.length < p.after.length := (p.index_lt_iff q).mp hq
      have hlt' : q.spot.after.length < p.spot.after.length := hlt
      rw [if_pos hq, if_pos hlt']
      exact view_loop hv a greedy role ha k K hk q
    · have hge : ¬ q.spot.after.length < p.spot.after.length :=
        fun h => hq ((p.index_lt_iff q).mpr h)
      rw [if_neg hq, if_neg hge]
      split
      · exact hk p
      · exact hv.deadEnd)
  rw [run_loop, round, findSome?_loopEnds]
  dsimp only
  cases greedy with
  | true =>
    rw [if_pos rfl, if_pos rfl, hv.orElse, hk, hfurther]
  | false =>
    rw [if_neg Bool.false_ne_true, if_neg Bool.false_ne_true, hv.orElse, hk, hfurther]
  termination_by p.after.length

/-- The matcher asks its continuation at the ends of the pattern, in their order. -/
theorem view_run (hv : View view) (r : Regex) (role : Role) (p : Point origin)
    (k : Point origin → α) (K : Spot → Option Spot) (hk : ∀ q, view (k q) = K q.spot) :
    view (run r role p k) = (ends r role p.spot).findSome? K := by
  -- The continuation varies in the induction: what follows a part is the rest of the pattern.
  induction r generalizing role p k K with
  | empty => rw [run, ends, hk, List.findSome?_singleton]
  | one set =>
    rw [run, ends, p.next?_spot]
    cases p.next? with
    | none => exact hv.deadEnd
    | some cq =>
      obtain ⟨c, q⟩ := cq
      dsimp only [Option.map_some]
      split
      · rw [hk, List.findSome?_singleton]
      · exact hv.deadEnd
  | many set greedy =>
    rw [run, ends, view_firstOf hv k K hk, ← p.map_spot_stops]
    cases greedy <;> simp only [if_true, if_false, Bool.false_eq_true, List.map_reverse]
  | edge e =>
    rw [run, ends]
    change view (if e.holds p.before p.after = true then k p else Answer.deadEnd) =
      (if e.holds p.before p.after = true then [p.spot] else []).findSome? K
    split
    · rw [hk, List.findSome?_singleton]
    · exact hv.deadEnd
  | back n =>
    rw [run, ends, p.back?_spot, findSome?_toList]
    cases p.back? n with
    | none => exact hv.deadEnd
    | some q => exact hk q
  | seq a b iha ihb =>
    rw [run, ends, findSome?_flatMap]
    exact iha role.followed p _ _ fun q => ihb (role.ending b) q k K hk
  | alt a b iha ihb =>
    rw [run, ends, hv.orElse, List.findSome?_append, iha (role.ending a) p k K hk,
      ihb (role.ending b) p k K hk]
  | loop a greedy iha =>
    rw [ends]
    exact view_loop hv a greedy role (fun p k K hk => iha role.followed p k K hk) k K hk p
  | group n a iha =>
    rw [run, ends, List.findSome?_map]
    exact iha (role.ending a) p _ _ fun q => by rw [hk, p.remember_spot]; rfl
  | same n anyCase =>
    rw [run, ends]
    change _ = List.findSome? K (match p.groups.lookup n with
      | some word => (p.spot.over? anyCase word).toList
      | none => [])
    cases p.groups.lookup n with
    | none => exact hv.deadEnd
    | some word =>
      dsimp only
      rw [p.over?_spot, findSome?_toList]
      cases p.over? anyCase word with
      | none => exact hv.deadEnd
      | some q => exact hk q
  | atomic a iha =>
    -- What is atomic is run on its own first, to the first of its ends.
    have hfound := iha a.lastRole p Answer.found some hv.found
    rw [run, ends, hv.follow _ _ K hk, hfound, findSome?_some, findSome?_toList]
  | ahead a iha =>
    have hfound := iha a.lastRole p Answer.found some hv.found
    have hback (q : Point origin) :
        view (k (p.withGroupsOf q)) = (K ∘ p.spot.withGroupsOf) q.spot := hk _
    rw [run, ends, hv.follow _ _ _ hback, hfound, findSome?_some, findSome?_toList,
      Option.bind_map]
  | notAhead a iha =>
    have hfound := iha a.lastRole p Answer.found some hv.found
    rw [run, ends, hv.barring, hfound, findSome?_some, hk]
    cases ends a a.lastRole p.spot with
    | nil => exact List.findSome?_singleton.symm
    | cons t l => rfl

end Regex

end Highlighter
