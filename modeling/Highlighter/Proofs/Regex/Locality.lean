import Highlighter.Pattern
import Highlighter.Proofs.Regex.Ends
import Mathlib.Data.List.Forall2

/-! What a pattern can depend on: the text after the place where it is tried and at most
`Regex.reach` characters before it. Two searches that agree on these find the same match and meet the
same dead ends (`search_congr`), however much else stands before. -/
namespace Highlighter

namespace Point

variable {o o' : Place}

/-- Two points, perhaps of different texts, have the same text after them, remember the same, and
have the same `d` characters before them. -/
structure Near (d : Nat) (p : Point o) (p' : Point o') : Prop where
  after : p.after = p'.after
  groups : p.groups = p'.groups
  before : p.before.take d = p'.before.take d

namespace Near

variable {d e : Nat} {p q : Point o} {p' q' : Point o'}

theorem mono (h : Near d p p') (he : e ≤ d) : Near e p p' := by
  refine ⟨h.after, h.groups, ?_⟩
  have ht := congrArg (List.take e) h.before
  rwa [List.take_take, List.take_take, Nat.min_eq_left he] at ht

theorem distance_eq (h : Near d p p') (hq : Near e q q') : p.distance q = p'.distance q' := by
  rw [Point.distance_eq, Point.distance_eq, h.after, hq.after]

theorem index_lt_iff (h : Near d p p') (hq : Near e q q') :
    p.index < q.index ↔ p'.index < q'.index := by
  rw [Point.index_lt_iff, Point.index_lt_iff, h.after, hq.after]

theorem text_eq (p q : Point o) : p.before.reverse ++ p.after = q.before.reverse ++ q.after := by
  rw [← List.reverseAux_eq, ← List.reverseAux_eq, p.reverseAux_before, q.reverseAux_before]

/-- A later point has the text since an earlier one before it. -/
theorem before_of_le (h : q.after.length ≤ p.after.length) :
    ∃ x, p.after = x ++ q.after ∧ q.before = x.reverse ++ p.before := by
  have ht := text_eq p q
  rcases List.append_eq_append_iff.mp ht with ⟨x, hq, hp⟩ | ⟨x, hp, hq⟩
  · refine ⟨x, hp, ?_⟩
    have hr := congrArg List.reverse hq
    rwa [List.reverse_reverse, List.reverse_append, List.reverse_reverse] at hr
  · have hl := congrArg List.length hq
    rw [List.length_append] at hl
    have hx : x = [] := List.length_eq_zero_iff.mp (by omega)
    subst hx
    refine ⟨[], hq.symm, ?_⟩
    rw [List.append_nil] at hp
    exact (List.reverse_inj.mp hp).symm

/-- Later points of near points are near as well, if the same text stands after them. -/
theorem forward (h : Near d p p') (hle : q.after.length ≤ p.after.length)
    (ha : q.after = q'.after) (hg : q.groups = q'.groups) : Near d q q' := by
  obtain ⟨x, hx, hb⟩ := before_of_le hle
  have hle' : q'.after.length ≤ p'.after.length := by rwa [← ha, ← h.after]
  obtain ⟨x', hx', hb'⟩ := before_of_le hle'
  have hxx : x = x' := by
    have hs : x ++ q.after = x' ++ q.after := by rw [← hx, h.after, hx', ha]
    exact List.append_cancel_right hs
  subst hxx
  refine ⟨ha, hg, ?_⟩
  rw [hb, hb', List.take_append, List.take_append]
  exact congrArg _ (h.mono (Nat.sub_le d _)).before

theorem next?_cases (h : Near d p p') :
    (p.next? = none ∧ p'.next? = none) ∨
      ∃ c q q', p.next? = some (c, q) ∧ p'.next? = some (c, q') ∧ Near (d + 1) q q' := by
  obtain ⟨b, a, i, g, ht, hi⟩ := p
  obtain ⟨b', a', i', g', ht', hi'⟩ := p'
  obtain ⟨ha, hg, hb⟩ := h
  dsimp only at ha hg hb
  subst ha hg
  cases a with
  | nil => exact Or.inl ⟨rfl, rfl⟩
  | cons c a =>
    right
    refine ⟨c, _, _, rfl, rfl, rfl, rfl, ?_⟩
    change (c :: b).take (d + 1) = (c :: b').take (d + 1)
    rw [List.take_succ_cons, List.take_succ_cons, hb]

theorem back?_cases (n : Nat) (h : Near (n + d) p p') :
    (p.back? n = none ∧ p'.back? n = none) ∨
      ∃ q q', p.back? n = some q ∧ p'.back? n = some q' ∧ Near d q q' := by
  induction n generalizing p p' with
  | zero => exact Or.inr ⟨p, p', rfl, rfl, h.mono (by omega)⟩
  | succ n ih =>
    obtain ⟨b, a, i, g, ht, hi⟩ := p
    obtain ⟨b', a', i', g', ht', hi'⟩ := p'
    obtain ⟨ha, hg, hb⟩ := h
    dsimp only at ha hg hb
    subst ha hg
    rw [show n + 1 + d = n + d + 1 by omega] at hb
    cases b with
    | nil =>
      cases b' with
      | nil => exact Or.inl ⟨rfl, rfl⟩
      | cons c b' => exact absurd hb (by simp)
    | cons c b =>
      cases b' with
      | nil => exact absurd hb (by simp)
      | cons c' b' =>
        rw [List.take_succ_cons, List.take_succ_cons] at hb
        obtain ⟨hc, hd⟩ := List.cons.inj hb
        subst hc
        exact ih ⟨rfl, rfl, hd⟩

theorem stops (h : Near d p p') (set : CharSet) :
    List.Forall₂ (Near d) (p.stops set) (p'.stops set) := by
  obtain ⟨b, a, i, g, ht, hi⟩ := p
  obtain ⟨b', a', i', g', ht', hi'⟩ := p'
  obtain ⟨ha, hg, hb⟩ := h
  dsimp only at ha hg hb
  subst ha hg
  change List.Forall₂ _ (stopsFrom set g b a i ht hi) (stopsFrom set g b' a i' ht' hi')
  induction a generalizing b b' i i' d with
  | nil => exact .cons ⟨rfl, rfl, hb⟩ .nil
  | cons c a ih =>
    unfold stopsFrom
    refine .cons ⟨rfl, rfl, hb⟩ ?_
    split
    · have hb' : (c :: b).take (d + 1) = (c :: b').take (d + 1) := by
        rw [List.take_succ_cons, List.take_succ_cons, hb]
      have hlater := ih _ (i + 1) ht (length_next c hi) _ (i' + 1) (length_next c hi') hb'
      exact (hlater ht').imp fun _ _ hn => hn.mono (Nat.le_succ d)
    · exact .nil

theorem over?_cases (h : Near d p p') (anyCase : Bool) (word : Text) :
    (p.over? anyCase word = none ∧ p'.over? anyCase word = none) ∨
      ∃ q q', p.over? anyCase word = some q ∧ p'.over? anyCase word = some q' ∧ Near d q q' := by
  induction word generalizing p p' with
  | nil => exact Or.inr ⟨p, p', rfl, rfl, h⟩
  | cons w word ih =>
    unfold over?
    rcases h.next?_cases with ⟨h1, h2⟩ | ⟨c, q, q', h1, h2, hn⟩
    · rw [h1, h2]
      exact Or.inl ⟨rfl, rfl⟩
    · rw [h1, h2]
      dsimp only
      split
      · exact ih (hn.mono (Nat.le_succ d))
      · exact Or.inl ⟨rfl, rfl⟩

theorem remember (h : Near d p p') (hq : Near e q q') (n : Nat) :
    Near e (p.remember n q) (p'.remember n q') := by
  refine ⟨hq.after, ?_, hq.before⟩
  change (n, p.after.take (p.distance q)) :: q.groups =
    (n, p'.after.take (p'.distance q')) :: q'.groups
  rw [h.after, h.distance_eq hq, hq.groups]

theorem holds_eq (h : Near (d + 1) p p') (e : Edge) :
    e.holds p.before p.after = e.holds p'.before p'.after := by
  have hhead : p.before.head? = p'.before.head? := by
    have hb := congrArg List.head? (h.mono (Nat.le_add_left 1 d)).before
    rwa [List.head?_take, List.head?_take, if_neg Nat.one_ne_zero, if_neg Nat.one_ne_zero] at hb
  have hempty : p.before.isEmpty = p'.before.isEmpty := by
    cases hb : p.before <;> cases hb' : p'.before <;> simp_all
  unfold Edge.holds
  rw [h.after, hhead, hempty]

end Near

end Point

namespace Regex

open Point (Near)

variable {o o' : Place}

/-- Answers of two kinds are alike where they end at related points. -/
structure Alike {α α' : Type} [Answer (Point o) α] [Answer (Point o') α']
    (rel : (Point o → Point o' → Prop) → α → α' → Prop) : Prop where
  found : ∀ (P : Point o → Point o' → Prop) q q', P q q' →
    rel P (Answer.found q) (Answer.found q')
  deadEnd : ∀ P : Point o → Point o' → Prop, rel P Answer.deadEnd Answer.deadEnd
  orElse : ∀ (P : Point o → Point o' → Prop) a a' (b : Unit → α) (b' : Unit → α'),
    rel P a a' → rel P (b ()) (b' ()) → rel P (Answer.orElse a b) (Answer.orElse a' b')
  follow : ∀ (P Q : Point o → Point o' → Prop) a a' (k : Point o → α) (k' : Point o' → α'),
    rel P a a' → (∀ q q', P q q' → rel Q (k q) (k' q')) →
      rel Q (Answer.follow a k) (Answer.follow a' k')
  barring : ∀ (P Q : Point o → Point o' → Prop) a a' (k : Unit → α) (k' : Unit → α'),
    rel P a a' → rel Q (k ()) (k' ()) → rel Q (Answer.barring a k) (Answer.barring a' k')

/-- Counted answers with as many dead ends. -/
def CountedRel (P : Point o → Point o' → Prop) (a : Counted (Point o)) (a' : Counted (Point o')) :
    Prop := a.deadEnds = a'.deadEnds ∧ Option.Rel P a.answer a'.answer

theorem alike_plain :
    Alike fun (P : Point o → Point o' → Prop) (a : Option (Point o)) (a' : Option (Point o')) =>
      Option.Rel P a a' where
  found P q q' h := .some h
  deadEnd P := .none
  orElse P a a' b b' ha hb := by
    cases ha with
    | none => exact hb
    | some h => exact .some h
  follow P Q a a' k k' ha hk := by
    cases ha with
    | none => exact .none
    | some h => exact hk _ _ h
  barring P Q a a' k k' ha hk := by
    cases ha with
    | none => exact hk
    | some h => exact .none

theorem alike_counted : Alike (CountedRel : (Point o → Point o' → Prop) → _ → _ → Prop) where
  found P q q' h := ⟨rfl, .some h⟩
  deadEnd P := ⟨rfl, .none⟩
  orElse P a a' b b' ha hb := by
    obtain ⟨n, a⟩ := a
    obtain ⟨n', a'⟩ := a'
    obtain ⟨rfl, ha⟩ := ha
    cases ha with
    | none => exact ⟨congrArg (n + ·) hb.1, hb.2⟩
    | some h => exact ⟨rfl, .some h⟩
  follow P Q a a' k k' ha hk := by
    obtain ⟨n, a⟩ := a
    obtain ⟨n', a'⟩ := a'
    obtain ⟨rfl, ha⟩ := ha
    cases ha with
    | none => exact ⟨rfl, .none⟩
    | some h => exact ⟨congrArg (n + ·) (hk _ _ h).1, (hk _ _ h).2⟩
  barring P Q a a' k k' ha hk := by
    obtain ⟨n, a⟩ := a
    obtain ⟨n', a'⟩ := a'
    obtain ⟨rfl, ha⟩ := ha
    cases ha with
    | none => exact ⟨congrArg (n + ·) hk.1, hk.2⟩
    | some h => exact ⟨rfl, .none⟩

variable {α α' : Type} [Answer (Point o) α] [Answer (Point o') α']
  {rel : (Point o → Point o' → Prop) → α → α' → Prop} {P : Point o → Point o' → Prop} {d : Nat}

theorem alike_firstOf (hr : Alike rel) {k : Point o → α} {k' : Point o' → α'}
    (hk : ∀ q q', Near d q q' → rel P (k q) (k' q')) {l : List (Point o)} {l' : List (Point o')}
    (h : List.Forall₂ (Near d) l l') : rel P (Answer.firstOf k l) (Answer.firstOf k' l') := by
  induction h with
  | nil => exact hr.deadEnd P
  | cons hq _ ih => exact hr.orElse P _ _ _ _ (hk _ _ hq) ih

/-- A loop does alike at near points, if each single round does. -/
theorem alike_loop (hr : Alike rel) (a : Regex) (greedy : Bool) (role : Role)
    (ha : ∀ (p : Point o) (p' : Point o') (k : Point o → α) (k' : Point o' → α'),
      Near (a.reach + d) p p' → (∀ q q', Near d q q' → rel P (k q) (k' q')) →
        rel P (run a role.followed p k) (run a role.followed p' k'))
    (k : Point o → α) (k' : Point o' → α') (hk : ∀ q q', Near d q q' → rel P (k q) (k' q'))
    (p : Point o) (p' : Point o') (hp : Near (a.reach + d) p p') :
    rel P (run (loop a greedy) role p k) (run (loop a greedy) role p' k') := by
  have hpd : Near d p p' := hp.mono (Nat.le_add_left d _)
  have hfurther := ha p p'
    (fun q => if p.index < q.index then run (loop a greedy) role q k
      else if role = .regular then k p else Answer.deadEnd)
    (fun q' => if p'.index < q'.index then run (loop a greedy) role q' k'
      else if role = .regular then k' p' else Answer.deadEnd) hp (by
    intro q q' hq
    by_cases hlt : p.index < q.index
    · -- The round went forward, so that nothing more is seen of what stands before `p`.
      have hlt' := (hp.index_lt_iff hq).mp hlt
      have hafter : q.after.length < p.after.length := (p.index_lt_iff q).mp hlt
      rw [if_pos hlt, if_pos hlt']
      exact alike_loop hr a greedy role ha k k' hk q q'
        (hp.forward (Nat.le_of_lt hafter) hq.after hq.groups)
    · have hlt' : ¬ p'.index < q'.index := fun h => hlt ((hp.index_lt_iff hq).mpr h)
      rw [if_neg hlt, if_neg hlt']
      split
      · exact hk p p' hpd
      · exact hr.deadEnd P)
  rw [run_loop, run_loop, round, round]
  cases greedy with
  | true =>
    rw [if_pos rfl, if_pos rfl]
    exact hr.orElse P _ _ _ _ hfurther (hk p p' hpd)
  | false =>
    rw [if_neg Bool.false_ne_true, if_neg Bool.false_ne_true]
    exact hr.orElse P _ _ _ _ (hk p p' hpd) hfurther
  termination_by p.after.length

/-- A pattern does alike at points that are near as far as it reaches. -/
theorem alike_run (hr : Alike rel) (r : Regex) (role : Role) (p : Point o) (p' : Point o')
    (k : Point o → α) (k' : Point o' → α') (hp : Near (r.reach + d) p p')
    (hk : ∀ q q', Near d q q' → rel P (k q) (k' q')) :
    rel P (run r role p k) (run r role p' k') := by
  -- The continuation may look `d` characters back; in a sequence, what comes after a part looks back
  -- as far as its own reach and `d` together, so that `d` varies in the induction.
  induction r generalizing role p p' k k' d P with
  | empty => exact hk p p' (hp.mono (Nat.le_add_left d _))
  | one set =>
    rw [run, run]
    rcases hp.next?_cases with ⟨h1, h2⟩ | ⟨c, q, q', h1, h2, hq⟩
    · rw [h1, h2]
      exact hr.deadEnd P
    · rw [h1, h2]
      dsimp only
      split
      · exact hk q q' (hq.mono (by omega))
      · exact hr.deadEnd P
  | many set greedy =>
    have hstops := (hp.mono (Nat.le_add_left d _)).stops set
    rw [run, run]
    cases greedy with
    | true => exact alike_firstOf hr hk (List.rel_reverse hstops)
    | false => exact alike_firstOf hr hk hstops
  | edge e =>
    have hholds := (hp.mono (show d + 1 ≤ (edge e).reach + d by rw [reach]; omega)).holds_eq e
    rw [run, run, hholds]
    split
    · exact hk p p' (hp.mono (Nat.le_add_left d _))
    · exact hr.deadEnd P
  | back n =>
    rw [run, run]
    rcases hp.back?_cases n with ⟨h1, h2⟩ | ⟨q, q', h1, h2, hq⟩
    · rw [h1, h2]
      exact hr.deadEnd P
    · rw [h1, h2]
      exact hk q q' hq
  | seq a b iha ihb =>
    rw [run, run]
    refine iha (d := b.reach + d) role.followed p p' _ _ ?_ ?_
    · rwa [← Nat.add_assoc]
    · intro q q' hq
      exact ihb (role.ending b) q q' k k' hq hk
  | alt a b iha ihb =>
    rw [run, run]
    have hmax := Nat.le_max_left a.reach b.reach
    have hmax' := Nat.le_max_right a.reach b.reach
    refine hr.orElse P _ _ _ _ ?_ ?_
    · exact iha (role.ending a) p p' k k' (hp.mono (by rw [reach]; omega)) hk
    · exact ihb (role.ending b) p p' k k' (hp.mono (by rw [reach]; omega)) hk
  | loop a greedy iha =>
    exact alike_loop hr a greedy role (fun p p' k k' hp hk => iha role.followed p p' k k' hp hk)
      k k' hk p p' hp
  | group n a iha =>
    rw [run, run]
    refine iha (role.ending a) p p' _ _ hp fun q q' hq => ?_
    exact hk _ _ (hp.remember hq n)
  | same n anyCase =>
    rw [run, run, hp.groups]
    cases p'.groups.lookup n with
    | none => exact hr.deadEnd P
    | some word =>
      dsimp only
      rcases (hp.mono (Nat.le_add_left d _)).over?_cases anyCase word with
        ⟨h1, h2⟩ | ⟨q, q', h1, h2, hq⟩
      · rw [h1, h2]
        exact hr.deadEnd P
      · rw [h1, h2]
        exact hk q q' hq
  | atomic a iha =>
    rw [run, run]
    refine hr.follow (Near d) P _ _ _ _ ?_ hk
    exact iha a.lastRole p p' _ _ hp fun q q' hq => hr.found (Near d) q q' hq
  | ahead a iha =>
    rw [run, run]
    refine hr.follow (Near d) P _ _ _ _ ?_ ?_
    · exact iha a.lastRole p p' _ _ hp fun q q' hq => hr.found (Near d) q q' hq
    · intro q q' hq
      -- The continuation goes back to where the look-ahead began, with what is remembered since.
      have hpd : Near d p p' := hp.mono (Nat.le_add_left d _)
      exact hk _ _ ⟨hpd.after, hq.groups, hpd.before⟩
  | notAhead a iha =>
    rw [run, run]
    refine hr.barring (Near d) P _ _ _ _ ?_ ?_
    · exact iha a.lastRole p p' _ _ hp fun q q' hq => hr.found (Near d) q q' hq
    · exact hk p p' (hp.mono (Nat.le_add_left d _))

theorem countedRel_attempt (r : Regex) (p : Point o) (p' : Point o') (h : Near r.reach p p') :
    CountedRel (Near 0) (r.attempt p) (r.attempt p') := by
  unfold attempt
  split
  · refine ⟨rfl, ?_⟩
    exact alike_run (d := 0) alike_plain r .regular p p' some some h fun q q' hq => .some hq
  · exact alike_run (d := 0) alike_counted r .last p p' _ _ h fun q q' hq => ⟨rfl, .some hq⟩

theorem attempt_cases (r : Regex) {p : Point o} {p' : Point o'} (h : Near r.reach p p') :
    (r.attempt p).deadEnds = (r.attempt p').deadEnds ∧
      ((r.attempt p).answer = none ∧ (r.attempt p').answer = none ∨
        ∃ q q', (r.attempt p).answer = some q ∧ (r.attempt p').answer = some q' ∧
          p.distance q = p'.distance q') := by
  obtain ⟨hd, ha⟩ := countedRel_attempt r p p' h
  refine ⟨hd, ?_⟩
  cases hq : (r.attempt p).answer <;> cases hq' : (r.attempt p').answer <;> rw [hq, hq'] at ha
  case none.none => exact Or.inl ⟨rfl, rfl⟩
  case some.some q q' =>
    cases ha with
    | some hnear => exact Or.inr ⟨q, q', rfl, rfl, h.distance_eq hnear⟩
  all_goals cases ha

theorem searchFrom_congr (r : Regex) (a b b' : Text) (i i' : Int)
    (ht : b.reverseAux a = o.text) (hi : b.length = i + o.before.length)
    (ht' : b'.reverseAux a = o'.text) (hi' : b'.length = i' + o'.before.length)
    (h : b.take r.reach = b'.take r.reach) (allowed : Nat) :
    r.searchFrom b a i ht hi allowed = r.searchFrom b' a i' ht' hi' allowed := by
  induction a generalizing b b' i i' allowed with
  | nil =>
    have hnear : Near r.reach (⟨b, [], i, [], ht, hi⟩ : Point o)
      (⟨b', [], i', [], ht', hi'⟩ : Point o') := ⟨rfl, rfl, h⟩
    obtain ⟨hd, hanswers⟩ := attempt_cases r hnear
    unfold searchFrom
    dsimp only
    rw [hd]
    split
    · rfl
    · rcases hanswers with ⟨hq, hq'⟩ | ⟨q, q', hq, hq', hdistance⟩
      · rw [hq, hq']
      · rw [hq, hq']
        simp only [hdistance]
  | cons c a ih =>
    have hnear : Near r.reach (⟨b, c :: a, i, [], ht, hi⟩ : Point o)
      (⟨b', c :: a, i', [], ht', hi'⟩ : Point o') := ⟨rfl, rfl, h⟩
    obtain ⟨hd, hanswers⟩ := attempt_cases r hnear
    -- One character further on, the two places agree on even more of what stands before them.
    have hnext : (c :: b).take r.reach = (c :: b').take r.reach := by
      have hs : (c :: b).take (r.reach + 1) = (c :: b').take (r.reach + 1) := by
        rw [List.take_succ_cons, List.take_succ_cons, h]
      have ht := congrArg (List.take r.reach) hs
      rwa [List.take_take, List.take_take, Nat.min_eq_left (Nat.le_succ _)] at ht
    unfold searchFrom
    dsimp only
    rw [hd]
    split
    · rfl
    · rcases hanswers with ⟨hq, hq'⟩ | ⟨q, q', hq, hq', hdistance⟩
      · rw [hq, hq']
        exact congrArg (Search.skipping c) (ih (c :: b) (c :: b') (i + 1) (i' + 1) ht
          (Point.length_next c hi) ht' (Point.length_next c hi') hnext _)
      · rw [hq, hq']
        simp only [hdistance]

end Regex

/-- What a search finds depends on no more text before it than the pattern can reach. -/
theorem Pattern.search_congr (p : Pattern) {left left' : Text} (right : Text)
    (h : left.take p.regex.reach = left'.take p.regex.reach) :
    p.search left right = p.search left' right :=
  Regex.searchFrom_congr p.regex right left left' 0 0 _ _ _ _ h searchLimit

end Highlighter
