import Highlighter.Proofs.Regex.First
import Mathlib.Data.List.Forall2

/-! Patterns that look only ahead. What such a pattern finds depends on the text after the place where
it is tried and on nothing before it (`first?_congr`), whichever constructions it is made of. -/
namespace Highlighter

namespace Spot

variable {s t u v : Spot}

/-- The same text comes after both spots, and the same texts are remembered there. -/
structure Abreast (s t : Spot) : Prop where
  after : s.after = t.after
  groups : s.groups = t.groups

namespace Abreast

theorem next?_cases (h : Abreast s t) : (s.next? = none ∧ t.next? = none) ∨
    ∃ c u v, s.next? = some (c, u) ∧ t.next? = some (c, v) ∧ Abreast u v := by
  obtain ⟨b, a, g⟩ := s
  obtain ⟨b', a', g'⟩ := t
  obtain ⟨rfl, rfl⟩ := h
  cases a with
  | nil => exact Or.inl ⟨rfl, rfl⟩
  | cons c a => exact Or.inr ⟨c, ⟨c :: b, a, g⟩, ⟨c :: b', a, g⟩, rfl, rfl, ⟨rfl, rfl⟩⟩

theorem stops (h : Abreast s t) (set : CharSet) :
    List.Forall₂ Abreast (s.stops set) (t.stops set) := by
  obtain ⟨b, a, g⟩ := s
  obtain ⟨b', a', g'⟩ := t
  obtain ⟨rfl, rfl⟩ := h
  change List.Forall₂ Abreast (stopsFrom set g b a) (stopsFrom set g b' a)
  induction a generalizing b b' with
  | nil => exact .cons ⟨rfl, rfl⟩ .nil
  | cons c a ih =>
    unfold stopsFrom
    refine .cons ⟨rfl, rfl⟩ ?_
    split
    · exact ih (c :: b) (c :: b')
    · exact .nil

theorem over?_cases (h : Abreast s t) (anyCase : Bool) (word : Text) :
    (s.over? anyCase word = none ∧ t.over? anyCase word = none) ∨
      ∃ u v, s.over? anyCase word = some u ∧ t.over? anyCase word = some v ∧ Abreast u v := by
  induction word generalizing s t with
  | nil => exact Or.inr ⟨s, t, rfl, rfl, h⟩
  | cons w word ih =>
    unfold over?
    rcases h.next?_cases with ⟨hs, ht⟩ | ⟨c, u, v, hs, ht, huv⟩
    · rw [hs, ht]
      exact Or.inl ⟨rfl, rfl⟩
    · rw [hs, ht]
      dsimp only
      split
      · exact ih huv
      · exact Or.inl ⟨rfl, rfl⟩

theorem remember (h : Abreast s t) (huv : Abreast u v) (n : Nat) :
    Abreast (s.remember n u) (t.remember n v) := by
  refine ⟨huv.after, ?_⟩
  change (n, s.textUpTo u) :: u.groups = (n, t.textUpTo v) :: v.groups
  rw [textUpTo, textUpTo, h.after, huv.after, huv.groups]

theorem head?_cases {l l' : List Spot} (h : List.Forall₂ Abreast l l') :
    (l.head? = none ∧ l'.head? = none) ∨
      ∃ u v, l.head? = some u ∧ l'.head? = some v ∧ Abreast u v := by
  cases h with
  | nil => exact Or.inl ⟨rfl, rfl⟩
  | cons huv _ => exact Or.inr ⟨_, _, rfl, rfl, huv⟩

theorem toList {o o' : Option Spot}
    (h : (o = none ∧ o' = none) ∨ ∃ u v, o = some u ∧ o' = some v ∧ Abreast u v) :
    List.Forall₂ Abreast o.toList o'.toList := by
  obtain ⟨rfl, rfl⟩ | ⟨u, v, rfl, rfl, huv⟩ := h
  · exact .nil
  · exact .cons huv .nil

theorem isEmpty_eq {l l' : List Spot} (h : List.Forall₂ Abreast l l') : l.isEmpty = l'.isEmpty := by
  cases h <;> rfl

end Abreast

end Spot

namespace Regex

open Spot (Abreast)

/-- Does the pattern ask only for what comes after a place?  It then neither steps back nor sets a
condition on the character before. -/
def looksAhead : Regex → Bool
  | empty | one _ | many _ _ | same _ _ => true
  | edge e => e = .textEnd || e = .lineEnd
  | back _ => false
  | seq a b | alt a b => a.looksAhead && b.looksAhead
  | loop a _ | group _ a | atomic a | ahead a | notAhead a => a.looksAhead

theorem holds_congr {e : Edge} (h : (edge e).looksAhead = true) (before before' after : Text) :
    e.holds before after = e.holds before' after := by
  cases e with
  | textEnd | lineEnd => rfl
  | textStart | lineStart | wordEdge | noWordEdge => exact absurd h (by decide)

/-- A loop ends alike at spots that are abreast, if each single round does. -/
theorem abreast_loopEnds {step : Spot → List Spot}
    (hstep : ∀ s t, Abreast s t → List.Forall₂ Abreast (step s) (step t)) (role : Role)
    (greedy : Bool) (s t : Spot) (h : Abreast s t) :
    List.Forall₂ Abreast (loopEnds step role greedy s) (loopEnds step role greedy t) := by
  have hfurther : List.Forall₂ Abreast
      ((step s).flatMap fun u => if u.after.length < s.after.length then loopEnds step role greedy u
        else if role = .regular then [s] else [])
      ((step t).flatMap fun v => if v.after.length < t.after.length then loopEnds step role greedy v
        else if role = .regular then [t] else []) := by
    refine List.rel_flatMap (hstep s t h) fun u v huv => ?_
    rw [← huv.after, ← h.after]
    split
    · exact abreast_loopEnds hstep role greedy u v huv
    · split
      · exact .cons h .nil
      · exact .nil
  rw [loopEnds, loopEnds]
  cases greedy with
  | true => exact List.rel_append hfurther (.cons h .nil)
  | false => exact .cons h hfurther
  termination_by s.after.length

/-- A pattern that looks only ahead ends alike at spots that are abreast. -/
theorem abreast_ends {r : Regex} (hr : r.looksAhead = true) (role : Role) {s t : Spot}
    (h : Abreast s t) : List.Forall₂ Abreast (r.ends role s) (r.ends role t) := by
  induction r generalizing role s t with
  | empty => exact .cons h .nil
  | one set =>
    rw [ends, ends]
    rcases h.next?_cases with ⟨hs, ht⟩ | ⟨c, u, v, hs, ht, huv⟩
    · rw [hs, ht]
      exact .nil
    · rw [hs, ht]
      dsimp only
      split
      · exact .cons huv .nil
      · exact .nil
  | many set greedy =>
    rw [ends, ends]
    cases greedy with
    | true => exact List.rel_reverse (h.stops set)
    | false => exact h.stops set
  | edge e =>
    rw [ends, ends, holds_congr hr s.before t.before, h.after]
    split
    · exact .cons h .nil
    · exact .nil
  | back n => exact absurd hr Bool.false_ne_true
  | seq a b iha ihb =>
    obtain ⟨ha, hb⟩ := (Bool.and_eq_true _ _).mp hr
    rw [ends, ends]
    exact List.rel_flatMap (iha ha role.followed h) fun u v huv => ihb hb (role.ending b) huv
  | alt a b iha ihb =>
    obtain ⟨ha, hb⟩ := (Bool.and_eq_true _ _).mp hr
    rw [ends, ends]
    exact List.rel_append (iha ha (role.ending a) h) (ihb hb (role.ending b) h)
  | loop a greedy iha =>
    rw [ends, ends]
    exact abreast_loopEnds (fun u v huv => iha hr role.followed huv) role greedy s t h
  | group n a iha =>
    rw [ends, ends]
    have hremember {u v : Spot} (huv : Abreast u v) : Abreast (s.remember n u) (t.remember n v) :=
      h.remember huv n
    exact List.rel_map (R := Abreast) (P := Abreast) (fun _ _ => hremember) (iha hr (role.ending a) h)
  | same n anyCase =>
    rw [ends, ends, h.groups]
    cases t.groups.lookup n with
    | none => exact .nil
    | some word => exact Abreast.toList (h.over?_cases anyCase word)
  | atomic a iha =>
    rw [ends, ends]
    exact Abreast.toList (Abreast.head?_cases (iha hr a.lastRole h))
  | ahead a iha =>
    rw [ends, ends]
    rcases Abreast.head?_cases (iha hr a.lastRole h) with ⟨hs, ht⟩ | ⟨u, v, hs, ht, huv⟩
    · rw [hs, ht]
      exact .nil
    · rw [hs, ht]
      exact .cons ⟨h.after, huv.groups⟩ .nil
  | notAhead a iha =>
    rw [ends, ends, Abreast.isEmpty_eq (iha hr a.lastRole h)]
    split
    · exact .cons h .nil
    · exact .nil

/-- What stands before makes no difference to where a pattern matches that looks only ahead. -/
theorem first?_congr {r : Regex} (hr : r.looksAhead = true) (left left' right : Text) :
    r.first? left right = r.first? left' right := by
  have hends (left left' right : Text) :
      List.Forall₂ Abreast (r.endsAt left right) (r.endsAt left' right) :=
    abreast_ends hr r.lastRole ⟨rfl, rfl⟩
  have hmatch {right : Text} {e e' : Spot} (h : Abreast e e') :
      matchUpTo right e = matchUpTo right e' := by
    rw [matchUpTo, matchUpTo, h.after]
  induction right generalizing left left' with
  | nil =>
    have h := hends left left' []
    cases he : r.endsAt left [] <;> cases he' : r.endsAt left' [] <;> rw [he, he'] at h <;> cases h
    · rw [first?_nil he, first?_nil he']
    · next huv _ => rw [first?_of_ends he, first?_of_ends he', hmatch huv]
  | cons c right ih =>
    have h := hends left left' (c :: right)
    cases he : r.endsAt left (c :: right) <;> cases he' : r.endsAt left' (c :: right) <;>
      rw [he, he'] at h <;> cases h
    · rw [first?_cons he, first?_cons he', ih (c :: left) (c :: left')]
    · next huv _ => rw [first?_of_ends he, first?_of_ends he', hmatch huv]

end Regex

end Highlighter
