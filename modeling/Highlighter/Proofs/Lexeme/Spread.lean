import Highlighter.Proofs.Lexeme.Basic
import Mathlib.Data.List.TakeWhile

/-! Every recognizer is sound: it divides what it reads, finds nothing that begins with a space, and
does not mind how many spaces stand where there is one. -/
namespace Highlighter

open Lexeme

namespace Spread

variable {α : Type} {sym : α → Char} {seen : α → Text}

theorem seen_of_ne (h : Spread sym seen) {a : α} (ha : sym a ≠ ' ') : seen a = [sym a] := by
  obtain ⟨k, hk, rfl | hs⟩ := h a
  · exact hk
  · exact absurd hs ha

theorem seen_of_eq (h : Spread sym seen) {a : α} (ha : sym a = ' ') :
    ∃ k, seen a = List.replicate (k + 1) ' ' := by
  obtain ⟨k, hk, _⟩ := h a
  exact ⟨k, ha ▸ hk⟩

theorem seen_eq_cons (h : Spread sym seen) (a : α) :
    ∃ k, seen a = sym a :: List.replicate k ' ' := by
  by_cases ha : sym a = ' '
  · obtain ⟨k, hk⟩ := h.seen_of_eq ha
    exact ⟨k, by rw [hk, ha, List.replicate_succ]⟩
  · exact ⟨0, h.seen_of_ne ha⟩

theorem flatMap_cons_of_ne (h : Spread sym seen) {a : α} (ha : sym a ≠ ' ') (l : List α) :
    (a :: l).flatMap seen = sym a :: l.flatMap seen := by
  rw [List.flatMap_cons, h.seen_of_ne ha, List.singleton_append]

theorem flatMap_cons (h : Spread sym seen) (a : α) (l : List α) :
    ∃ t, (a :: l).flatMap seen = sym a :: t := by
  obtain ⟨k, hk⟩ := h.seen_eq_cons a
  exact ⟨_, by rw [List.flatMap_cons, hk, List.cons_append]⟩

theorem head?_flatMap (h : Spread sym seen) (l : List α) :
    (l.flatMap seen).head? = l.head?.map sym := by
  cases l with
  | nil => rfl
  | cons a l =>
    obtain ⟨t, ht⟩ := h.flatMap_cons a l
    rw [ht]
    rfl

theorem flatMap_eq_nil (h : Spread sym seen) {l : List α} : l.flatMap seen = [] ↔ l = [] := by
  cases l with
  | nil => exact iff_of_true rfl rfl
  | cons a l =>
    obtain ⟨t, ht⟩ := h.flatMap_cons a l
    rw [ht]
    exact iff_of_false (List.cons_ne_nil _ _) (List.cons_ne_nil _ _)

theorem takeWhile_flatMap (h : Spread sym seen) (P : Char → Bool) (l : List α) :
    (l.flatMap seen).takeWhile P = (l.takeWhile (P ∘ sym)).flatMap seen := by
  induction l with
  | nil => rfl
  | cons a l ih =>
    obtain ⟨k, hk, _⟩ := h a
    rw [List.flatMap_cons, List.takeWhile_cons, hk, Function.comp_apply]
    by_cases hP : P (sym a) = true
    · rw [if_pos hP, List.flatMap_cons, hk, ← ih]
      exact List.takeWhile_append_of_pos fun c hc => by rwa [List.eq_of_mem_replicate hc]
    · rw [if_neg hP, List.replicate_succ, List.cons_append, List.takeWhile_cons_of_neg hP]
      rfl

theorem dropWhile_flatMap (h : Spread sym seen) (P : Char → Bool) (l : List α) :
    (l.flatMap seen).dropWhile P = (l.dropWhile (P ∘ sym)).flatMap seen := by
  have hparts : (l.takeWhile (P ∘ sym)).flatMap seen ++ (l.flatMap seen).dropWhile P =
      l.flatMap seen := by
    rw [← h.takeWhile_flatMap, List.takeWhile_append_dropWhile]
  have hwhole : (l.takeWhile (P ∘ sym)).flatMap seen ++ (l.dropWhile (P ∘ sym)).flatMap seen =
      l.flatMap seen := by
    rw [← List.flatMap_append, List.takeWhile_append_dropWhile]
  exact List.append_cancel_left (hparts.trans hwhole.symm)

end Spread

namespace Lexeme

variable {α : Type} {sym : α → Char} {seen : α → Text}

theorem widen_prepend (x : List α) (w : List α × List α) :
    widen seen (prepend x w) = prepend (x.flatMap seen) (widen seen w) := by
  rw [widen, prepend, List.flatMap_append]
  rfl

theorem prepend_prepend (x y : List α) (w : List α × List α) :
    prepend x (prepend y w) = prepend (x ++ y) w := by
  rw [prepend, prepend, prepend, List.append_assoc]

theorem map_prepend_prepend (x y : List α) (o : Option (List α × List α)) :
    (o.map (prepend y)).map (prepend x) = o.map (prepend (x ++ y)) := by
  rw [Option.map_map]
  exact congrArg (o.map ·) (funext fun w => prepend_prepend x y w)

theorem map_prepend_eq_some {x u v : List α} {o : Option (List α × List α)}
    (h : o.map (prepend x) = some (u, v)) : ∃ u', o = some (u', v) ∧ u = x ++ u' := by
  obtain ⟨⟨u', v'⟩, hw, heq⟩ := Option.map_eq_some_iff.mp h
  obtain ⟨rfl, rfl⟩ := Prod.mk.inj heq
  exact ⟨u', hw, rfl⟩

/-- A division found behind some things is found as well behind what is seen of them. -/
theorem map_widen_prepend {f : Option (Text × Text)} {o : Option (List α × List α)} (x : List α)
    (h : f = o.map (widen seen)) :
    f.map (prepend (x.flatMap seen)) = (o.map (prepend x)).map (widen seen) := by
  rw [h, Option.map_map, Option.map_map]
  exact congrArg (o.map ·) (funext fun w => (widen_prepend x w).symm)

section Run

variable {set : CharSet} {l u v : List α}

theorem run?_of_ne (h : l.takeWhile (set.has ∘ sym) ≠ []) :
    run? set sym l = some (l.takeWhile (set.has ∘ sym), l.dropWhile (set.has ∘ sym)) := if_neg h

theorem run?_of_eq (h : l.takeWhile (set.has ∘ sym) = []) : run? set sym l = none := if_pos h

theorem run?_eq_some (h : run? set sym l = some (u, v)) :
    l = u ++ v ∧ u ≠ [] ∧ ∀ a ∈ u, set.has (sym a) = true := by
  by_cases hl : l.takeWhile (set.has ∘ sym) = []
  · rw [run?_of_eq hl] at h
    exact absurd h (by simp)
  · rw [run?_of_ne hl] at h
    obtain ⟨rfl, rfl⟩ := Prod.mk.inj (Option.some.inj h)
    exact ⟨List.takeWhile_append_dropWhile.symm, hl, fun a ha =>
      (List.mem_takeWhile_imp ha : (set.has ∘ sym) a = true)⟩

theorem run?_flatMap (h : Spread sym seen) (set : CharSet) (l : List α) :
    run? set id (l.flatMap seen) = (run? set sym l).map (widen seen) := by
  have htake := h.takeWhile_flatMap set.has l
  have hdrop := h.dropWhile_flatMap set.has l
  by_cases hl : l.takeWhile (set.has ∘ sym) = []
  · have hnone : run? set id (l.flatMap seen) = none :=
      run?_of_eq (htake.trans (h.flatMap_eq_nil.mpr hl))
    rw [run?_of_eq hl, hnone]
    rfl
  · have hne : (l.flatMap seen).takeWhile (set.has ∘ id) ≠ [] :=
      fun hn => hl (h.flatMap_eq_nil.mp (htake.symm.trans hn))
    rw [run?_of_ne hl, run?_of_ne hne]
    exact congrArg some (congrArg₂ Prod.mk htake hdrop)

end Run

section After

variable {first : Char → Bool} {later : Char → List α → Option (List α × List α)} {l u v : List α}

theorem after?_cons_of_pos {a : α} (ha : first (sym a) = true) (l : List α) :
    after? first sym later (a :: l) = (later (sym a) l).map (prepend [a]) := if_pos ha

theorem after?_cons_of_neg {a : α} (ha : first (sym a) = false) (l : List α) :
    after? first sym later (a :: l) = none := if_neg (ha ▸ Bool.false_ne_true)

theorem after?_eq_some (h : after? first sym later l = some (u, v)) :
    ∃ a l' u', l = a :: l' ∧ u = a :: u' ∧ first (sym a) = true ∧ later (sym a) l' = some (u', v) := by
  cases l with
  | nil => exact absurd h (by simp [after?])
  | cons a l =>
    rw [after?] at h
    split at h
    · rename_i ha
      obtain ⟨u', hu', rfl⟩ := map_prepend_eq_some h
      exact ⟨a, l, u', rfl, rfl, ha, hu'⟩
    · exact absurd h (by simp)

theorem after?_divides (hfirst : first ' ' = false)
    (hlater : ∀ {c l u v}, later c l = some (u, v) → l = u ++ v)
    (h : after? first sym later l = some (u, v)) :
    l = u ++ v ∧ ∃ a, u.head? = some a ∧ sym a ≠ ' ' := by
  obtain ⟨a, l', u', rfl, rfl, ha, hl⟩ := after?_eq_some h
  exact ⟨congrArg (a :: ·) (hlater hl), a, rfl,
    ne_of_apply_ne first (by rw [ha, hfirst]; decide)⟩

theorem after?_flatMap {later' : Char → Text → Option (Text × Text)} (h : Spread sym seen)
    (hfirst : first ' ' = false)
    (hlater : ∀ c l, later' c (l.flatMap seen) = (later c l).map (widen seen)) (l : List α) :
    after? first id later' (l.flatMap seen) = (after? first sym later l).map (widen seen) := by
  cases l with
  | nil => rfl
  | cons a l =>
    by_cases ha : first (sym a) = true
    · have hne : sym a ≠ ' ' := ne_of_apply_ne first (by rw [ha, hfirst]; decide)
      have hone : [sym a] = [a].flatMap seen := by
        rw [h.flatMap_cons_of_ne hne]
        rfl
      rw [h.flatMap_cons_of_ne hne, after?, after?, id, if_pos ha, if_pos ha, hone]
      exact map_widen_prepend [a] (hlater _ l)
    · obtain ⟨t, ht⟩ := h.flatMap_cons a l
      rw [ht, after?, after?, id, if_neg ha, if_neg ha]
      rfl

end After

theorem widen_line (h : Spread sym seen) (l : List α) :
    line id (l.flatMap seen) = widen seen (line sym l) :=
  congrArg₂ Prod.mk (h.takeWhile_flatMap _ l) (h.dropWhile_flatMap _ l)

theorem sound_lineComment : Recognizer.Sound lineComment where
  divides h := after?_divides (by decide) (fun h =>
    (after?_divides (by decide) (fun h => by
      obtain ⟨rfl, rfl⟩ := Prod.mk.inj (Option.some.inj h)
      exact List.takeWhile_append_dropWhile.symm) h).1) h
  spread hs _ l := after?_flatMap hs (by decide) (fun _ =>
    after?_flatMap hs (by decide) fun _ l => congrArg some (widen_line hs l)) l

/-- The two ways to go on are found in the text as well. -/
theorem or_map_widen (o o' : Option (List α × List α)) :
    (o.map (widen seen)).or (o'.map (widen seen)) = (o.or o').map (widen seen) := by
  cases o <;> rfl

theorem flatMap_singleton_of_ne (h : Spread sym seen) {a : α} (ha : sym a ≠ ' ') :
    [a].flatMap seen = [sym a] := by
  rw [List.flatMap_singleton, h.seen_of_ne ha]

theorem close?_flatMap (h : Spread sym seen) (l : List α) :
    close? id (l.flatMap seen) = (close? sym l).map (widen seen) :=
  after?_flatMap h (by decide) (fun _ => after?_flatMap h (by decide) fun _ _ => rfl) l

theorem close?_eq_some {l u v : List α} (h : close? sym l = some (u, v)) :
    ∃ a b, l = a :: b :: v ∧ u = [a, b] ∧ sym a = '*' ∧ sym b = '/' := by
  obtain ⟨a, _, _, rfl, rfl, ha, h⟩ := after?_eq_some h
  obtain ⟨b, _, _, rfl, rfl, hb, h⟩ := after?_eq_some h
  obtain ⟨rfl, rfl⟩ := Prod.mk.inj (Option.some.inj h)
  exact ⟨a, b, rfl, rfl, of_decide_eq_true ha, of_decide_eq_true hb⟩

theorem close?_cons_of_ne {a : α} (h : sym a ≠ '*') (l : List α) : close? sym (a :: l) = none :=
  if_neg fun ha => h (of_decide_eq_true ha)

/-- What is found up to the end of a comment ends with this end. -/
theorem upToClose_eq_some {l u v : List α} (h : upToClose sym l = some (u, v)) :
    l = u ++ v ∧ ∃ a, u.getLast? = some a ∧ sym a = '/' := by
  induction l generalizing u with
  | nil => exact absurd h (by simp [upToClose])
  | cons a l ih =>
    rw [upToClose] at h
    rcases Option.or_eq_some_iff.mp h with h | ⟨_, h⟩
    · obtain ⟨a, b, hl, rfl, _, hb⟩ := close?_eq_some h
      exact ⟨hl, b, rfl, hb⟩
    · obtain ⟨u', hu', rfl⟩ := map_prepend_eq_some h
      obtain ⟨rfl, b, hlast, hb⟩ := ih hu'
      exact ⟨rfl, b, by rw [List.getLast?_append, hlast]; rfl, hb⟩

theorem upToClose_cons_of_ne {a : α} (h : sym a ≠ '*') (l : List α) :
    upToClose sym (a :: l) = (upToClose sym l).map (prepend [a]) := by
  rw [upToClose, close?_cons_of_ne h, Option.none_or]

theorem upToClose_spaces (n : Nat) (t : Text) :
    upToClose id (List.replicate n ' ' ++ t) =
      (upToClose id t).map (prepend (List.replicate n ' ')) := by
  induction n with
  | zero => exact Option.map_id'.symm
  | succ n ih =>
    rw [List.replicate_succ, List.cons_append, upToClose_cons_of_ne (by decide), ih,
      map_prepend_prepend]
    rfl

theorem upToClose_flatMap (h : Spread sym seen) (l : List α) :
    upToClose id (l.flatMap seen) = (upToClose sym l).map (widen seen) := by
  induction l with
  | nil => rfl
  | cons a l ih =>
    have hlater := map_widen_prepend [a] ih
    by_cases ha : sym a = ' '
    · obtain ⟨k, hk⟩ := h.seen_of_eq ha
      rw [List.flatMap_singleton, hk] at hlater
      rw [List.flatMap_cons, hk, upToClose_spaces, upToClose_cons_of_ne (by rw [ha]; decide), hlater]
    · have hclose := close?_flatMap h (a :: l)
      rw [flatMap_singleton_of_ne h ha] at hlater
      rw [h.flatMap_cons_of_ne ha] at hclose ⊢
      rw [upToClose, upToClose, hclose, hlater, or_map_widen]

theorem sound_blockComment : Recognizer.Sound blockComment where
  divides h := after?_divides (by decide) (fun h =>
    (after?_divides (by decide) (fun h => (upToClose_eq_some h).1) h).1) h
  spread hs _ l := after?_flatMap hs (by decide) (fun _ =>
    after?_flatMap hs (by decide) fun _ => upToClose_flatMap hs) l

theorem sound_decorator : Recognizer.Sound decorator where
  divides h := after?_divides (by decide) (fun h => (run?_eq_some h).1) h
  spread hs _ l := after?_flatMap hs (by decide) (fun _ => run?_flatMap hs _) l

theorem sound_closingParen : Recognizer.Sound closingParen where
  divides h := after?_divides (by decide) (fun h => by
    obtain ⟨rfl, rfl⟩ := Prod.mk.inj (Option.some.inj h)
    rfl) h
  spread hs _ l := after?_flatMap hs (by decide) (fun _ _ => rfl) l

theorem sound_radix : Recognizer.Sound radix where
  divides h := after?_divides rfl (fun h => (run?_eq_some h).1) h
  spread hs _ l := after?_flatMap hs rfl (fun _ => run?_flatMap hs _) l

theorem radix_eq_some {prev : Option Char} {l u v : List α} (h : radix sym prev l = some (u, v)) :
    ∃ a l' u', l = a :: l' ∧ u = a :: u' ∧ sym a = '0' ∧ prev.any Pattern.numberSet.has = false ∧
      run? Pattern.alphanumeric sym l' = some (u', v) := by
  obtain ⟨a, l', u', hl, hu, ha, h⟩ := after?_eq_some h
  obtain ⟨hzero, hprev⟩ := (Bool.and_eq_true _ _).mp ha
  exact ⟨a, l', u', hl, hu, of_decide_eq_true hzero, (Bool.not_eq_true' _).mp hprev, h⟩

/-- A run of members of a set without the space begins and ends with no space. -/
theorem run?_edges {set : CharSet} (hset : set.has ' ' = false) {l u v : List α}
    (h : run? set sym l = some (u, v)) :
    (∃ a, u.head? = some a ∧ sym a ≠ ' ') ∧ ∃ a, u.getLast? = some a ∧ sym a ≠ ' ' := by
  obtain ⟨_, hne, hall⟩ := run?_eq_some h
  have hblank (a : α) (ha : a ∈ u) : sym a ≠ ' ' := by
    intro hs
    have hmem := hall a ha
    rw [hs, hset] at hmem
    exact Bool.false_ne_true hmem
  exact ⟨⟨u.head hne, List.head?_eq_some_head hne, hblank _ (List.head_mem hne)⟩,
    ⟨u.getLast hne, List.getLast?_eq_some_getLast hne, hblank _ (List.getLast_mem hne)⟩⟩

theorem functionOpen_eq_some {prev : Option Char} {l u v : List α}
    (h : functionOpen sym prev l = some (u, v)) :
    ∃ name a, run? Pattern.nameSet sym l = some (name, a :: v) ∧ u = name ++ [a] ∧ sym a = '(' := by
  obtain ⟨⟨name, rest⟩, hname, h⟩ := Option.bind_eq_some_iff.mp h
  obtain ⟨u', hu', rfl⟩ := map_prepend_eq_some h
  obtain ⟨a, _, _, rfl, rfl, ha, h⟩ := after?_eq_some hu'
  obtain ⟨rfl, rfl⟩ := Prod.mk.inj (Option.some.inj h)
  exact ⟨name, a, hname, rfl, of_decide_eq_true ha⟩

theorem sound_functionOpen : Recognizer.Sound functionOpen where
  divides h := by
    obtain ⟨name, a, hname, rfl, _⟩ := functionOpen_eq_some h
    obtain ⟨b, hb, hs⟩ := (run?_edges (by decide) hname).1
    obtain ⟨rfl, _⟩ := run?_eq_some hname
    exact ⟨by rw [List.append_assoc]; rfl, b, by rw [List.head?_append, hb]; rfl, hs⟩
  spread {_ sym seen} hs _ l := by
    unfold functionOpen
    rw [run?_flatMap hs]
    cases run? Pattern.nameSet sym l with
    | none => rfl
    | some w => exact map_widen_prepend w.1 (after?_flatMap hs (by decide) (fun _ _ => rfl) w.2)

/-- What is found up to a closing quote ends with this quote. -/
theorem upToQuote_eq_some {quote : Char} {l u v : List α} (h : upToQuote quote sym l = some (u, v)) :
    l = u ++ v ∧ ∃ a, u.getLast? = some a ∧ sym a = quote := by
  fun_induction upToQuote quote sym l generalizing u with
  | case1 => exact absurd h (by simp)
  | case2 a ha =>
    obtain ⟨rfl, rfl⟩ := Prod.mk.inj (Option.some.inj h)
    exact ⟨rfl, a, rfl, ha⟩
  | case3 => exact absurd h (by simp)
  | case4 a b l ha =>
    obtain ⟨rfl, rfl⟩ := Prod.mk.inj (Option.some.inj h)
    exact ⟨rfl, a, rfl, ha⟩
  | case5 a b l _ _ ihescape ihplain =>
    rcases Option.or_eq_some_iff.mp h with h | ⟨_, h⟩
    · obtain ⟨u', hu', rfl⟩ := map_prepend_eq_some h
      obtain ⟨rfl, c, hc, hs⟩ := ihescape hu'
      exact ⟨rfl, c, by rw [List.getLast?_append, hc]; rfl, hs⟩
    · obtain ⟨u', hu', rfl⟩ := map_prepend_eq_some h
      obtain ⟨hl, c, hc, hs⟩ := ihplain hu'
      exact ⟨congrArg (a :: ·) hl, c, by rw [List.getLast?_append, hc]; rfl, hs⟩
  | case6 a b l _ _ ih =>
    obtain ⟨u', hu', rfl⟩ := map_prepend_eq_some h
    obtain ⟨hl, c, hc, hs⟩ := ih hu'
    exact ⟨congrArg (a :: ·) hl, c, by rw [List.getLast?_append, hc]; rfl, hs⟩

theorem upToQuote_cons_of_eq {quote : Char} {a : α} (ha : sym a = quote) (l : List α) :
    upToQuote quote sym (a :: l) = some ([a], l) := by
  cases l with
  | nil => exact if_pos ha
  | cons b l => exact if_pos ha

theorem upToQuote_cons_of_ne {quote : Char} {a : α} (hq : sym a ≠ quote) (hb : sym a ≠ '\\')
    (l : List α) : upToQuote quote sym (a :: l) = (upToQuote quote sym l).map (prepend [a]) := by
  cases l with
  | nil => exact if_neg hq
  | cons b l => rw [upToQuote, if_neg hq, if_neg fun h => hb h.1]

theorem upToQuote_spaces {quote : Char} (hq : quote ≠ ' ') (n : Nat) (t : Text) :
    upToQuote quote id (List.replicate n ' ' ++ t) =
      (upToQuote quote id t).map (prepend (List.replicate n ' ')) := by
  have hspace : id ' ' ≠ quote := hq.symm
  induction n with
  | zero => exact Option.map_id'.symm
  | succ n ih =>
    rw [List.replicate_succ, List.cons_append, upToQuote_cons_of_ne hspace (by decide), ih,
      map_prepend_prepend]
    rfl

/-- Where a thing shows a space, the closing quote is looked for behind it. -/
theorem upToQuote_flatMap_of_space (h : Spread sym seen) {quote : Char} (hq : quote ≠ ' ') {a : α}
    (ha : sym a = ' ') {l : List α}
    (hl : upToQuote quote id (l.flatMap seen) = (upToQuote quote sym l).map (widen seen)) :
    upToQuote quote id ((a :: l).flatMap seen) =
      (upToQuote quote sym (a :: l)).map (widen seen) := by
  have hlater := map_widen_prepend [a] hl
  obtain ⟨k, hk⟩ := h.seen_of_eq ha
  rw [List.flatMap_singleton, hk] at hlater
  rw [List.flatMap_cons, hk, upToQuote_spaces hq,
    upToQuote_cons_of_ne (by rw [ha]; exact hq.symm) (by rw [ha]; decide), hlater]

theorem upToQuote_flatMap (h : Spread sym seen) {quote : Char} (hq : quote ≠ ' ') (l : List α) :
    upToQuote quote id (l.flatMap seen) = (upToQuote quote sym l).map (widen seen) := by
  have hfound {a : α} (ha : sym a = quote) (l : List α) :
      upToQuote quote id ((a :: l).flatMap seen) = some (widen seen ([a], l)) := by
    rw [h.flatMap_cons_of_ne (by rw [ha]; exact hq), upToQuote_cons_of_eq (by exact ha), widen,
      flatMap_singleton_of_ne h (by rw [ha]; exact hq)]
  -- The cases of the definition, each divided by whether a space is shown. What stands behind a
  -- backslash may be one, so its blanks are passed over as well.
  fun_induction upToQuote quote sym l with
  | case1 => rfl
  | case2 a ha => exact hfound ha []
  | case3 a ha =>
    by_cases hs : sym a = ' '
    · exact (upToQuote_flatMap_of_space h hq hs rfl).trans (by rw [upToQuote, if_neg ha])
    · rw [flatMap_singleton_of_ne h hs, upToQuote, if_neg (by exact ha)]
      rfl
  | case4 a b l ha => exact hfound ha (b :: l)
  | case5 a b l ha hab ihescape ihplain =>
    have ha' : sym a ≠ ' ' := by
      rw [hab.1]
      decide
    have hplain := map_widen_prepend [a] ihplain
    rw [flatMap_singleton_of_ne h ha'] at hplain
    obtain ⟨k, hk⟩ := h.seen_eq_cons b
    have hb : (b :: l).flatMap seen = sym b :: (List.replicate k ' ' ++ l.flatMap seen) := by
      rw [List.flatMap_cons, hk, List.cons_append]
    have hescape := map_widen_prepend [a, b] ihescape
    have hpair : [a, b].flatMap seen = [sym a, sym b] ++ List.replicate k ' ' := by
      rw [h.flatMap_cons_of_ne ha', List.flatMap_singleton, hk]
      rfl
    rw [hpair, ← map_prepend_prepend, ← upToQuote_spaces hq] at hescape
    rw [hb] at hplain
    rw [h.flatMap_cons_of_ne ha', hb, upToQuote, if_neg (by exact ha), if_pos (by exact hab),
      hescape]
    exact (congrArg _ hplain).trans (or_map_widen _ _)
  | case6 a b l ha hab ih =>
    by_cases hs : sym a = ' '
    · refine (upToQuote_flatMap_of_space h hq hs ih).trans ?_
      rw [upToQuote, if_neg ha, if_neg hab]
    · have hplain := map_widen_prepend [a] ih
      obtain ⟨t, ht⟩ := h.flatMap_cons b l
      rw [flatMap_singleton_of_ne h hs, ht] at hplain
      rw [h.flatMap_cons_of_ne hs, ht, upToQuote, if_neg (by exact ha), if_neg (by exact hab)]
      exact hplain

theorem isQuote_iff {c : Char} : isQuote c = true ↔ c = '"' ∨ c = '\'' := by
  simp [isQuote]

theorem ne_space_of_isQuote {c : Char} (h : isQuote c = true) : c ≠ ' ' := by
  rcases isQuote_iff.mp h with rfl | rfl <;> decide

theorem sound_string : Recognizer.Sound string where
  divides h := after?_divides (by decide) (fun h => (upToQuote_eq_some h).1) h
  spread {_ sym seen} hs _ l := by
    cases l with
    | nil => rfl
    | cons a l =>
      by_cases ha : isQuote (sym a) = true
      · have hne := ne_space_of_isQuote ha
        have hlater := map_widen_prepend [a] (upToQuote_flatMap hs hne l)
        rw [flatMap_singleton_of_ne hs hne] at hlater
        rw [hs.flatMap_cons_of_ne hne]
        unfold string
        rw [after?, after?, if_pos ha, if_pos (by exact ha)]
        exact hlater
      · obtain ⟨t, ht⟩ := hs.flatMap_cons a l
        rw [ht]
        unfold string
        rw [after?, after?, if_neg ha, if_neg (by exact ha)]
        rfl

theorem word?_eq_some {w : Text} {l u v : List α} (h : word? sym w l = some (u, v)) :
    l = u ++ v ∧ u.map sym = w := by
  induction w generalizing l u with
  | nil =>
    rw [word?] at h
    split at h
    · exact absurd h (by simp)
    · obtain ⟨rfl, rfl⟩ := Prod.mk.inj (Option.some.inj h)
      exact ⟨rfl, rfl⟩
  | cons c w ih =>
    obtain ⟨a, l', u', rfl, rfl, ha, h⟩ := after?_eq_some h
    obtain ⟨rfl, rfl⟩ := ih h
    exact ⟨rfl, congrArg (· :: u'.map sym) (of_decide_eq_true ha)⟩

theorem word?_flatMap (h : Spread sym seen) {w : Text} (hw : ' ' ∉ w) (l : List α) :
    word? id w (l.flatMap seen) = (word? sym w l).map (widen seen) := by
  induction w generalizing l with
  | nil =>
    rw [word?, word?, h.head?_flatMap, Option.any_map]
    change (if l.head?.any (Unicode.isWord ∘ sym) = true then _ else _) = _
    split <;> rfl
  | cons c w ih =>
    obtain ⟨hc, hw⟩ := not_or.mp (mt List.mem_cons.mpr hw)
    exact after?_flatMap h (decide_eq_false hc) (fun _ => ih hw) l

theorem keyword_eq_some {prev : Option Char} {l u v : List α}
    (h : keyword sym prev l = some (u, v)) :
    l = u ++ v ∧ (u.map sym = "return".toList ∨ u.map sym = "function".toList) := by
  unfold keyword at h
  split at h
  · exact absurd h (by simp)
  · rcases Option.or_eq_some_iff.mp h with h | ⟨_, h⟩
    · exact ⟨(word?_eq_some h).1, Or.inl (word?_eq_some h).2⟩
    · exact ⟨(word?_eq_some h).1, Or.inr (word?_eq_some h).2⟩

theorem sound_keyword : Recognizer.Sound keyword where
  divides {_ sym _ l u v} h := by
    obtain ⟨hl, hu⟩ := keyword_eq_some h
    cases u with
    | nil => exact absurd hu (by simp)
    | cons a u =>
      refine ⟨hl, a, rfl, ?_⟩
      rcases hu with hu | hu
      · rw [(List.cons.inj hu).1]
        decide
      · rw [(List.cons.inj hu).1]
        decide
  spread {_ sym seen} hs prev l := by
    unfold keyword
    rw [word?_flatMap hs (by decide), word?_flatMap hs (by decide), or_map_widen]
    split <;> rfl

theorem exponent?_flatMap (h : Spread sym seen) (l : List α) :
    exponent? id (l.flatMap seen) = (exponent? sym l).map (widen seen) :=
  after?_flatMap h (by decide) (fun _ => after?_flatMap h (by decide) fun _ _ => rfl) l

theorem exponent?_eq_some {l u v : List α} (h : exponent? sym l = some (u, v)) :
    ∃ a b, l = a :: b :: v ∧ u = [a, b] ∧ isSign (sym a) = true ∧ isOctal (sym b) = true := by
  obtain ⟨a, _, _, rfl, rfl, ha, h⟩ := after?_eq_some h
  obtain ⟨b, _, _, rfl, rfl, hb, h⟩ := after?_eq_some h
  obtain ⟨rfl, rfl⟩ := Prod.mk.inj (Option.some.inj h)
  exact ⟨a, b, rfl, rfl, ha, hb⟩

theorem data_eq_some {prev : Option Char} {l u v : List α} (h : data sym prev l = some (u, v)) :
    ∃ name rest, run? Pattern.dataSet sym l = some (name, rest) ∧
      (exponent? sym rest = none ∧ u = name ∧ v = rest ∨
        ∃ e, exponent? sym rest = some (e, v) ∧ u = name ++ e) := by
  obtain ⟨⟨name, rest⟩, hname, h⟩ := Option.map_eq_some_iff.mp h
  refine ⟨name, rest, hname, ?_⟩
  dsimp only at h
  cases he : exponent? sym rest with
  | none =>
    rw [he] at h
    obtain ⟨rfl, rfl⟩ := Prod.mk.inj h
    exact Or.inl ⟨rfl, List.append_nil _, rfl⟩
  | some w =>
    rw [he] at h
    obtain ⟨rfl, rfl⟩ := Prod.mk.inj h
    exact Or.inr ⟨w.1, rfl, rfl⟩

theorem sound_data : Recognizer.Sound data where
  divides {_ sym _ l u v} h := by
    obtain ⟨name, rest, hname, he⟩ := data_eq_some h
    obtain ⟨rfl, _⟩ := run?_eq_some hname
    obtain ⟨a, ha, hs⟩ := (run?_edges (by decide) hname).1
    rcases he with ⟨_, rfl, rfl⟩ | ⟨e, he, rfl⟩
    · exact ⟨rfl, a, ha, hs⟩
    · obtain ⟨_, _, rfl, rfl, _⟩ := exponent?_eq_some he
      exact ⟨by rw [List.append_assoc]; rfl, a, by rw [List.head?_append, ha]; rfl, hs⟩
  spread {_ sym seen} hs _ l := by
    unfold data
    rw [run?_flatMap hs, Option.map_map, Option.map_map]
    refine congrArg ((run? Pattern.dataSet sym l).map ·) (funext fun w => ?_)
    have hrest : (exponent? id (w.2.flatMap seen)).getD ([], w.2.flatMap seen) =
        widen seen ((exponent? sym w.2).getD ([], w.2)) := by
      rw [exponent?_flatMap hs]
      cases exponent? sym w.2 <;> rfl
    exact (congrArg (prepend (w.1.flatMap seen)) hrest).trans (widen_prepend w.1 _).symm

/-! What is found ends with no space, but for the rest of a line. -/

theorem after?_firm {first : Char → Bool} {later : Char → List α → Option (List α × List α)}
    (hlater : ∀ {c l u v}, later c l = some (u, v) → ∃ a, u.getLast? = some a ∧ sym a ≠ ' ')
    {l u v : List α} (h : after? first sym later l = some (u, v)) :
    ∃ a, u.getLast? = some a ∧ sym a ≠ ' ' := by
  obtain ⟨a, _, u', _, rfl, _, h⟩ := after?_eq_some h
  obtain ⟨b, hb, hs⟩ := hlater h
  exact ⟨b, by rw [List.getLast?_cons, hb]; rfl, hs⟩

theorem firm_blockComment : Recognizer.Firm blockComment where
  last h := after?_firm (fun h => after?_firm (fun h => by
    obtain ⟨_, a, ha, hs⟩ := upToClose_eq_some h
    exact ⟨a, ha, by rw [hs]; decide⟩) h) h

theorem firm_decorator : Recognizer.Firm decorator where
  last h := by
    refine after?_firm ?_ h
    intro _ _ _ _ h
    exact (run?_edges (by decide) h).2

theorem firm_functionOpen : Recognizer.Firm functionOpen where
  last h := by
    obtain ⟨name, a, _, rfl, ha⟩ := functionOpen_eq_some h
    exact ⟨a, List.getLast?_concat, by rw [ha]; decide⟩

theorem firm_closingParen : Recognizer.Firm closingParen where
  last h := by
    obtain ⟨a, _, _, _, rfl, ha, h⟩ := after?_eq_some h
    obtain ⟨rfl, _⟩ := Prod.mk.inj (Option.some.inj h)
    exact ⟨a, rfl, by rw [of_decide_eq_true ha]; decide⟩

theorem firm_string : Recognizer.Firm string where
  last h := by
    obtain ⟨a, _, u', _, rfl, ha, h⟩ := after?_eq_some h
    obtain ⟨_, b, hb, hs⟩ := upToQuote_eq_some h
    exact ⟨b, by rw [List.getLast?_cons, hb]; rfl, by rw [hs]; exact ne_space_of_isQuote ha⟩

theorem firm_radix : Recognizer.Firm radix where
  last h := by
    refine after?_firm ?_ h
    intro _ _ _ _ h
    exact (run?_edges (by decide) h).2

theorem firm_keyword : Recognizer.Firm keyword where
  last {_ sym _ l u v} h := by
    obtain ⟨_, hu⟩ := keyword_eq_some h
    have hlast : (u.getLast?.map sym) = some 'n' := by
      rw [← List.getLast?_map]
      rcases hu with hu | hu <;> rw [hu] <;> rfl
    obtain ⟨a, ha, hs⟩ := Option.map_eq_some_iff.mp hlast
    exact ⟨a, ha, by rw [hs]; decide⟩

theorem firm_data : Recognizer.Firm data where
  last {_ sym _ l u v} h := by
    obtain ⟨name, rest, hname, he⟩ := data_eq_some h
    rcases he with ⟨_, rfl, rfl⟩ | ⟨e, he, rfl⟩
    · exact (run?_edges (by decide) hname).2
    · obtain ⟨a, b, _, rfl, _, hb⟩ := exponent?_eq_some he
      refine ⟨b, by rw [List.getLast?_append]; rfl, fun hs => ?_⟩
      rw [hs] at hb
      exact absurd hb (by decide)

end Lexeme

namespace Recognizer

variable {R : Recognizer} {α : Type} {sym : α → Char}

theorem Sound.ne_nil (h : Sound R) {prev : Option Char} {l u v : List α}
    (hr : R sym prev l = some (u, v)) : u ≠ [] := by
  obtain ⟨_, a, ha, _⟩ := h.divides hr
  rintro rfl
  exact absurd ha (by simp)

/-- Nothing that is found begins with a blank. -/
theorem Sound.eq_none_of_blank (h : Sound R) {a : α} (ha : sym a = ' ') (prev : Option Char)
    (l : List α) : R sym prev (a :: l) = none := by
  cases hr : R sym prev (a :: l) with
  | none => rfl
  | some w =>
    obtain ⟨hw, b, hb, hne⟩ := h.divides hr
    obtain ⟨u, hu⟩ := List.head?_eq_some_iff.mp hb
    rw [hu] at hw
    obtain ⟨rfl, _⟩ := List.cons.inj hw
    exact absurd ha hne

theorem Sound.eq_none_of_nil (h : Sound R) (sym : α → Char) (prev : Option Char) :
    R sym prev [] = none := by
  cases hr : R sym prev [] with
  | none => rfl
  | some w =>
    obtain ⟨hnil, _⟩ := h.divides hr
    exact absurd (List.append_eq_nil_iff.mp hnil.symm).1 (h.ne_nil hr)

end Recognizer

end Highlighter
