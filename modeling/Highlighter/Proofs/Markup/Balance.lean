import Highlighter.Proofs.Markup.Reading
import Highlighter.Proofs.Text.Occurrences

/-! The tags of spans in a row of marks. The rule for the names of calls opens spans and the rule for
closing parentheses closes them; all other rules put whole spans around slices of the row, which
changes neither how many more spans are opened than closed nor whether the spans are well nested. -/
namespace Highlighter

open Lexeme

namespace Mark

def isStart : Mark → Bool
  | tag (.start _) => true
  | _ => false

def isStop : Mark → Bool
  | tag .stop => true
  | _ => false

/-- The beginning of a span that is not that of a call. -/
def isOtherStart : Mark → Bool
  | tag (.start c) => c ≠ .function
  | _ => false

/-- The beginning of the span of a call. -/
def isCall : Mark → Bool
  | tag (.start c) => c = .function
  | _ => false

/-- A closing parenthesis that no rule has replaced. -/
def isParen : Mark → Bool
  | char c clear => clear && c = ')'
  | tag _ => false

theorem isStart_hide (m : Mark) : m.hide.isStart = m.isStart := by cases m <;> rfl

theorem isStop_hide (m : Mark) : m.hide.isStop = m.isStop := by cases m <;> rfl

theorem isOtherStart_hide (m : Mark) : m.hide.isOtherStart = m.isOtherStart := by cases m <;> rfl

theorem isStop_of_isStart {m : Mark} (h : m.isStart = true) : m.isStop = false := by
  cases m with
  | char => exact rfl
  | tag t =>
    cases t with
    | start => rfl
    | stop => exact absurd h Bool.false_ne_true

/-- How many more spans the row opens than it closes. -/
def excess (us : List Mark) : ℤ := us.countP isStart - us.countP isStop

/-- The level after a row that begins at the level `n`, if each mark `up` raises it by one and each
mark `down` lowers it by one, and if it never falls below zero. -/
def level? (up down : Mark → Bool) : Nat → List Mark → Option Nat
  | n, [] => some n
  | n, m :: us =>
    if up m then level? up down (n + 1) us
    else if down m then if n = 0 then none else level? up down (n - 1) us
    else level? up down n us

section Levels

variable {up down : Mark → Bool} {n m : Nat} {us : List Mark} {u : Mark}

theorem level?_cons_up (h : up u = true) :
    level? up down n (u :: us) = level? up down (n + 1) us := by
  rw [level?, if_pos h]

theorem level?_cons_down (hu : up u = false) (h : down u = true) :
    level? up down (n + 1) (u :: us) = level? up down n us := by
  rw [level?, hu, if_neg Bool.false_ne_true, if_pos h, if_neg (Nat.succ_ne_zero n),
    Nat.add_sub_cancel]

theorem level?_zero_cons_down (hu : up u = false) (h : down u = true) :
    level? up down 0 (u :: us) = none := by
  rw [level?, hu, if_neg Bool.false_ne_true, if_pos h, if_pos rfl]

theorem level?_cons_other (hu : up u = false) (hd : down u = false) :
    level? up down n (u :: us) = level? up down n us := by
  rw [level?, hu, hd, if_neg Bool.false_ne_true, if_neg Bool.false_ne_true]

theorem level?_append (us vs : List Mark) :
    level? up down n (us ++ vs) = (level? up down n us).bind (level? up down · vs) := by
  induction us generalizing n with
  | nil => rfl
  | cons u us ih =>
    rw [List.cons_append, level?, level?, ih, ih, ih]
    split
    · rfl
    · split
      · split <;> rfl
      · rfl

/-- What holds of the level that is reached, with nothing behind it, holds of a row that leads there,
if each mark keeps it. -/
@[elab_as_elim]
theorem level?_induction {motive : Nat → List Mark → Prop} (nil : motive m [])
    (raise : ∀ n u us, up u = true → motive (n + 1) us → motive n (u :: us))
    (lower : ∀ n u us, up u = false → down u = true → motive n us → motive (n + 1) (u :: us))
    (keep : ∀ n u us, up u = false → down u = false → motive n us → motive n (u :: us))
    (h : level? up down n us = some m) : motive n us := by
  induction us generalizing n with
  | nil =>
    obtain rfl := Option.some.inj h
    exact nil
  | cons u us ih =>
    cases hu : up u with
    | true =>
      rw [level?_cons_up hu] at h
      exact raise n u us hu (ih h)
    | false =>
      cases hd : down u with
      | true =>
        cases n with
        | zero => exact absurd ((level?_zero_cons_down hu hd).symm.trans h) (by simp)
        | succ n =>
          rw [level?_cons_down hu hd] at h
          exact lower n u us hu hd (ih h)
      | false =>
        rw [level?_cons_other hu hd] at h
        exact keep n u us hu hd (ih h)

/-- From a higher level a row leads to a level that is as much higher. -/
theorem level?_add (h : level? up down n us = some m) (k : Nat) :
    level? up down (n + k) us = some (m + k) := by
  refine level?_induction ?nil ?raise ?lower ?keep h
  case nil => rfl
  case raise =>
    intro n u us hu ih
    rwa [level?_cons_up hu, Nat.add_right_comm]
  case lower =>
    intro n u us hu hd ih
    rwa [Nat.add_right_comm, level?_cons_down hu hd]
  case keep =>
    intro n u us hu hd ih
    rwa [level?_cons_other hu hd]

/-- A row that leads from one level to another has raised and lowered it accordingly. -/
theorem level?_count (hdisj : ∀ u, up u = true → down u = false)
    (h : level? up down n us = some m) : n + us.countP up = m + us.countP down := by
  refine level?_induction ?nil ?raise ?lower ?keep h
  case nil => rfl
  case raise =>
    intro n u us hu ih
    rw [List.countP_cons_of_pos hu, List.countP_cons_of_neg (by rw [hdisj u hu]; decide)]
    omega
  case lower =>
    intro n u us hu hd ih
    rw [List.countP_cons_of_neg (by rw [hu]; decide), List.countP_cons_of_pos hd]
    omega
  case keep =>
    intro n u us hu hd ih
    rwa [List.countP_cons_of_neg (by rw [hu]; decide), List.countP_cons_of_neg (by rw [hd]; decide)]

/-- A row reaches a level if no part of it from the beginning on falls below zero. -/
theorem level?_of_prefixes (hdisj : ∀ u, up u = true → down u = false)
    (hp : ∀ v, v <+: us → v.countP down ≤ n + v.countP up)
    (ht : n + us.countP up = m + us.countP down) : level? up down n us = some m := by
  induction us generalizing n with
  | nil =>
    rw [level?]
    exact congrArg some ht
  | cons u us ih =>
    have hprefix (v : List Mark) (hv : v <+: us) := hp (u :: v) (List.cons_prefix_cons.mpr ⟨rfl, hv⟩)
    cases hu : up u with
    | true =>
      have hd := hdisj u hu
      simp only [List.countP_cons, hu, hd, if_true, Bool.false_eq_true, if_false] at hprefix ht
      rw [level?_cons_up hu]
      exact ih (fun v hv => by have := hprefix v hv; omega) (by omega)
    | false =>
      cases hd : down u with
      | true =>
        simp only [List.countP_cons, hu, hd, if_true, Bool.false_eq_true, if_false] at hprefix ht
        obtain ⟨k, rfl⟩ : ∃ k, n = k + 1 := by
          have hone := hprefix [] List.nil_prefix
          simp only [List.countP_nil] at hone
          exact ⟨n - 1, by omega⟩
        rw [level?_cons_down hu hd]
        exact ih (fun v hv => by have := hprefix v hv; omega) (by omega)
      | false =>
        simp only [List.countP_cons, hu, hd, Bool.false_eq_true, if_false] at hprefix ht
        rw [level?_cons_other hu hd]
        exact ih (fun v hv => by have := hprefix v hv; omega) (by omega)

/-- Hiding marks changes no level, if the level does not depend on whether they are clear. -/
theorem level?_map_hide (hu : ∀ u, up u.hide = up u) (hd : ∀ u, down u.hide = down u) (n : Nat)
    (us : List Mark) : level? up down n (us.map hide) = level? up down n us := by
  induction us generalizing n with
  | nil => rfl
  | cons u us ih => rw [List.map_cons, level?, level?, hu, hd, ih, ih, ih]

/-- Neither does a whole span around a slice of a row. -/
theorem level?_around {c : Category} (hu : ∀ u, up u.hide = up u) (hd : ∀ u, down u.hide = down u)
    (hstart : up (tag (.start c)) = true) (hup : up (tag .stop) = false)
    (hstop : down (tag .stop) = true) (h : level? up down n us = some m) :
    level? up down n ((Wrap.around c).marks us) = some m := by
  change level? up down n (tag (.start c) :: us.map hide ++ [tag .stop]) = some m
  rw [level?_append, level?_cons_up hstart, level?_map_hide hu hd, level?_add h 1, Option.bind_some,
    level?_cons_down hup hstop]
  rfl

end Levels

section Pieces

variable {up down : Mark → Bool} {n m : Nat} {w : Wrap} {ps : List Piece}

/-- A rule that keeps the levels of what it has found keeps the levels of the row. -/
theorem level?_pieces (hw : ∀ n m us, level? up down n us = some m →
      level? up down n (w.marks us) = some m)
    (h : level? up down n (ps.flatMap Piece.source) = some m) :
    level? up down n (ps.flatMap (Piece.marks w)) = some m := by
  induction ps generalizing n with
  | nil => exact h
  | cons p ps ih =>
    rw [List.flatMap_cons, level?_append] at h ⊢
    obtain ⟨k, hk, hlater⟩ := Option.bind_eq_some_iff.mp h
    have hp : level? up down n (p.marks w) = some k := by
      cases p with
      | pass u => exact hk
      | hit us => exact hw n k us hk
    rw [hp]
    exact ih hlater

theorem excess_append (us vs : List Mark) : excess (us ++ vs) = excess us + excess vs := by
  simp only [excess, List.countP_append]
  omega

theorem excess_map_hide (us : List Mark) : excess (us.map hide) = excess us := by
  induction us with
  | nil => rfl
  | cons u us ih =>
    rw [List.map_cons, ← List.singleton_append, excess_append, ih, ← excess_append]
    cases u <;> rfl

theorem excess_around (c : Category) (us : List Mark) :
    excess ((Wrap.around c).marks us) = excess us + 0 := by
  rw [Wrap.marks, excess_append, excess_append, excess_map_hide]
  have hstart : excess ((Wrap.around c).front.map tag) = 1 := rfl
  have hstop : excess ((Wrap.around c).back.map tag) = -1 := rfl
  omega

theorem excess_opening (c : Category) (us : List Mark) :
    excess ((Wrap.opening c).marks us) = excess us + 1 := by
  rw [Wrap.marks, excess_append, excess_append, excess_map_hide]
  have hstart : excess ((Wrap.opening c).front.map tag) = 1 := rfl
  have hstop : excess ((Wrap.opening c).back.map tag) = 0 := rfl
  omega

theorem excess_closing (us : List Mark) : excess (Wrap.closing.marks us) = excess us + -1 := by
  rw [Wrap.marks, excess_append, excess_append, excess_map_hide]
  have hstart : excess (Wrap.closing.front.map tag) = 0 := rfl
  have hstop : excess (Wrap.closing.back.map tag) = -1 := rfl
  omega

/-- Each lexeme found adds what the tags around it add. -/
theorem excess_pieces {d : ℤ} (hw : ∀ us, excess (w.marks us) = excess us + d) (ps : List Piece) :
    excess (ps.flatMap (Piece.marks w)) =
      excess (ps.flatMap Piece.source) + Piece.hits ps * d := by
  induction ps with
  | nil =>
    rw [Piece.hits, Int.natCast_zero, Int.zero_mul, Int.add_zero]
    rfl
  | cons p ps ih =>
    rw [List.flatMap_cons, List.flatMap_cons, excess_append, excess_append, ih]
    cases p with
    | pass u =>
      have hhits : Piece.hits (.pass u :: ps) = Piece.hits ps := rfl
      rw [hhits, Piece.marks, Piece.source]
      omega
    | hit us =>
      have hhits : Piece.hits (.hit us :: ps) = Piece.hits ps + 1 := rfl
      rw [hhits, Piece.marks, Piece.source, hw, Int.natCast_succ, Int.add_mul,
        Int.one_mul]
      omega

end Pieces

/-! What the rules for calls do. -/

/-- The row with the end of a span behind each closing parenthesis. -/
def closeParens (us : List Mark) : List Mark :=
  us.flatMap fun u => if u.isParen then [u.hide, tag .stop] else [u]

theorem isParen_iff {u : Mark} : u.isParen = true ↔ u.sym = ')' := by
  cases u with
  | char c clear => cases clear <;> simp [isParen, sym]
  | tag t => simp [isParen, sym]

/-- The rule for closing parentheses finds all of them. -/
theorem reads_closingParen {prev : Option Char} {us : List Mark} {ps : List Piece}
    (h : Reads .closingParen .noMatch prev us ps) :
    ps.flatMap (Piece.marks .closing) = closeParens us ∧ Piece.hits ps = us.countP isParen := by
  generalize he : Ending.noMatch = e at h
  induction h with
  | done => exact ⟨rfl, rfl⟩
  | stop hne => exact absurd he.symm hne
  | @pass _ prev u us ps hn _ ih =>
    obtain ⟨hmarks, hhits⟩ := ih he
    have hu : ¬ u.isParen = true := by
      rw [isParen_iff]
      intro hs
      have hsome : Lexeme.closingParen sym prev (u :: us) = some ([u], us) :=
        if_pos (decide_eq_true hs)
      exact absurd (hn.symm.trans hsome) (by simp)
    refine ⟨?_, ?_⟩
    · rw [List.flatMap_cons, hmarks, closeParens, closeParens, List.flatMap_cons, if_neg hu]
      rfl
    · rw [List.countP_cons_of_neg hu]
      exact hhits
  | @hit _ prev us u v ps hu _ ih =>
    obtain ⟨hmarks, hhits⟩ := ih he
    change after? (· = ')') sym (fun _ l => some ([], l)) us = some (u, v) at hu
    obtain ⟨a, _, _, rfl, rfl, ha, h⟩ := after?_eq_some hu
    obtain ⟨rfl, rfl⟩ := Prod.mk.inj (Option.some.inj h)
    have hparen : a.isParen = true := isParen_iff.mpr (of_decide_eq_true ha)
    refine ⟨?_, ?_⟩
    · rw [List.flatMap_cons, hmarks, closeParens, closeParens, List.flatMap_cons, if_pos hparen]
      rfl
    · rw [List.countP_cons_of_pos hparen]
      exact congrArg (· + 1) hhits

/-- Where spans are well nested and no call is closed that is not open, closing the calls gives well
nested spans. -/
theorem level?_closeParens {a a' b b' : Nat} {us : List Mark}
    (hspans : level? isOtherStart isStop a us = some a')
    (hcalls : level? isCall isParen b us = some b') :
    level? isStart isStop (a + b) (closeParens us) = some (a' + b') := by
  -- A mark moves at most one of both levels: the beginnings of other spans and all ends move `a`,
  -- the beginnings of calls and the parentheses, which get an end behind them, move `b`.
  induction us generalizing a b with
  | nil =>
    obtain rfl := Option.some.inj hspans
    obtain rfl := Option.some.inj hcalls
    rfl
  | cons u us ih =>
    have hcons : closeParens (u :: us) =
        (if u.isParen then [u.hide, tag .stop] else [u]) ++ closeParens us := rfl
    rw [hcons]
    cases u with
    | char c clear =>
      rw [level?_cons_other rfl rfl] at hspans
      cases hp : (char c clear).isParen with
      | true =>
        cases b with
        | zero =>
          exact absurd ((level?_zero_cons_down rfl hp).symm.trans hcalls) (by simp)
        | succ b =>
          rw [level?_cons_down rfl hp] at hcalls
          have hlater := ih hspans hcalls
          rw [if_pos rfl, List.cons_append, List.singleton_append, level?_cons_other rfl rfl,
            ← Nat.add_assoc, level?_cons_down rfl rfl]
          exact hlater
      | false =>
        rw [level?_cons_other rfl hp] at hcalls
        rw [if_neg Bool.false_ne_true, List.singleton_append, level?_cons_other rfl rfl]
        exact ih hspans hcalls
    | tag t =>
      have hp : ¬ (tag t).isParen = true := Bool.false_ne_true
      rw [if_neg hp, List.singleton_append]
      cases t with
      | start c =>
        rw [level?_cons_up rfl]
        by_cases hc : c = .function
        · rw [level?_cons_other (by exact decide_eq_false (not_not.mpr hc)) rfl] at hspans
          rw [level?_cons_up (by exact decide_eq_true hc)] at hcalls
          have hlater := ih hspans hcalls
          exact hlater
        · rw [level?_cons_up (by exact decide_eq_true hc)] at hspans
          rw [level?_cons_other (by exact decide_eq_false hc) rfl] at hcalls
          rw [Nat.add_right_comm]
          exact ih hspans hcalls
      | stop =>
        rw [level?_cons_other rfl rfl] at hcalls
        cases a with
        | zero =>
          exact absurd ((level?_zero_cons_down rfl rfl).symm.trans hspans) (by simp)
        | succ a =>
          rw [level?_cons_down rfl rfl] at hspans
          rw [Nat.add_right_comm, level?_cons_down rfl rfl]
          exact ih hspans hcalls

/-- A character that is no blank is seen as often as marks stand for it. -/
theorem count_seen {c : Char} (hc : c ≠ ' ') (s : Styler) (us : List Mark) :
    (us.flatMap (seen s)).count c = us.countP fun u => decide (u.sym = c) := by
  induction us with
  | nil => rfl
  | cons u us ih =>
    rw [List.flatMap_cons, List.count_append, ih]
    obtain ⟨k, hk, hblank⟩ := spread s u
    have hone : (u.seen s).count c = if u.sym = c then 1 else 0 := by
      rw [hk, List.count_replicate]
      by_cases hu : u.sym = c
      · have hzero : k = 0 := hblank.resolve_right (by rw [hu]; exact hc)
        rw [if_pos (beq_iff_eq.mpr hu), if_pos hu, hzero]
      · rw [if_neg (mt beq_iff_eq.mp hu), if_neg hu]
    rw [hone, List.countP_cons, Nat.add_comm]
    simp only [decide_eq_true_eq]

/-- The closing parentheses that are seen are those that no rule has replaced. -/
theorem count_paren (s : Styler) (us : List Mark) :
    (us.flatMap (seen s)).count ')' = us.countP isParen := by
  rw [count_seen (by decide)]
  exact List.countP_congr fun u _ => decide_eq_true_iff.trans isParen_iff.symm

end Mark

/-- The byte at which the replacement ends. -/
def Substitution.newStop (u : Substitution) : Nat := u.start + u.replacement.byteLength

namespace Piece

variable {s : Styler} {w : Wrap}

theorem lt_newStop_of_mem_log (hw : ∀ t, 0 < (w.handler s t).byteLength) {start : Nat}
    {ps : List Piece} {u : Substitution} (h : u ∈ log s w start ps) : start < u.newStop := by
  induction ps generalizing start with
  | nil => exact absurd h (by simp [log])
  | cons p ps ih =>
    cases p with
    | pass m => exact Nat.lt_of_le_of_lt (Nat.le_add_right _ _) (ih h)
    | hit us =>
      rcases List.mem_cons.mp h with rfl | h
      · exact Nat.lt_add_of_pos_right (hw _)
      · exact Nat.lt_of_le_of_lt (Nat.le_add_right _ _) (ih h)

/-- No substitution ends before the place from which the row is read. -/
theorem filter_log_eq_nil (hw : ∀ t, 0 < (w.handler s t).byteLength) {start k : Nat} (ps : List Piece)
    (hk : k ≤ start) : (log s w start ps).filter (fun u => decide (u.newStop ≤ k)) = [] := by
  rw [List.filter_eq_nil_iff]
  intro u hu hle
  have hlt := lt_newStop_of_mem_log hw hu
  have hle := of_decide_eq_true hle
  omega

theorem handler_opening_pos (s : Styler) (t : Text) :
    0 < ((Wrap.opening .function).handler s t).byteLength := by
  have htag := Mark.byteLength_text_pos s (.tag (.start .function))
  rw [← Wrap.openSpan_eq, Styler.openSpan, Text.byteLength_append]
  exact Nat.add_pos_left htag _

/-- A substitution of the rule for calls that lies in a part of the new row from its beginning on has
put the beginning of a call there. -/
theorem length_filter_log_le {start : Nat} {ps : List Piece} {v : List Mark}
    (h : v <+: ps.flatMap (marks (.opening .function))) :
    ((log s (.opening .function) start ps).filter fun u =>
      decide (u.newStop ≤ start + Text.byteLength (v.flatMap (Mark.text s)))).length ≤
      v.countP Mark.isCall := by
  induction ps generalizing start v with
  | nil => exact Nat.zero_le _
  | cons p ps ih =>
    cases v with
    | nil =>
      have hzero : start + Text.byteLength (([] : List Mark).flatMap (Mark.text s)) = start := rfl
      rw [hzero, filter_log_eq_nil (handler_opening_pos s) _ (Nat.le_refl start)]
      exact Nat.zero_le _
    | cons m v =>
      cases p with
      | pass m' =>
        obtain ⟨rfl, hv⟩ := List.cons_prefix_cons.mp h
        rw [log, List.flatMap_cons, Text.byteLength_append, ← Nat.add_assoc]
        exact (ih hv).trans (List.Sublist.countP_le (List.sublist_cons_self _ _))
      | hit us =>
        -- The first mark is the beginning of the call, and pays for this lexeme.
        have hmarks : (Wrap.opening .function).marks us =
            .tag (.start .function) :: us.map Mark.hide := List.append_nil _
        rw [List.flatMap_cons, marks, hmarks, List.cons_append] at h
        obtain ⟨rfl, hv⟩ := List.cons_prefix_cons.mp h
        have hcount : (Mark.tag (.start .function) :: v).countP Mark.isCall =
            v.countP Mark.isCall + 1 := List.countP_cons_of_pos rfl
        have hlen : ((Wrap.opening .function).handler s (us.flatMap (Mark.text s))).byteLength =
            Text.byteLength ((.tag (.start .function) :: us.map Mark.hide).flatMap (Mark.text s)) := by
          rw [← hmarks, Wrap.text_marks]
        rw [log, List.filter_cons, hcount, hlen]
        have hlater : ((log s (.opening .function) (start + Text.byteLength
            ((.tag (.start .function) :: us.map Mark.hide).flatMap (Mark.text s))) ps).filter
            fun u => decide (u.newStop ≤ start + Text.byteLength
              ((.tag (.start .function) :: v).flatMap (Mark.text s)))).length ≤
            v.countP Mark.isCall := by
          rcases List.prefix_or_prefix_of_prefix hv (List.prefix_append _ _) with hv | ⟨v', rfl⟩
          · -- The part ends within the lexeme, before all later substitutions.
            obtain ⟨t, ht⟩ := hv
            rw [filter_log_eq_nil (handler_opening_pos s) _ (by
              rw [← ht]
              simp only [List.flatMap_cons, List.flatMap_append, Text.byteLength_append]
              omega)]
            exact Nat.zero_le _
          · have hv' := (List.prefix_append_right_inj _).mp hv
            rw [← List.cons_append, List.flatMap_append, Text.byteLength_append, ← Nat.add_assoc,
              List.countP_append]
            exact (ih hv').trans (Nat.le_add_left _ _)
        split
        · exact Nat.succ_le_succ hlater
        · exact hlater.trans (Nat.le_succ _)

end Piece

end Highlighter
