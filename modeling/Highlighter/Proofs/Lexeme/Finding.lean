import Highlighter.Proofs.Lexeme.Spread
import Highlighter.Proofs.Regex.First

/-! The patterns of the languages find what their recognizers find. Of all the ends that a pattern
has at a place, only the preferred one counts; it is found here without going through the others:
a longest run ends where it ends, since what follows it in the pattern cannot begin within it, and a
shortest one is looked through from its beginning. -/
namespace Highlighter

open Lexeme

/-- The spot behind the first part of a division, which begins after `left` (nearest character
first). -/
def Spot.past (left : Text) (w : Text × Text) : Spot := ⟨w.1.reverse ++ left, w.2, []⟩

theorem Spot.past_prepend (left x : Text) (w : Text × Text) :
    past left (prepend x w) = past (x.reverse ++ left) w := by
  rw [past, past, prepend, List.reverse_append, List.append_assoc]

theorem Spot.map_past_prepend (left x : Text) (o : Option (Text × Text)) :
    (o.map (prepend x)).map (past left) = o.map (past (x.reverse ++ left)) := by
  rw [Option.map_map]
  exact congrArg (o.map ·) (funext fun w => past_prepend left x w)

namespace Regex

/-- At a place between `left` (nearest character first) and `right`, the preferred end of the
pattern makes this division of `right`. -/
def Finds (r : Regex) (role : Role) (left right : Text) (o : Option (Text × Text)) : Prop :=
  (r.ends role ⟨left, right, []⟩).head? = o.map (Spot.past left)

variable {role : Role} {left right : Text}

theorem ends_one_nil (set : CharSet) : (one set).ends role ⟨left, [], []⟩ = [] := rfl

theorem ends_one_cons (set : CharSet) (c : Char) :
    (one set).ends role ⟨left, c :: right, []⟩ =
      if set.has c then [⟨c :: left, right, []⟩] else [] := rfl

/-- A character, and then what the rest of the pattern finds. -/
theorem finds_seq_one {set : CharSet} {r : Regex} {first : Char → Bool}
    {later : Char → Text → Option (Text × Text)} (hset : ∀ c, set.has c = first c)
    (hr : ∀ c rest, right = c :: rest → first c = true →
      r.Finds (role.ending r) (c :: left) rest (later c rest)) :
    (seq (one set) r).Finds role left right (after? first id later right) := by
  unfold Finds
  rw [ends]
  cases right with
  | nil => rfl
  | cons c rest =>
    rw [ends_one_cons, hset, after?]
    by_cases hc : first c = true
    · rw [if_pos hc, if_pos (by exact hc), List.flatMap_singleton, Spot.map_past_prepend]
      exact hr c rest rfl hc
    · rw [if_neg hc, if_neg (by exact hc)]
      rfl

theorem finds_one {set : CharSet} {first : Char → Bool} (hset : ∀ c, set.has c = first c) :
    (one set).Finds role left right (after? first id (fun _ v => some ([], v)) right) := by
  unfold Finds
  cases right with
  | nil => rfl
  | cons c rest =>
    rw [ends_one_cons, hset, after?]
    by_cases hc : first c = true
    · rw [if_pos hc, if_pos (by exact hc)]
      rfl
    · rw [if_neg hc, if_neg (by exact hc)]
      rfl

theorem finds_char (c : Char) :
    (char c).Finds role left right (after? (· = c) id (fun _ v => some ([], v)) right) :=
  finds_one (CharSet.has_single c)

theorem finds_seq_char {c : Char} {r : Regex} {later : Char → Text → Option (Text × Text)}
    (hr : ∀ rest, right = c :: rest → r.Finds (role.ending r) (c :: left) rest (later c rest)) :
    (seq (char c) r).Finds role left right (after? (· = c) id later right) :=
  finds_seq_one (CharSet.has_single c) fun d rest hright hd => by
    obtain rfl := of_decide_eq_true hd
    exact hr rest hright

theorem ends_edge (e : Edge) : (edge e).ends role ⟨left, right, []⟩ =
    if e.holds left right then [⟨left, right, []⟩] else [] := rfl

section Runs

variable {set : CharSet} {K : Spot → Option Spot}

/-- What follows a longest run follows it at its end, where nothing that can follow within the run
comes before that. -/
theorem findSome?_longest
    (h : ∀ s left c right, set.has c = true → (K s).or (K ⟨left, c :: right, []⟩) = K s)
    (left right : Text) : (Spot.stopsFrom set [] left right).reverse.findSome? K =
      K (.past left (right.takeWhile set.has, right.dropWhile set.has)) := by
  -- Read from the far end of the run, the place before `c` comes last.
  induction right generalizing left with
  | nil => exact List.findSome?_singleton
  | cons c right ih =>
    unfold Spot.stopsFrom
    by_cases hc : set.has c = true
    · rw [if_pos hc, List.reverse_cons, List.findSome?_append, ih, List.findSome?_singleton,
        h _ left c right hc, List.takeWhile_cons_of_pos hc, List.dropWhile_cons_of_pos hc,
        Spot.past, Spot.past, List.reverse_cons, List.append_assoc, List.singleton_append]
    · rw [if_neg hc, List.reverse_singleton, List.findSome?_singleton,
        List.takeWhile_cons_of_neg hc, List.dropWhile_cons_of_neg hc]
      rfl

theorem run?_cons_of_pos {c : Char} (hc : set.has c = true) (right : Text) :
    run? set id (c :: right) = some (c :: right.takeWhile set.has, right.dropWhile set.has) := by
  have htake : (c :: right).takeWhile (set.has ∘ id) = c :: right.takeWhile set.has :=
    List.takeWhile_cons_of_pos hc
  have hdrop : (c :: right).dropWhile (set.has ∘ id) = right.dropWhile set.has :=
    List.dropWhile_cons_of_pos hc
  rw [run?_of_ne (by rw [htake]; exact List.cons_ne_nil _ _), htake, hdrop]

theorem run?_cons_of_neg {c : Char} (hc : ¬ set.has c = true) (right : Text) :
    run? set id (c :: right) = none := run?_of_eq (List.takeWhile_cons_of_neg hc)

theorem findSome?_run
    (h : ∀ s left c right, set.has c = true → (K s).or (K ⟨left, c :: right, []⟩) = K s) :
    ((seq (one set) (many set true)).ends role ⟨left, right, []⟩).findSome? K =
      (run? set id right).bind fun w => K (.past left w) := by
  rw [ends]
  cases right with
  | nil => rfl
  | cons c right =>
    rw [ends_one_cons]
    by_cases hc : set.has c = true
    · rw [if_pos hc, List.flatMap_singleton, run?_cons_of_pos hc, ends, if_pos rfl, Spot.stops,
        findSome?_longest h, Option.bind_some, Spot.past, Spot.past, List.reverse_cons,
        List.append_assoc, List.singleton_append]
    · rw [if_neg hc, run?_cons_of_neg hc]
      rfl

theorem finds_run (set : CharSet) :
    (seq (one set) (many set true)).Finds role left right (run? set id right) := by
  unfold Finds
  rw [← findSome?_some, findSome?_run fun _ _ _ _ _ => Option.some_or]
  cases run? set id right <;> rfl

/-- What cannot begin with a member of the set follows a run of members at its end. -/
theorem finds_seq_run {r : Regex} {later : Text → Option (Text × Text)}
    (hnone : ∀ left c right, set.has c = true →
      r.ends (role.ending r) ⟨left, c :: right, []⟩ = [])
    (hr : ∀ left right, r.Finds (role.ending r) left right (later right)) :
    (seq (seq (one set) (many set true)) r).Finds role left right
      ((run? set id right).bind fun w => (later w.2).map (prepend w.1)) := by
  unfold Finds
  rw [ends, List.head?_flatMap, findSome?_run fun s left c right hc => by
    rw [hnone left c right hc]
    exact Option.or_none]
  cases run? set id right with
  | none => rfl
  | some w =>
    rw [Option.bind_some, Option.bind_some, Spot.map_past_prepend]
    exact hr (w.1.reverse ++ left) w.2

end Runs

/-- The rest of a line is as long as it can be, since it must end with the line. -/
theorem finds_line : (seq (many .notNewline false) (edge .lineEnd)).Finds role left right
    (some (line id right)) := by
  unfold Finds
  rw [ends, List.head?_flatMap, ends, if_neg Bool.false_ne_true, Spot.stops, Option.map_some]
  induction right generalizing left with
  | nil => rfl
  | cons c right ih =>
    have hend : Edge.lineEnd.holds left (c :: right) = decide (c = '\n') := rfl
    have hset : CharSet.notNewline.has c = !decide (c = '\n') := CharSet.has_notNewline c
    rw [Spot.stopsFrom, List.findSome?_cons, ends_edge, hend, hset, line]
    by_cases hc : c = '\n'
    · rw [decide_eq_true hc, if_pos rfl,
        List.takeWhile_cons_of_neg (by rw [Function.comp_apply, id, hset, decide_eq_true hc]; decide),
        List.dropWhile_cons_of_neg (by rw [Function.comp_apply, id, hset, decide_eq_true hc]; decide)]
      rfl
    · rw [decide_eq_false hc, if_neg Bool.false_ne_true, Bool.not_false, if_pos rfl,
        List.takeWhile_cons_of_pos (by rw [Function.comp_apply, id, hset, decide_eq_false hc]; rfl),
        List.dropWhile_cons_of_pos (by rw [Function.comp_apply, id, hset, decide_eq_false hc]; rfl)]
      refine Eq.trans ih ?_
      rw [Spot.past, Spot.past, List.reverse_cons, List.append_assoc, List.singleton_append]
      rfl

theorem finds_lineComment :
    Pattern.lineComment.regex.Finds role left right (lineComment id left.head? right) :=
  finds_seq_char fun _ _ => finds_seq_char fun _ _ => finds_line

theorem finds_decorator :
    Pattern.decorator.regex.Finds role left right (decorator id left.head? right) :=
  finds_seq_char fun _ _ => finds_run _

theorem finds_functionOpen :
    Pattern.functionOpen.regex.Finds role left right (functionOpen id left.head? right) := by
  refine finds_seq_run (fun left c right hc => ?_) fun _ _ => finds_char '('
  rw [char, ends_one_cons, if_neg]
  intro hp
  rw [CharSet.has_single] at hp
  rw [of_decide_eq_true hp] at hc
  exact absurd hc (by decide)

theorem finds_closingParen :
    Pattern.closingParen.regex.Finds role left right (closingParen id left.head? right) :=
  finds_char ')'

theorem finds_close : (seq (char '*') (char '/')).Finds role left right (close? id right) :=
  finds_seq_char fun _ _ => finds_char '/'

/-- What stands before the end of a comment is as short as it can be. -/
theorem finds_upToClose : (seq (many .any false) (seq (char '*') (char '/'))).Finds role left right
    (upToClose id right) := by
  unfold Finds
  rw [ends, List.head?_flatMap, ends, if_neg Bool.false_ne_true, Spot.stops]
  induction right generalizing left with
  | nil => rfl
  | cons c right ih =>
    have hclose : ((seq (char '*') (char '/')).ends (role.ending (seq (char '*') (char '/')))
        ⟨left, c :: right, []⟩).head? = (close? id (c :: right)).map (Spot.past left) := finds_close
    rw [Spot.stopsFrom, List.findSome?_cons, hclose, upToClose]
    cases close? id (c :: right) with
    | some w => rfl
    | none =>
      rw [Option.none_or, Spot.map_past_prepend]
      exact ih

theorem finds_blockComment :
    Pattern.blockComment.regex.Finds role left right (blockComment id left.head? right) :=
  finds_seq_char fun _ _ => finds_seq_char fun _ _ => finds_upToClose

theorem has_notQuote (c : Char) : Pattern.notQuote.has c = !isQuote c := by
  simp [Pattern.notQuote, CharSet.has, isQuote]

theorem ends_char_cons (role : Role) (left : Text) (c a : Char) (right : Text) :
    (char c).ends role ⟨left, a :: right, []⟩ = if a = c then [⟨a :: left, right, []⟩] else [] := by
  rw [char, ends_one_cons, CharSet.has_single]
  by_cases ha : a = c
  · rw [if_pos (decide_eq_true ha), if_pos ha]
  · rw [if_neg (by rw [decide_eq_false ha]; exact Bool.false_ne_true), if_neg ha]

theorem ends_escaped_single (role : Role) (left : Text) (a : Char) :
    Pattern.escaped.ends role ⟨left, [a], []⟩ = [] := by
  rw [Pattern.escaped, ends, ends_char_cons]
  by_cases ha : a = '\\'
  · rw [if_pos ha]
    rfl
  · rw [if_neg ha]
    rfl

/-- A backslash and the character after it. -/
theorem ends_escaped (role : Role) (left : Text) (a b : Char) (right : Text) :
    Pattern.escaped.ends role ⟨left, a :: b :: right, []⟩ =
      if a = '\\' ∧ b ≠ '\n' then [⟨b :: a :: left, right, []⟩] else [] := by
  rw [Pattern.escaped, ends, ends_char_cons]
  by_cases ha : a = '\\'
  · rw [if_pos ha, List.flatMap_singleton, ends_one_cons, CharSet.has_notNewline]
    by_cases hb : b = '\n'
    · rw [decide_eq_true hb, if_neg (by decide), if_neg fun h => h.2 hb]
    · rw [decide_eq_false hb, Bool.not_false, if_pos rfl, if_pos ⟨ha, hb⟩]
  · rw [if_neg ha, if_neg fun h => ha h.1]
    rfl

section Quotes

variable {quote other : Char}

/-- Quotes of both kinds. -/
structure Quotes (quote other : Char) : Prop where
  isQuote_iff : ∀ c, isQuote c = true ↔ c = quote ∨ c = other
  ne : quote ≠ other

/-- One round between two quotes takes up a backslash and the character after it, or else a single
character that is not the closing quote. -/
theorem ends_round (h : Quotes quote other) (role : Role) (left : Text) (a : Char) (right : Text) :
    (choice [Pattern.escaped, one Pattern.notQuote, char other]).ends role ⟨left, a :: right, []⟩ =
      Pattern.escaped.ends (role.ending Pattern.escaped) ⟨left, a :: right, []⟩ ++
        if a = quote then [] else [⟨a :: left, right, []⟩] := by
  change (alt Pattern.escaped (alt (one Pattern.notQuote) (char other))).ends role _ = _
  rw [ends, ends, ends_one_cons, ends_char_cons, has_notQuote]
  refine congrArg (Pattern.escaped.ends _ _ ++ ·) ?_
  by_cases hq : a = quote
  · have hquote : isQuote a = true := (h.isQuote_iff a).mpr (Or.inl hq)
    have hother : a ≠ other := by
      rw [hq]
      exact h.ne
    rw [hquote, if_pos hq, if_neg hother]
    rfl
  · rw [if_neg hq]
    by_cases ho : a = other
    · have hquote : isQuote a = true := (h.isQuote_iff a).mpr (Or.inr ho)
      rw [hquote, if_pos ho]
      rfl
    · have hquote : isQuote a = false := by
        rw [← Bool.not_eq_true]
        exact fun hc => ((h.isQuote_iff a).mp hc).elim hq ho
      rw [hquote, if_neg ho]
      rfl

/-- What comes of rounds between quotes, where `K` tells what comes after them. -/
def afterRounds (other : Char) (role : Role) (K : Spot → Option Spot) (s : Spot) : Option Spot :=
  (loopEnds ((choice [Pattern.escaped, one Pattern.notQuote, char other]).ends role.followed) role
    false s).findSome? K

theorem afterRounds_nil (other : Char) (role : Role) (K : Spot → Option Spot) (left : Text) :
    afterRounds other role K ⟨left, [], []⟩ = K ⟨left, [], []⟩ := by
  rw [afterRounds, findSome?_loopEnds, if_neg Bool.false_ne_true]
  exact Option.or_none

theorem afterRounds_single (h : Quotes quote other) (role : Role) (K : Spot → Option Spot)
    (left : Text) (a : Char) : afterRounds other role K ⟨left, [a], []⟩ = (K ⟨left, [a], []⟩).or
      (if a = quote then none else K ⟨[a] ++ left, [], []⟩) := by
  rw [afterRounds, findSome?_loopEnds, if_neg Bool.false_ne_true, ends_round h, ends_escaped_single]
  refine congrArg ((K ⟨left, [a], []⟩).or ·) ?_
  by_cases ha : a = quote
  · rw [if_pos ha, if_pos ha]
    rfl
  · rw [if_neg ha, if_neg ha, List.nil_append, List.findSome?_singleton,
      if_pos (by exact Nat.lt_succ_self _)]
    exact afterRounds_nil other role K (a :: left)

theorem afterRounds_pair (h : Quotes quote other) (role : Role) (K : Spot → Option Spot)
    (left : Text) (a b : Char) (right : Text) :
    afterRounds other role K ⟨left, a :: b :: right, []⟩ = (K ⟨left, a :: b :: right, []⟩).or
      ((if a = '\\' ∧ b ≠ '\n' then afterRounds other role K ⟨[b, a] ++ left, right, []⟩
          else none).or
        (if a = quote then none else afterRounds other role K ⟨[a] ++ left, b :: right, []⟩)) := by
  rw [afterRounds, findSome?_loopEnds, if_neg Bool.false_ne_true, ends_round h, ends_escaped,
    List.findSome?_append]
  refine congrArg ((K ⟨left, a :: b :: right, []⟩).or ·) (congrArg₂ Option.or ?_ ?_)
  · by_cases hab : a = '\\' ∧ b ≠ '\n'
    · rw [if_pos hab, if_pos hab, List.findSome?_singleton,
        if_pos (by exact (Nat.lt_succ_self _).trans (Nat.lt_succ_self _))]
      rfl
    · rw [if_neg hab, if_neg hab]
      rfl
  · by_cases ha : a = quote
    · rw [if_pos ha, if_pos ha]
      rfl
    · rw [if_neg ha, if_neg ha, List.findSome?_singleton, if_pos (by exact Nat.lt_succ_self _)]
      rfl

theorem finds_upToQuote (h : Quotes quote other) :
    (seq (loop (choice [Pattern.escaped, one Pattern.notQuote, char other]) false)
      (char quote)).Finds role left right (upToQuote quote id right) := by
  unfold Finds
  rw [ends, List.head?_flatMap, ends]
  let K (t : Spot) : Option Spot := ((char quote).ends (role.ending (char quote)) t).head?
  change afterRounds other role.followed K ⟨left, right, []⟩ = _
  have hfound (left right : Text) (a : Char) (ha : a = quote) :
      K ⟨left, a :: right, []⟩ = some (.past left ([a], right)) := by
    dsimp only [K]
    rw [ends_char_cons, if_pos ha]
    rfl
  have hnot (left right : Text) (a : Char) (ha : ¬ a = quote) : K ⟨left, a :: right, []⟩ = none := by
    dsimp only [K]
    rw [ends_char_cons, if_neg ha]
    rfl
  -- The rounds are looked through from the nearest end on, as `upToQuote` looks through the text.
  fun_induction upToQuote quote id right generalizing left with
  | case1 => exact afterRounds_nil _ _ _ _
  | case2 a ha => rw [afterRounds_single h, hfound _ _ a ha]; rfl
  | case3 a ha => rw [afterRounds_single h, hnot _ _ a ha, if_neg (by exact ha)]; rfl
  | case4 a b l ha => rw [afterRounds_pair h, hfound _ _ a ha]; rfl
  | case5 a b l ha hab ihescape ihplain =>
    -- A backslash takes the next character with it, or stands for itself if that leads nowhere.
    have hescape := Spot.map_past_prepend left [a, b] (upToQuote quote id l)
    have hplain := Spot.map_past_prepend left [a] (upToQuote quote id (b :: l))
    rw [afterRounds_pair h, hnot _ _ a ha, if_pos (by exact hab), if_neg (by exact ha), ihescape,
      ihplain, Option.none_or, Option.map_or]
    exact congrArg₂ Option.or hescape.symm hplain.symm
  | case6 a b l ha hab ih =>
    have hplain := Spot.map_past_prepend left [a] (upToQuote quote id (b :: l))
    rw [afterRounds_pair h, hnot _ _ a ha, if_neg (by exact hab), if_neg (by exact ha), ih,
      Option.none_or, Option.none_or]
    exact hplain.symm

theorem finds_quotedText (h : Quotes quote other) (role : Role) (left right : Text) :
    (Pattern.quotedText quote other).Finds role left right
      (after? (· = quote) id (fun _ => upToQuote quote id) right) :=
  finds_seq_char fun _ _ => finds_upToQuote h

end Quotes

theorem finds_alt {a b : Regex} {o p : Option (Text × Text)}
    (ha : a.Finds (role.ending a) left right o) (hb : b.Finds (role.ending b) left right p) :
    (alt a b).Finds role left right (o.or p) := by
  unfold Finds at *
  rw [ends, List.head?_append, ha, hb]
  cases o <;> rfl

theorem finds_string :
    Pattern.string.regex.Finds role left right (string id left.head? right) := by
  have hdouble : Quotes '"' '\'' := ⟨fun _ => isQuote_iff, by decide⟩
  have hsingle : Quotes '\'' '"' := ⟨fun _ => isQuote_iff.trans or_comm, by decide⟩
  have halt := finds_alt (finds_quotedText hdouble (role.ending _) left right)
    (finds_quotedText hsingle (role.ending _) left right)
  have hboth : (after? (· = '"') id (fun _ => upToQuote '"' id) right).or
      (after? (· = '\'') id (fun _ => upToQuote '\'' id) right) = string id left.head? right := by
    cases right with
    | nil => rfl
    | cons a l =>
      change (if decide (a = '"') = true then (upToQuote '"' id l).map (prepend [a]) else none).or
        (if decide (a = '\'') = true then (upToQuote '\'' id l).map (prepend [a]) else none) =
        if isQuote a = true then (upToQuote a id l).map (prepend [a]) else none
      by_cases hd : a = '"'
      · subst hd
        exact Option.or_none
      · by_cases hs : a = '\''
        · subst hs
          rfl
        · rw [if_neg (mt of_decide_eq_true hd), if_neg (mt of_decide_eq_true hs),
            if_neg (mt isQuote_iff.mp (not_or.mpr ⟨hd, hs⟩))]
          rfl
  rw [← hboth]
  exact halt

/-! A radix literal. -/

/-- No member of the set stands right before. -/
theorem ends_notBehind (set : CharSet) (role : Role) (left right : Text) :
    (notAhead (seq (back 1) (one set))).ends role ⟨left, right, []⟩ =
      if left.head?.any set.has then [] else [⟨left, right, []⟩] := by
  rw [ends, ends]
  cases left with
  | nil => rfl
  | cons c left =>
    change (if (([⟨left, c :: right, []⟩] : List Spot).flatMap _).isEmpty = true then _ else _) =
      if set.has c = true then _ else _
    rw [List.flatMap_singleton, ends_one_cons]
    by_cases hc : set.has c = true
    · rw [if_pos hc, if_pos hc]
      rfl
    · rw [if_neg hc, if_neg hc]
      rfl

theorem ends_optional_nil (set : CharSet) (r : Regex) (role : Role) (left : Text) :
    (seq (optional (one set) true) r).ends role ⟨left, [], []⟩ =
      r.ends (role.ending r) ⟨left, [], []⟩ := by
  rw [optional, if_pos rfl, ends, ends, ends, ends_one_nil, List.nil_append, List.flatMap_singleton]

theorem ends_optional_cons (set : CharSet) (r : Regex) (role : Role) (left : Text) (c : Char)
    (right : Text) : (seq (optional (one set) true) r).ends role ⟨left, c :: right, []⟩ =
      (if set.has c then r.ends (role.ending r) ⟨c :: left, right, []⟩ else []) ++
        r.ends (role.ending r) ⟨left, c :: right, []⟩ := by
  rw [optional, if_pos rfl, ends, ends, ends, ends_one_cons, List.flatMap_append,
    List.flatMap_singleton]
  by_cases hc : set.has c = true
  · rw [if_pos hc, if_pos hc, List.flatMap_singleton]
  · rw [if_neg hc, if_neg hc]
    rfl

/-- An optional member in front of a run makes no difference to where the run ends. -/
theorem finds_optional_run {set more : CharSet} (h : ∀ c, more.has c = true → set.has c = true) :
    (seq (optional (one more) true) (seq (one set) (many set true))).Finds role left right
      (run? set id right) := by
  have hrun (role : Role) (left right : Text) :
      (seq (one set) (many set true)).Finds role left right (run? set id right) := finds_run set
  unfold Finds at hrun ⊢
  cases right with
  | nil =>
    rw [ends_optional_nil]
    exact hrun _ _ _
  | cons c right =>
    rw [ends_optional_cons, List.head?_append, hrun _ left (c :: right)]
    -- The optional character is taken first, and is a member of the run in any case.
    by_cases hc : more.has c = true
    · rw [if_pos hc, hrun _ (c :: left) right, run?_cons_of_pos (h c hc)]
      cases right with
      | nil => rfl
      | cons d right =>
        by_cases hd : set.has d = true
        · rw [run?_cons_of_pos hd, List.takeWhile_cons_of_pos hd, List.dropWhile_cons_of_pos hd,
            Option.map_some, Option.some_or, Option.map_some, Spot.past, Spot.past,
            List.reverse_cons (a := c), List.append_assoc, List.singleton_append]
        · rw [run?_cons_of_neg hd, Option.map_none, Option.none_or]
    · rw [if_neg hc]
      rfl

theorem finds_radix : Pattern.radix.regex.Finds role left right (radix id left.head? right) := by
  have hletter (c : Char) (hc : Pattern.radixLetter.has c = true) :
      Pattern.alphanumeric.has c = true := by
    simp only [Pattern.radixLetter, CharSet.has_anyOf, List.any_cons, List.any_nil,
      CharSet.has_single, Bool.or_eq_true, decide_eq_true_eq, Bool.false_eq_true, or_false] at hc
    rcases hc with rfl | rfl | rfl | rfl | rfl | rfl <;> decide
  have hliteral (role : Role) : (concat [char '0', optional (one Pattern.radixLetter) true,
      seq (one Pattern.alphanumeric) (many Pattern.alphanumeric true)]).Finds role left right
      (after? (· = '0') id (fun _ => run? Pattern.alphanumeric id) right) :=
    finds_seq_char fun _ _ => finds_optional_run hletter
  unfold Finds at hliteral ⊢
  change ((seq (notAhead (seq (back 1) (one Pattern.numberSet))) _).ends role _).head? = _
  rw [ends, ends_notBehind]
  unfold radix
  cases hb : left.head?.any Pattern.numberSet.has with
  | true =>
    rw [if_pos rfl]
    cases right <;> simp [after?]
  | false =>
    rw [if_neg Bool.false_ne_true, List.flatMap_singleton, hliteral]
    simp

/-! The words. -/

theorem ends_word_cons (role : Role) (left : Text) (c : Char) (w : Text) (a : Char) (right : Text) :
    (concat ((c :: w).map char)).ends role ⟨left, a :: right, []⟩ =
      if a = c then (concat (w.map char)).ends (role.ending (concat (w.map char)))
        ⟨a :: left, right, []⟩ else [] := by
  cases w with
  | nil => exact ends_char_cons role left c a right
  | cons d w =>
    change (seq (char c) (concat ((d :: w).map char))).ends role _ = _
    rw [ends, ends_char_cons]
    by_cases ha : a = c
    · rw [if_pos ha, if_pos ha, List.flatMap_singleton]
    · rw [if_neg ha, if_neg ha]
      rfl

theorem ends_word_nil (role : Role) (left : Text) (c : Char) (w : Text) :
    (concat ((c :: w).map char)).ends role ⟨left, [], []⟩ = [] := by
  cases w <;> rfl

/-- A word of word characters that ends at a word edge. -/
theorem findSome?_word {K : Spot → Option Spot}
    (hK : ∀ left right, left.head?.any Unicode.isWord = true → K ⟨left, right, []⟩ =
      if right.head?.any Unicode.isWord then none else some ⟨left, right, []⟩)
    (w : Text) (hw : ∀ c ∈ w, Unicode.isWord c = true) (role : Role) (left right : Text)
    (h : w = [] → left.head?.any Unicode.isWord = true) :
    ((concat (w.map char)).ends role ⟨left, right, []⟩).findSome? K =
      (word? id w right).map (Spot.past left) := by
  induction w generalizing role left right with
  | nil =>
    rw [List.map_nil, concat, ends, List.findSome?_singleton, hK left right (h rfl), word?]
    change (if right.head?.any Unicode.isWord = true then _ else _) =
      Option.map _ (if right.head?.any Unicode.isWord = true then _ else _)
    split <;> rfl
  | cons c w ih =>
    cases right with
    | nil =>
      rw [ends_word_nil]
      rfl
    | cons a right =>
      rw [ends_word_cons, word?, after?]
      by_cases ha : a = c
      · have hword : Unicode.isWord a = true := ha ▸ hw c List.mem_cons_self
        rw [if_pos ha, if_pos (by exact decide_eq_true ha), Spot.map_past_prepend]
        exact ih (fun d hd => hw d (List.mem_cons_of_mem c hd)) _ (a :: left) right fun _ => hword
      · rw [if_neg ha, if_neg (by exact mt of_decide_eq_true ha)]
        rfl

theorem word?_eq_none {c : Char} {w right : Text} (hc : Unicode.isWord c = true)
    (h : right.head?.any Unicode.isWord = false) : word? id (c :: w) right = none := by
  cases right with
  | nil => rfl
  | cons a right =>
    have ha : a ≠ c := by
      rintro rfl
      exact Bool.false_ne_true (h.symm.trans hc)
    exact if_neg (mt of_decide_eq_true ha)

theorem head?_ends_wordEdge (role : Role) (left right : Text) :
    ((edge .wordEdge).ends role ⟨left, right, []⟩).head? =
      if left.head?.any Unicode.isWord = right.head?.any Unicode.isWord then none
      else some ⟨left, right, []⟩ := by
  have hedge : Edge.wordEdge.holds left right =
      (left.head?.any Unicode.isWord != right.head?.any Unicode.isWord) := rfl
  rw [ends_edge, hedge]
  cases left.head?.any Unicode.isWord <;> cases right.head?.any Unicode.isWord <;> rfl

/-- One of two words that ends at a word edge. -/
theorem finds_words {w w' : Text} (hw : w ≠ []) (hw' : w' ≠ [])
    (hall : ∀ c ∈ w, Unicode.isWord c = true) (hall' : ∀ c ∈ w', Unicode.isWord c = true)
    (role : Role) (left right : Text) :
    (seq (alt (concat (w.map char)) (concat (w'.map char))) (edge .wordEdge)).Finds role left right
      ((word? id w right).or (word? id w' right)) := by
  have hK (role : Role) (left right : Text) (hl : left.head?.any Unicode.isWord = true) :
      ((edge .wordEdge).ends role ⟨left, right, []⟩).head? =
        if right.head?.any Unicode.isWord then none else some ⟨left, right, []⟩ := by
    rw [head?_ends_wordEdge, hl]
    cases right.head?.any Unicode.isWord <;> rfl
  unfold Finds
  rw [ends, List.head?_flatMap, ends, List.findSome?_append,
    findSome?_word (hK _) w hall _ _ _ (fun h => absurd h hw),
    findSome?_word (hK _) w' hall' _ _ _ (fun h => absurd h hw'), Option.map_or]

theorem isWord_return : ∀ c ∈ "return".toList, Unicode.isWord c = true := by decide +kernel

theorem isWord_function : ∀ c ∈ "function".toList, Unicode.isWord c = true := by decide +kernel

/-- There is no word where no word character comes next. -/
theorem words_eq_none (h : right.head?.any Unicode.isWord = false) :
    (word? id "return" right).or (word? id "function" right) = none := by
  have hr : word? id "return" right = none :=
    word?_eq_none (isWord_return 'r' List.mem_cons_self) h
  have hf : word? id "function" right = none :=
    word?_eq_none (isWord_function 'f' List.mem_cons_self) h
  rw [hr, hf]
  rfl

theorem finds_keyword :
    Pattern.keyword.regex.Finds role left right (keyword id left.head? right) := by
  have hwords := finds_words (by decide) (by decide) isWord_return isWord_function
    (role.ending (seq (alt (concat ("return".toList.map char)) (concat ("function".toList.map char)))
      (edge .wordEdge))) left right
  have hedge : Edge.wordEdge.holds left right =
      (left.head?.any Unicode.isWord != right.head?.any Unicode.isWord) := rfl
  unfold Finds at hwords ⊢
  change ((seq (edge .wordEdge) (seq (alt (concat ("return".toList.map char))
    (concat ("function".toList.map char))) (edge .wordEdge))).ends role _).head? = _
  rw [ends, ends_edge, hedge, keyword]
  -- There is an edge where one of the two characters around the place belongs to a word; if it is
  -- the one before, no word begins there.
  cases hl : left.head?.any Unicode.isWord <;> cases hr : right.head?.any Unicode.isWord
  · rw [words_eq_none hr]
    rfl
  · exact (congrArg List.head? (List.flatMap_singleton _ _)).trans hwords
  · refine (congrArg List.head? (List.flatMap_singleton _ _)).trans (hwords.trans ?_)
    rw [words_eq_none hr]
    rfl
  · rfl

/-! Names and numbers. -/

theorem has_sign (c : Char) :
    (CharSet.anyOf [.single '-', .single '+']).has c = isSign c := by
  simp [isSign]

theorem has_dataSet_of_isOctal {c : Char} (h : isOctal c = true) : Pattern.dataSet.has c = true := by
  simp only [isOctal, CharSet.has, Bool.and_eq_true, decide_eq_true_eq] at h
  have hnine : c ≤ '9' := Char.le_trans h.2 (by decide)
  simp [Pattern.dataSet, CharSet.has, h.1, hnine]

theorem has_dataSet_of_exponentLetter {c : Char}
    (h : (CharSet.anyOf [.single 'e', .single 'E']).has c = true) :
    Pattern.dataSet.has c = true := by
  simp only [CharSet.has_anyOf, List.any_cons, List.any_nil, CharSet.has_single, Bool.or_eq_true,
    decide_eq_true_eq, Bool.false_eq_true, or_false] at h
  rcases h with rfl | rfl <;> decide

/-- After a longest run, the end of an exponent can only be a sign and a digit. -/
theorem finds_exponentEnd (h : ∀ c rest, right = c :: rest → Pattern.dataSet.has c = false) :
    Pattern.exponentEnd.Finds role left right (exponent? id right) := by
  have hdigit (role : Role) (left right : Text) : (one (.range '0' '7')).Finds role left right
      (after? isOctal id (fun _ v => some ([], v)) right) := finds_one fun _ => rfl
  unfold Finds at hdigit ⊢
  change ((seq (optional (one (.anyOf [.single 'e', .single 'E'])) true)
    (seq (optional (one (.anyOf [.single '-', .single '+'])) true)
      (one (.range '0' '7')))).ends role _).head? = _
  cases right with
  | nil =>
    rw [ends_optional_nil, ends_optional_nil]
    rfl
  | cons c right =>
    have hc := h c right rfl
    have hletter : ¬ (CharSet.anyOf [.single 'e', .single 'E']).has c = true := fun hl =>
      Bool.false_ne_true (hc.symm.trans (has_dataSet_of_exponentLetter hl))
    have hoctal : ¬ (CharSet.range '0' '7').has c = true := fun ho =>
      Bool.false_ne_true (hc.symm.trans (has_dataSet_of_isOctal ho))
    rw [ends_optional_cons, if_neg hletter, List.nil_append, ends_optional_cons, ends_one_cons,
      if_neg hoctal, List.append_nil, has_sign, exponent?, after?]
    by_cases hs : isSign c = true
    · rw [if_pos hs, if_pos (by exact hs), Spot.map_past_prepend]
      exact hdigit _ _ _
    · rw [if_neg hs, if_neg (by exact hs)]
      rfl

theorem run?_rest {set : CharSet} {u v : Text} (h : run? set id right = some (u, v)) (c : Char)
    (rest : Text) (hv : v = c :: rest) : set.has c = false := by
  by_cases hne : right.takeWhile (set.has ∘ id) = []
  · rw [run?_of_eq hne] at h
    exact absurd h (by simp)
  · rw [run?_of_ne hne] at h
    obtain ⟨_, rfl⟩ := Prod.mk.inj (Option.some.inj h)
    have hnot := List.head?_dropWhile_not (set.has ∘ id) right
    rw [hv] at hnot
    exact hnot

theorem finds_data : Pattern.data.regex.Finds role left right (data id left.head? right) := by
  have hK (role : Role) (s : Spot) : ((alt Pattern.exponentEnd empty).ends role s).head? =
      (Pattern.exponentEnd.ends (role.ending Pattern.exponentEnd) s).head?.or (some s) := by
    rw [ends, List.head?_append]
    rfl
  unfold Finds data
  change ((seq (seq (one Pattern.dataSet) (many Pattern.dataSet true))
    (alt Pattern.exponentEnd empty)).ends role _).head? = _
  rw [ends, List.head?_flatMap, findSome?_run fun s left c right _ => by
    rw [hK]
    cases (Pattern.exponentEnd.ends _ s).head? <;> rfl]
  cases hrun : run? Pattern.dataSet id right with
  | none => rfl
  | some w =>
    have hend (role : Role) : (Pattern.exponentEnd.ends role (Spot.past left w)).head? =
        (exponent? id w.2).map (Spot.past (w.1.reverse ++ left)) :=
      finds_exponentEnd (run?_rest hrun)
    rw [Option.bind_some, hK, hend, Option.map_some, Option.map_some, Spot.past_prepend]
    cases exponent? id w.2 <;> rfl

end Regex

end Highlighter
