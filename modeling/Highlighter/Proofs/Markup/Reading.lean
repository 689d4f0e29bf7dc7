import Highlighter.Proofs.Engine.States
import Highlighter.Proofs.Markup.Marks

/-! A rule reads a row of marks from left to right: it passes over marks and puts its tags around the
lexemes that its recognizer finds. What it finds does not depend on the styler, and what it makes of
the row is again a row (`Kind.edit_buffers`). -/
namespace Highlighter

open Lexeme

/-- A part of a row as a rule reads it. -/
inductive Piece where
  /-- A mark that the rule passes over. -/
  | pass (m : Mark)
  /-- A lexeme that the rule has found. -/
  | hit (us : List Mark)
  deriving DecidableEq, Repr

namespace Piece

/-- What the rule has read. -/
def source : Piece → List Mark
  | pass m => [m]
  | hit us => us

/-- What the rule makes of it. -/
def marks (w : Wrap) : Piece → List Mark
  | pass m => [m]
  | hit us => w.marks us

/-- The substitutions of a rule that reads these pieces from the byte `start` on. -/
def log (s : Styler) (w : Wrap) : (start : Nat) → List Piece → List Substitution
  | _, [] => []
  | start, pass m :: ps => log s w (start + Text.byteLength (m.text s)) ps
  | start, hit us :: ps =>
    ⟨start, start + Text.byteLength (us.flatMap (Mark.text s)), w.handler s (us.flatMap (Mark.text s))⟩ ::
      log s w (start + Text.byteLength (w.handler s (us.flatMap (Mark.text s)))) ps

/-- The number of lexemes found. -/
def hits : List Piece → Nat
  | [] => 0
  | pass _ :: ps => hits ps
  | hit _ :: ps => hits ps + 1

theorem length_log (s : Styler) (w : Wrap) (start : Nat) (ps : List Piece) :
    (log s w start ps).length = hits ps := by
  induction ps generalizing start with
  | nil => rfl
  | cons p ps ih =>
    cases p with
    | pass m => exact ih _
    | hit us => exact congrArg (· + 1) (ih _)

theorem flatMap_source_pass (us : List Mark) : (us.map pass).flatMap source = us := by
  rw [List.flatMap_map]
  exact List.flatMap_singleton' us

theorem flatMap_marks_pass (w : Wrap) (us : List Mark) : (us.map pass).flatMap (marks w) = us := by
  rw [List.flatMap_map]
  exact List.flatMap_singleton' us

theorem log_pass_append (s : Styler) (w : Wrap) (start : Nat) (us : List Mark) (ps : List Piece) :
    log s w start (us.map pass ++ ps) =
      log s w (start + Text.byteLength (us.flatMap (Mark.text s))) ps := by
  induction us generalizing start with
  | nil => rfl
  | cons m us ih =>
    rw [List.map_cons, List.cons_append, log, ih, List.flatMap_cons, Text.byteLength_append,
      Nat.add_assoc]

theorem log_pass (s : Styler) (w : Wrap) (start : Nat) (us : List Mark) :
    log s w start (us.map pass) = [] := by
  have h := log_pass_append s w start us []
  rwa [List.append_nil] at h

end Piece

/-- How a rule for a kind of lexeme reads a row from a place on, where `prev` is seen before it, if
its scan ends in this way. It reads the whole row, or stops somewhere. -/
inductive Reads (k : Kind) : Ending → Option Char → List Mark → List Piece → Prop
  | done (prev : Option Char) : Reads k .noMatch prev [] []
  | stop {e : Ending} (h : e ≠ .noMatch) (prev : Option Char) (us : List Mark) :
      Reads k e prev us (us.map .pass)
  | pass {e : Ending} {prev : Option Char} {m : Mark} {us : List Mark} {ps : List Piece}
      (h : k.recognizer Mark.sym prev (m :: us) = none) (later : Reads k e (some m.sym) us ps) :
      Reads k e prev (m :: us) (.pass m :: ps)
  | hit {e : Ending} {prev : Option Char} {us u v : List Mark} {ps : List Piece}
      (h : k.recognizer Mark.sym prev us = some (u, v)) (later : Reads k e (some ' ') v ps) :
      Reads k e prev us (.hit u :: ps)

namespace Lexeme.Kind

theorem recognizer_nil (k : Kind) {α : Type} (sym : α → Char) (prev : Option Char) :
    k.recognizer sym prev [] = none := k.sound.eq_none_of_nil sym prev

end Lexeme.Kind

namespace Reads

variable {k : Kind} {e : Ending} {prev : Option Char} {us : List Mark} {ps : List Piece}

/-- What is read is the row. -/
theorem flatMap_source (h : Reads k e prev us ps) : ps.flatMap Piece.source = us := by
  induction h with
  | done => rfl
  | stop _ _ us => exact Piece.flatMap_source_pass us
  | pass _ _ ih => exact congrArg (_ :: ·) ih
  | hit h _ ih =>
    rw [List.flatMap_cons, ih]
    exact (k.sound.divides h).1.symm

/-- A whole row is read in one way only. -/
theorem unique {qs : List Piece} (h : Reads k .noMatch prev us ps) (h' : Reads k .noMatch prev us qs) :
    ps = qs := by
  generalize he : Ending.noMatch = e at h
  induction h generalizing qs with
  | done =>
    cases h' with
    | done => rfl
    | stop hne => exact absurd rfl hne
    | hit hu _ => exact absurd ((k.recognizer_nil _ _).symm.trans hu) (by simp)
  | stop hne => exact absurd he.symm hne
  | pass hn _ ih =>
    cases h' with
    | stop hne => exact absurd rfl hne
    | pass _ later => rw [ih later he]
    | hit hu _ => exact absurd (hn.symm.trans hu) (by simp)
  | hit hu _ ih =>
    cases h' with
    | done => exact absurd ((k.recognizer_nil _ _).symm.trans hu) (by simp)
    | stop hne => exact absurd rfl hne
    | pass hn _ => exact absurd (hn.symm.trans hu) (by simp)
    | hit hu' later =>
      obtain ⟨rfl, rfl⟩ := Prod.mk.inj (Option.some.inj (hu.symm.trans hu'))
      rw [ih later he]

end Reads

namespace Language

/-- What is formatted is the result of the rules for the lexemes as a whole sample. -/
theorem format_engine (s : Styler) (l : Language) (input : Text) : (l.engine s).format input =
    s.outer (Engine.run (l.regexRules s) (Buffers.ofInput input)).result := by
  rw [Engine.format, engine, Engine.run_append]
  rfl

/-- The state before a rule is what the rules before it make of the input. -/
theorem getElem?_trace (s : Styler) (l : Language) (input : Text) {i : Nat}
    (hi : i ≤ l.kinds.length) : ((l.engine s).trace input)[i]? =
      some (Engine.run ((l.kinds.take i).map (Kind.rule s)) (Buffers.ofInput input)) := by
  have hrules : (l.engine s).rules = (l.kinds.take i).map (Kind.rule s) ++
      ((l.kinds.drop i).map (Kind.rule s) ++ [outerRule s]) := by
    rw [engine, regexRules_eq, ← List.append_assoc, ← List.map_append, List.take_append_drop]
  have hplace : ((l.kinds.take i).map (Kind.rule s)).length = i := by
    rw [List.length_map, List.length_take_of_le hi]
  have hstate := Engine.getElem?_states ((l.kinds.take i).map (Kind.rule s))
    ((l.kinds.drop i).map (Kind.rule s) ++ [outerRule s]) (Buffers.ofInput input)
  rwa [hplace, ← hrules] at hstate

theorem getElem?_trace_length (s : Styler) {l : Language} {before after : List Kind}
    (h : l.kinds = before ++ after) (input : Text) : ((l.engine s).trace input)[before.length]? =
      some (Engine.run (before.map (Kind.rule s)) (Buffers.ofInput input)) := by
  have hplace : before.length ≤ l.kinds.length := by
    rw [h, List.length_append]
    exact Nat.le_add_right _ _
  have hstate := getElem?_trace s l input hplace
  rwa [h, List.take_left] at hstate

end Language

namespace Lexeme.Kind

variable {s : Styler} {k : Kind}

/-- Behind a blank, further blanks are passed over. -/
theorem first?_spaces (k : Kind) (left : Text) (n : Nat) (t : Text) :
    k.pattern.regex.first? left (List.replicate n ' ' ++ t) =
      (k.pattern.regex.first? (List.replicate n ' ' ++ left) t).map fun m =>
        { m with skipped := List.replicate n ' ' ++ m.skipped } := by
  induction n generalizing left with
  | zero => exact Option.map_id'.symm
  | succ n ih =>
    have hnone : k.pattern.regex.endsAt left (' ' :: (List.replicate n ' ' ++ t)) = [] :=
      endsAt_eq_nil.mpr (k.sound.eq_none_of_blank (show id ' ' = ' ' from rfl) _ _)
    have hleft : List.replicate n ' ' ++ ' ' :: left = List.replicate (n + 1) ' ' ++ left := by
      rw [List.replicate_succ', List.append_assoc, List.singleton_append]
    rw [List.replicate_succ, List.cons_append, Regex.first?_cons hnone, ih, hleft, Option.map_map]
    rfl

/-- Where nothing is found at a mark, the search goes on behind it. -/
theorem first?_pass {left : Text} {m : Mark} {us : List Mark}
    (h : k.recognizer Mark.sym left.head? (m :: us) = none) :
    k.pattern.regex.first? left ((m :: us).flatMap (Mark.seen s)) =
      (k.pattern.regex.first? ((m.seen s).reverse ++ left) (us.flatMap (Mark.seen s))).map fun f =>
        { f with skipped := m.seen s ++ f.skipped } := by
  obtain ⟨n, hn⟩ := (Mark.spread s).seen_eq_cons m
  have hend : k.pattern.regex.endsAt left ((m :: us).flatMap (Mark.seen s)) = [] := by
    rw [endsAt_eq_nil, k.sound.spread (Mark.spread s), h]
    rfl
  have hright : (m :: us).flatMap (Mark.seen s) =
      m.sym :: (List.replicate n ' ' ++ us.flatMap (Mark.seen s)) := by
    rw [List.flatMap_cons, hn, List.cons_append]
  have hleft : (m.seen s).reverse ++ left = List.replicate n ' ' ++ m.sym :: left := by
    rw [hn, List.reverse_cons, List.reverse_replicate, List.append_assoc, List.singleton_append]
  rw [hright] at hend ⊢
  rw [Regex.first?_cons hend, first?_spaces, ← hleft, Option.map_map, hn]
  rfl

/-- The place behind a mark is seen as the mark. -/
theorem head?_seen (s : Styler) (m : Mark) (left : Text) :
    ((m.seen s).reverse ++ left).head? = some m.sym := by
  obtain ⟨n, hn, hblank⟩ := Mark.spread s m
  rw [hn, List.reverse_replicate, List.replicate_succ]
  rfl

/-- Where the pattern has no match, the whole row is passed over. -/
theorem reads_of_first?_eq_none {left : Text} {us : List Mark}
    (h : k.pattern.regex.first? left (us.flatMap (Mark.seen s)) = none) :
    Reads k .noMatch left.head? us (us.map .pass) := by
  induction us generalizing left with
  | nil => exact .done _
  | cons m us ih =>
    cases hr : k.recognizer Mark.sym left.head? (m :: us) with
    | none =>
      rw [first?_pass hr, Option.map_eq_none_iff] at h
      have hlater := ih h
      rw [head?_seen] at hlater
      exact .pass hr hlater
    | some w =>
      have hseen := k.sound.spread (Mark.spread s) left.head? (m :: us)
      rw [hr] at hseen
      exact absurd ((first?_of_recognizer hseen).symm.trans h) (by simp)

/-- The first match lies between marks and is what the recognizer finds there. -/
theorem reads_of_first?_eq_some {left : Text} {us : List Mark} {f : Match}
    (h : k.pattern.regex.first? left (us.flatMap (Mark.seen s)) = some f) :
    ∃ x u v, us = x ++ u ++ v ∧ f.skipped = x.flatMap (Mark.seen s) ∧
      f.matched = u.flatMap (Mark.seen s) ∧ f.rest = v.flatMap (Mark.seen s) ∧
      ∀ e ps, Reads k e (some ' ') v ps →
        Reads k e left.head? us (x.map .pass ++ .hit u :: ps) := by
  induction us generalizing left f with
  | nil =>
    have hnone : k.pattern.regex.endsAt left [] = [] :=
      endsAt_eq_nil.mpr (k.recognizer_nil _ _)
    exact absurd ((Regex.first?_nil hnone).symm.trans h) (by simp)
  | cons m us ih =>
    cases hr : k.recognizer Mark.sym left.head? (m :: us) with
    | none =>
      rw [first?_pass hr] at h
      obtain ⟨f', hf', rfl⟩ := Option.map_eq_some_iff.mp h
      obtain ⟨x, u, v, rfl, hx, hu, hv, hlater⟩ := ih hf'
      refine ⟨m :: x, u, v, rfl, ?_, hu, hv, fun e ps hps => ?_⟩
      · rw [List.flatMap_cons, ← hx]
      · have hrest := hlater e ps hps
        rw [head?_seen] at hrest
        exact .pass hr hrest
    | some w =>
      obtain ⟨u, v⟩ := w
      have hseen := k.sound.spread (Mark.spread s) left.head? (m :: us)
      rw [hr] at hseen
      obtain rfl := Option.some.inj ((first?_of_recognizer hseen).symm.trans h)
      exact ⟨[], u, v, (k.sound.divides hr).1, rfl, rfl, rfl, fun e ps hps => .hit hr hps⟩

/-- Every match takes up some of the text. -/
theorem matched_ne_nil {left right : Text} {m : Match}
    (h : k.pattern.search left right = .found m) : m.matched ≠ [] :=
  k.sound.ne_nil (recognizer_of_first? (Pattern.first?_of_found h))

/-- What is found lies between marks, and the result is cut between the same marks. -/
theorem exists_marks_of_found {left : Text} {us : List Mark} {m : Match}
    (h : k.pattern.search left (us.flatMap (Mark.seen s)) = .found m) (passed : List Mark) :
    ∃ x u v, us = x ++ u ++ v ∧ m.skipped = x.flatMap (Mark.seen s) ∧
      m.matched = u.flatMap (Mark.seen s) ∧ m.rest = v.flatMap (Mark.seen s) ∧
      Text.sliceAt? (Text.byteLength (passed.flatMap (Mark.text s)) + m.skipped.byteLength)
        m.matched.byteLength ((passed ++ us).flatMap (Mark.text s)) =
        some ((passed ++ x).flatMap (Mark.text s), u.flatMap (Mark.text s),
          v.flatMap (Mark.text s)) ∧
      ∀ e ps, Reads k e (some ' ') v ps → Reads k e left.head? us (x.map .pass ++ .hit u :: ps) := by
  obtain ⟨x, u, v, rfl, hx, hu, hv, hreads⟩ := reads_of_first?_eq_some (Pattern.first?_of_found h)
  have hslice := Mark.sliceAt?_marks s passed x u v
  rw [← hx, ← hu] at hslice
  exact ⟨x, u, v, rfl, hx, hu, hv, hslice, hreads⟩

/-- What a run of a rule makes of a row of marks. Of what no handler has seen, the marks `passed` lie
before the place. -/
theorem reads_of_scans {n : Nat} {left right pending result remainder : Text} {gap : Nat}
    {ending : Ending} {log : List Substitution}
    (h : Rule.Scans k.pattern (k.wrap.handler s) n left right gap pending result remainder ending log)
    (passed us : List Mark) (hright : right = us.flatMap (Mark.seen s))
    (hpending : pending = (passed ++ us).flatMap (Mark.text s))
    (hgap : gap = Text.byteLength (passed.flatMap (Mark.text s))) :
    ∃ ps, Reads k ending left.head? us ps ∧
      result = (passed ++ ps.flatMap (Piece.marks k.wrap)).flatMap (Mark.text s) ∧
      remainder = (ps.flatMap (Piece.marks k.wrap)).flatMap (Mark.seen s) ∧
      log = Piece.log s k.wrap left.byteLength ps := by
  -- A match always lies between marks and is never empty, so that the scan replaces each of them. The
  -- recognizer goes on behind it as behind a space, since what is put in ends with a blank.
  induction h generalizing passed us with
  | cutOff left right gap pending =>
    exact ⟨us.map .pass, .stop (by decide) _ us, by rw [hpending, Piece.flatMap_marks_pass],
      by rw [hright, Piece.flatMap_marks_pass], (Piece.log_pass _ _ _ _).symm⟩
  | gaveUp =>
    exact ⟨us.map .pass, .stop (by decide) _ us, by rw [hpending, Piece.flatMap_marks_pass],
      by rw [hright, Piece.flatMap_marks_pass], (Piece.log_pass _ _ _ _).symm⟩
  | noMatch hs =>
    subst hright
    exact ⟨us.map .pass, reads_of_first?_eq_none (Pattern.first?_of_nowhere hs),
      by rw [hpending, Piece.flatMap_marks_pass], by rw [Piece.flatMap_marks_pass],
      (Piece.log_pass _ _ _ _).symm⟩
  | pastEnd hs _ hp => exact absurd (Match.passed?_eq_none hp).1 (matched_ne_nil hs)
  | pass hs hl _ _ _ =>
    subst hright hpending hgap
    obtain ⟨x, u, v, rfl, _, _, _, hslice, _⟩ := exists_marks_of_found hs passed
    cases hl with
    | torn ht => exact absurd (ht.symm.trans hslice) (by simp)
    | idle _ _ _ hm _ => exact absurd hm (matched_ne_nil hs)
  | @replace _ left right gap kept slice tail m result remainder ending log hs hk hl hn later ih =>
    subst hright hgap
    obtain ⟨x, u, v, rfl, hx, hu, hv, hslice, hreads⟩ := exists_marks_of_found hs passed
    rw [← hpending, ← hk, ← hl, Text.sliceAt?_append] at hslice
    obtain ⟨rfl, hparts⟩ := Prod.mk.inj (Option.some.inj hslice)
    obtain ⟨rfl, rfl⟩ := Prod.mk.inj hparts
    obtain ⟨ps, hps, hresult, hremainder, hlog⟩ := ih [] v hv rfl rfl
    have hhead : ((m.skipped ++ (k.wrap.handler s (u.flatMap (Mark.text s))).shadow).reverse ++
        left).head? = some ' ' := by
      have hslice : u.flatMap (Mark.text s) ≠ [] := by
        intro hnil
        rw [hnil, Text.byteLength_nil] at hl
        exact matched_ne_nil hs ((Text.byteLength_eq_zero_iff _).mp hl.symm)
      rw [List.reverse_append, Text.reverse_shadow, List.append_assoc]
      exact Text.head?_shadow_append (k.wrap.handler_ne_nil hslice) _
    rw [hhead] at hps
    refine ⟨x.map .pass ++ .hit u :: ps, hreads _ ps hps, ?_, ?_, ?_⟩
    · rw [hresult, ← Wrap.text_marks]
      simp only [List.flatMap_append, List.flatMap_cons, Piece.flatMap_marks_pass, Piece.marks,
        List.append_assoc, List.nil_append]
    · rw [hremainder, hx, ← Wrap.seen_marks]
      simp only [List.flatMap_append, List.flatMap_cons, Piece.flatMap_marks_pass, Piece.marks,
        List.append_assoc]
    · rw [Piece.log_pass_append, Piece.log, hlog, ← Rule.position_after_replace, hx, hu,
        Mark.byteLength_seen, Mark.byteLength_seen]

/-- A rule of a language reads the whole row of marks, unless a search gives up, and makes a row of
it again. -/
theorem edit_buffers (s : Styler) (k : Kind) (us : List Mark) :
    ∃ e ps, Reads k e none us ps ∧
      (k.rule s).edit (Mark.buffers s us) = .ok ⟨Mark.buffers s (ps.flatMap (Piece.marks k.wrap)), e,
        Piece.log s k.wrap 0 ps⟩ ∧
      (e = .noMatch ∨ e = .gaveUp ∧ k.pattern.regex.isRegular = false ∧
        ∃ place, .stoppedScanning k.pattern.source place ∈ (k.rule s).events (Mark.buffers s us)) := by
  obtain ⟨log, hrun, hscan⟩ := Rule.edit_regex k.pattern (k.wrap.handler s)
    (Mark.aligned_buffers s us) (Rule.searchBound k.pattern (Mark.buffers s us))
  obtain ⟨ps, hreads, hresult, hremainder, rfl⟩ := reads_of_scans hscan [] us
    (Mark.buffers_remainder s us) (Mark.buffers_result s us) rfl
  have hbuffers : (Rule.scanWithin k.pattern (k.wrap.handler s)
      (Rule.searchBound k.pattern (Mark.buffers s us)) (Mark.buffers s us)).buffers =
      Mark.buffers s (ps.flatMap (Piece.marks k.wrap)) := by
    refine congrArg₂ Buffers.mk (hresult.trans ?_) (hremainder.trans ?_)
    · exact (Mark.flatMap_shown s _).symm
    · exact (Mark.flatMap_seen s _).symm
  rw [hbuffers] at hrun
  refine ⟨_, ps, hreads, hrun, ?_⟩
  have hbound : (Mark.buffers s us).remainder.length <
      Rule.searchBound k.pattern (Mark.buffers s us) :=
    Nat.le_mul_of_pos_right _ (Nat.succ_pos _)
  rcases hscan.ending_of_matched (fun _ _ _ => matched_ne_nil) hbound with he | he
  · exact Or.inl he
  · refine Or.inr ⟨he, ?_, Rule.stoppedScanning_of_gaveUp _ _ _ _ _ _ he⟩
    rw [← Bool.not_eq_true]
    exact fun hr => hscan.ending_ne_gaveUp hr he

theorem apply_of_edit {s : Styler} {k : Kind} {us : List Mark} {d : Edited}
    (h : (k.rule s).edit (Mark.buffers s us) = .ok d) :
    (k.rule s).apply (Mark.buffers s us) = d.buffers := by
  obtain ⟨d', hd', hb, _⟩ := (k.rule s).edit_eq (Mark.aligned_buffers s us)
  rw [← hb, Except.ok.inj (hd'.symm.trans h)]

/-- What each rule keeps of the rows that it reads, all of them keep together, whether or not a search
gives up. -/
theorem run_invariant (s : Styler) {P : List Mark → Prop} {ks : List Kind}
    (h : ∀ k ∈ ks, ∀ e us ps, Reads k e none us ps → P us → P (ps.flatMap (Piece.marks k.wrap)))
    {us : List Mark} (hus : P us) :
    ∃ us', Engine.run (ks.map (rule s)) (Mark.buffers s us) = Mark.buffers s us' ∧ P us' := by
  induction ks generalizing us with
  | nil => exact ⟨us, rfl, hus⟩
  | cons k ks ih =>
    obtain ⟨e, ps, hreads, hedit, _⟩ := k.edit_buffers s us
    obtain ⟨us', hrun, hus'⟩ := ih (fun k' hk' => h k' (List.mem_cons_of_mem k hk'))
      (h k List.mem_cons_self e us ps hreads hus)
    refine ⟨us', ?_, hus'⟩
    rw [List.map_cons, Engine.run_cons, apply_of_edit hedit]
    exact hrun

end Lexeme.Kind

end Highlighter
