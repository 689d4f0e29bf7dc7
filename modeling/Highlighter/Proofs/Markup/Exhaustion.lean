import Highlighter.Proofs.Lexeme.Fading
import Highlighter.Proofs.Markup.Rows

/-! Nothing is left for a rule that has run. What a rule of a language makes of a row holds none of its
lexemes any more, and no later rule brings one back: a lexeme that is told from its own characters
alone cannot come up where characters only turn blank, and the two kinds for which it matters what
stands before have only rules after them that leave this as it is. -/
namespace Highlighter

open Lexeme

/-- Tried at any place of the text, the pattern finds no match. -/
def Pattern.Absent (p : Pattern) (t : Text) : Prop :=
  ∀ q : Point ⟨[], t⟩, q.groups = [] → (p.regex.attempt q).answer = none

namespace Wrap

theorem fades_marks (w : Wrap) (us : List Mark) : Fades Mark.sym us (w.marks us) := by
  have htags (ts : List Tag) : Fades Mark.sym [] (ts.map Mark.tag) := by
    refine .of_blanks fun m hm => ?_
    obtain ⟨t, _, rfl⟩ := List.mem_map.mp hm
    rfl
  have hhide : Fades Mark.sym us (us.map Mark.hide) := .map_blank (fun m => by cases m <;> rfl) us
  have hall := ((htags w.front).append hhide).append (htags w.back)
  rwa [List.nil_append, List.append_nil] at hall

theorem marks_ne_nil (w : Wrap) {us : List Mark} (h : us ≠ []) : w.marks us ≠ [] := by
  intro hnil
  obtain ⟨hfront, _⟩ := List.append_eq_nil_iff.mp hnil
  exact h (List.map_eq_nil_iff.mp (List.append_eq_nil_iff.mp hfront).2)

end Wrap

namespace Reads

variable {k : Kind} {e : Ending} {prev : Option Char} {us : List Mark} {ps : List Piece}

/-- What a rule makes of a row is the row faded. -/
theorem fades (h : Reads k e prev us ps) : Fades Mark.sym us (ps.flatMap (Piece.marks k.wrap)) := by
  induction h with
  | done => exact .nil
  | stop _ _ us =>
    rw [Piece.flatMap_marks_pass]
    exact .refl us
  | pass _ _ ih => exact .keep _ ih
  | hit h _ ih =>
    obtain ⟨rfl, _⟩ := k.sound.divides h
    exact (k.wrap.fades_marks _).append ih

/-- Behind a word character the rule for words passes over the next mark, if there is one. -/
theorem cons_of_word {c : Char} (h : Reads .keyword e (some c) us ps) (hc : Unicode.isWord c = true) :
    us = [] ∧ ps = [] ∨
      ∃ m r qs, us = m :: r ∧ ps = .pass m :: qs ∧ Reads .keyword e (some m.sym) r qs := by
  cases h with
  | done => exact Or.inl ⟨rfl, rfl⟩
  | stop he _ us =>
    cases us with
    | nil => exact Or.inl ⟨rfl, rfl⟩
    | cons m r => exact Or.inr ⟨m, r, r.map .pass, rfl, rfl, .stop he _ r⟩
  | pass _ later => exact Or.inr ⟨_, _, _, rfl, rfl, later⟩
  | hit h _ =>
    change keyword Mark.sym (some c) us = _ at h
    rw [keyword, Option.any_some, hc, if_pos rfl] at h
    exact absurd h (by simp)

/-- A rest of a word that does not come next before the rule for words does not come next after
it. -/
theorem word?_eq_none {w : Text} (hw : ∀ c ∈ w, Unicode.isWord c = true) {c : Char}
    (hc : Unicode.isWord c = true) (h : Reads .keyword e (some c) us ps)
    (hnone : word? Mark.sym w us = none) :
    word? Mark.sym w (ps.flatMap (Piece.marks Kind.keyword.wrap)) = none := by
  induction w generalizing c us ps with
  | nil =>
    -- The word is found where no word character comes next; the next mark is the same as before.
    obtain ⟨rfl, rfl⟩ | ⟨m, r, qs, rfl, rfl, _⟩ := h.cons_of_word hc
    · exact hnone
    · have hm : (some m).any (Unicode.isWord ∘ Mark.sym) = true := by
        by_contra hm
        rw [word?, List.head?_cons, if_neg hm] at hnone
        exact absurd hnone (by simp)
      exact if_pos hm
  | cons d w ih =>
    obtain ⟨rfl, rfl⟩ | ⟨m, r, qs, rfl, rfl, hlater⟩ := h.cons_of_word hc
    · rfl
    · rw [List.flatMap_cons]
      change after? (· = d) Mark.sym _ (m :: qs.flatMap _) = none
      by_cases hm : m.sym = d
      · rw [word?, after?_cons_of_pos (decide_eq_true hm), Option.map_eq_none_iff] at hnone
        rw [after?_cons_of_pos (decide_eq_true hm), Option.map_eq_none_iff]
        have hword : Unicode.isWord m.sym = true := hm ▸ hw d List.mem_cons_self
        exact ih (fun c' hc' => hw c' (List.mem_cons_of_mem d hc')) hword hlater hnone
      · exact after?_cons_of_neg (decide_eq_false hm) _

/-- At a mark that the rule for words has passed over there is no word after it either. -/
theorem keyword_eq_none {m : Mark} (h : Reads .keyword e (some m.sym) us ps)
    (hnone : keyword Mark.sym prev (m :: us) = none) :
    keyword Mark.sym prev (m :: ps.flatMap (Piece.marks Kind.keyword.wrap)) = none := by
  have hone {d : Char} {w : Text} (hd : Unicode.isWord d = true)
      (hw : ∀ c ∈ w, Unicode.isWord c = true) (hn : word? Mark.sym (d :: w) (m :: us) = none) :
      word? Mark.sym (d :: w) (m :: ps.flatMap (Piece.marks Kind.keyword.wrap)) = none := by
    by_cases hm : m.sym = d
    · rw [word?, after?_cons_of_pos (decide_eq_true hm), Option.map_eq_none_iff] at hn ⊢
      exact h.word?_eq_none hw (hm ▸ hd) hn
    · exact after?_cons_of_neg (decide_eq_false hm) _
  unfold keyword at hnone ⊢
  by_cases hp : prev.any Unicode.isWord = true
  · rw [if_pos hp]
  · rw [if_neg hp, Option.or_eq_none_iff] at hnone ⊢
    exact ⟨hone (by decide) (by decide) hnone.1, hone (by decide) (by decide) hnone.2⟩

end Reads

namespace Lexeme.Kind

theorem stable {k : Kind} (h : k ≠ keyword) : Recognizer.Stable k.recognizer :=
  match k with
  | lineComment => stable_lineComment
  | blockComment => stable_blockComment
  | decorator => stable_decorator
  | functionOpen => stable_functionOpen
  | closingParen => stable_closingParen
  | string => stable_string
  | radix => stable_radix
  | keyword => absurd rfl h
  | data => stable_data

theorem blind {k : Kind} (hr : k ≠ radix) (hk : k ≠ keyword) : Recognizer.Blind k.recognizer :=
  match k with
  | lineComment | blockComment | decorator | functionOpen | closingParen | string | data =>
    ⟨fun _ _ _ _ => rfl⟩
  | radix => absurd rfl hr
  | keyword => absurd rfl hk

/-- The row holds no lexeme of the kind. -/
def Spent (k : Kind) (prev : Option Char) (us : List Mark) : Prop :=
  Recognizer.Spent k.recognizer Mark.sym prev us

variable {k : Kind} {e : Ending} {prev prev' : Option Char} {us us' : List Mark} {ps : List Piece}

/-- A rule leaves no lexeme of its kind. -/
theorem spent_of_reads (h : Reads k .noMatch prev us ps) :
    k.Spent prev (ps.flatMap (Piece.marks k.wrap)) := by
  -- A mark that the rule has passed over stays, but what follows it has faded; what the rule has found
  -- is blank now.
  generalize he : Ending.noMatch = e at h
  induction h with
  | done => trivial
  | stop hne => exact absurd he.symm hne
  | @pass e prev m us ps hnone later ih =>
    refine ⟨?_, ih he⟩
    by_cases hk : k = keyword
    · subst hk
      exact later.keyword_eq_none hnone
    · exact (stable hk).fades (.keep m later.fades) hnone
  | @hit e prev us u v ps hfound _ ih =>
    have hne := k.wrap.marks_ne_nil (k.sound.ne_nil hfound)
    exact (ih he).of_blanks k.sound (fun _ => Wrap.sym_marks) hne prev

/-- Where there are no characters of names and numbers, there are no radix literals and no words. -/
theorem spent_of_data (hk : k = radix ∨ k = keyword) (h : data.Spent prev us) : k.Spent prev' us := by
  have hset {c : Char} {a : Mark} {l : List Mark} {prev : Option Char}
      (hc : Pattern.dataSet.has c = true) (hnone : Lexeme.data Mark.sym prev (a :: l) = none) :
      a.sym ≠ c := by
    rw [Lexeme.data, Option.map_eq_none_iff, run?_eq_none_iff] at hnone
    intro heq
    exact Bool.false_ne_true ((hnone a rfl).symm.trans (heq ▸ hc))
  rcases hk with rfl | rfl
  · refine Recognizer.Spent.imp (fun prev prev' a l hnone => ?_) h prev'
    have hdata : Lexeme.data Mark.sym prev (a :: l) = none := hnone
    have hzero : a.sym ≠ '0' := hset (by decide) hdata
    exact if_neg fun hfirst => hzero (of_decide_eq_true ((Bool.and_eq_true _ _).mp hfirst).1)
  · refine Recognizer.Spent.imp (fun prev prev' a l hnone => ?_) h prev'
    have hdata : Lexeme.data Mark.sym prev (a :: l) = none := hnone
    have hr : a.sym ≠ 'r' := hset (by decide) hdata
    have hf : a.sym ≠ 'f' := hset (by decide) hdata
    change (if _ then none else (word? Mark.sym "return" (a :: l)).or
      (word? Mark.sym "function" (a :: l))) = none
    have hwords : (word? Mark.sym "return" (a :: l)).or (word? Mark.sym "function" (a :: l)) = none :=
      congrArg₂ Option.or (after?_cons_of_neg (decide_eq_false hr) l)
        (after?_cons_of_neg (decide_eq_false hf) l)
    rw [hwords, ite_self]

/-- The rule for words leaves no radix literal where there was none: before the place of a `0`, a word
and a blank are alike no part of a number. -/
theorem spent_radix_of_keyword (h : Reads keyword e prev' us ps)
    (hp : prev.any Pattern.numberSet.has = prev'.any Pattern.numberSet.has)
    (hs : radix.Spent prev us) : radix.Spent prev' (ps.flatMap (Piece.marks keyword.wrap)) := by
  have hsame {prev prev' : Option Char}
      (hp : prev.any Pattern.numberSet.has = prev'.any Pattern.numberSet.has) (l : List Mark) :
      Lexeme.radix Mark.sym prev' l = Lexeme.radix Mark.sym prev l := by
    unfold Lexeme.radix
    rw [hp]
  induction h generalizing prev with
  | done => trivial
  | stop _ prev' us =>
    rw [Piece.flatMap_marks_pass]
    cases us with
    | nil => trivial
    | cons m us => exact ⟨(hsame hp _).trans hs.1, hs.2⟩
  | @pass e prev' m us ps _ later ih =>
    exact ⟨stable_radix.fades (.keep m later.fades) ((hsame hp _).trans hs.1), ih rfl hs.2⟩
  | @hit e prev' us u v ps hfound _ ih =>
    obtain ⟨hsplit, hu⟩ := keyword_eq_some hfound
    have hne := keyword.wrap.marks_ne_nil (keyword.sound.ne_nil hfound)
    have hlast : u.getLast?.map Mark.sym = some 'n' := by
      rw [← List.getLast?_map]
      rcases hu with hu | hu <;> rw [hu] <;> rfl
    rw [hsplit] at hs
    have hrest := Recognizer.Spent.of_append hs
    rw [hlast, Option.some_or] at hrest
    exact (ih (by decide) hrest).of_blanks radix.sound (fun _ => Wrap.sym_marks) hne prev'

/-- A rule that may run after the one for `k`, as far as it matters what stands before a lexeme. -/
def Precedes (k k' : Kind) : Prop :=
  (k = radix → k' = keyword ∨ k' = data) ∧ (k = keyword → k' = data)

instance (k k' : Kind) : Decidable (k.Precedes k') := inferInstanceAs (Decidable (_ ∧ _))

/-- No later rule brings a lexeme of the kind back. -/
theorem Makes.spent {k' : Kind} (h : k'.Makes us us') (hk : k.Precedes k') (hs : k.Spent none us) :
    k.Spent none us' := by
  obtain ⟨ps, hreads, rfl⟩ := h
  -- Only for radix literals and words it matters what stands before, which may have turned blank.
  by_cases hradix : k = radix
  · subst hradix
    rcases hk.1 rfl with rfl | rfl
    · exact spent_radix_of_keyword hreads rfl hs
    · exact spent_of_data (Or.inl rfl) (spent_of_reads hreads)
  · by_cases hkeyword : k = keyword
    · subst hkeyword
      obtain rfl := hk.2 rfl
      exact spent_of_data (Or.inr rfl) (spent_of_reads hreads)
    · exact Recognizer.Spent.fades k.sound (stable hkeyword) (blind hradix hkeyword) hreads.fades hs
        none

theorem Makes.spent_self (h : k.Makes us us') : k.Spent none us' := by
  obtain ⟨ps, hreads, rfl⟩ := h
  exact spent_of_reads hreads

/-- Nothing is found at a place of what a styler sees of a spent row. -/
theorem Spent.eq_none (h : k.Spent none us) {s : Styler} {front back : Text}
    (ht : us.flatMap (Mark.seen s) = front ++ back) :
    k.recognizer id front.getLast? back = none := by
  have hseen := Recognizer.Spent.spread k.sound (Mark.spread s) h
  rw [ht] at hseen
  have hnone := Recognizer.Spent.eq_none k.sound hseen
  rwa [Option.map_id_fun, id, Option.or_none] at hnone

/-- A styler sees no match of the pattern in a spent row. -/
theorem Spent.absent (h : k.Spent none us) (s : Styler) :
    k.pattern.Absent (us.flatMap (Mark.seen s)) := by
  rintro ⟨b, a, i, g, ht, hi⟩ hg
  obtain rfl : g = [] := hg
  have hsplit : us.flatMap (Mark.seen s) = b.reverse ++ a := by
    rw [← List.reverseAux_eq]
    exact ht.symm
  have hnone := h.eq_none hsplit
  rw [List.getLast?_reverse] at hnone
  exact Regex.attempt_answer_eq_none (endsAt_eq_nil.mpr hnone)

/-- A search through it finds none. -/
theorem Spent.not_found (h : k.Spent none us) (s : Styler) (m : Match) :
    k.pattern.search [] (us.flatMap (Mark.seen s)) ≠ .found m := by
  intro hfound
  have hm := recognizer_of_first? (Pattern.first?_of_found hfound)
  have htext := Pattern.text_of_found hfound
  rw [List.append_assoc] at htext
  have hnone := h.eq_none htext.symm
  rw [List.append_nil, List.head?_reverse] at hm
  exact absurd (hnone.symm.trans hm) (by simp)

theorem Spent.not_mem_paren (h : closingParen.Spent none us) (s : Styler) :
    ')' ∉ us.flatMap (Mark.seen s) := by
  intro hc
  obtain ⟨front, back, ht⟩ := List.append_of_mem hc
  have hnone : Lexeme.closingParen id front.getLast? (')' :: back) = none := h.eq_none ht
  rw [Lexeme.closingParen, after?_cons_of_pos (decide_eq_true rfl)] at hnone
  exact absurd hnone (by simp)

theorem Spent.not_infix_slashes (h : lineComment.Spent none us) (s : Styler) :
    ¬ "//".toList <:+: us.flatMap (Mark.seen s) := by
  rintro ⟨front, back, ht⟩
  rw [List.append_assoc] at ht
  have hnone : Lexeme.lineComment id front.getLast? ('/' :: '/' :: back) = none := h.eq_none ht.symm
  rw [Lexeme.lineComment, after?_cons_of_pos (decide_eq_true rfl),
    after?_cons_of_pos (decide_eq_true rfl)] at hnone
  exact absurd hnone (by simp)

theorem Spent.has_dataSet (h : data.Spent none us) (s : Styler) :
    ∀ c ∈ us.flatMap (Mark.seen s), Pattern.dataSet.has c = false := by
  intro c hc
  obtain ⟨front, back, ht⟩ := List.append_of_mem hc
  have hnone : Lexeme.data id front.getLast? (c :: back) = none := h.eq_none ht
  rw [Lexeme.data, Option.map_eq_none_iff, run?_eq_none_iff] at hnone
  exact hnone c rfl

end Lexeme.Kind

namespace Rows

variable {k : Kind} {ks : List Kind} {us final : List Mark} {rows : List (List Mark)}

theorem length_eq (h : Rows ks us rows final) : rows.length = ks.length + 1 := by
  induction h with
  | nil => rfl
  | cons _ _ ih => exact congrArg (· + 1) ih

/-- A row that is spent for a kind is followed by such rows only. -/
theorem spent_of_precedes (h : Rows ks us rows final) (hk : ∀ k' ∈ ks, k.Precedes k')
    (hs : k.Spent none us) : ∀ row ∈ rows, k.Spent none row := by
  induction h with
  | nil => exact List.forall_mem_singleton.mpr hs
  | cons hmakes _ ih =>
    have hnext := hmakes.spent (hk _ List.mem_cons_self) hs
    exact List.forall_mem_cons.mpr ⟨hs, ih (fun k' hk' => hk k' (List.mem_cons_of_mem _ hk')) hnext⟩

/-- Every row behind the rule for a kind is spent for it. -/
theorem spent (h : Rows ks us rows final) (hks : ks.Pairwise Kind.Precedes) {i j : Nat}
    (hi : ks[i]? = some k) (hij : i < j) {row : List Mark} (hj : rows[j]? = some row) :
    k.Spent none row := by
  induction h generalizing i j with
  | nil => exact absurd hi (by simp)
  | cons hmakes later ih =>
    obtain ⟨j, rfl⟩ := Nat.exists_eq_add_one_of_ne_zero (Nat.ne_zero_of_lt hij)
    rw [List.getElem?_cons_succ] at hj
    obtain ⟨hfirst, hrest⟩ := List.pairwise_cons.mp hks
    cases i with
    | zero =>
      obtain rfl := Option.some.inj hi
      exact later.spent_of_precedes hfirst hmakes.spent_self row (List.mem_of_getElem? hj)
    | succ i => exact ih hrest hi (Nat.lt_of_succ_lt_succ hij) hj

end Rows

/-- The rule is one for a pattern, which has no match in the remainder. -/
def Rule.HasNothingLeft : Rule → Buffers → Prop
  | regex pattern _, b => pattern.Absent b.remainder
  | wholeText _, _ => False

namespace Lexeme.Kind

variable {k : Kind} {us : List Mark}

theorem Spent.hasNothingLeft (h : k.Spent none us) (s : Styler) :
    (k.rule s).HasNothingLeft (Mark.buffers s us) := by
  change k.pattern.Absent (Mark.buffers s us).remainder
  rw [Mark.buffers_remainder]
  exact h.absent s

/-- A rule leaves a row as it is that is spent for its kind. -/
theorem Spent.apply_eq (h : k.Spent none us) (s : Styler) :
    (k.rule s).apply (Mark.buffers s us) = Mark.buffers s us := by
  apply Rule.apply_of_not_found
  rw [Mark.buffers_remainder]
  exact h.not_found s

end Lexeme.Kind

namespace Language

theorem kinds_pairwise (l : Language) : l.kinds.Pairwise Kind.Precedes := by
  cases l <;> decide

/-- While no search gives up, each state before the whole sample is wrapped shows a row that is spent
for the kinds of all rules that have run. -/
theorem exists_spent_row {s : Styler} {l : Language} {input : Text}
    (h : (l.engine s).NeverStops input) {j : Nat} (hj : j ≤ (l.regexRules s).length) :
    ∃ row, ((l.engine s).trace input)[j]? = some (Mark.buffers s row) ∧
      ∀ (i : Nat) (k : Kind), l.kinds[i]? = some k → i < j → k.Spent none row := by
  obtain ⟨rows, final, hrows, hstates, _⟩ := exists_rows h
  have hlt : j < rows.length := by
    rw [hrows.length_eq, ← length_regexRules s l]
    exact Nat.lt_succ_of_le hj
  have hrow : rows[j]? = some rows[j] := List.getElem?_eq_getElem hlt
  refine ⟨rows[j], ?_, fun i k hk hij => hrows.spent l.kinds_pairwise hk hij hrow⟩
  rw [Engine.trace, engine, Engine.getElem?_states_append _ _ _ hj, hstates, List.getElem?_map, hrow,
    Option.map_some]

/-- Nothing is left for a rule that has run. While no search gives up, the pattern of each rule has no
match in the remainder from when the rule has run until the whole sample is wrapped, and to apply the
rule again then changes nothing. Before the sample is wrapped no rule for a pattern changes anything,
and the remainder holds no closing parenthesis, no `//` and no character of names and numbers. -/
theorem nothing_left_of_rules (s : Styler) (l : Language) (input : Text)
    (h : (l.engine s).NeverStops input) :
    (∀ (i j : Nat) (r : Rule), (l.regexRules s)[i]? = some r → i < j →
      j ≤ (l.regexRules s).length → ∃ b, ((l.engine s).trace input)[j]? = some b ∧
        r.HasNothingLeft b ∧ r.apply b = b) ∧
    ∃ b, ((l.engine s).trace input)[(l.regexRules s).length]? = some b ∧
      (∀ r ∈ l.regexRules s, r.apply b = b) ∧ ')' ∉ b.remainder ∧ ¬ "//".toList <:+: b.remainder ∧
      ∀ c ∈ b.remainder, Pattern.dataSet.has c = false := by
  constructor
  · intro i j r hr hij hj
    obtain ⟨k, hk, rfl⟩ := exists_kind hr
    obtain ⟨row, hstate, hspent⟩ := exists_spent_row h hj
    have hs := hspent i k hk hij
    exact ⟨_, hstate, hs.hasNothingLeft s, hs.apply_eq s⟩
  · obtain ⟨row, hstate, hspent⟩ := exists_spent_row h (Nat.le_refl _)
    -- Before the sample is wrapped all rules for patterns have run.
    have hall (k : Kind) (hk : k ∈ l.kinds) : k.Spent none row := by
      obtain ⟨i, hi, hik⟩ := List.mem_iff_getElem.mp hk
      have hbehind : i < (l.regexRules s).length := by rwa [length_regexRules]
      exact hspent i k (List.getElem?_eq_some_iff.mpr ⟨hi, hik⟩) hbehind
    have hfixed : ∀ r ∈ l.regexRules s, r.apply (Mark.buffers s row) = Mark.buffers s row := by
      intro r hr
      rw [regexRules_eq] at hr
      obtain ⟨k, hk, rfl⟩ := List.mem_map.mp hr
      exact (hall k hk).apply_eq s
    have hparen := hall .closingParen (by cases l <;> decide)
    have hcomment := hall .lineComment (by cases l <;> decide)
    have hdata := hall .data (by cases l <;> decide)
    refine ⟨_, hstate, hfixed, ?_⟩
    rw [Mark.buffers_remainder]
    exact ⟨hparen.not_mem_paren s, hcomment.not_infix_slashes s, hdata.has_dataSet s⟩

/-- A word, a call of a number in another base, and a comment with a call in it. -/
theorem nothing_left_of_rules_of_call :
    let input : Text := "return f(0x1F) // g(1)"
    (javascript.engine .default).NeverStops input ∧
      (javascript.regexRules .default)[6]? = some (spanRule .default .keyword .decorator) ∧
      ∃ b, ((javascript.engine .default).trace input)[8]? = some b ∧
        (spanRule .default .keyword .decorator).HasNothingLeft b ∧
        ∀ r ∈ javascript.regexRules .default, r.apply b = b := by
  intro input
  have hstops : (javascript.engine .default).NeverStops input := by decide +kernel
  obtain ⟨hrules, b, hb, hfixed, _⟩ := nothing_left_of_rules .default javascript input hstops
  obtain ⟨b', hb', hleft, _⟩ := hrules 6 8 _ rfl (by decide) (by decide)
  obtain rfl := Option.some.inj (hb.symm.trans hb')
  exact ⟨hstops, rfl, b, hb, hleft, hfixed⟩

end Language

end Highlighter
