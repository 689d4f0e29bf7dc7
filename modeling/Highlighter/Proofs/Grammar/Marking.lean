import Highlighter.Proofs.Grammar.Finding
import Highlighter.Proofs.Markup.Rows

/-! The rules of a language take a script through rows in which more and more of its tokens are
marked: each rule marks the tokens of its kind and passes over the others. In the end every token is
rendered by itself. -/
namespace Highlighter

open Grammar Lexeme

variable {l : Language}

namespace Token

/-- The marks of a token after the rules for these kinds. -/
def marks (done : List Kind) (t : Token l) : List Mark :=
  match t.kind? with
  | some k => if k ∈ done then k.wrap.marks (Mark.ofText t.text) else Mark.ofText t.text
  | none => Mark.ofText t.text

/-- The row of some tokens after the rules for these kinds. -/
def row (done : List Kind) (ts : List (Token l)) : List Mark := ts.flatMap (marks done)

theorem row_cons (done : List Kind) (t : Token l) (ts : List (Token l)) :
    row done (t :: ts) = t.marks done ++ row done ts := List.flatMap_cons

/-- The lexemes of one kind only have this character, if no comments are meant. -/
def marker? : Char → Option Kind
  | '/' => some .lineComment
  | '@' => some .decorator
  | '(' => some .functionOpen
  | ')' => some .closingParen
  | '"' | '\'' => some .string
  | _ => none

/-- Every token is left to a rule of the language or to none. -/
theorem kind?_mem {t : Token l} {k : Kind} (h : t.kind? = some k) : k ∈ l.kinds := by
  cases t with
  | blank | newline => exact absurd h (by simp [kind?])
  | opening _ _ | closing | comment _ =>
    obtain rfl := Option.some.inj h
    cases l <;> decide
  | atom a =>
    cases a with
    | operator _ _ => exact absurd h (by simp [kind?, Atom.kind?])
    | number _ _ | radix _ _ | string _ _ _ _ =>
      obtain rfl := Option.some.inj h
      cases l <;> decide
    | decorator _ _ hl =>
      obtain rfl := Option.some.inj h
      rw [hl]
      decide
    | identifier u _ =>
      obtain rfl := Option.some.inj h
      cases l with
      | lavendeux => exact (by decide : Kind.data ∈ Language.lavendeux.kinds)
      | javascript => cases Language.javascript.isKeyword u <;> decide

section Clear

variable {t : Token l} {done : List Kind}

theorem marks_of_not_mem (h : ∀ k, t.kind? = some k → k ∉ done) :
    t.marks done = Mark.ofText t.text := by
  unfold marks
  cases hk : t.kind? with
  | none => rfl
  | some k => exact if_neg (h k hk)

theorem marks_of_mem {k : Kind} (hk : t.kind? = some k) (h : k ∈ done) :
    t.marks done = k.wrap.marks (Mark.ofText t.text) := by
  unfold marks
  rw [hk]
  exact if_pos h

/-- The rule for a kind changes the tokens of the kind only. -/
theorem marks_append_of_ne {k : Kind} (hk : t.kind? ≠ some k) :
    t.marks (done ++ [k]) = t.marks done := by
  unfold marks
  cases h : t.kind? with
  | none => rfl
  | some k' =>
    have hne : k' ∉ [k] := fun hmem => hk (h.trans (congrArg some (List.mem_singleton.mp hmem)))
    simp only [List.mem_append, hne, or_false]

/-- Tokens that no rule has marked yet are seen as their text. -/
theorem row_of_not_mem {ts : List (Token l)} (h : ∀ t ∈ ts, ∀ k, t.kind? = some k → k ∉ done) :
    row done ts = Mark.ofText (ts.flatMap text) := by
  rw [Mark.ofText, List.map_flatMap]
  exact List.flatMap_congr fun t ht => marks_of_not_mem (h t ht)

/-- Tokens of which every rule has been applied are shown as they are rendered. -/
theorem text_row (s : Styler) {ts : List (Token l)}
    (h : ∀ t ∈ ts, ∀ k, t.kind? = some k → k ∈ done) :
    (row done ts).flatMap (Mark.text s) = ts.flatMap (render s) := by
  have htext (t : Text) : (Mark.ofText t).flatMap (Mark.text s) = t := by
    rw [Mark.flatMap_text_ofText]
  rw [row, List.flatMap_assoc]
  apply List.flatMap_congr
  intro t ht
  unfold render
  cases hk : t.kind? with
  | none =>
    rw [marks_of_not_mem (fun k hk' => absurd (hk.symm.trans hk') (by simp)), htext]
  | some k => rw [marks_of_mem hk (h t ht k hk), Wrap.text_marks, htext]

end Clear

section Markers

variable {c : Char}

theorem marker?_eq_none {P : Char → Bool} (hP : ∀ c ∈ ['/', '@', '(', ')', '"', '\''], P c = false)
    (hc : P c = true) : marker? c = none := by
  unfold marker?
  split
  all_goals first | rfl | exact absurd hc (by rw [hP _ (by decide)]; exact Bool.false_ne_true)

/-- Where a character tells the kind of a lexeme, the token is such a lexeme or a comment. -/
theorem kind?_of_marker {t : Token l} (hc : c ∈ t.text) {k : Kind} (hk : marker? c = some k) :
    t.kind? = some k ∨ t.kind? = some .lineComment := by
  have hnone {P : Char → Bool} (hP : ∀ c ∈ ['/', '@', '(', ')', '"', '\''], P c = false)
      (hc : P c = true) : t.kind? = some k ∨ t.kind? = some .lineComment :=
    absurd ((marker?_eq_none hP hc).symm.trans hk) (by simp)
  cases t with
  | comment _ => exact Or.inr rfl
  | blank | newline =>
    rw [List.mem_singleton.mp hc] at hk
    exact Option.some_ne_none k (hk : none = some k).symm |>.elim
  | closing =>
    rw [List.mem_singleton.mp hc] at hk
    exact Or.inl hk
  | opening name h =>
    rcases List.mem_append.mp hc with hc | hc
    · exact hnone (P := isNameChar) (by decide) (h.2 c hc)
    · rw [List.mem_singleton.mp hc] at hk
      exact Or.inl hk
  | atom a =>
    cases a with
    | number u h => exact hnone (by decide) (h.isNumeric c hc)
    | identifier u h => exact hnone (by decide) (h.2 c hc).1
    | radix u h => exact hnone (by decide) (h.2.2 c hc)
    | operator u h => exact hnone (by decide) (h.2 c hc)
    | decorator name h hl =>
      rcases List.mem_cons.mp hc with rfl | hc
      · exact Or.inl hk
      · exact hnone (by decide) (h.2 c hc)
    | string quote content hq h =>
      have hquote (hc : c = quote) : Kind.string = k := by
        rw [hc] at hk
        rcases hq with rfl | rfl <;> exact Option.some.inj hk
      rcases List.mem_cons.mp hc with hc | hc
      · exact Or.inl (congrArg some (hquote hc))
      rcases List.mem_append.mp hc with hc | hc
      · exact hnone (by decide) (h c hc)
      · exact Or.inl (congrArg some (hquote (List.mem_singleton.mp hc)))

end Markers

/-- A rule whose lexemes begin with markers passes over a token of another kind. -/
theorem passes_of_marker (k k' : Kind) (hk : ∀ c, k.starts c = true → marker? c = some k')
    {t : Token l} (ht : t.kind? ≠ some k') (hcomment : t.kind? ≠ some .lineComment)
    (prev : Option Char) (rest : List Mark) : k.Passes prev (Mark.ofText t.text) rest := by
  apply passes_ofText
  intro c hc
  rw [← Bool.not_eq_true]
  exact fun hstarts => (kind?_of_marker hc (hk c hstarts)).elim ht hcomment

/-- No word is found in an operator, a blank or a newline. -/
theorem passes_of_operator {k : Kind} (hk : k ∈ [.radix, .keyword, .data]) {t : Text}
    (ht : ∀ c ∈ t, c = ' ' ∨ c = '\n' ∨ isOperatorChar c = true) (prev : Option Char)
    (rest : List Mark) : k.Passes prev (Mark.ofText t) rest := by
  apply passes_ofText
  intro c hc
  have hall : ∀ k ∈ [Kind.radix, .keyword, .data],
      ∀ c ∈ ' ' :: '\n' :: "+-*=<>|&^!?:;%~[]\x7b\x7d".toList, k.starts c = false := by decide
  apply hall k hk c
  rcases ht c hc with rfl | rfl | hop
  · exact List.mem_cons_self
  · exact List.mem_cons_of_mem _ List.mem_cons_self
  · exact List.mem_cons_of_mem _ (List.mem_cons_of_mem _ (of_decide_eq_true hop))

/-- The rule for comments to the end of a line is the first one. -/
theorem lineComment_first (l : Language) : ∀ k ∈ l.kinds, k ≠ .lineComment →
    Kind.lineComment ∉ l.kinds.dropWhile (· ≠ k) := by
  cases l <;> decide

/-- The rules for words are the last ones. -/
theorem mem_words (l : Language) : ∀ k ∈ [Kind.radix, .keyword, .data],
    ∀ k' ∈ l.kinds.dropWhile (· ≠ k), k' ∈ [Kind.radix, .keyword, .data] := by
  cases l <;> decide

/-- The rules for words pass over the words of other kinds and over what is no word. -/
theorem passes_of_word {k : Kind} (hk : k ∈ [.radix, .keyword, .data]) (hl : k ∈ l.kinds)
    {t : Token l} (ht : t.kind? ≠ some k)
    (hlater : ∀ k', t.kind? = some k' → k' ∈ l.kinds.dropWhile (· ≠ k)) (prev : Option Char)
    {rest : List Mark} (hrest : t.opens = false → Shut rest) :
    k.Passes prev (Mark.ofText t.text) rest := by
  have hnot (k' : Kind) (hk' : k' ∉ [Kind.radix, .keyword, .data]) : t.kind? ≠ some k' :=
    fun h => hk' (mem_words l k hk k' (hlater k' h))
  have hkinds : k = .radix ∨ k = .keyword ∨ k = .data := by simpa using hk
  cases t with
  | comment _ => exact absurd rfl (hnot .lineComment (by decide))
  | opening _ _ => exact absurd rfl (hnot .functionOpen (by decide))
  | closing => exact absurd rfl (hnot .closingParen (by decide))
  | blank => exact passes_of_operator hk (fun c hc => Or.inl (List.mem_singleton.mp hc)) prev rest
  | newline =>
    exact passes_of_operator hk (fun c hc => Or.inr (Or.inl (List.mem_singleton.mp hc))) prev rest
  | atom a =>
    have hshut := hrest rfl
    cases a with
    | operator u h => exact passes_of_operator hk (fun c hc => Or.inr (Or.inr (h.2 c hc))) prev rest
    | decorator _ _ _ => exact absurd rfl (hnot .decorator (by decide))
    | string _ _ _ _ => exact absurd rfl (hnot .string (by decide))
    | number u h =>
      rcases hkinds with rfl | rfl | rfl
      · exact passes_radix h hshut
      · exact passes_keyword_of_numeric h.isNumeric
      · exact absurd rfl ht
    | identifier u h =>
      rcases hkinds with rfl | rfl | rfl
      · exact passes_ofText fun c hc => decide_eq_false (h.2 c hc).2
      · cases l with
        | lavendeux => exact absurd hl (by decide)
        | javascript =>
          refine passes_keyword (fun c hc => (h.2 c hc).1) ⟨?_, ?_⟩ hshut
          · rintro rfl
            exact ht rfl
          · rintro rfl
            exact ht rfl
      · -- An identifier that is no data is a keyword, whose rule comes before.
        have hkind : Token.kind? (.atom (.identifier u h)) =
            some (if l.isKeyword u then .keyword else .data) := rfl
        have hkey : l.isKeyword u = true := by
          by_contra hkey
          exact ht (by rw [hkind, if_neg hkey])
        have hmem := hlater .keyword (by rw [hkind, if_pos hkey])
        exact absurd hmem (by cases l <;> decide)
    | radix u h =>
      have hmem := hlater .radix rfl
      rcases hkinds with rfl | rfl | rfl
      · exact absurd rfl ht
      · exact absurd hmem (by cases l <;> decide)
      · exact absurd hmem (by cases l <;> decide)

/-- The rule for calls passes over what is neither a call nor a comment. -/
theorem passes_of_no_call {t : Token l} (ht : t.kind? ≠ some .functionOpen)
    (hcomment : t.kind? ≠ some .lineComment) (prev : Option Char) {rest : List Mark}
    (hrest : t.opens = false → Shut rest) :
    Kind.functionOpen.Passes prev (Mark.ofText t.text) rest := by
  cases hopens : t.opens with
  | false =>
    have hparen : '(' ∉ t.text := fun hc => (kind?_of_marker hc rfl).elim ht hcomment
    exact passes_functionOpen hparen (hrest hopens)
  | true =>
    apply passes_ofText
    intro c hc
    cases t with
    | opening _ _ => exact absurd rfl ht
    | blank | newline =>
      rw [List.mem_singleton.mp hc]
      decide
    | atom _ | closing | comment _ => exact absurd hopens Bool.false_ne_true

/-- The rule for a kind passes over the tokens of other kinds, if the rules before it have been
applied. -/
theorem passes {k : Kind} (hk : k ∈ l.kinds) {done : List Kind}
    (hdone : ∀ k' ∈ l.kinds.takeWhile (· ≠ k), k' ∈ done) {t : Token l} (ht : t.kind? ≠ some k)
    (prev : Option Char) {rest : List Mark} (hrest : t.opens = false → Shut rest) :
    k.Passes prev (t.marks done) rest := by
  by_cases hmem : ∃ k', t.kind? = some k' ∧ k' ∈ done
  · -- A token that is marked shows only blanks.
    obtain ⟨k', hk', hmem⟩ := hmem
    rw [marks_of_mem hk' hmem]
    apply passes_of_starts
    intro m hm
    rw [Wrap.sym_marks hm]
    exact k.starts_space
  · -- Any other token belongs to a later rule or to none.
    rw [marks_of_not_mem fun k' hk' hmem' => hmem ⟨k', hk', hmem'⟩]
    have hlater : ∀ k', t.kind? = some k' → k' ∈ l.kinds.dropWhile (· ≠ k) := by
      intro k' hk'
      have hkind := kind?_mem hk'
      rw [← List.takeWhile_append_dropWhile (p := (· ≠ k)) (l := l.kinds)] at hkind
      exact (List.mem_append.mp hkind).resolve_left fun h => hmem ⟨k', hk', hdone k' h⟩
    have hcomment (hne : k ≠ .lineComment) : t.kind? ≠ some .lineComment :=
      fun h => lineComment_first l k hk hne (hlater _ h)
    have hmarker (d : Char) (c : Char) (hc : decide (c = d) = true) : marker? c = marker? d :=
      congrArg marker? (of_decide_eq_true hc)
    cases k with
    | lineComment =>
      exact passes_of_marker .lineComment .lineComment (hmarker '/') ht ht prev rest
    | blockComment =>
      have hne := hcomment (by decide)
      exact passes_of_marker .blockComment .lineComment (hmarker '/') hne hne prev rest
    | decorator =>
      exact passes_of_marker .decorator .decorator (hmarker '@') ht (hcomment (by decide)) prev rest
    | closingParen =>
      have hne := hcomment (by decide)
      exact passes_of_marker .closingParen .closingParen (hmarker ')') ht hne prev rest
    | string =>
      refine passes_of_marker .string .string (fun c hc => ?_) ht (hcomment (by decide)) prev rest
      rcases isQuote_iff.mp hc with rfl | rfl <;> rfl
    | functionOpen => exact passes_of_no_call ht (hcomment (by decide)) prev hrest
    | radix | keyword | data => exact passes_of_word (by decide) hk ht hlater prev hrest

/-- A token of a kind is found as a whole. -/
theorem recognizer_eq_some {k : Kind} {t : Token l} (ht : t.kind? = some k) {prev : Option Char}
    {rest : List Mark} (hprev : t.closes = false → Apart prev) (hrest : t.opens = false → Shut rest)
    (hline : t.isComment = true → ∀ m ∈ rest.head?, m.sym = '\n') :
    k.recognizer Mark.sym prev (Mark.ofText t.text ++ rest) = some (Mark.ofText t.text, rest) := by
  have hdata {u : Text} (hne : u ≠ []) (h : ∀ c ∈ u, (isNameChar c || isNumeric c) = true)
      (hrest : Shut rest) :=
    data_ofText hne (fun c hc => (has_dataSet c).trans (h c hc)) prev hrest
  cases t with
  | blank | newline => exact absurd ht (by simp [kind?])
  | comment c =>
    obtain rfl := Option.some.inj ht
    exact lineComment_source c prev (hline rfl)
  | opening name h =>
    obtain rfl := Option.some.inj ht
    exact functionOpen_ofText h prev rest
  | closing =>
    obtain rfl := Option.some.inj ht
    rfl
  | atom a =>
    have hshut := hrest rfl
    have hapart := hprev rfl
    cases a with
    | operator _ _ => exact absurd ht (by simp [kind?, Atom.kind?])
    | number u h =>
      obtain rfl := Option.some.inj ht
      have hne : u ≠ [] := by
        rcases h with rfl | ⟨hne, _⟩
        · exact List.cons_ne_nil _ _
        · exact hne
      exact hdata hne (fun c hc => by rw [h.isNumeric c hc, Bool.or_true]) hshut
    | radix u h =>
      obtain rfl := Option.some.inj ht
      exact radix_ofText h hapart hshut
    | decorator name h hl =>
      obtain rfl := Option.some.inj ht
      exact decorator_ofText h prev hshut
    | string quote content hq h =>
      obtain rfl := Option.some.inj ht
      exact string_ofText hq h prev rest
    | identifier u h =>
      obtain rfl := Option.some.inj ht
      cases hkey : l.isKeyword u with
      | true =>
        cases l with
        | lavendeux => exact absurd hkey Bool.false_ne_true
        | javascript =>
          have hword : u = "return" ∨ u = "function" := by simpa [Language.isKeyword] using hkey
          exact keyword_ofText hword hapart hshut
      | false =>
        have hne : u ≠ [] := by
          rintro rfl
          exact absurd h.1 Bool.false_ne_true
        exact hdata hne (fun c hc => by rw [(h.2 c hc).1, Bool.true_or]) hshut

/-! Where tokens fit together, a lexeme begins behind the tokens that open and ends before those that
close, at every stage. -/

section Places

variable {t : Token l} {done : List Kind}

theorem shut_marks (h : t.closes = true) (rest : List Mark) : Shut (t.marks done ++ rest) := by
  intro m hm
  cases t with
  | atom _ | opening _ _ | comment _ => exact absurd h Bool.false_ne_true
  | blank | newline =>
    obtain rfl := Option.some.inj hm
    decide
  | closing =>
    by_cases hmem : .closingParen ∈ done
    · rw [marks_of_mem rfl hmem] at hm
      obtain rfl := Option.some.inj hm
      decide
    · rw [marks_of_not_mem fun k hk => Option.some.inj hk ▸ hmem] at hm
      obtain rfl := Option.some.inj hm
      decide

theorem apart_lastSym (h : t.opens = true) (prev : Option Char) :
    Apart (lastSym prev (t.marks done)) := by
  intro c hc
  cases t with
  | atom _ | closing | comment _ => exact absurd h Bool.false_ne_true
  | blank | newline =>
    obtain rfl := Option.some.inj hc
    decide
  | opening name hname =>
    by_cases hmem : .functionOpen ∈ done
    · rw [marks_of_mem rfl hmem] at hc
      have hne : Kind.functionOpen.wrap.marks (Mark.ofText (name ++ ['('])) ≠ [] :=
        List.cons_ne_nil _ _
      obtain ⟨m, hm, rfl⟩ := exists_of_lastSym hne hc
      rw [Wrap.sym_marks hm]
      decide
    · rw [marks_of_not_mem fun k hk => Option.some.inj hk ▸ hmem, text, Mark.ofText,
        List.map_append, List.map_singleton, lastSym_append] at hc
      obtain rfl := Option.some.inj hc
      decide

/-- What stands in front of a lexeme opens, and what stands behind it closes. -/
theorem Fits.closes {u : Token l} (h : t.Fits u) (ht : t.opens = false) : u.closes = true := by
  unfold Fits at h
  split at h
  · rw [h]
    rfl
  · exact h.resolve_left (by rw [ht]; exact Bool.false_ne_true)

variable {ts : List (Token l)}

/-- Behind a token that does not open, lexemes can end. -/
theorem shut_row (hfit : Fitting (t :: ts)) (ht : t.opens = false) : Shut (row done ts) := by
  cases ts with
  | nil => exact fun m hm => absurd hm (by simp [row])
  | cons u ts => exact shut_marks (((List.isChain_cons.mp hfit).1 u rfl).closes ht) _

/-- Behind a comment there is nothing or a newline. -/
theorem head?_row_of_isComment (hfit : Fitting (t :: ts)) (ht : t.isComment = true) :
    ∀ m ∈ (row done ts).head?, m.sym = '\n' := by
  cases ts with
  | nil => exact fun m hm => absurd hm (by simp [row])
  | cons u ts =>
    have hu := (List.isChain_cons.mp hfit).1 u rfl
    rw [Fits, if_pos ht] at hu
    subst hu
    exact fun m hm => Option.some.inj hm ▸ rfl

/-- In front of a token that does not close, lexemes can begin. -/
theorem apart_row (hfit : Fitting (t :: ts)) (prev : Option Char) :
    ∀ u ∈ ts.head?, u.closes = false → Apart (lastSym prev (t.marks done)) := by
  intro u hu hcloses
  cases hopens : t.opens with
  | true => exact apart_lastSym hopens prev
  | false =>
    have hfits := (List.isChain_cons.mp hfit).1 u hu
    exact absurd (hcloses.symm.trans (hfits.closes hopens)) Bool.false_ne_true

end Places

/-- The rule for a kind reads a row of tokens whose rules have been applied up to it, and marks the
tokens of its kind. -/
theorem reads_row {k : Kind} (hk : k ∈ l.kinds) {done : List Kind}
    (hdone : ∀ k' ∈ l.kinds.takeWhile (· ≠ k), k' ∈ done) (hnew : k ∉ done) {ts : List (Token l)}
    (hfit : Fitting ts) {prev : Option Char}
    (hprev : ∀ t ∈ ts.head?, t.closes = false → Apart prev) :
    ∃ ps, Reads k .noMatch prev (row done ts) ps ∧
      ps.flatMap (Piece.marks k.wrap) = row (done ++ [k]) ts := by
  -- Token by token: one of the kind is found as a whole, any other one is passed over.
  induction ts generalizing prev with
  | nil => exact ⟨[], .done prev, rfl⟩
  | cons t ts ih =>
    have hlater := (List.isChain_cons.mp hfit).2
    by_cases ht : t.kind? = some k
    · have hspace : Apart (some ' ') := fun c hc => Option.some.inj hc ▸ (by decide)
      obtain ⟨ps, hps, hmarks⟩ := ih hlater fun _ _ _ => hspace
      refine ⟨.hit (Mark.ofText t.text) :: ps, .hit ?_ hps, ?_⟩
      · rw [row_cons,
          marks_of_not_mem fun k' hk' => Option.some.inj (ht.symm.trans hk') ▸ hnew]
        exact recognizer_eq_some ht (hprev t rfl) (shut_row hfit) (head?_row_of_isComment hfit)
      · rw [List.flatMap_cons, hmarks, row_cons,
          marks_of_mem ht (List.mem_append_right _ List.mem_cons_self)]
        rfl
    · have hrest (hopens : t.opens = false) : Shut (row done ts) := shut_row hfit hopens
      have hpasses := passes hk hdone ht prev hrest
      obtain ⟨ps, hps, hmarks⟩ := ih hlater (apart_row hfit prev)
      refine ⟨(t.marks done).map .pass ++ ps, ?_, ?_⟩
      · rw [row_cons]
        exact .of_passes hpasses hps
      · rw [List.flatMap_append, Piece.flatMap_marks_pass, hmarks, row_cons, marks_append_of_ne ht]

/-- At its turn, the rule for a kind marks the tokens of its kind. -/
theorem makes_row {ts : List (Token l)} (hfit : Fitting ts) {done ks : List Kind} {k : Kind}
    (hks : l.kinds = done ++ k :: ks) : k.Makes (row done ts) (row (done ++ [k]) ts) := by
  have hk : k ∈ l.kinds := hks ▸ List.mem_append_right _ List.mem_cons_self
  have hnew : k ∉ done := by
    have hnodup : l.kinds.Nodup := by cases l <;> decide
    rw [hks] at hnodup
    exact fun hmem => (List.nodup_append.mp hnodup).2.2 k hmem k List.mem_cons_self rfl
  have hdone : ∀ k' ∈ l.kinds.takeWhile (· ≠ k), k' ∈ done := by
    have hall : ∀ k' ∈ done, decide (k' ≠ k) = true := fun k' hk' =>
      decide_eq_true fun heq => hnew (heq ▸ hk')
    rw [hks, List.takeWhile_append_of_pos hall, List.takeWhile_cons_of_neg (by simp),
      List.append_nil]
    exact fun _ hk' => hk'
  have hstart : Apart none := fun c hc => absurd hc (by simp)
  obtain ⟨ps, hreads, hmarks⟩ := reads_row hk hdone hnew hfit fun _ _ _ => hstart
  exact ⟨ps, hreads, hmarks.symm⟩

end Token

/-- The rows of fitting tokens: each rule of the language marks the tokens of its kind. -/
theorem Rows.of_tokens {ts : List (Token l)} (hfit : Fitting ts) {done ks : List Kind}
    (hks : l.kinds = done ++ ks) :
    ∃ rows, Rows ks (Token.row done ts) rows (Token.row l.kinds ts) := by
  induction ks generalizing done with
  | nil =>
    rw [List.append_nil] at hks
    rw [hks]
    exact ⟨_, .nil _⟩
  | cons k ks ih =>
    have hks' : l.kinds = done ++ [k] ++ ks := by
      rw [hks, List.append_assoc]
      rfl
    obtain ⟨rows, hrows⟩ := ih hks'
    exact ⟨_, .cons (Token.makes_row hfit hks) hrows⟩

end Highlighter
