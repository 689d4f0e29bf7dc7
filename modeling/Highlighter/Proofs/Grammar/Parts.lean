import Highlighter.Proofs.Grammar.Rendering

/-! Plain texts: names and numbers of any kind, with no comment, decorator, call or string in them.
Only the rules for words mark anything in a plain text, and each of them puts whole spans around
lexemes that are still clear, whether or not a search gives up. -/
namespace Highlighter

open Grammar Lexeme

/-- A character of a name, a number or an exponent. -/
def Grammar.isPlainChar (c : Char) : Bool := isNameChar c || isNumeric c || isSign c

def Grammar.IsPlain (t : Text) : Prop := t ≠ [] ∧ ∀ c ∈ t, isPlainChar c = true

/-- The rules for words, from the one for numbers in another base on. -/
def Language.words (l : Language) : List Kind := l.kinds.dropWhile (· ≠ .radix)

/-- A kind of words. -/
inductive Lexeme.Kind.OfWords : Kind → Prop
  | radix : OfWords .radix
  | keyword : OfWords .keyword
  | data : OfWords .data

/-- A part of a row: a clear character, or a lexeme with the tags of its kind around it. -/
inductive Part where
  | clear (c : Char)
  | span (k : Kind) (u : Text)

namespace Part

def chars : Part → Text
  | clear c => [c]
  | span _ u => u

def marks : Part → List Mark
  | clear c => [.char c true]
  | span k u => k.wrap.marks (Mark.ofText u)

def text (s : Styler) : Part → Text
  | clear c => [c]
  | span k u => k.wrap.handler s u

variable {ps : List Part} {t : Text}

theorem flatMap_text (s : Styler) (ps : List Part) :
    (ps.flatMap marks).flatMap (Mark.text s) = ps.flatMap (text s) := by
  rw [List.flatMap_assoc]
  refine List.flatMap_congr fun p _ => ?_
  cases p with
  | clear c => rfl
  | span k u =>
    change (k.wrap.marks (Mark.ofText u)).flatMap (Mark.text s) = k.wrap.handler s u
    rw [Wrap.text_marks, Mark.flatMap_text_ofText]

theorem text_span {k : Kind} {c : Category} (h : k.wrap = .around c) (s : Styler) (u : Text) :
    (span k u).text s = s.span c u := by
  rw [text, h, Wrap.span_eq]

theorem flatMap_marks_clear (t : Text) : (t.map clear).flatMap marks = Mark.ofText t := by
  rw [List.flatMap_map]
  exact (List.map_eq_flatMap).symm

theorem flatMap_chars_clear (t : Text) : (t.map clear).flatMap chars = t := by
  rw [List.flatMap_map]
  exact List.flatMap_singleton' t

theorem span_not_mem_clear (k : Kind) (u t : Text) : span k u ∉ t.map clear := by
  intro h
  obtain ⟨_, _, h⟩ := List.mem_map.mp h
  exact Part.noConfusion h

/-- A part has at least one mark, and all marks behind the first one are blank. -/
theorem exists_marks (p : Part) : ∃ m ms, p.marks = m :: ms ∧ ∀ m' ∈ ms, m'.sym = ' ' := by
  cases hp : p.marks with
  | nil =>
    cases p with
    | clear c => exact absurd hp (List.cons_ne_nil _ _)
    | span k u =>
      cases k <;>
        simp [marks, Wrap.marks, Kind.wrap, Wrap.around, Wrap.opening, Wrap.closing] at hp
  | cons m ms =>
    refine ⟨m, ms, rfl, fun m' hm => ?_⟩
    cases p with
    | clear c =>
      obtain ⟨_, rfl⟩ := List.cons.inj hp
      exact absurd hm List.not_mem_nil
    | span k u => exact Wrap.sym_marks (hp ▸ List.mem_cons_of_mem m hm)

/-- Marks that are not blank are clear characters, and end where a part ends. -/
theorem eq_clear_append {u v : List Mark} (hu : ∀ m ∈ u, m.sym ≠ ' ')
    (h : ps.flatMap marks = u ++ v) :
    ∃ t qs, ps = t.map clear ++ qs ∧ u = Mark.ofText t ∧ v = qs.flatMap marks := by
  induction u generalizing ps with
  | nil => exact ⟨[], ps, rfl, rfl, h.symm⟩
  | cons m u ih =>
    cases ps with
    | nil => exact absurd h (by simp)
    | cons p ps =>
      cases p with
      | clear c =>
        obtain ⟨rfl, hlater⟩ := List.cons.inj h
        obtain ⟨t, qs, rfl, rfl, hv⟩ := ih (fun m' hm => hu m' (List.mem_cons_of_mem _ hm)) hlater
        exact ⟨c :: t, qs, rfl, rfl, hv⟩
      | span k w =>
        -- A span begins with a blank mark.
        obtain ⟨m', ms, hmarks, _⟩ := (span k w).exists_marks
        rw [List.flatMap_cons, hmarks] at h
        obtain ⟨rfl, _⟩ := List.cons.inj h
        exact absurd (Wrap.sym_marks (hmarks ▸ List.mem_cons_self)) (hu m' List.mem_cons_self)

end Part

namespace Lexeme.Kind

/-- At some place of a row the recognizer finds exactly this text. -/
def Takes (k : Kind) (u : Text) : Prop :=
  ∃ prev rest, k.recognizer Mark.sym prev (Mark.ofText u ++ rest) = some (Mark.ofText u, rest)

theorem Takes.ne_nil {k : Kind} {u : Text} (h : k.Takes u) : u ≠ [] := by
  obtain ⟨_, _, h⟩ := h
  rintro rfl
  exact k.sound.ne_nil h rfl

/-- A number in another base is a zero and the letters and digits behind it. -/
theorem isRadix_of_takes {u : Text} (h : Kind.radix.Takes u) : IsRadix u := by
  obtain ⟨prev, rest, h⟩ := h
  obtain ⟨a, us, v, _, hu, ha, _, hrun⟩ := radix_eq_some h
  obtain ⟨_, hne, hall⟩ := run?_eq_some hrun
  cases u with
  | nil => exact absurd hu (List.cons_ne_nil _ _).symm
  | cons c u =>
    obtain ⟨rfl, rfl⟩ := List.cons.inj hu
    obtain rfl : c = '0' := ha
    refine ⟨rfl, fun hnil => hne (congrArg Mark.ofText hnil), fun c hc => ?_⟩
    rcases List.mem_cons.mp hc with rfl | hc
    · decide
    · exact (has_alphanumeric c).symm.trans (hall (.char c true) (List.mem_map_of_mem hc))

theorem eq_of_takes_keyword {u : Text} (h : Kind.keyword.Takes u) :
    u = "return".toList ∨ u = "function".toList := by
  obtain ⟨prev, rest, h⟩ := h
  have hsym : (Mark.ofText u).map Mark.sym = u := by
    rw [Mark.ofText, List.map_map]
    exact List.map_id u
  have hword := (keyword_eq_some h).2
  rwa [hsym] at hword

theorem OfWords.exists_wrap {k : Kind} (hk : k.OfWords) : ∃ c, k.wrap = .around c := by
  cases hk <;> exact ⟨_, rfl⟩

/-- No blank is taken for a part of a word. -/
theorem OfWords.sym_ne {k : Kind} (hk : k.OfWords) {prev : Option Char} {us u v : List Mark}
    (h : k.recognizer Mark.sym prev us = some (u, v)) : ∀ m ∈ u, m.sym ≠ ' ' := by
  have hset {set : CharSet} (hset : set.has ' ' = false) {m : Mark} (hm : set.has m.sym = true) :
      m.sym ≠ ' ' := by
    intro hs
    rw [hs, hset] at hm
    exact Bool.false_ne_true hm
  intro m hm
  cases hk with
  | radix =>
    obtain ⟨a, _, u', _, rfl, ha, _, hrun⟩ := radix_eq_some h
    rcases List.mem_cons.mp hm with rfl | hm
    · rw [ha]
      decide
    · exact hset (by decide) ((run?_eq_some hrun).2.2 m hm)
  | keyword =>
    have hword : ∀ c ∈ u.map Mark.sym, c ≠ ' ' := by
      rcases (keyword_eq_some h).2 with hu | hu <;> rw [hu] <;> decide
    exact hword m.sym (List.mem_map_of_mem hm)
  | data =>
    have hfound : Lexeme.data Mark.sym prev us = some (u, v) := h
    obtain ⟨name, rest, hname, he⟩ := data_eq_some hfound
    have hall := (run?_eq_some hname).2.2
    rcases he with ⟨_, rfl, _⟩ | ⟨e, he, rfl⟩
    · exact hset (by decide) (hall m hm)
    · obtain ⟨a, b, _, rfl, ha, hb⟩ := exponent?_eq_some he
      rcases List.mem_append.mp hm with hm | hm
      · exact hset (by decide) (hall m hm)
      · simp only [List.mem_cons, List.not_mem_nil, or_false] at hm
        rcases hm with rfl | rfl
        · intro hs
          rw [hs] at ha
          exact absurd ha (by decide)
        · exact hset (by decide) hb

end Lexeme.Kind

/-- A rule has put spans around some lexemes that were clear. -/
inductive Marked (k : Kind) : List Part → List Part → Prop
  | nil : Marked k [] []
  | keep (p : Part) {ps qs : List Part} (later : Marked k ps qs) : Marked k (p :: ps) (p :: qs)
  | mark {u : Text} (h : k.Takes u) {ps qs : List Part} (later : Marked k ps qs) :
      Marked k (u.map .clear ++ ps) (.span k u :: qs)

namespace Marked

variable {k : Kind} {ps qs : List Part}

theorem refl (k : Kind) (ps : List Part) : Marked k ps ps := by
  induction ps with
  | nil => exact .nil
  | cons p ps ih => exact .keep p ih

theorem flatMap_chars (h : Marked k ps qs) : qs.flatMap Part.chars = ps.flatMap Part.chars := by
  induction h with
  | nil => rfl
  | keep p _ ih => rw [List.flatMap_cons, List.flatMap_cons, ih]
  | mark _ _ ih =>
    rw [List.flatMap_append, Part.flatMap_chars_clear, List.flatMap_cons, ih]
    rfl

/-- Spans stay. -/
theorem span_mem (h : Marked k ps qs) {k' : Kind} {u : Text} (hu : .span k' u ∈ ps) :
    .span k' u ∈ qs := by
  induction h with
  | nil => exact hu
  | keep p _ ih =>
    rcases List.mem_cons.mp hu with rfl | hu
    · exact List.mem_cons_self
    · exact List.mem_cons_of_mem p (ih hu)
  | mark _ _ ih =>
    rcases List.mem_append.mp hu with hu | hu
    · exact absurd hu (Part.span_not_mem_clear k' u _)
    · exact List.mem_cons_of_mem _ (ih hu)

/-- New spans are those of lexemes that have been found. -/
theorem span_mem_or (h : Marked k ps qs) {k' : Kind} {u : Text} (hu : .span k' u ∈ qs) :
    .span k' u ∈ ps ∨ k' = k ∧ k.Takes u := by
  induction h with
  | nil => exact Or.inl hu
  | keep p _ ih =>
    rcases List.mem_cons.mp hu with rfl | hu
    · exact Or.inl List.mem_cons_self
    · exact (ih hu).imp_left (List.mem_cons_of_mem p)
  | mark htakes _ ih =>
    rcases List.mem_cons.mp hu with heq | hu
    · obtain ⟨rfl, rfl⟩ := Part.span.inj heq
      exact Or.inr ⟨rfl, htakes⟩
    · exact (ih hu).imp_left (List.mem_append_right _)

end Marked

namespace Reads

variable {k : Kind} {e : Ending} {prev : Option Char} {us : List Mark} {ps : List Piece}

/-- How a rule for words reads on within a part. Each lexeme that it finds becomes a span. -/
theorem exists_marked (hk : k.OfWords) (h : Reads k e prev us ps)
    {blanks : List Mark} (hblanks : ∀ m ∈ blanks, m.sym = ' ') {parts : List Part}
    (hus : us = blanks ++ parts.flatMap Part.marks) :
    ∃ parts', ps.flatMap (Piece.marks k.wrap) = blanks ++ parts'.flatMap Part.marks ∧
      Marked k parts parts' ∧ ((∃ us, .hit us ∈ ps) → ∃ u, .span k u ∈ parts') := by
  -- The rule passes over the blank marks of the part that it is in. Each lexeme begins with a part.
  induction h generalizing blanks parts with
  | done =>
    obtain ⟨rfl, hparts⟩ := List.append_eq_nil_iff.mp hus.symm
    exact ⟨parts, hparts.symm, .refl k parts, fun ⟨_, h⟩ => absurd h List.not_mem_nil⟩
  | stop =>
    refine ⟨parts, by rw [Piece.flatMap_marks_pass, hus], .refl k parts, fun ⟨_, h⟩ => ?_⟩
    obtain ⟨_, _, h⟩ := List.mem_map.mp h
    exact Piece.noConfusion h
  | @pass _ _ m _ ps _ _ ih =>
    have hhit (h : ∃ us, .hit us ∈ Piece.pass m :: ps) : ∃ us, .hit us ∈ ps := by
      obtain ⟨us, h⟩ := h
      exact ⟨us, (List.mem_cons.mp h).resolve_left Piece.noConfusion⟩
    cases blanks with
    | cons b blanks =>
      obtain ⟨rfl, hrest⟩ := List.cons.inj hus
      obtain ⟨parts', hmarks, hmarked, hspan⟩ :=
        ih (fun m' hm => hblanks m' (List.mem_cons_of_mem _ hm)) hrest
      exact ⟨parts', congrArg (m :: ·) hmarks, hmarked, hspan ∘ hhit⟩
    | nil =>
      cases parts with
      | nil => exact absurd hus (List.cons_ne_nil _ _)
      | cons p parts =>
        obtain ⟨m', ms, hp, hms⟩ := p.exists_marks
        rw [List.nil_append, List.flatMap_cons, hp] at hus
        obtain ⟨rfl, hrest⟩ := List.cons.inj hus
        obtain ⟨parts', hmarks, hmarked, hspan⟩ := ih hms hrest
        refine ⟨p :: parts', ?_, .keep p hmarked, fun h => ?_⟩
        · rw [List.flatMap_cons, List.flatMap_cons, hmarks, hp]
          rfl
        · exact (hspan (hhit h)).imp fun _ => List.mem_cons_of_mem p
  | hit hfound _ ih =>
    obtain ⟨hsplit, m, hhead, hm⟩ := k.sound.divides hfound
    cases blanks with
    | cons b blanks =>
      obtain ⟨u, rfl⟩ := List.head?_eq_some_iff.mp hhead
      obtain ⟨rfl, _⟩ := List.cons.inj (hsplit.symm.trans hus)
      exact absurd (hblanks m List.mem_cons_self) hm
    | nil =>
      obtain ⟨t, parts, rfl, rfl, rfl⟩ :=
        Part.eq_clear_append (hk.sym_ne hfound) (hus.symm.trans hsplit)
      obtain ⟨parts', hmarks, hmarked, _⟩ := ih (List.forall_mem_nil _) (List.nil_append _).symm
      refine ⟨.span k t :: parts', ?_, .mark ⟨_, _, hsplit ▸ hfound⟩ hmarked,
        fun _ => ⟨t, List.mem_cons_self⟩⟩
      rw [List.flatMap_cons, hmarks]
      rfl

/-- Where nothing is found, the row stays as it is. -/
theorem flatMap_marks_of_passes (h : Reads k e prev us ps) (hpasses : k.Passes prev us []) :
    ps.flatMap (Piece.marks k.wrap) = us := by
  induction h with
  | done => rfl
  | stop => exact Piece.flatMap_marks_pass _ _
  | pass _ _ ih => exact congrArg (_ :: ·) (ih hpasses.2)
  | @hit _ _ us _ _ _ hfound _ _ =>
    cases us with
    | nil => exact absurd ((k.recognizer_nil _ _).symm.trans hfound) (by simp)
    | cons m us =>
      have hnone := hpasses.1
      rw [List.append_nil] at hnone
      exact absurd (hnone.symm.trans hfound) (by simp)

/-- A rule that reads the whole row finds something unless there is nothing to be found. -/
theorem exists_hit (h : Reads k .noMatch prev us ps) (hnot : ¬ k.Passes prev us []) :
    ∃ u, .hit u ∈ ps := by
  generalize he : Ending.noMatch = e at h
  induction h with
  | done => exact absurd trivial hnot
  | stop hne => exact absurd he.symm hne
  | @pass _ _ m us _ hnone _ ih =>
    rw [← List.append_nil us] at hnone
    obtain ⟨u, hu⟩ := ih (fun hlater => hnot ⟨hnone, hlater⟩) he
    exact ⟨u, List.mem_cons_of_mem _ hu⟩
  | @hit _ _ _ u => exact ⟨u, List.mem_cons_self⟩

end Reads

/-- The text in parts, some of which are lexemes of these kinds. -/
structure Parted (ks : List Kind) (t : Text) (ps : List Part) : Prop where
  chars : ps.flatMap Part.chars = t
  takes : ∀ k u, .span k u ∈ ps → k ∈ ks ∧ k.Takes u

namespace Parted

variable {ks : List Kind} {t : Text} {ps : List Part}

theorem clear (ks : List Kind) (t : Text) : Parted ks t (t.map .clear) where
  chars := Part.flatMap_chars_clear t
  takes k u h := absurd h (Part.span_not_mem_clear k u t)

theorem step (h : Parted ks t ps) {k : Kind} (hk : k ∈ ks) {qs : List Part}
    (hmarked : Marked k ps qs) : Parted ks t qs where
  chars := hmarked.flatMap_chars.trans h.chars
  takes k' u hu := by
    rcases hmarked.span_mem_or hu with hu | ⟨rfl, htakes⟩
    · exact h.takes k' u hu
    · exact ⟨hk, htakes⟩

/-- Rules for words keep the spans that they find and add spans, even if a search gives up. -/
theorem run (s : Styler) {later : List Kind} (hlater : ∀ k ∈ later, k.OfWords)
    (hks : ∀ k ∈ later, k ∈ ks) (h : Parted ks t ps) :
    ∃ qs, Engine.run (later.map (Kind.rule s)) (Mark.buffers s (ps.flatMap Part.marks)) =
        Mark.buffers s (qs.flatMap Part.marks) ∧
      Parted ks t qs ∧ ∀ k u, .span k u ∈ ps → .span k u ∈ qs := by
  let P (us : List Mark) : Prop :=
    ∃ qs, us = qs.flatMap Part.marks ∧ Parted ks t qs ∧ ∀ k u, .span k u ∈ ps → .span k u ∈ qs
  have hstep (k : Kind) (hk : k ∈ later) (e : Ending) (us : List Mark) (pieces : List Piece)
      (hreads : Reads k e none us pieces) (hus : P us) :
      P (pieces.flatMap (Piece.marks k.wrap)) := by
    obtain ⟨qs, rfl, hqs, hkeep⟩ := hus
    obtain ⟨qs', hmarks, hmarked, _⟩ :=
      hreads.exists_marked (hlater k hk) (List.forall_mem_nil _) (List.nil_append _).symm
    exact ⟨qs', hmarks, hqs.step (hks k hk) hmarked,
      fun k' u hu => hmarked.span_mem (hkeep k' u hu)⟩
  obtain ⟨_, hrun, qs, rfl, hqs, hkeep⟩ := Kind.run_invariant s hstep ⟨ps, rfl, h, fun _ _ => id⟩
  exact ⟨qs, hrun, hqs, hkeep⟩

end Parted

/-! What the rules make of a plain text. -/

namespace Lexeme.Kind

/-- Rules that find nothing in a row leave it as it is. -/
theorem run_of_passes (s : Styler) {ks : List Kind} {us : List Mark}
    (h : ∀ k ∈ ks, k.Passes none us []) :
    Engine.run (ks.map (rule s)) (Mark.buffers s us) = Mark.buffers s us := by
  obtain ⟨_, hrun, rfl⟩ := run_invariant s (P := (· = us)) (fun k hk e us' ps hreads hus => by
    subst hus
    exact hreads.flatMap_marks_of_passes (h k hk)) rfl
  exact hrun

end Lexeme.Kind

/-- Comments, decorators, closing parentheses and strings begin with other characters. -/
theorem Lexeme.Kind.starts_of_isPlainChar {k : Kind}
    (hk : k ∈ [.lineComment, .blockComment, .decorator, .closingParen, .string]) {c : Char}
    (hc : isPlainChar c = true) : k.starts c = false := by
  have hmarkers : ∀ d ∈ ['/', '@', ')', '"', '\''], isPlainChar d = false := by decide
  have hne (d : Char) (hd : d ∈ ['/', '@', ')', '"', '\'']) : c ≠ d := by
    rintro rfl
    exact Bool.false_ne_true ((hmarkers c hd).symm.trans hc)
  simp only [List.mem_cons, List.not_mem_nil, or_false] at hk
  rcases hk with rfl | rfl | rfl | rfl | rfl
  · exact decide_eq_false (hne '/' (by decide))
  · exact decide_eq_false (hne '/' (by decide))
  · exact decide_eq_false (hne '@' (by decide))
  · exact decide_eq_false (hne ')' (by decide))
  · exact Bool.or_eq_false_iff.mpr
      ⟨decide_eq_false (hne '"' (by decide)), decide_eq_false (hne '\'' (by decide))⟩

namespace Grammar.IsPlain

variable {t : Text}

theorem not_mem (h : IsPlain t) {c : Char} (hc : isPlainChar c = false) : c ∉ t :=
  fun hmem => Bool.false_ne_true (hc.symm.trans (h.2 c hmem))

theorem tight (h : IsPlain t) : t.Tight := by
  refine .of_forall h.1 fun c hc => ?_
  rcases (Bool.or_eq_true _ _).mp (h.2 c hc) with hc | hc
  · rcases (Bool.or_eq_true _ _).mp hc with hc | hc
    · exact isWhiteSpace_of_isNameChar hc
    · exact isWhiteSpace_of_isNumeric hc
  · have hsign : c ∈ ['-', '+'] := by simpa [isSign] using hc
    have hall : ∀ c ∈ ['-', '+'], Unicode.isWhiteSpace c = false := by decide
    exact hall c hsign

/-- The rules before those for words find nothing. -/
theorem passes (h : IsPlain t) (l : Language) {k : Kind} (hk : k ∈ l.kinds.takeWhile (· ≠ .radix)) :
    k.Passes none (Mark.ofText t) [] := by
  have hkinds : ∀ k ∈ l.kinds.takeWhile (· ≠ .radix), k = .functionOpen ∨
      k ∈ [.lineComment, .blockComment, .decorator, .closingParen, .string] := by
    cases l <;> decide
  rcases hkinds k hk with rfl | hk
  · exact passes_functionOpen (h.not_mem (by decide)) shut_nil
  · exact passes_ofText fun c hc => Kind.starts_of_isPlainChar hk (h.2 c hc)

end Grammar.IsPlain

namespace Language

variable {t : Text}

theorem takeWhile_append_words (l : Language) :
    l.kinds.takeWhile (· ≠ .radix) ++ l.words = l.kinds := List.takeWhile_append_dropWhile

theorem ofWords_of_mem (l : Language) {k : Kind} (hk : k ∈ l.words) : k.OfWords := by
  have hwords := Token.mem_words l .radix (by decide) k hk
  simp only [List.mem_cons, List.not_mem_nil, or_false] at hwords
  rcases hwords with rfl | rfl | rfl
  · exact .radix
  · exact .keyword
  · exact .data

theorem words_eq (l : Language) :
    ∃ inner, l.words = .radix :: inner ++ [.data] ∧ .data ∉ inner := by
  cases l with
  | lavendeux => exact ⟨[], rfl, by decide⟩
  | javascript => exact ⟨[.keyword], rfl, by decide⟩

/-- Only the rules for words change a plain text. -/
theorem format_of_plain (l : Language) (ht : IsPlain t) (s : Styler) : (l.engine s).format t =
    s.outer (Engine.run (l.words.map (Kind.rule s)) (Mark.buffers s (Mark.ofText t))).result := by
  rw [format_engine, regexRules_eq, ← l.takeWhile_append_words, List.map_append, Engine.run_append,
    Buffers.ofInput, ht.tight.trim_eq, ← Mark.buffers_ofText s t,
    Kind.run_of_passes s fun k hk => ht.passes l hk]

/-- A plain text is formatted as its parts. -/
theorem exists_parts (l : Language) (ht : IsPlain t) (s : Styler) :
    ∃ ps, Parted l.words t ps ∧ (l.engine s).format t = s.outer (ps.flatMap (Part.text s)) := by
  obtain ⟨ps, hrun, hps, _⟩ :=
    (Parted.clear l.words t).run s (fun _ => l.ofWords_of_mem) fun _ => id
  rw [Part.flatMap_marks_clear] at hrun
  refine ⟨ps, hps, ?_⟩
  rw [l.format_of_plain ht s, hrun, Mark.buffers_result, Part.flatMap_text]

/-- A plain text that the last rule takes as a whole, if it gets it. -/
theorem format_of_whole (l : Language) (ht : IsPlain t) (s : Styler)
    (hpasses : ∀ k ∈ l.words, k ≠ .data → k.Passes none (Mark.ofText t) [])
    (hdata : data Mark.sym none (Mark.ofText t) = some (Mark.ofText t, [])) :
    (l.engine s).format t = s.outer (s.span .data t) := by
  obtain ⟨inner, hwords, hinner⟩ := l.words_eq
  have hbefore : ∀ k ∈ .radix :: inner, k.Passes none (Mark.ofText t) [] := by
    intro k hk
    refine hpasses k (hwords ▸ List.mem_append_left _ hk) ?_
    rintro rfl
    exact hinner ((List.mem_cons.mp hk).resolve_left (by decide))
  have hmakes : Kind.data.Makes (Mark.ofText t) (Kind.data.wrap.marks (Mark.ofText t)) :=
    ⟨[.hit (Mark.ofText t)], .hit hdata (.done _), (List.flatMap_singleton ..).symm⟩
  rw [l.format_of_plain ht s, hwords, List.map_append, Engine.run_append,
    Kind.run_of_passes s hbefore, List.map_singleton, Engine.run_cons,
    Kind.apply_of_isRegular s rfl hmakes]
  change s.outer (Mark.buffers s _).result = _
  rw [Mark.buffers_result, Wrap.text_marks, Mark.flatMap_text_ofText, Wrap.span_eq]
  rfl

end Language

namespace Styler

/-! Tags end with a bracket. -/

theorem getLast?_spanStart (s : Styler) (c : Category) :
    (s.spanStart c).getLast? = some '>' := by
  unfold spanStart
  cases s.mode <;> rw [List.getLast?_append] <;> rfl

theorem getLast?_span (s : Styler) (c : Category) (t : Text) :
    (s.span c t).getLast? = some '>' := by
  rw [span, List.getLast?_append]
  rfl

end Styler

namespace Parted

variable {ks : List Kind} {t : Text} {ps : List Part}

theorem chars_ne_nil (h : Parted ks t ps) (hne : ps ≠ []) : t ≠ [] := by
  obtain ⟨p, ps, rfl⟩ := List.exists_cons_of_ne_nil hne
  have hp : p.chars ≠ [] := by
    cases p with
    | clear c => exact List.cons_ne_nil c []
    | span k u => exact (h.takes k u List.mem_cons_self).2.ne_nil
  intro hnil
  rw [← h.chars, List.flatMap_cons] at hnil
  exact hp (List.append_eq_nil_iff.mp hnil).1

/-- The parts up to a place are those of a text. -/
theorem of_append {qs : List Part} (h : Parted ks t (ps ++ qs)) :
    Parted ks (ps.flatMap Part.chars) ps where
  chars := rfl
  takes k u hu := h.takes k u (List.mem_append_left _ hu)

/-- If the parts look like one span around the whole text, they are one span. -/
theorem eq_span (h : Parted ks t ps) (hks : ∀ k ∈ ks, k.OfWords) (ht : '>' ∉ t) (s : Styler)
    (heq : ps.flatMap (Part.text s) = s.span .data t) : ∃ k, ps = [.span k t] := by
  -- Seen from the end, the last part is a span, and the text in front of it would end with its tag.
  rcases List.eq_nil_or_concat ps with rfl | ⟨ps, p, rfl⟩
  · exact absurd (List.append_eq_nil_iff.mp heq.symm).2 (List.cons_ne_nil _ _)
  rw [List.concat_eq_append] at h heq ⊢
  have hchars : t = ps.flatMap Part.chars ++ p.chars := by
    rw [← h.chars, List.flatMap_append, List.flatMap_singleton]
  rw [List.flatMap_append, List.flatMap_singleton] at heq
  cases p with
  | clear c =>
    have hlast := congrArg List.getLast? heq
    rw [Part.text, List.getLast?_concat, Styler.getLast?_span] at hlast
    refine absurd ?_ ht
    rw [hchars, ← Option.some.inj hlast]
    exact List.mem_append_right _ (List.mem_singleton.mpr rfl)
  | span k u =>
    obtain ⟨c, hc⟩ := (hks k (h.takes k u (by simp)).1).exists_wrap
    rw [Part.text_span hc, hchars, Part.chars, Styler.span, Styler.span, Styler.openSpan,
      Styler.openSpan] at heq
    simp only [← List.append_assoc, List.append_cancel_right_eq] at heq
    by_cases hps : ps = []
    · subst hps
      exact ⟨k, by rw [hchars]; rfl⟩
    · have hfront := h.of_append.chars_ne_nil hps
      have hlast := congrArg List.getLast? heq
      rw [List.getLast?_append, Styler.getLast?_spanStart, List.getLast?_append,
        List.getLast?_eq_some_getLast hfront] at hlast
      refine absurd ?_ ht
      rw [hchars, Option.some.inj hlast]
      exact List.mem_append_left _ (List.getLast_mem hfront)

end Parted

end Highlighter
