import Highlighter.Proofs.Grammar.Tokens
import Highlighter.Proofs.Markup.Reading

/-! What the recognizers find in a row where lexemes stand apart: each finds the lexemes of its kind
as a whole, and is not led astray by the others. -/
namespace Highlighter

open Grammar Lexeme

/-! The characters of the grammar and the sets of the patterns. -/

section Characters

variable {c : Char}

theorem has_digits (c : Char) : (CharSet.range '0' '9').has c = c.isDigit := rfl

theorem has_lower (c : Char) : (CharSet.range 'a' 'z').has c = c.isLower := rfl

theorem has_upper (c : Char) : (CharSet.range 'A' 'Z').has c = c.isUpper :=
  (Bool.decide_and _ _).symm

theorem isAlphanum_eq (c : Char) : c.isAlphanum = (c.isUpper || c.isLower || c.isDigit) := rfl

theorem has_nameSet (c : Char) : Pattern.nameSet.has c = isNameChar c := by
  simp [Pattern.nameSet, has_digits, has_upper, has_lower, isNameChar, isAlphanum_eq]
  ac_rfl

theorem has_alphanumeric (c : Char) : Pattern.alphanumeric.has c = c.isAlphanum := by
  simp [Pattern.alphanumeric, has_digits, has_upper, has_lower, isAlphanum_eq]
  ac_rfl

theorem has_numberSet (c : Char) : Pattern.numberSet.has c = isNumeric c := by
  simp [Pattern.numberSet, has_digits, isNumeric]

theorem has_dataSet (c : Char) : Pattern.dataSet.has c = (isNameChar c || isNumeric c) := by
  simp [Pattern.dataSet, has_digits, has_upper, has_lower, isNumeric, isNameChar, isAlphanum_eq]
  rw [Bool.eq_iff_iff]
  grind

theorem toNat_of_isAlphanum (h : c.isAlphanum = true) : 48 ≤ c.toNat ∧ c.toNat ≤ 122 := by
  rw [isAlphanum_eq, ← has_upper, ← has_lower, ← has_digits] at h
  simp [CharSet.has, Char.le_def, UInt32.le_iff_toNat_le] at h
  omega

theorem isNameChar_of_isAlphanum (h : c.isAlphanum = true) : isNameChar c = true := by
  rw [isNameChar, h, Bool.true_or]

theorem isWord_of_isNameChar (h : isNameChar c = true) : Unicode.isWord c = true := by
  have hsmall : c.toNat < 128 := by
    rcases (Bool.or_eq_true _ _).mp h with h | h
    · have hc := toNat_of_isAlphanum h
      omega
    · rw [of_decide_eq_true h]
      decide
  rw [Unicode.isWord, if_pos hsmall]
  simpa [isNameChar] using h

theorem Grammar.IsNumber.isNumeric {t : Text} (h : IsNumber t) : ∀ c ∈ t, isNumeric c = true := by
  rcases h with rfl | ⟨_, _, h⟩
  · decide
  · exact h

end Characters

/-- A lexeme can begin behind this character. -/
def Apart (prev : Option Char) : Prop := ∀ c ∈ prev, c ∈ [' ', '\n', '(']

/-- A lexeme can end in front of these marks. -/
def Shut (rest : List Mark) : Prop := ∀ m ∈ rest.head?, m.sym ∈ [' ', '\n', ')']

theorem shut_nil : Shut [] := fun _ hm => absurd hm (Option.not_mem_none _)

theorem Apart.any_eq_false {prev : Option Char} (h : Apart prev) {P : Char → Bool}
    (hP : ∀ c ∈ [' ', '\n', '('], P c = false) : prev.any P = false := by
  cases prev with
  | none => rfl
  | some c => exact hP c (h c rfl)

theorem Shut.eq_false {rest : List Mark} (h : Shut rest) {P : Char → Bool}
    (hP : ∀ c ∈ [' ', '\n', ')'], P c = false) : ∀ m ∈ rest.head?, P m.sym = false :=
  fun m hm => hP m.sym (h m hm)

/-! Lexemes are found as a whole. -/

section Hits

variable {t : Text} {rest : List Mark} {prev : Option Char}

theorem takeWhile_ofText {P : Char → Bool} (ht : ∀ c ∈ t, P c = true)
    (hrest : ∀ m ∈ rest.head?, P m.sym = false) :
    (Mark.ofText t ++ rest).takeWhile (P ∘ Mark.sym) = Mark.ofText t ∧
      (Mark.ofText t ++ rest).dropWhile (P ∘ Mark.sym) = rest := by
  have hall : ∀ m ∈ Mark.ofText t, (P ∘ Mark.sym) m = true := by
    intro m hm
    obtain ⟨c, hc, rfl⟩ := List.mem_map.mp hm
    exact ht c hc
  rw [List.takeWhile_append_of_pos hall, List.dropWhile_append_of_pos hall]
  cases rest with
  | nil => exact ⟨List.append_nil _, rfl⟩
  | cons m rest =>
    have hm : ¬ (P ∘ Mark.sym) m = true := by
      rw [Function.comp_apply, hrest m rfl]
      exact Bool.false_ne_true
    rw [List.takeWhile_cons_of_neg hm, List.dropWhile_cons_of_neg hm, List.append_nil]
    exact ⟨rfl, rfl⟩

theorem run?_ofText {set : CharSet} (hne : t ≠ []) (ht : ∀ c ∈ t, set.has c = true)
    (hrest : ∀ m ∈ rest.head?, set.has m.sym = false) :
    run? set Mark.sym (Mark.ofText t ++ rest) = some (Mark.ofText t, rest) := by
  obtain ⟨htake, hdrop⟩ := takeWhile_ofText ht hrest
  have hne' : (Mark.ofText t ++ rest).takeWhile (set.has ∘ Mark.sym) ≠ [] := by
    rw [htake]
    exact fun h => hne (List.map_eq_nil_iff.mp h)
  rw [run?_of_ne hne', htake, hdrop]

theorem run?_eq_none {set : CharSet} (hrest : ∀ m ∈ rest.head?, set.has m.sym = false) :
    run? set Mark.sym rest = none := by
  obtain ⟨htake, _⟩ := takeWhile_ofText (t := []) (fun _ hc => absurd hc List.not_mem_nil) hrest
  exact run?_of_eq htake

theorem lineComment_source (c : Comment) (prev : Option Char)
    (hrest : ∀ m ∈ rest.head?, m.sym = '\n') :
    lineComment Mark.sym prev (Mark.ofText c.source ++ rest) = some (Mark.ofText c.source, rest) := by
  have hline : ∀ d ∈ c.text, CharSet.notNewline.has d = true := by
    intro d hd
    rw [CharSet.has_notNewline, Bool.not_eq_true', decide_eq_false_iff_not]
    rintro rfl
    exact c.oneLine hd
  have hend : ∀ m ∈ rest.head?, CharSet.notNewline.has m.sym = false := by
    intro m hm
    rw [hrest m hm]
    decide
  obtain ⟨htake, hdrop⟩ := takeWhile_ofText hline hend
  change ((some (line Mark.sym (Mark.ofText c.text ++ rest))).map _).map _ = _
  rw [line, htake, hdrop]
  rfl

theorem decorator_ofText (h : IsName t) (prev : Option Char) (hrest : Shut rest) :
    decorator Mark.sym prev (Mark.ofText ('@' :: t) ++ rest) =
      some (Mark.ofText ('@' :: t), rest) := by
  have hrun : run? Pattern.nameSet Mark.sym (Mark.ofText t ++ rest) = some (Mark.ofText t, rest) :=
    run?_ofText h.1 (fun c hc => (has_nameSet c).trans (h.2 c hc)) (hrest.eq_false (by decide))
  change (run? Pattern.nameSet Mark.sym (Mark.ofText t ++ rest)).map _ = _
  rw [hrun]
  rfl

theorem functionOpen_ofText (h : IsName t) (prev : Option Char) (rest : List Mark) :
    functionOpen Mark.sym prev (Mark.ofText (t ++ ['(']) ++ rest) =
      some (Mark.ofText (t ++ ['(']), rest) := by
  have hparen : ∀ m ∈ (Mark.char '(' true :: rest).head?, Pattern.nameSet.has m.sym = false :=
    fun m hm => Option.some.inj hm ▸ (by decide)
  have hrun := run?_ofText h.1 (fun c hc => (has_nameSet c).trans (h.2 c hc)) hparen
  rw [Mark.ofText, List.map_append, List.append_assoc, functionOpen]
  change (run? Pattern.nameSet Mark.sym (Mark.ofText t ++ Mark.char '(' true :: rest)).bind _ = _
  rw [hrun]
  rfl

theorem upToQuote_ofText {quote : Char} (hquote : quote ∈ ['"', '\''])
    (h : ∀ c ∈ t, isContent c = true) (rest : List Mark) :
    upToQuote quote Mark.sym (Mark.ofText (t ++ [quote]) ++ rest) =
      some (Mark.ofText (t ++ [quote]), rest) := by
  induction t with
  | nil =>
    have hquoted : (Mark.char quote true).sym = quote := rfl
    exact upToQuote_cons_of_eq hquoted rest
  | cons c t ih =>
    have hc := h c List.mem_cons_self
    have hne : c ≠ quote := by
      rintro rfl
      have hnot : ∀ d ∈ ['"', '\''], isContent d = false := by decide
      exact Bool.false_ne_true ((hnot c hquote).symm.trans hc)
    have hback : c ≠ '\\' := by
      rintro rfl
      exact absurd hc (by decide)
    change upToQuote quote Mark.sym (Mark.char c true :: (Mark.ofText (t ++ [quote]) ++ rest)) = _
    rw [upToQuote_cons_of_ne hne hback, ih fun d hd => h d (List.mem_cons_of_mem _ hd)]
    rfl

theorem string_ofText {quote : Char} (hquote : quote = '"' ∨ quote = '\'')
    (h : ∀ c ∈ t, isContent c = true) (prev : Option Char) (rest : List Mark) :
    string Mark.sym prev (Mark.ofText (quote :: t ++ [quote]) ++ rest) =
      some (Mark.ofText (quote :: t ++ [quote]), rest) := by
  have hlater := upToQuote_ofText (by simpa using hquote) h rest
  change after? isQuote Mark.sym _
    (Mark.char quote true :: (Mark.ofText (t ++ [quote]) ++ rest)) = _
  rw [after?_cons_of_pos (a := Mark.char quote true) (isQuote_iff.mpr hquote)]
  change (upToQuote quote Mark.sym (Mark.ofText (t ++ [quote]) ++ rest)).map _ = _
  rw [hlater]
  rfl

theorem radix_ofText (h : IsRadix t) (hprev : Apart prev) (hrest : Shut rest) :
    radix Mark.sym prev (Mark.ofText t ++ rest) = some (Mark.ofText t, rest) := by
  obtain ⟨hhead, htail, hall⟩ := h
  obtain ⟨u, rfl⟩ := List.head?_eq_some_iff.mp hhead
  have hrun : run? Pattern.alphanumeric Mark.sym (Mark.ofText u ++ rest) =
      some (Mark.ofText u, rest) :=
    run?_ofText htail
      (fun c hc => (has_alphanumeric c).trans (hall c (List.mem_cons_of_mem _ hc)))
      (hrest.eq_false (by decide))
  have hfirst : (decide ('0' = '0') && !prev.any Pattern.numberSet.has) = true := by
    rw [hprev.any_eq_false (by decide)]
    rfl
  change after? _ Mark.sym _ (Mark.char '0' true :: (Mark.ofText u ++ rest)) = _
  rw [after?_cons_of_pos (a := Mark.char '0' true) hfirst, hrun]
  rfl

theorem word?_ofText (w : Text) (hrest : ∀ m ∈ rest.head?, Unicode.isWord m.sym = false) :
    word? Mark.sym w (Mark.ofText w ++ rest) = some (Mark.ofText w, rest) := by
  induction w with
  | nil =>
    have hnone : ¬ rest.head?.any (Unicode.isWord ∘ Mark.sym) = true := by
      cases rest with
      | nil => exact Bool.false_ne_true
      | cons m rest =>
        intro h
        exact Bool.false_ne_true ((hrest m rfl).symm.trans h)
    exact if_neg hnone
  | cons c w ih =>
    change after? (· = c) Mark.sym _ (Mark.char c true :: (Mark.ofText w ++ rest)) = _
    rw [after?_cons_of_pos (a := Mark.char c true) (decide_eq_true rfl), ih]
    rfl

theorem keyword_ofText (h : t = "return" ∨ t = "function") (hprev : Apart prev) (hrest : Shut rest) :
    keyword Mark.sym prev (Mark.ofText t ++ rest) = some (Mark.ofText t, rest) := by
  have hword := word?_ofText t (hrest.eq_false (by decide))
  rw [keyword, if_neg (by rw [hprev.any_eq_false (by decide)]; exact Bool.false_ne_true)]
  rcases h with rfl | rfl
  · rw [hword, Option.some_or]
  · -- The first letter tells the two words apart.
    rw [hword]
    rfl

theorem data_ofText (hne : t ≠ []) (h : ∀ c ∈ t, Pattern.dataSet.has c = true) (prev : Option Char)
    (hrest : Shut rest) :
    data Mark.sym prev (Mark.ofText t ++ rest) = some (Mark.ofText t, rest) := by
  have hexponent : exponent? Mark.sym rest = none := by
    cases he : exponent? Mark.sym rest with
    | none => rfl
    | some w =>
      obtain ⟨a, b, rfl, _, ha, _⟩ := exponent?_eq_some he
      exact absurd ((hrest.eq_false (P := isSign) (by decide) a rfl).symm.trans ha) (by decide)
  rw [data, run?_ofText hne h (hrest.eq_false (by decide)), Option.map_some]
  change some (prepend (Mark.ofText t) ((exponent? Mark.sym rest).getD ([], rest))) = _
  rw [hexponent]
  exact congrArg some (congrArg₂ Prod.mk (List.append_nil _) rfl)

end Hits

/-! Where nothing is found. -/

namespace Lexeme.Kind

/-- A lexeme of the kind can begin with the character. -/
def starts : Kind → Char → Bool
  | lineComment, c | blockComment, c => c = '/'
  | decorator, c => c = '@'
  | functionOpen, c => isNameChar c
  | closingParen, c => c = ')'
  | string, c => isQuote c
  | radix, c => c = '0'
  | keyword, c => c = 'r' || c = 'f'
  | data, c => isNameChar c || isNumeric c

theorem starts_space (k : Kind) : k.starts ' ' = false := by cases k <;> decide

theorem recognizer_of_starts {k : Kind} {m : Mark} (h : k.starts m.sym = false)
    (prev : Option Char) (us : List Mark) : k.recognizer Mark.sym prev (m :: us) = none := by
  have hrun {set : CharSet} (hset : set.has m.sym = false) : run? set Mark.sym (m :: us) = none :=
    run?_eq_none fun m' hm => Option.some.inj hm ▸ hset
  have hnot : ¬ k.starts m.sym = true := by
    rw [h]
    exact Bool.false_ne_true
  cases k with
  | lineComment | blockComment | decorator | closingParen | string => exact if_neg hnot
  | radix => exact if_neg fun hfirst => hnot ((Bool.and_eq_true _ _).mp hfirst).1
  | functionOpen =>
    change (run? Pattern.nameSet Mark.sym (m :: us)).bind _ = none
    rw [hrun ((has_nameSet _).trans h)]
    rfl
  | keyword =>
    obtain ⟨hr, hf⟩ := (Bool.or_eq_false_iff).mp h
    have hwords : (word? Mark.sym "return" (m :: us)).or
        (word? Mark.sym "function" (m :: us)) = none :=
      congrArg₂ Option.or (after?_cons_of_neg hr us) (after?_cons_of_neg hf us)
    change (if _ then none else _) = none
    rw [hwords, ite_self]
  | data =>
    change (run? Pattern.dataSet Mark.sym (m :: us)).map _ = none
    rw [hrun ((has_dataSet _).trans h)]
    rfl

/-- Nothing of the kind is found at any place of `us`, with `prev` before it and `rest` after it. -/
def Passes (k : Kind) : (prev : Option Char) → (us rest : List Mark) → Prop
  | _, [], _ => True
  | prev, m :: us, rest =>
    k.recognizer Mark.sym prev (m :: (us ++ rest)) = none ∧ Passes k (some m.sym) us rest

end Lexeme.Kind

/-- What is seen right before the place behind the marks. -/
def lastSym (prev : Option Char) (us : List Mark) : Option Char :=
  us.foldl (fun _ m => some m.sym) prev

section Passing

variable {k : Kind} {prev : Option Char} {t : Text} {us rest : List Mark}

theorem lastSym_append (prev : Option Char) (us : List Mark) (m : Mark) :
    lastSym prev (us ++ [m]) = some m.sym := List.foldl_concat ..

theorem exists_of_lastSym {c : Char} (hne : us ≠ []) (hc : c ∈ lastSym prev us) :
    ∃ m ∈ us, m.sym = c := by
  obtain ⟨us, m, rfl⟩ := List.eq_nil_or_concat us |>.resolve_left hne
  rw [List.concat_eq_append, lastSym_append] at hc
  exact ⟨m, by simp, Option.some.inj hc⟩

theorem Reads.of_passes {e : Ending} {ps : List Piece} (h : k.Passes prev us rest)
    (later : Reads k e (lastSym prev us) rest ps) :
    Reads k e prev (us ++ rest) (us.map .pass ++ ps) := by
  induction us generalizing prev with
  | nil => exact later
  | cons m us ih => exact .pass h.1 (ih h.2 later)

theorem passes_of_starts (h : ∀ m ∈ us, k.starts m.sym = false) : k.Passes prev us rest := by
  induction us generalizing prev with
  | nil => trivial
  | cons m us ih =>
    exact ⟨Kind.recognizer_of_starts (h m List.mem_cons_self) prev _,
      ih fun m' hm => h m' (List.mem_cons_of_mem _ hm)⟩

theorem passes_ofText (h : ∀ c ∈ t, k.starts c = false) : k.Passes prev (Mark.ofText t) rest := by
  apply passes_of_starts
  intro m hm
  obtain ⟨c, hc, rfl⟩ := List.mem_map.mp hm
  exact h c hc

/-- Where no parenthesis follows a name, it is no call. -/
theorem functionOpen_eq_none (hus : ∀ m ∈ us, m.sym ≠ '(') (hrest : Shut rest) :
    Kind.functionOpen.recognizer Mark.sym prev (us ++ rest) = none := by
  cases h : Kind.functionOpen.recognizer Mark.sym prev (us ++ rest) with
  | none => rfl
  | some w =>
    exfalso
    have hfound : functionOpen Mark.sym prev (us ++ rest) = some w := h
    obtain ⟨name, a, hname, _, ha⟩ := functionOpen_eq_some hfound
    obtain ⟨hsplit, _, hall⟩ := run?_eq_some hname
    -- The parenthesis `a` behind the name would lie behind `us` or within it.
    rcases List.append_eq_append_iff.mp hsplit with ⟨x, rfl, hx⟩ | ⟨x, rfl, hx⟩
    · cases x with
      | nil =>
        have hshut := hrest a (congrArg List.head? hx)
        rw [ha] at hshut
        exact absurd hshut (by decide)
      | cons b x =>
        have hb := hrest.eq_false (P := Pattern.nameSet.has) (by decide) b (congrArg List.head? hx)
        exact Bool.false_ne_true (hb.symm.trans
          (hall b (List.mem_append_right _ List.mem_cons_self)))
    · cases x with
      | nil =>
        have hshut := hrest a (congrArg List.head? hx.symm)
        rw [ha] at hshut
        exact absurd hshut (by decide)
      | cons b x =>
        obtain ⟨rfl, _⟩ := List.cons.inj hx
        exact hus a (List.mem_append_right _ List.mem_cons_self) ha

theorem passes_functionOpen (h : '(' ∉ t) (hrest : Shut rest) :
    Kind.functionOpen.Passes prev (Mark.ofText t) rest := by
  induction t generalizing prev with
  | nil => trivial
  | cons c t ih =>
    have hus : ∀ m ∈ Mark.ofText (c :: t), m.sym ≠ '(' := by
      intro m hm hsym
      obtain ⟨d, hd, rfl⟩ := List.mem_map.mp hm
      exact h (hsym ▸ hd)
    exact ⟨functionOpen_eq_none hus hrest, ih fun hc => h (List.mem_cons_of_mem _ hc)⟩

/-- In a number, no zero begins a number in another base: the zero stands alone or behind a character
of a number. -/
theorem passes_radix (h : IsNumber t) (hrest : Shut rest) :
    Kind.radix.Passes prev (Mark.ofText t) rest := by
  have hinner {u : Text} (hu : ∀ c ∈ u, isNumeric c = true) {c : Char} (hc : isNumeric c = true) :
      Kind.radix.Passes (some c) (Mark.ofText u) rest := by
    induction u generalizing c with
    | nil => trivial
    | cons d u ih =>
      have hguard : ¬ (decide (d = '0') && !(some c).any Pattern.numberSet.has) = true := by
        rw [Option.any_some, has_numberSet, hc, Bool.not_true, Bool.and_false]
        exact Bool.false_ne_true
      exact ⟨if_neg hguard,
        ih (fun e he => hu e (List.mem_cons_of_mem _ he)) (hu d List.mem_cons_self)⟩
  rcases h with rfl | ⟨hne, hhead, hall⟩
  · refine ⟨?_, trivial⟩
    have hrun : run? Pattern.alphanumeric Mark.sym rest = none :=
      run?_eq_none (hrest.eq_false (by decide))
    change (if _ then (run? Pattern.alphanumeric Mark.sym rest).map _ else none) = none
    rw [hrun, Option.map_none, ite_self]
  · cases t with
    | nil => exact absurd rfl hne
    | cons c t =>
      have hc : Kind.radix.starts c = false := decide_eq_false fun h => hhead (congrArg some h)
      exact ⟨Kind.recognizer_of_starts hc prev _,
        hinner (fun d hd => hall d (List.mem_cons_of_mem _ hd)) (hall c List.mem_cons_self)⟩

/-- A word is found in front of a place where names end only if it is the whole name. -/
theorem word?_eq_none {w : Text} (hw : ∀ c ∈ w, isNameChar c = true)
    (ht : ∀ c ∈ t, isNameChar c = true) (hne : t ≠ w) (hrest : Shut rest) :
    word? Mark.sym w (Mark.ofText t ++ rest) = none := by
  -- Either the name goes on behind the word, or it ends within the word, or they differ somewhere.
  induction w generalizing t with
  | nil =>
    cases t with
    | nil => exact absurd rfl hne
    | cons c t => exact if_pos (isWord_of_isNameChar (ht c List.mem_cons_self))
  | cons d w ih =>
    cases t with
    | nil =>
      cases rest with
      | nil => rfl
      | cons m rest =>
        apply after?_cons_of_neg
        rw [decide_eq_false_iff_not]
        rintro rfl
        exact Bool.false_ne_true ((hrest.eq_false (by decide) m rfl).symm.trans
          (hw _ List.mem_cons_self))
    | cons c t =>
      by_cases hc : c = d
      · subst hc
        have hlater := ih (fun e he => hw e (List.mem_cons_of_mem _ he))
          (fun e he => ht e (List.mem_cons_of_mem _ he)) fun h => hne (congrArg _ h)
        change after? (· = c) Mark.sym _ (Mark.char c true :: (Mark.ofText t ++ rest)) = none
        rw [after?_cons_of_pos (a := Mark.char c true) (decide_eq_true rfl), hlater]
        rfl
      · exact after?_cons_of_neg (a := Mark.char c true) (decide_eq_false hc) _

/-- No keyword begins in a number. -/
theorem passes_keyword_of_numeric (ht : ∀ c ∈ t, isNumeric c = true) :
    Kind.keyword.Passes prev (Mark.ofText t) rest := by
  apply passes_ofText
  intro c hc
  rw [← Bool.not_eq_true]
  intro hstarts
  have hnumeric := ht c hc
  rcases (Bool.or_eq_true _ _).mp hstarts with hr | hf
  · rw [of_decide_eq_true hr] at hnumeric
    exact absurd hnumeric (by decide)
  · rw [of_decide_eq_true hf] at hnumeric
    exact absurd hnumeric (by decide)

theorem passes_keyword (ht : ∀ c ∈ t, isNameChar c = true) (hne : t ≠ "return" ∧ t ≠ "function")
    (hrest : Shut rest) : Kind.keyword.Passes prev (Mark.ofText t) rest := by
  have hinner {u : Text} (hu : ∀ c ∈ u, isNameChar c = true) {c : Char} (hc : isNameChar c = true) :
      Kind.keyword.Passes (some c) (Mark.ofText u) rest := by
    induction u generalizing c with
    | nil => trivial
    | cons d u ih =>
      exact ⟨if_pos (isWord_of_isNameChar hc),
        ih (fun e he => hu e (List.mem_cons_of_mem _ he)) (hu d List.mem_cons_self)⟩
  cases t with
  | nil => trivial
  | cons c t =>
    refine ⟨?_, hinner (fun d hd => ht d (List.mem_cons_of_mem _ hd)) (ht c List.mem_cons_self)⟩
    have hreturn := word?_eq_none (by decide) ht hne.1 hrest
    have hfunction := word?_eq_none (by decide) ht hne.2 hrest
    change (if _ then none else (word? Mark.sym "return" (Mark.ofText (c :: t) ++ rest)).or
      (word? Mark.sym "function" (Mark.ofText (c :: t) ++ rest))) = none
    rw [hreturn, hfunction, Option.none_or, ite_self]

end Passing

end Highlighter
