import Highlighter.Proofs.Lexeme.Spread

/-! What a recognizer finds in a row that fades: some of its things turn blank, and blanks come between
others, but nothing shows up that was not there before. A recognizer whose lexemes can be told from
their own characters finds nothing in a faded row where it found nothing before
(`Recognizer.Stable`), and a row that is spent for it stays so however it fades (`Spent.fades`). -/
namespace Highlighter

open Lexeme

variable {α : Type} {sym : α → Char}

/-- `l'` is `l` with some things turned blank and blanks put between others. -/
inductive Fades (sym : α → Char) : List α → List α → Prop
  | nil : Fades sym [] []
  | keep (a : α) {l l' : List α} (h : Fades sym l l') : Fades sym (a :: l) (a :: l')
  | blank (a : α) {b : α} (hb : sym b = ' ') {l l' : List α} (h : Fades sym l l') :
      Fades sym (a :: l) (b :: l')
  | insert {b : α} (hb : sym b = ' ') {l l' : List α} (h : Fades sym l l') : Fades sym l (b :: l')

namespace Fades

variable {l l' r r' : List α}

theorem refl (l : List α) : Fades sym l l := by
  induction l with
  | nil => exact .nil
  | cons a l ih => exact .keep a ih

theorem append (h : Fades sym l l') (hr : Fades sym r r') : Fades sym (l ++ r) (l' ++ r') := by
  induction h with
  | nil => exact hr
  | keep a _ ih => exact .keep a ih
  | blank a hb _ ih => exact .blank a hb ih
  | insert hb _ ih => exact .insert hb ih

theorem of_blanks {w : List α} (hw : ∀ b ∈ w, sym b = ' ') : Fades sym [] w := by
  induction w with
  | nil => exact .nil
  | cons b w ih =>
    exact .insert (hw b List.mem_cons_self) (ih fun c hc => hw c (List.mem_cons_of_mem b hc))

theorem map_blank {f : α → α} (hf : ∀ a, sym (f a) = ' ') (l : List α) : Fades sym l (l.map f) := by
  induction l with
  | nil => exact .nil
  | cons a l ih => exact .blank a (hf a) ih

/-- What shows at the front was there before. -/
theorem cons_of_ne {a : α} (h : Fades sym l (a :: l')) (ha : sym a ≠ ' ') :
    ∃ r, l = a :: r ∧ Fades sym r l' := by
  cases h with
  | keep _ h => exact ⟨_, rfl, h⟩
  | blank _ hb _ => exact absurd hb ha
  | insert hb _ => exact absurd hb ha

theorem front {u : List α} (h : Fades sym l (u ++ l')) (hu : ∀ a ∈ u, sym a ≠ ' ') :
    ∃ r, l = u ++ r ∧ Fades sym r l' := by
  induction u generalizing l with
  | nil => exact ⟨l, rfl, h⟩
  | cons a u ih =>
    obtain ⟨r, rfl, hr⟩ := h.cons_of_ne (hu a List.mem_cons_self)
    obtain ⟨r', rfl, hr'⟩ := ih hr fun b hb => hu b (List.mem_cons_of_mem a hb)
    exact ⟨r', rfl, hr'⟩

theorem mem {a : α} (h : Fades sym l l') (ha : a ∈ l') (hne : sym a ≠ ' ') : a ∈ l := by
  obtain ⟨x, y, rfl⟩ := List.append_of_mem ha
  clear ha
  generalize hw : x ++ a :: y = w at h
  induction h generalizing x with
  | nil => exact absurd hw (by simp)
  | keep b _ ih =>
    cases x with
    | nil =>
      obtain ⟨rfl, _⟩ := List.cons.inj hw
      exact List.mem_cons_self
    | cons c x => exact List.mem_cons_of_mem b (ih x (List.cons.inj hw).2)
  | blank b hb _ ih =>
    cases x with
    | nil =>
      obtain ⟨rfl, _⟩ := List.cons.inj hw
      exact absurd hb hne
    | cons c x => exact List.mem_cons_of_mem b (ih x (List.cons.inj hw).2)
  | insert hb _ ih =>
    cases x with
    | nil =>
      obtain ⟨rfl, _⟩ := List.cons.inj hw
      exact absurd hb hne
    | cons c x => exact ih x (List.cons.inj hw).2

end Fades

/-- Where the recognizer finds nothing, it finds nothing either once the row from there on has
faded. -/
structure Recognizer.Stable (R : Recognizer) : Prop where
  fades : ∀ {α : Type} {sym : α → Char} {prev : Option Char} {l l' : List α}, Fades sym l l' →
    R sym prev l = none → R sym prev l' = none

/-- The recognizer does not look at what stands before. -/
structure Recognizer.Blind (R : Recognizer) : Prop where
  same : ∀ {α : Type} (sym : α → Char) (prev prev' : Option Char) (l : List α),
    R sym prev l = R sym prev' l

namespace Lexeme

variable {l l' : List α}

theorem after?_fades {first : Char → Bool} {later : Char → List α → Option (List α × List α)}
    (hfirst : first ' ' = false)
    (hlater : ∀ {c l l'}, Fades sym l l' → later c l = none → later c l' = none)
    (hf : Fades sym l l') (h : after? first sym later l = none) :
    after? first sym later l' = none := by
  cases l' with
  | nil => rfl
  | cons a l' =>
    by_cases ha : first (sym a) = true
    · have hne : sym a ≠ ' ' := ne_of_apply_ne first (by rw [ha, hfirst]; decide)
      obtain ⟨r, rfl, hr⟩ := hf.cons_of_ne hne
      rw [after?_cons_of_pos ha, Option.map_eq_none_iff] at h ⊢
      exact hlater hr h
    · exact after?_cons_of_neg (Bool.not_eq_true _ ▸ ha) l'

theorem run?_eq_none_iff {set : CharSet} :
    run? set sym l = none ↔ ∀ a ∈ l.head?, set.has (sym a) = false := by
  cases l with
  | nil => exact iff_of_true rfl (by simp)
  | cons a l =>
    rw [List.head?_cons]
    by_cases ha : set.has (sym a) = true
    · have htake : (a :: l).takeWhile (set.has ∘ sym) ≠ [] := by
        rw [List.takeWhile_cons_of_pos (by exact ha)]
        exact List.cons_ne_nil _ _
      rw [run?_of_ne htake]
      exact iff_of_false (Option.some_ne_none _) fun h =>
        Bool.false_ne_true ((h a rfl).symm.trans ha)
    · rw [run?_of_eq (List.takeWhile_cons_of_neg (by exact ha))]
      refine iff_of_true rfl fun b hb => ?_
      obtain rfl := Option.some.inj hb
      exact Bool.not_eq_true _ ▸ ha

theorem run?_fades {set : CharSet} (hset : set.has ' ' = false) (hf : Fades sym l l')
    (h : run? set sym l = none) : run? set sym l' = none := by
  rw [run?_eq_none_iff] at h ⊢
  cases l' with
  | nil => simp
  | cons a l' =>
    intro b hb
    obtain rfl := Option.some.inj hb
    by_cases hs : sym a = ' '
    · rw [hs, hset]
    · obtain ⟨r, rfl, _⟩ := hf.cons_of_ne hs
      exact h a rfl

/-- A longest run that is known ends where it ends. -/
theorem run?_append {set : CharSet} {u v : List α} (hne : u ≠ [])
    (hu : ∀ a ∈ u, set.has (sym a) = true) (hv : ∀ a ∈ v.head?, set.has (sym a) = false) :
    run? set sym (u ++ v) = some (u, v) := by
  have htake : (u ++ v).takeWhile (set.has ∘ sym) = u := by
    rw [List.takeWhile_append_of_pos (by exact hu)]
    cases v with
    | nil => exact List.append_nil u
    | cons a v =>
      rw [List.takeWhile_cons_of_neg (by exact Bool.eq_false_iff.mp (hv a rfl)), List.append_nil]
  have hdrop : (u ++ v).dropWhile (set.has ∘ sym) = v := by
    have hall := List.takeWhile_append_dropWhile (p := set.has ∘ sym) (l := u ++ v)
    rw [htake] at hall
    exact List.append_cancel_left hall
  rw [run?_of_ne (by rw [htake]; exact hne), htake, hdrop]

theorem stable_lineComment : Recognizer.Stable lineComment where
  fades := after?_fades (by decide) (after?_fades (by decide) fun _ h => absurd h (by simp))

theorem close?_fades (hf : Fades sym l l') (h : close? sym l = none) : close? sym l' = none :=
  after?_fades (by decide) (after?_fades (by decide) fun _ h => absurd h (by simp)) hf h

theorem upToClose_cons_eq_none {a : α} : upToClose sym (a :: l) = none ↔
    close? sym (a :: l) = none ∧ upToClose sym l = none := by
  rw [upToClose, Option.or_eq_none_iff, Option.map_eq_none_iff]

theorem upToClose_fades (hf : Fades sym l l') (h : upToClose sym l = none) :
    upToClose sym l' = none := by
  -- No `*/` begins at a blank, so that only what is kept has to be looked at again.
  have hblank {b : α} (hb : sym b = ' ') (r : List α) : close? sym (b :: r) = none :=
    close?_cons_of_ne (by rw [hb]; decide) r
  induction hf with
  | nil => rfl
  | keep a hf ih =>
    rw [upToClose_cons_eq_none] at h ⊢
    exact ⟨close?_fades (.keep a hf) h.1, ih h.2⟩
  | blank a hb _ ih =>
    rw [upToClose_cons_eq_none] at h ⊢
    exact ⟨hblank hb _, ih h.2⟩
  | insert hb _ ih =>
    rw [upToClose_cons_eq_none]
    exact ⟨hblank hb _, ih h⟩

theorem stable_blockComment : Recognizer.Stable blockComment where
  fades := after?_fades (by decide) (after?_fades (by decide) upToClose_fades)

theorem stable_decorator : Recognizer.Stable decorator where
  fades := after?_fades (by decide) (run?_fades (by decide))

/-- A name with its parenthesis shows as a whole, so that it was there before. -/
theorem stable_functionOpen : Recognizer.Stable functionOpen where
  fades {_ sym prev l l'} hf h := by
    cases hfound : functionOpen sym prev l' with
    | none => rfl
    | some w =>
      obtain ⟨u, v⟩ := w
      obtain ⟨name, a, hname, _, ha⟩ := functionOpen_eq_some hfound
      obtain ⟨hl', hne, hall⟩ := run?_eq_some hname
      have hparen : Pattern.nameSet.has (sym a) = false := by rw [ha]; decide
      have hshown : ∀ b ∈ name ++ [a], sym b ≠ ' ' := by
        intro b hb hs
        rcases List.mem_append.mp hb with hb | hb
        · exact absurd (hs ▸ hall b hb) (by decide)
        · rw [List.mem_singleton.mp hb, ha] at hs
          exact absurd hs (by decide)
      rw [hl', ← List.singleton_append, ← List.append_assoc] at hf
      obtain ⟨r, rfl, _⟩ := hf.front hshown
      have hrun : run? Pattern.nameSet sym (name ++ [a] ++ r) = some (name, a :: r) := by
        rw [List.append_assoc]
        exact run?_append hne hall fun b hb => Option.some.inj hb ▸ hparen
      rw [functionOpen, hrun, Option.bind_some, Option.map_eq_none_iff,
        after?_cons_of_pos (decide_eq_true ha)] at h
      exact absurd h (by simp)

theorem stable_closingParen : Recognizer.Stable closingParen where
  fades := after?_fades (by decide) fun _ h => absurd h (by simp)

/-- There is a closing quote wherever the quote comes at all, escaped or not. -/
theorem upToQuote_eq_none_iff {quote : Char} :
    upToQuote quote sym l = none ↔ ∀ a ∈ l, sym a ≠ quote := by
  fun_induction upToQuote quote sym l with
  | case1 => simp
  | case2 a ha => exact iff_of_false (Option.some_ne_none _) fun h => h a (by simp) ha
  | case3 a ha => simpa using ha
  | case4 a b l ha => exact iff_of_false (Option.some_ne_none _) fun h => h a (by simp) ha
  | case5 a b l ha hab ihescape ihplain =>
    rw [Option.or_eq_none_iff, Option.map_eq_none_iff, Option.map_eq_none_iff, ihescape, ihplain]
    refine ⟨fun h c hc => ?_, fun h => ⟨fun c hc => h c (by simp [hc]), fun c hc => ?_⟩⟩
    · rcases List.mem_cons.mp hc with rfl | hc
      · exact ha
      · exact h.2 c hc
    · exact h c (List.mem_cons_of_mem a hc)
  | case6 a b l ha hab ih =>
    rw [Option.map_eq_none_iff, ih]
    refine ⟨fun h c hc => ?_, fun h c hc => h c (List.mem_cons_of_mem a hc)⟩
    rcases List.mem_cons.mp hc with rfl | hc
    · exact ha
    · exact h c hc

theorem stable_string : Recognizer.Stable string where
  fades {_ sym prev l l'} hf h := by
    cases l' with
    | nil => rfl
    | cons a l' =>
      by_cases ha : isQuote (sym a) = true
      · have hne := ne_space_of_isQuote ha
        obtain ⟨r, rfl, hr⟩ := hf.cons_of_ne hne
        unfold string at h ⊢
        rw [after?_cons_of_pos ha, Option.map_eq_none_iff, upToQuote_eq_none_iff] at h ⊢
        exact fun b hb hs => h b (hr.mem hb (hs ▸ hne)) hs
      · exact after?_cons_of_neg (Bool.not_eq_true _ ▸ ha) l'

theorem stable_radix : Recognizer.Stable radix where
  fades := after?_fades rfl (run?_fades (by decide))

theorem stable_data : Recognizer.Stable data where
  fades hf h := by
    unfold data at h ⊢
    rw [Option.map_eq_none_iff] at h ⊢
    exact run?_fades (by decide) hf h

end Lexeme

/-- The recognizer finds nothing at any place of a row that `prev` is seen before. -/
def Recognizer.Spent (R : Recognizer) (sym : α → Char) : Option Char → List α → Prop
  | _, [] => True
  | prev, a :: l => R sym prev (a :: l) = none ∧ Recognizer.Spent R sym (some (sym a)) l

namespace Recognizer

variable {R : Recognizer} {prev : Option Char} {l l' : List α}

namespace Spent

/-- Behind blanks the row is spent as it is behind one. -/
theorem of_blanks (hsound : Sound R) {w : List α} (hw : ∀ b ∈ w, sym b = ' ') (hne : w ≠ [])
    (h : Spent R sym (some ' ') l) (prev : Option Char) : Spent R sym prev (w ++ l) := by
  induction w generalizing prev with
  | nil => exact absurd rfl hne
  | cons b w ih =>
    have hb := hw b List.mem_cons_self
    refine ⟨hsound.eq_none_of_blank hb prev _, ?_⟩
    cases w with
    | nil =>
      rw [hb]
      exact h
    | cons c w => exact ih (fun d hd => hw d (List.mem_cons_of_mem b hd)) (List.cons_ne_nil c w) _

/-- A row that is spent for a recognizer stays so however it fades. -/
theorem fades (hsound : Sound R) (hstable : Stable R) (hblind : Blind R) (hf : Fades sym l l')
    (h : Spent R sym prev l) (prev' : Option Char) : Spent R sym prev' l' := by
  induction hf generalizing prev prev' with
  | nil => trivial
  | keep a hf ih =>
    refine ⟨hstable.fades (.keep a hf) ?_, ih h.2 _⟩
    rw [hblind.same sym prev' prev]
    exact h.1
  | blank a hb _ ih => exact ⟨hsound.eq_none_of_blank hb prev' _, ih h.2 _⟩
  | insert hb _ ih => exact ⟨hsound.eq_none_of_blank hb prev' _, ih h _⟩

/-- What is spent in a row is spent in what is seen of it. -/
theorem spread (hsound : Sound R) {seen : α → Text} (hs : Spread sym seen)
    (h : Spent R sym prev l) : Spent R id prev (l.flatMap seen) := by
  induction l generalizing prev with
  | nil => trivial
  | cons a l ih =>
    obtain ⟨k, hk, hblank⟩ := hs a
    have hnone : R sym prev (a :: l) = none := h.1
    have hfirst := hsound.spread hs prev (a :: l)
    rw [hnone, Option.map_none] at hfirst
    rw [List.flatMap_cons, hk] at hfirst ⊢
    rw [List.replicate_succ, List.cons_append] at hfirst ⊢
    refine ⟨hfirst, ?_⟩
    rcases Nat.eq_zero_or_pos k with rfl | hpos
    · exact ih h.2
    · -- Only a space is seen more than once.
      have hspace : sym a = ' ' := hblank.resolve_left (Nat.ne_of_gt hpos)
      have hlater := ih h.2
      rw [hspace] at hlater ⊢
      refine hlater.of_blanks hsound (fun b hb => List.eq_of_mem_replicate hb) ?_ _
      rw [Ne, List.replicate_eq_nil_iff]
      exact Nat.ne_of_gt hpos

/-- What is left of a spent row at a place in it is spent. -/
theorem of_append {x v : List α} (h : Spent R sym prev (x ++ v)) :
    Spent R sym ((x.getLast?.map sym).or prev) v := by
  induction x generalizing prev with
  | nil => exact h
  | cons a x ih =>
    have hlater := ih h.2
    cases x with
    | nil => exact hlater
    | cons b x => exact hlater

theorem eq_none (hsound : Sound R) {x v : List α} (h : Spent R sym prev (x ++ v)) :
    R sym ((x.getLast?.map sym).or prev) v = none := by
  have hrest := h.of_append
  cases v with
  | nil => exact hsound.eq_none_of_nil sym _
  | cons a v => exact hrest.1

/-- A row is spent as well for a recognizer that needs more to find something. -/
theorem imp {R' : Recognizer}
    (himp : ∀ (prev prev' : Option Char) (a : α) (l : List α), R sym prev (a :: l) = none →
      R' sym prev' (a :: l) = none)
    (h : Spent R sym prev l) (prev' : Option Char) : Spent R' sym prev' l := by
  induction l generalizing prev prev' with
  | nil => trivial
  | cons a l ih => exact ⟨himp prev prev' a l h.1, ih h.2 _⟩

end Spent

end Recognizer

end Highlighter
