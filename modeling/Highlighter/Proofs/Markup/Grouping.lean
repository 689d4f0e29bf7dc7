import Highlighter.Proofs.Lexeme.Fading
import Highlighter.Proofs.Markup.Accounting

/-! Where every parenthesis has its partner. A call opens a span and its parenthesis closes it, but a
parenthesis that groups closes a span as well and opens none. The spans of a text with nested
parentheses are therefore well nested just when no parenthesis groups. -/
namespace Highlighter

open Lexeme Text

namespace Text

/-- No part of the text from the beginning on closes more parentheses than it opens, and in the end
all are closed. -/
structure Parenthesized (t : Text) : Prop where
  prefixes : ∀ p, p <+: t → p.count ')' ≤ p.count '('
  total : t.count ')' = t.count '('

instance (t : Text) : Decidable t.Parenthesized :=
  decidable_of_iff ((∀ p ∈ t.inits, p.count ')' ≤ p.count '(') ∧ t.count ')' = t.count '(')
    ⟨fun h => ⟨fun p hp => h.1 p ((List.mem_inits p t).mpr hp), h.2⟩,
      fun h => ⟨fun p hp => h.prefixes p ((List.mem_inits p t).mp hp), h.total⟩⟩

end Text

namespace Lexeme

variable {α : Type} {sym : α → Char}

/-- Every opening parenthesis stands right behind a character of a name. -/
def CallsOnly (sym : α → Char) : (prev : Option Char) → List α → Prop
  | _, [] => True
  | prev, a :: l =>
    (sym a = '(' → prev.any Pattern.nameSet.has = true) ∧ CallsOnly sym (some (sym a)) l

instance decidableCallsOnly (sym : α → Char) :
    (prev : Option Char) → (l : List α) → Decidable (CallsOnly sym prev l)
  | _, [] => .isTrue trivial
  | _, a :: l => @instDecidableAnd _ _ inferInstance (decidableCallsOnly sym (some (sym a)) l)

/-- Before a text it matters only whether a name can end there. -/
theorem callsOnly_congr {prev prev' : Option Char}
    (h : prev.any Pattern.nameSet.has = prev'.any Pattern.nameSet.has) (l : List α) :
    CallsOnly sym prev l ↔ CallsOnly sym prev' l := by
  cases l with
  | nil => exact Iff.rfl
  | cons a l => rw [CallsOnly, CallsOnly, h]

theorem callsOnly_cons_of_ne {prev : Option Char} {a : α} (h : sym a ≠ '(') (l : List α) :
    CallsOnly sym prev (a :: l) ↔ CallsOnly sym (some (sym a)) l := by
  rw [CallsOnly]
  exact and_iff_right fun heq => absurd heq h

theorem callsOnly_spaces (prev : Option Char) (k : Nat) (t : Text) :
    CallsOnly id prev (List.replicate (k + 1) ' ' ++ t) ↔ CallsOnly id (some ' ') t := by
  have hspace : id ' ' ≠ '(' := by decide
  -- After the first space `prev` no longer matters, so it varies in the induction.
  induction k generalizing prev with
  | zero => exact callsOnly_cons_of_ne hspace t
  | succ k ih =>
    rw [List.replicate_succ, List.cons_append, callsOnly_cons_of_ne hspace]
    exact ih _

/-- It does not matter how many spaces a thing stands for. -/
theorem callsOnly_flatMap {seen : α → Text} (h : Spread sym seen) (prev : Option Char) (l : List α) :
    CallsOnly id prev (l.flatMap seen) ↔ CallsOnly sym prev l := by
  induction l generalizing prev with
  | nil => exact Iff.rfl
  | cons a l ih =>
    obtain ⟨k, hk, rfl | hblank⟩ := h a
    -- A thing is seen as the one character that it stands for, or else as spaces.
    · rw [List.flatMap_cons, hk, List.replicate_one, List.singleton_append, CallsOnly, CallsOnly, ih]
      rfl
    · rw [List.flatMap_cons, hk, hblank, callsOnly_spaces, ih, callsOnly_cons_of_ne, hblank]
      rw [hblank]
      decide

theorem not_name_of_paren {c : Char} (h : Pattern.nameSet.has c = true) : c ≠ '(' ∧ c ≠ ')' := by
  constructor <;> rintro rfl <;> revert h <;> decide

/-- The name of a call and its parenthesis. -/
def IsCallStart (sym : α → Char) (l : List α) : Prop :=
  ∃ names o, l = names ++ [o] ∧ names ≠ [] ∧
    (∀ a ∈ names, Pattern.nameSet.has (sym a) = true) ∧ sym o = '('

theorem isCallStart_of_functionOpen {prev : Option Char} {l u v : List α}
    (h : functionOpen sym prev l = some (u, v)) : IsCallStart sym u := by
  obtain ⟨names, o, hrun, rfl, ho⟩ := functionOpen_eq_some h
  obtain ⟨_, hne, hnames⟩ := run?_eq_some hrun
  exact ⟨names, o, rfl, hne, hnames, ho⟩

theorem callsOnly_names {prev : Option Char} (hprev : prev.any Pattern.nameSet.has = true)
    {names : List α} (hnames : ∀ a ∈ names, Pattern.nameSet.has (sym a) = true) (o : α)
    (l : List α) : CallsOnly sym prev (names ++ o :: l) ↔ CallsOnly sym (some (sym o)) l := by
  induction names generalizing prev with
  | nil => exact and_iff_right fun _ => hprev
  | cons a names ih =>
    obtain ⟨ha, hnames⟩ := List.forall_mem_cons.mp hnames
    rw [List.cons_append, callsOnly_cons_of_ne (not_name_of_paren ha).1]
    exact ih ha hnames

/-- The start of a call is as it should be, and is no name for what follows. -/
theorem callsOnly_append_callStart {u : List α} (hu : IsCallStart sym u) (prev : Option Char)
    (v : List α) : CallsOnly sym prev (u ++ v) ↔ CallsOnly sym (some ' ') v := by
  obtain ⟨names, o, rfl, hne, hnames, ho⟩ := hu
  cases names with
  | nil => exact absurd rfl hne
  | cons a names =>
    obtain ⟨ha, hnames⟩ := List.forall_mem_cons.mp hnames
    have hprev : (some (sym a)).any Pattern.nameSet.has = true := ha
    rw [List.append_assoc, List.cons_append, callsOnly_cons_of_ne (not_name_of_paren ha).1,
      List.singleton_append, callsOnly_names hprev hnames, ho]
    exact callsOnly_congr (by decide) v

/-- Where no call is found at a character of a name, no parenthesis comes next. -/
theorem head?_ne_paren_of_functionOpen {prev : Option Char} {a : α} {l : List α}
    (h : functionOpen sym prev (a :: l) = none) (ha : Pattern.nameSet.has (sym a) = true) :
    ∀ o ∈ l.head?, sym o ≠ '(' := by
  intro o ho hparen
  cases l with
  | nil => cases ho
  | cons b l =>
    obtain rfl := Option.some.inj ho
    -- The name would be this one character, and the parenthesis would end the call's beginning.
    have hrun : run? Pattern.nameSet sym ([a] ++ b :: l) = some ([a], b :: l) := by
      apply run?_append (List.cons_ne_nil a [])
      · intro c hc
        exact List.mem_singleton.mp hc ▸ ha
      · intro c hc
        obtain rfl := Option.some.inj hc
        rw [hparen]
        decide
    have hfound : functionOpen sym prev ([a] ++ b :: l) = some ([a] ++ [b], l) := by
      have hfirst : after? (· = '(') sym (fun _ v => some ([], v)) (b :: l) = some ([b], l) :=
        after?_cons_of_pos (decide_eq_true hparen) l
      rw [functionOpen, hrun, Option.bind_some]
      dsimp only
      rw [hfirst]
      rfl
    exact absurd (h.symm.trans hfound) (by simp)

end Lexeme

/-- An opening parenthesis that no rule has replaced. -/
def Mark.isOpen (m : Mark) : Bool := m.sym = '('

/-- An opening parenthesis that the rule for calls passes over. -/
def Piece.isOpen : Piece → Bool
  | pass m => m.isOpen
  | hit _ => false

theorem Reads.recognizer_of_hit {k : Kind} {e : Ending} {prev : Option Char} {us : List Mark}
    {ps : List Piece} (h : Reads k e prev us ps) {u : List Mark} (hu : .hit u ∈ ps) :
    ∃ prev l v, k.recognizer Mark.sym prev l = some (u, v) := by
  induction h with
  | done => cases hu
  | stop _ _ us =>
    obtain ⟨m, _, hm⟩ := List.mem_map.mp hu
    cases hm
  | pass _ _ ih => exact ih ((List.mem_cons.mp hu).resolve_left nofun)
  | hit hfound _ ih =>
    obtain hu | hu := List.mem_cons.mp hu
    · cases hu
      exact ⟨_, _, _, hfound⟩
    · exact ih hu

/-- The rule for calls passes over no opening parenthesis just when each stands right behind a name. -/
theorem Reads.callsOnly_iff {prev : Option Char} {us : List Mark} {ps : List Piece}
    (h : Reads .functionOpen .noMatch prev us ps)
    (hprev : prev.any Pattern.nameSet.has = true → ∀ o ∈ us.head?, o.sym ≠ '(') :
    CallsOnly Mark.sym prev us ↔ ∀ p ∈ ps, p.isOpen = false := by
  -- Behind a character of a name that was passed over there is no parenthesis, so that a parenthesis
  -- that is passed over never stands behind a name.
  generalize he : Ending.noMatch = e at h
  induction h with
  | done => exact iff_of_true trivial nofun
  | stop hne => exact absurd he.symm hne
  | @pass _ prev m us ps hnone _ ih =>
    have hnone : functionOpen Mark.sym prev (m :: us) = none := hnone
    rw [List.forall_mem_cons]
    by_cases hm : m.sym = '('
    · have hopen : ¬ (Piece.pass m).isOpen = false := ne_false_of_eq_true (decide_eq_true hm)
      have hno : ¬ prev.any Pattern.nameSet.has = true := fun hname => hprev hname m rfl hm
      exact iff_of_false (fun h => hno (h.1 hm)) fun h => hopen h.1
    · rw [callsOnly_cons_of_ne hm, ih (head?_ne_paren_of_functionOpen hnone) he]
      exact (and_iff_right (decide_eq_false hm)).symm
  | @hit _ prev us u v ps hfound _ ih =>
    have hcall : functionOpen Mark.sym prev us = some (u, v) := hfound
    obtain ⟨rfl, _⟩ := (Kind.sound .functionOpen).divides hfound
    rw [List.forall_mem_cons, callsOnly_append_callStart (isCallStart_of_functionOpen hcall),
      ih (fun h => absurd h (by decide)) he]
    exact (and_iff_right rfl).symm

namespace Mark

theorem isOpen_iff {m : Mark} : m.isOpen = true ↔ m.sym = '(' := decide_eq_true_iff

theorem isParen_of_isOpen (m : Mark) (h : m.isOpen = true) : m.isParen = false := by
  rw [← Bool.not_eq_true, isParen_iff, isOpen_iff.mp h]
  decide

/-- A mark that stands for no parenthesis. -/
theorem no_paren_of_sym {m : Mark} (h : m.sym ≠ '(' ∧ m.sym ≠ ')') :
    m.isOpen = false ∧ m.isParen = false := by
  rw [← Bool.not_eq_true, ← Bool.not_eq_true, isOpen_iff, isParen_iff]
  exact h

/-- Marks that move no level. -/
theorem level?_append_of_still {up down : Mark → Bool} {us : List Mark}
    (h : ∀ m ∈ us, up m = false ∧ down m = false) (n : Nat) (vs : List Mark) :
    level? up down n (us ++ vs) = level? up down n vs := by
  induction us with
  | nil => rfl
  | cons m us ih =>
    obtain ⟨⟨hup, hdown⟩, hus⟩ := List.forall_mem_cons.mp h
    rw [List.cons_append, level?_cons_other hup hdown, ih hus]

/-- In what a rule has made of a lexeme there is no parenthesis for the later rules. -/
theorem no_paren_marks {w : Wrap} {us : List Mark} (m : Mark) (h : m ∈ w.marks us) :
    m.isOpen = false ∧ m.isParen = false := by
  apply no_paren_of_sym
  rw [Wrap.sym_marks h]
  decide

/-- The nesting of a row is that of the text that is seen of it. -/
theorem level?_of_parenthesized {s : Styler} {us : List Mark}
    (h : Parenthesized (us.flatMap (seen s))) : level? isOpen isParen 0 us = some 0 := by
  have hopen (vs : List Mark) : (vs.flatMap (seen s)).count '(' = vs.countP isOpen :=
    count_seen (by decide) s vs
  apply level?_of_prefixes isParen_of_isOpen
  · intro v hv
    obtain ⟨t, rfl⟩ := hv
    have hseen := h.prefixes (v.flatMap (seen s)) ⟨t.flatMap (seen s), List.flatMap_append.symm⟩
    rw [count_paren, hopen] at hseen
    omega
  · have htotal := h.total
    rw [count_paren, hopen] at htotal
    omega

end Mark

namespace Lexeme.IsCallStart

variable {us : List Mark}

theorem sym_ne_space (h : IsCallStart Mark.sym us) {m : Mark} (hm : m ∈ us) : m.sym ≠ ' ' := by
  obtain ⟨names, o, rfl, _, hnames, ho⟩ := h
  obtain hm | hm := List.mem_append.mp hm
  · intro hspace
    have hname := hnames m hm
    rw [hspace] at hname
    revert hname
    decide
  · rw [List.mem_singleton.mp hm, ho]
    decide

/-- The parenthesis at the end opens, and there is no other. -/
theorem level?_parens (h : IsCallStart Mark.sym us) (n : Nat) (vs : List Mark) :
    Mark.level? Mark.isOpen Mark.isParen n (us ++ vs) =
      Mark.level? Mark.isOpen Mark.isParen (n + 1) vs := by
  obtain ⟨names, o, rfl, _, hnames, ho⟩ := h
  have hstill : ∀ m ∈ names, m.isOpen = false ∧ m.isParen = false := fun m hm =>
    Mark.no_paren_of_sym (not_name_of_paren (hnames m hm))
  rw [List.append_assoc, Mark.level?_append_of_still hstill]
  exact Mark.level?_cons_up (Mark.isOpen_iff.mpr ho)

theorem countP_isOpen (h : IsCallStart Mark.sym us) : us.countP Mark.isOpen = 1 := by
  obtain ⟨names, o, rfl, _, hnames, ho⟩ := h
  have hnone : names.countP Mark.isOpen = 0 := List.countP_eq_zero.mpr fun m hm =>
    mt Mark.isOpen_iff.mp (not_name_of_paren (hnames m hm)).1
  rw [List.countP_append, hnone, List.countP_singleton, if_pos (Mark.isOpen_iff.mpr ho)]

theorem countP_isParen (h : IsCallStart Mark.sym us) : us.countP Mark.isParen = 0 := by
  obtain ⟨names, o, rfl, _, hnames, ho⟩ := h
  apply List.countP_eq_zero.mpr
  intro m hm
  rw [Mark.isParen_iff]
  obtain hm | hm := List.mem_append.mp hm
  · exact (not_name_of_paren (hnames m hm)).2
  · rw [List.mem_singleton.mp hm, ho]
    decide

end Lexeme.IsCallStart

theorem Mark.still_hide {m : Mark} (h : m.sym ≠ ' ') :
    m.hide.isCall = false ∧ m.hide.isParen = false := by
  cases m with
  | char c clear => exact ⟨rfl, rfl⟩
  | tag t => exact absurd rfl h

section Pieces

variable {ps : List Piece}

/-- A rule that finds no parentheses leaves the nesting of the row as it is. -/
theorem Piece.level?_parens {w : Wrap}
    (hps : ∀ u, .hit u ∈ ps → ∀ m ∈ u, m.isOpen = false ∧ m.isParen = false) (n : Nat) :
    Mark.level? Mark.isOpen Mark.isParen n (ps.flatMap (Piece.marks w)) =
      Mark.level? Mark.isOpen Mark.isParen n (ps.flatMap Piece.source) := by
  induction ps generalizing n with
  | nil => rfl
  | cons p ps ih =>
    have hlater := ih fun u hu => hps u (List.mem_cons_of_mem p hu)
    rw [List.flatMap_cons, List.flatMap_cons]
    cases p with
    | pass m =>
      rw [marks, source, Mark.level?_append, Mark.level?_append]
      exact congrArg _ (funext hlater)
    | hit u =>
      rw [marks, source, Mark.level?_append_of_still Mark.no_paren_marks,
        Mark.level?_append_of_still (hps u List.mem_cons_self), hlater]

/-- Each parenthesis of the row starts a call or is passed over. -/
theorem Piece.countP_isOpen (hps : ∀ u, .hit u ∈ ps → IsCallStart Mark.sym u) :
    (ps.flatMap Piece.source).countP Mark.isOpen = Piece.hits ps + ps.countP Piece.isOpen := by
  induction ps with
  | nil => rfl
  | cons p ps ih =>
    have hlater := ih fun u hu => hps u (List.mem_cons_of_mem p hu)
    rw [List.flatMap_cons, List.countP_append, hlater, List.countP_cons]
    cases p with
    | pass m =>
      have hone : (Piece.pass m).source.countP Mark.isOpen = if m.isOpen then 1 else 0 :=
        List.countP_singleton
      rw [hone, Piece.hits, Piece.isOpen]
      omega
    | hit u =>
      have hone : (Piece.hit u).source.countP Mark.isOpen = 1 :=
        (hps u List.mem_cons_self).countP_isOpen
      rw [hone, Piece.hits, Piece.isOpen, if_neg Bool.false_ne_true]
      omega

/-- The rule for calls leaves all closing parentheses to the next one. -/
theorem Piece.countP_isParen (hps : ∀ u, .hit u ∈ ps → IsCallStart Mark.sym u) :
    (ps.flatMap (Piece.marks (.opening .function))).countP Mark.isParen =
      (ps.flatMap Piece.source).countP Mark.isParen := by
  induction ps with
  | nil => rfl
  | cons p ps ih =>
    have hlater := ih fun u hu => hps u (List.mem_cons_of_mem p hu)
    rw [List.flatMap_cons, List.flatMap_cons, List.countP_append, List.countP_append, hlater]
    cases p with
    | pass m => rfl
    | hit u =>
      have hsource : (Piece.hit u).source.countP Mark.isParen = 0 :=
        (hps u List.mem_cons_self).countP_isParen
      have hmarks : ((Piece.hit u).marks (.opening .function)).countP Mark.isParen = 0 :=
        List.countP_eq_zero.mpr fun m hm => Bool.eq_false_iff.mp (Mark.no_paren_marks m hm).2
      rw [hsource, hmarks]

/-- Where every opening parenthesis starts a call, calls are nested as the parentheses are. -/
theorem Piece.level?_calls (hps : ∀ u, .hit u ∈ ps → IsCallStart Mark.sym u)
    (hopen : ∀ p ∈ ps, p.isOpen = false)
    (hcalls : (ps.flatMap Piece.source).countP Mark.isCall = 0) (n : Nat) :
    Mark.level? Mark.isCall Mark.isParen n (ps.flatMap (Piece.marks (.opening .function))) =
      Mark.level? Mark.isOpen Mark.isParen n (ps.flatMap Piece.source) := by
  induction ps generalizing n with
  | nil => rfl
  | cons p ps ih =>
    rw [List.flatMap_cons, List.countP_append, Nat.add_eq_zero_iff] at hcalls
    have hlater := ih (fun u hu => hps u (List.mem_cons_of_mem p hu))
      (fun p' hp' => hopen p' (List.mem_cons_of_mem p hp')) hcalls.2
    rw [List.flatMap_cons, List.flatMap_cons]
    cases p with
    | pass m =>
      have hm : m.isOpen = false := hopen _ List.mem_cons_self
      have hcall : m.isCall = false :=
        Bool.eq_false_iff.mpr (List.countP_eq_zero.mp hcalls.1 m List.mem_cons_self)
      have hsame : Mark.level? Mark.isCall Mark.isParen n [m] =
          Mark.level? Mark.isOpen Mark.isParen n [m] := by
        simp only [Mark.level?, hm, hcall]
      rw [marks, source, Mark.level?_append, Mark.level?_append, hsame]
      exact congrArg _ (funext hlater)
    | hit u =>
      have hu := hps u List.mem_cons_self
      have hmarks : (Piece.hit u).marks (.opening .function) =
          .tag (.start .function) :: u.map Mark.hide := List.append_nil _
      -- The tag that is put in front opens the level that the parenthesis has opened; the name and
      -- its parenthesis are hidden behind it.
      have hstill : ∀ m ∈ u.map Mark.hide, m.isCall = false ∧ m.isParen = false := by
        intro m hm
        obtain ⟨m', hm', rfl⟩ := List.mem_map.mp hm
        exact Mark.still_hide (hu.sym_ne_space hm')
      rw [hmarks, source, hu.level?_parens, List.cons_append, Mark.level?_cons_up rfl,
        Mark.level?_append_of_still hstill, hlater]

end Pieces

theorem Lexeme.no_paren_of_decorator {α : Type} {sym : α → Char} {prev : Option Char}
    {l u v : List α} (h : decorator sym prev l = some (u, v)) :
    ∀ a ∈ u, sym a ≠ '(' ∧ sym a ≠ ')' := by
  obtain ⟨mark, _, name, _, rfl, hmark, hname⟩ := after?_eq_some h
  obtain ⟨_, _, hnames⟩ := run?_eq_some hname
  intro a ha
  obtain rfl | ha := List.mem_cons.mp ha
  · rw [of_decide_eq_true hmark]
    decide
  · exact not_name_of_paren (hnames a ha)

/-- Rules for decorators keep the row together and leave its nesting as it is. -/
theorem Lexeme.Kind.parens_run (s : Styler) {ks : List Kind} (hks : ∀ k ∈ ks, k = .decorator)
    (us : List Mark) :
    ∃ us', Engine.run (ks.map (rule s)) (Mark.buffers s us) = Mark.buffers s us' ∧
      Mark.Kept us us' ∧
      Mark.level? Mark.isOpen Mark.isParen 0 us' = Mark.level? Mark.isOpen Mark.isParen 0 us := by
  refine run_invariant s (fun k hk e vs ps hreads ⟨hkept, hlevel⟩ => ?_) ⟨.refl us, rfl⟩
  obtain rfl := hks k hk
  refine ⟨hkept.trans (hreads.kept (by decide) (by decide)), ?_⟩
  rw [← hlevel, ← hreads.flatMap_source]
  apply Piece.level?_parens
  intro u hu m hm
  obtain ⟨prev, l, v, hfound⟩ := hreads.recognizer_of_hit hu
  have hdecorator : Lexeme.decorator Mark.sym prev l = some (u, v) := hfound
  exact Mark.no_paren_of_sym (no_paren_of_decorator hdecorator m hm)

namespace Language

/-- Comments come first, and between them and the calls at most decorators. -/
theorem kinds_comments (l : Language) : ∃ between after, between.length + 2 = l.openingAt ∧
    l.kinds = [.lineComment, .blockComment] ++ between ++ .functionOpen :: .closingParen :: after ∧
    (∀ k ∈ between, k = .decorator) ∧ ∀ k ∈ after, k ≠ .functionOpen ∧ k ≠ .closingParen := by
  cases l with
  | lavendeux => exact ⟨[.decorator], [.string, .radix, .data], rfl, rfl, by decide, by decide⟩
  | javascript => exact ⟨[], [.string, .radix, .keyword, .data], rfl, rfl, by decide, by decide⟩

namespace CallRows

variable {s : Styler} {l : Language} {input : Text} {before : List Kind} {us us' : List Mark}
  {ps : List Piece} {e : Ending}

theorem callStarts (h : CallRows s l input before us us' ps e) (u : List Mark) (hu : .hit u ∈ ps) :
    IsCallStart Mark.sym u := by
  obtain ⟨prev, l, v, hfound⟩ := h.reads.recognizer_of_hit hu
  have hcall : functionOpen Mark.sym prev l = some (u, v) := hfound
  exact isCallStart_of_functionOpen hcall

/-- No span of a call is open before the rule for calls. -/
theorem countP_isCall (h : CallRows s l input before us us' ps e) : us.countP Mark.isCall = 0 := by
  -- The spans of comments and decorators are whole, so that the stops belong to other starts.
  have hexcess : Mark.excess us = 0 := h.kept.excess.trans (Mark.excess_ofText _)
  have hother := Mark.level?_count Mark.isStop_of_isOtherStart
    (h.kept.otherSpans 0 0 (Mark.otherSpans_ofText _))
  have hstarts := Mark.countP_isStart us
  rw [Mark.excess] at hexcess
  omega

/-- As many more spans are opened than closed as calls are opened more than parentheses close. -/
theorem spans_format (h : CallRows s l input before us us' ps e)
    (hcolor : ∀ c, '<' ∉ s.palette.color c) (hcontainer : '<' ∉ s.containerStyle)
    (hinput : '<' ∉ input) : (spanOpens ((l.engine s).format input) : ℤ) -
      spanCloses ((l.engine s).format input) = Piece.hits ps - us.countP Mark.isParen := by
  have hopened := Mark.excess_pieces (Mark.excess_opening .function) ps
  have hparens := Piece.countP_isParen h.callStarts
  rw [h.source] at hparens
  rw [h.excess_format hcolor hcontainer hinput, h.excess, hopened, h.excess_source, hparens]
  omega

/-- Where the parentheses are nested when the rule for calls starts, a parenthesis that it passes over
is the only thing that can spoil the nesting of the spans. -/
theorem wellNested_iff (h : CallRows s l input before us us' ps e)
    (hcolor : ∀ c, '<' ∉ s.palette.color c) (hcontainer : '<' ∉ s.containerStyle)
    (hinput : '<' ∉ input) (hnested : Mark.level? Mark.isOpen Mark.isParen 0 us = some 0) :
    WellNested ((l.engine s).format input) ↔ ∀ p ∈ ps, p.isOpen = false := by
  constructor
  · -- Each parenthesis that closes has one that opens, but only those of calls open a span.
    intro hwell
    have hspans := h.spans_format hcolor hcontainer hinput
    have hcount := Piece.countP_isOpen h.callStarts
    rw [h.source] at hcount
    have hmatch := Mark.level?_count Mark.isParen_of_isOpen hnested
    have htotal := hwell.total
    have hnone : ps.countP Piece.isOpen = 0 := by omega
    intro p hp
    exact Bool.eq_false_iff.mpr (List.countP_eq_zero.mp hnone p hp)
  · intro hopen
    have hcalls : (ps.flatMap Piece.source).countP Mark.isCall = 0 := by
      rw [h.source]
      exact h.countP_isCall
    apply h.wellNested_format hcolor hcontainer hinput
    apply h.level?_of_calls
    rw [Piece.level?_calls h.callStarts hopen hcalls, h.source]
    exact hnested

end CallRows

/-- The spans of a text whose parentheses are nested outside of comments, for both languages, every
styler and every text without `<`: they are well nested if each opening parenthesis stands right
behind a character of a name when the rule for calls starts, and only then. A parenthesis that stands
elsewhere opens no span, and its partner closes one all the same. -/
theorem wellNested_iff_callsOnly (s : Styler) (hcolor : ∀ c, '<' ∉ s.palette.color c)
    (hcontainer : '<' ∉ s.containerStyle) (l : Language) (input : Text) (hinput : '<' ∉ input) :
    ∃ uncommented ready, ((l.engine s).trace input)[2]? = some uncommented ∧
      ((l.engine s).trace input)[l.openingAt]? = some ready ∧
      (Parenthesized uncommented.remainder →
        (WellNested ((l.engine s).format input) ↔ CallsOnly id none ready.remainder)) := by
  obtain ⟨between, after, hlength, hkinds, hbetween, hafter⟩ := l.kinds_comments
  have hinputRow : Buffers.ofInput input = Mark.buffers s (Mark.ofText input.trim) :=
    (Mark.buffers_ofText s input.trim).symm
  have hcomments :
      ∀ k ∈ [Kind.lineComment, .blockComment], k ≠ .functionOpen ∧ k ≠ .closingParen := by decide
  -- `us₀` is the row without comments, and `us` the row that the rule for calls reads.
  obtain ⟨us₀, hrun₀, hkept₀⟩ := Kind.kept_run s hcomments (Mark.ofText input.trim)
  obtain ⟨us, hrun, hkept, hlevel⟩ := Kind.parens_run s hbetween us₀
  have hreached : Engine.run (([Kind.lineComment, .blockComment] ++ between).map (Kind.rule s))
      (Buffers.ofInput input) = Mark.buffers s us := by
    rw [List.map_append, Engine.run_append, hinputRow, hrun₀, hrun]
  obtain ⟨us', ps, e, hrows⟩ := exists_callRows_of_reached hkinds hafter hreached
    (hkept₀.trans hkept)
  refine ⟨Mark.buffers s us₀, Mark.buffers s us, ?_, ?_, fun hparens => ?_⟩
  · rw [← hrun₀, ← hinputRow]
    exact getElem?_trace_length s ((List.append_assoc _ _ _).symm ▸ hkinds) input
  · rw [← hreached, ← hlength]
    exact getElem?_trace_length s hkinds input
  · rw [Mark.buffers_remainder] at hparens
    have hnested : Mark.level? Mark.isOpen Mark.isParen 0 us = some 0 :=
      hlevel.trans (Mark.level?_of_parenthesized hparens)
    have hcalls : CallsOnly id none (Mark.buffers s us).remainder ↔
        ∀ p ∈ ps, p.isOpen = false := by
      rw [Mark.buffers_remainder, callsOnly_flatMap (Mark.spread s)]
      exact hrows.reads.callsOnly_iff nofun
    rw [hcalls]
    exact hrows.wellNested_iff hcolor hcontainer hinput hnested

/-- A call with a comment, in which the parentheses do not matter. -/
theorem wellNested_of_call :
    let s : Styler := .default
    (∀ c, '<' ∉ s.palette.color c) ∧ '<' ∉ s.containerStyle ∧
      WellNested ((lavendeux.engine s).format "f(g(x)) // (") := by
  intro s
  have hcolor : ∀ c, '<' ∉ s.palette.color c := fun c => by cases c <;> decide +kernel
  have hcontainer : '<' ∉ s.containerStyle := by decide +kernel
  obtain ⟨b, b', hb, hb', hiff⟩ :=
    wellNested_iff_callsOnly s hcolor hcontainer lavendeux "f(g(x)) // (" (by decide)
  have hstate : ((lavendeux.engine s).trace "f(g(x)) // (")[2]?.map Buffers.remainder =
      some ("f(g(x)) ".toList ++ List.replicate 39 ' ') := by decide +kernel
  have hstate' : ((lavendeux.engine s).trace "f(g(x)) // (")[lavendeux.openingAt]?.map
      Buffers.remainder = some ("f(g(x)) ".toList ++ List.replicate 39 ' ') := by decide +kernel
  rw [hb] at hstate
  rw [hb'] at hstate'
  have hparens : Parenthesized b.remainder := by
    rw [Option.some.inj hstate]
    decide +kernel
  refine ⟨hcolor, hcontainer, (hiff hparens).mpr ?_⟩
  rw [Option.some.inj hstate']
  decide +kernel

/-- A parenthesis that groups opens no span, and its partner closes one. -/
theorem not_wellNested_of_group :
    let s : Styler := ⟨.byClass, .default, Styler.defaultContainerStyle⟩
    '<' ∉ ("(1)" : Text) ∧
      ((lavendeux.engine s).trace "(1)")[2]?.any (fun b => b.remainder.Parenthesized) = true ∧
      ¬ WellNested ((lavendeux.engine s).format "(1)") := by
  intro s
  refine ⟨by decide, by decide +kernel, fun h => ?_⟩
  have htotal : spanCloses ((lavendeux.engine s).format "(1)") ≠
      spanOpens ((lavendeux.engine s).format "(1)") := by decide +kernel
  exact htotal h.total

end Language

end Highlighter
