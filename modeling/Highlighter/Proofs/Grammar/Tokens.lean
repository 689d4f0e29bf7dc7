import Highlighter.Proofs.Grammar.Script
import Highlighter.Proofs.Markup.Marks
import Highlighter.Proofs.Text.Lines
import Mathlib.Data.List.Chain

/-! A script as a row of tokens. Its text and its rendering are those of its tokens, one after
another, and lexemes stand apart: between each two there is a blank, a newline or a parenthesis. -/
namespace Highlighter

open Grammar Lexeme

inductive Token (l : Language) where
  | atom (a : Atom l)
  /-- The name of a call with its parenthesis. -/
  | opening (name : Text) (h : IsName name)
  | closing
  | blank
  | newline
  | comment (c : Comment)

variable {l : Language}

/-- The kind of lexeme that an atom is. -/
def Atom.kind? : Atom l → Option Kind
  | .number .. => some .data
  | .identifier t _ => some (if l.isKeyword t then .keyword else .data)
  | .radix .. => some .radix
  | .decorator .. => some .decorator
  | .string .. => some .string
  | .operator .. => none

namespace Token

def text : Token l → Text
  | atom a => a.text
  | opening name _ => name ++ ['(']
  | closing => [')']
  | blank => [' ']
  | newline => ['\n']
  | comment c => c.source

/-- The kind of lexeme that a token is, which is the one rule that marks it. -/
def kind? : Token l → Option Kind
  | atom a => a.kind?
  | opening .. => some .functionOpen
  | closing => some .closingParen
  | blank | newline => none
  | comment _ => some .lineComment

def render (s : Styler) (t : Token l) : Text :=
  match t.kind? with
  | some k => k.wrap.handler s t.text
  | none => t.text

/-- A lexeme can begin right after the token. -/
def opens : Token l → Bool
  | opening .. | blank | newline => true
  | atom _ | closing | comment _ => false

/-- A lexeme can end right before the token. -/
def closes : Token l → Bool
  | closing | blank | newline => true
  | atom _ | opening .. | comment _ => false

def isComment : Token l → Bool
  | comment _ => true
  | _ => false

/-- The second token can stand right after the first. Only a newline ends a comment. -/
def Fits (a b : Token l) : Prop :=
  if a.isComment then b = newline else a.opens = true ∨ b.closes = true

theorem render_atom (s : Styler) (a : Atom l) : (atom a).render s = a.render s := by
  unfold render Atom.render
  cases a with
  | identifier t h =>
    change (if l.isKeyword t then Kind.keyword else Kind.data).wrap.handler s t =
      s.span (if l.isKeyword t then .decorator else .data) t
    cases l.isKeyword t <;> rw [Wrap.span_eq] <;> rfl
  | operator t h => rfl
  | number t h | radix t h | decorator name h hl | string quote content hq h =>
    simp only [Atom.category?, Wrap.span_eq]
    rfl

end Token

def Term.tokens : Term l → List (Token l)
  | atom a => [.atom a]
  | call name h args =>
    .opening name h :: ([Token.blank].intercalate (args.map fun t => t.tokens) ++ [.closing])

def Line.tokens : Line l → List (Token l)
  | terms first more none => [Token.blank].intercalate ((first :: more).map Term.tokens)
  | terms first more (some c) =>
    [Token.blank].intercalate ((first :: more).map Term.tokens) ++ [.blank] ++ [.comment c]
  | comment c => [.comment c]

def Script.tokens (t : Script l) : List (Token l) :=
  [Token.newline].intercalate (t.lines.map Line.tokens)

/-! A map of each token to a text goes through the separators. -/

section Flattening

/-- Where each part is its tokens, so are the parts with a token between each two. -/
theorem flatMap_tokens {α : Type} {f : Token l → Text} {tokens : α → List (Token l)} {g : α → Text}
    {ts : List α} (h : ∀ t ∈ ts, (tokens t).flatMap f = g t) (sep : Token l) :
    ([sep].intercalate (ts.map tokens)).flatMap f = (f sep).intercalate (ts.map g) := by
  rw [flatMap_intercalate, List.flatMap_singleton, List.map_map]
  exact congrArg _ (List.map_congr_left h)

theorem Term.flatMap_text (t : Term l) : t.tokens.flatMap Token.text = t.text := by
  induction t with
  | atom a =>
    rw [tokens, text, List.flatMap_singleton]
    rfl
  | call name h args ih =>
    rw [tokens, text, List.flatMap_cons, List.flatMap_append, flatMap_tokens ih,
      List.flatMap_singleton, List.append_assoc _ _ [')']]
    rfl

theorem Term.flatMap_render (s : Styler) (t : Term l) :
    t.tokens.flatMap (Token.render s) = t.render s := by
  induction t with
  | atom a => rw [tokens, render, List.flatMap_singleton, Token.render_atom]
  | call name h args ih =>
    rw [tokens, render, List.flatMap_cons, List.flatMap_append, flatMap_tokens ih,
      List.flatMap_singleton, Wrap.openSpan_eq, Wrap.closeSpan_eq s, List.append_assoc]
    rfl

theorem Line.flatMap_text (t : Line l) : t.tokens.flatMap Token.text = t.text := by
  cases t with
  | terms first more comment =>
    have hterms := flatMap_tokens (fun t (_ : t ∈ first :: more) => t.flatMap_text) Token.blank
    cases comment with
    | none => exact hterms
    | some c =>
      rw [tokens, text, List.flatMap_append, List.flatMap_append, hterms, List.flatMap_singleton,
        List.flatMap_singleton]
      rfl
  | comment c => exact List.flatMap_singleton _ _

theorem Line.flatMap_render (s : Styler) (t : Line l) :
    t.tokens.flatMap (Token.render s) = t.render s := by
  have hcomment (c : Comment) : (Token.comment c : Token l).render s = s.span .comment c.source := by
    rw [Wrap.span_eq]
    rfl
  cases t with
  | terms first more comment =>
    have hterms := flatMap_tokens (fun t (_ : t ∈ first :: more) => t.flatMap_render s) Token.blank
    cases comment with
    | none => exact hterms
    | some c =>
      rw [tokens, render, List.flatMap_append, List.flatMap_append, hterms, List.flatMap_singleton,
        List.flatMap_singleton, hcomment]
      rfl
  | comment c => exact (List.flatMap_singleton _ _).trans (hcomment c)

theorem Script.flatMap_text (t : Script l) : t.tokens.flatMap Token.text = t.text :=
  flatMap_tokens (fun line _ => line.flatMap_text) Token.newline

theorem Script.flatMap_render (s : Styler) (t : Script l) :
    t.tokens.flatMap (Token.render s) = t.render s :=
  flatMap_tokens (fun line _ => line.flatMap_render s) Token.newline

end Flattening

/-! The tokens of a script stand apart. -/

section Spacing

variable {a b : Token l}

theorem Token.fits_of_opens (ha : a.opens = true) (b : Token l) : a.Fits b := by
  have hcomment : a.isComment = false := by
    cases a with
    | comment c => exact absurd ha Bool.false_ne_true
    | _ => rfl
  rw [Fits, hcomment]
  exact Or.inl ha

theorem Token.fits_of_closes (ha : a.isComment = false) (hb : b.closes = true) : a.Fits b := by
  rw [Fits, ha]
  exact Or.inr hb

theorem Token.fits_newline (a : Token l) : a.Fits newline := by
  cases h : a.isComment with
  | false => exact fits_of_closes h rfl
  | true => rw [Fits, if_pos h]

/-- Every token fits the one after it. -/
abbrev Fitting (ts : List (Token l)) : Prop := ts.IsChain Token.Fits

theorem Fitting.append_sep {xs ys : List (Token l)} (hx : Fitting xs) (hy : Fitting ys)
    {sep : Token l} (hbefore : ∀ a ∈ xs, a.Fits sep) (hafter : ∀ b ∈ ys, sep.Fits b) :
    Fitting (xs ++ [sep] ++ ys) := by
  rw [List.append_assoc]
  refine List.isChain_append.mpr ⟨hx, List.isChain_cons.mpr ⟨?_, hy⟩, ?_⟩
  · exact fun b hb => hafter b (List.mem_of_mem_head? hb)
  · intro a ha b hb
    obtain rfl := Option.some.inj hb
    exact hbefore a (List.mem_of_mem_getLast? ha)

theorem Fitting.intercalate {sep : Token l} (hsep : sep.opens = true) {tss : List (List (Token l))}
    (h : ∀ ts ∈ tss, Fitting ts) (hbefore : ∀ ts ∈ tss, ∀ a ∈ ts, a.Fits sep) :
    Fitting ([sep].intercalate tss) := by
  induction tss with
  | nil => exact List.isChain_nil
  | cons ts tss ih =>
    have hts := h ts List.mem_cons_self
    cases tss with
    | nil => rwa [List.intercalate_singleton]
    | cons us tss =>
      rw [List.intercalate_cons_cons]
      exact hts.append_sep (ih (fun t ht => h t (List.mem_cons_of_mem _ ht))
        fun t ht => hbefore t (List.mem_cons_of_mem _ ht)) (hbefore ts List.mem_cons_self)
        fun b _ => Token.fits_of_opens hsep b

theorem mem_intercalate {sep : Token l} {tss : List (List (Token l))}
    (h : a ∈ [sep].intercalate tss) : a = sep ∨ ∃ ts ∈ tss, a ∈ ts := by
  induction tss with
  | nil => exact absurd h List.not_mem_nil
  | cons ts tss ih =>
    cases tss with
    | nil =>
      rw [List.intercalate_singleton] at h
      exact Or.inr ⟨ts, List.mem_cons_self, h⟩
    | cons us tss =>
      rw [List.intercalate_cons_cons, List.append_assoc] at h
      rcases List.mem_append.mp h with h | h
      · exact Or.inr ⟨ts, List.mem_cons_self, h⟩
      rcases List.mem_cons.mp h with h | h
      · exact Or.inl h
      · exact (ih h).imp_right fun ⟨us, hus, ha⟩ => ⟨us, List.mem_cons_of_mem _ hus, ha⟩

/-- There is no comment in a term. -/
theorem Term.isComment_tokens (t : Term l) : ∀ a ∈ t.tokens, a.isComment = false := by
  induction t with
  | atom b =>
    intro a ha
    rw [tokens, List.mem_singleton] at ha
    rw [ha]
    rfl
  | call name h args ih =>
    intro a ha
    rw [tokens] at ha
    rcases List.mem_cons.mp ha with rfl | ha
    · rfl
    rcases List.mem_append.mp ha with ha | ha
    · rcases mem_intercalate ha with rfl | ⟨ts, hts, ha⟩
      · rfl
      · obtain ⟨t, ht, rfl⟩ := List.mem_map.mp hts
        exact ih t ht a ha
    · rw [List.mem_singleton.mp ha]
      rfl

theorem Term.isComment_intercalate {ts : List (Term l)} :
    ∀ a ∈ [Token.blank].intercalate (ts.map Term.tokens), a.isComment = false := by
  intro a ha
  rcases mem_intercalate ha with rfl | ⟨_, hmem, ha⟩
  · rfl
  · obtain ⟨t, _, rfl⟩ := List.mem_map.mp hmem
    exact t.isComment_tokens a ha

/-- Terms with blanks between them fit together. -/
theorem Term.fitting_intercalate {ts : List (Term l)} (h : ∀ t ∈ ts, Fitting t.tokens) :
    Fitting ([Token.blank].intercalate (ts.map Term.tokens)) := by
  apply Fitting.intercalate rfl
  · intro _ hmem
    obtain ⟨t, ht, rfl⟩ := List.mem_map.mp hmem
    exact h t ht
  · intro _ hmem a ha
    obtain ⟨t, _, rfl⟩ := List.mem_map.mp hmem
    exact Token.fits_of_closes (t.isComment_tokens a ha) rfl

theorem Term.fitting_tokens (t : Term l) : Fitting t.tokens := by
  induction t with
  | atom a =>
    rw [tokens]
    exact List.isChain_singleton _
  | call name h args ih =>
    rw [tokens]
    refine List.isChain_cons.mpr ⟨fun b _ => Token.fits_of_opens rfl b, ?_⟩
    refine List.isChain_append.mpr ⟨fitting_intercalate ih, List.isChain_singleton _, ?_⟩
    intro a ha b hb
    obtain rfl := Option.some.inj hb
    exact Token.fits_of_closes (isComment_intercalate a (List.mem_of_mem_getLast? ha)) rfl

theorem Line.fitting_tokens (t : Line l) : Fitting t.tokens := by
  cases t with
  | terms first more comment =>
    have hterms := Term.fitting_intercalate fun t (_ : t ∈ first :: more) => t.fitting_tokens
    cases comment with
    | none => exact hterms
    | some c =>
      exact hterms.append_sep (List.isChain_singleton _)
        (fun a ha => Token.fits_of_closes (Term.isComment_intercalate a ha) rfl)
        fun b _ => Token.fits_of_opens rfl b
  | comment c => exact List.isChain_singleton _

theorem Script.fitting_tokens (t : Script l) : Fitting t.tokens := by
  apply Fitting.intercalate rfl
  · intro _ hmem
    obtain ⟨line, _, rfl⟩ := List.mem_map.mp hmem
    exact line.fitting_tokens
  · exact fun _ _ a _ => a.fits_newline

end Spacing

end Highlighter
