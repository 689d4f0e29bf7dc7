import Highlighter.Proofs.Rule.Scans
import Highlighter.Proofs.Text.Bytes

/-! The remainder mirrors the result: both have the same number of bytes, and each byte of the
remainder is that of the result or a space. Every step of every scan keeps this, and so it holds at
the beginning and after each rule of every engine. -/
namespace Highlighter

/-- Both texts have as many bytes, and a byte of the remainder is that of the result or a space. -/
structure Buffers.Mirrored (b : Buffers) : Prop where
  byteLength_eq : b.result.byteLength = b.remainder.byteLength
  byte : ∀ (i : Nat) (x y : UInt8), b.result.bytes[i]? = some x → b.remainder.bytes[i]? = some y →
    y = x ∨ y = Text.spaceByte

theorem Buffers.mirrored_iff (b : Buffers) : b.Mirrored ↔ Text.Mirrors b.result b.remainder := by
  constructor
  · intro h
    have hl : b.result.bytes.length = b.remainder.bytes.length := by
      rw [Text.length_bytes, Text.length_bytes, h.byteLength_eq]
    refine List.forall₂_iff_get.mpr ⟨hl, fun i h1 h2 => ?_⟩
    exact h.byte i _ _ (List.getElem?_eq_getElem h1) (List.getElem?_eq_getElem h2)
  · intro h
    obtain ⟨hl, hget⟩ := List.forall₂_iff_get.mp h
    refine ⟨h.byteLength_eq, fun i x y hx hy => ?_⟩
    obtain ⟨h1, rfl⟩ := List.getElem?_eq_some_iff.mp hx
    obtain ⟨h2, rfl⟩ := List.getElem?_eq_some_iff.mp hy
    exact hget i h1 h2

namespace Rule

variable {pattern : Pattern} {handler : Handler}

/-- A run keeps the mirror relation. The part of the remainder that lies beside the text no handler
has seen is `u` and what is still to be searched. -/
theorem Scans.mirrors {left right pending result remainder : Text} {gap : Nat} {ending : Ending}
    {log : List Substitution} {n : Nat}
    (h : Scans pattern handler n left right gap pending result remainder ending log) :
    ∀ u : Text, u.byteLength = gap → Text.Mirrors pending (u ++ right) →
      Text.Mirrors result (u ++ remainder) := by
  -- A match that is passed over goes to `u`; a replacement is mirrored by its own shadow and leaves
  -- nothing that no handler has seen.
  induction h with
  | cutOff | noMatch | gaveUp | pastEnd => exact fun _ _ hm => hm
  | @pass _ left right gap pending m passed rest result remainder ending here log hs hl hp later ih =>
    intro u hu hm
    have hright : right = m.skipped ++ passed ++ rest := by
      rw [List.append_assoc, ← (Match.passed?_eq_some hp).1, ← List.append_assoc]
      exact (Pattern.text_of_found hs).symm
    rw [← List.append_assoc]
    apply ih
    · rw [Text.byteLength_append, hu]
    · rwa [List.append_assoc, ← hright]
  | @replace _ left right gap kept slice tail m result remainder ending log hs hk hl hn later ih =>
    intro u hu hm
    rw [← Pattern.text_of_found hs, ← List.append_assoc, ← List.append_assoc] at hm
    have hkept : kept.byteLength = (u ++ m.skipped).byteLength := by
      rw [Text.byteLength_append, hu, hk]
    have hslice : (kept ++ slice).byteLength = (u ++ m.skipped ++ m.matched).byteLength := by
      rw [Text.byteLength_append, Text.byteLength_append (u ++ m.skipped), hkept, hl]
    obtain ⟨hfront, htail⟩ := hm.of_append hslice
    obtain ⟨hfirst, _⟩ := hfront.of_append hkept
    have hlater := ih [] rfl htail
    have hshadow := Text.Mirrors.shadow (handler slice)
    have hall := (hfirst.append hshadow).append hlater
    rwa [List.append_assoc u, List.append_assoc u] at hall

theorem mirrored_scanWithin {b : Buffers} (h : b.Mirrored) (searches : Nat) :
    (scanWithin pattern handler searches b).buffers.Mirrored := by
  rw [Buffers.mirrored_iff] at h ⊢
  obtain ⟨log, hrun⟩ := scans_scanWithin pattern handler searches b
  exact hrun.mirrors [] rfl h

theorem mirrored_same (t : Text) : (Buffers.mk t t).Mirrored :=
  (Buffers.mirrored_iff _).mpr (Text.Mirrors.refl t)

theorem mirrored_apply {b : Buffers} (h : b.Mirrored) (r : Rule) : (r.apply b).Mirrored := by
  cases r with
  | regex pattern handler => exact mirrored_scanWithin h _
  | wholeText handler => exact mirrored_same _

end Rule

namespace Engine

theorem mirrored_states {rules : List Rule} {b : Buffers} (h : b.Mirrored) :
    ∀ b' ∈ states rules b, b'.Mirrored := by
  induction rules generalizing b with
  | nil =>
    intro b' hb'
    rw [states, List.mem_singleton] at hb'
    exact hb' ▸ h
  | cons r rules ih =>
    intro b' hb'
    rcases List.mem_cons.mp hb' with rfl | hb'
    · exact h
    · exact ih (Rule.mirrored_apply h r) b' hb'

/-- In every state of every engine the remainder mirrors the result. Every rule keeps this, whatever
the state it begins with, and so does a scan that is stopped after any number of searches. -/
theorem remainder_mirrors_result :
    (∀ (e : Engine) (input : Text), ∀ b ∈ e.trace input, b.Mirrored) ∧
    (∀ (r : Rule) (b : Buffers), b.Mirrored → (r.apply b).Mirrored) ∧
    ∀ (pattern : Pattern) (handler : Handler) (b : Buffers) (searches : Nat), b.Mirrored →
      (Rule.scanWithin pattern handler searches b).buffers.Mirrored := by
  refine ⟨?_, ?_, ?_⟩
  · intro e input b hb
    exact mirrored_states (Rule.mirrored_same input.trim) b hb
  · intro r b h
    exact Rule.mirrored_apply h r
  · intro pattern handler b searches h
    exact Rule.mirrored_scanWithin h searches

/-- Markup of more than one byte a character is mirrored by as many blanks as it has bytes. -/
theorem remainder_mirrors_result_after_markup :
    let rule := Rule.regex ⟨"a", .char 'a'⟩ fun t => "<€" ++ t ++ ">"
    let b : Buffers := ⟨"é <€a>", "é       "⟩
    b ∈ Engine.trace ⟨[rule]⟩ " é a" ∧ b.Mirrored ∧ (rule.apply b).Mirrored := by
  intro rule b
  have hmem : b ∈ Engine.trace ⟨[rule]⟩ " é a" := by decide +kernel
  have hb := remainder_mirrors_result.1 ⟨[rule]⟩ " é a" b hmem
  exact ⟨hmem, hb, remainder_mirrors_result.2.1 rule b hb⟩

end Engine

end Highlighter
