/-!
What trying a pattern can answer.  The plain answer is the place where the match ends, if there is
one; the counted answer also tells how many dead ends were met on the way to it.
-/
namespace Highlighter

/-- Answers that end at a `σ`, with the ways to combine them. -/
class Answer (σ : outParam Type) (α : Type) where
  found : σ → α
  deadEnd : α
  /-- The second answer counts where the first is a dead end. -/
  orElse : α → (Unit → α) → α
  /-- Goes on from where the first answer ends. -/
  follow : α → (σ → α) → α
  /-- Goes on only where the first answer is a dead end. -/
  barring : α → (Unit → α) → α

namespace Answer

variable {σ τ α : Type} [Answer σ α]

/-- The first answer that is no dead end, of those that `k` gives for the members of a list. -/
def firstOf (k : τ → α) : List τ → α
  | [] => deadEnd
  | t :: ts => orElse (k t) fun _ => firstOf k ts

end Answer

instance plainAnswer (σ : Type) : Answer σ (Option σ) where
  found := some
  deadEnd := none
  orElse a b := match a with
    | some s => some s
    | none => b ()
  follow a k := match a with
    | some s => k s
    | none => none
  barring a k := match a with
    | some _ => none
    | none => k ()

/-- A plain answer and the number of dead ends that were met before it. -/
structure Counted (σ : Type) where
  deadEnds : Nat
  answer : Option σ

/-- The answer after `n` more dead ends. -/
def Counted.after {σ : Type} (n : Nat) (a : Counted σ) : Counted σ := ⟨n + a.deadEnds, a.answer⟩

instance countedAnswer (σ : Type) : Answer σ (Counted σ) where
  found s := ⟨0, some s⟩
  deadEnd := ⟨1, none⟩
  orElse a b := match a.answer with
    | some _ => a
    | none => (b ()).after a.deadEnds
  follow a k := match a.answer with
    | some s => (k s).after a.deadEnds
    | none => a
  barring a k := match a.answer with
    | some _ => ⟨a.deadEnds + 1, none⟩
    | none => (k ()).after a.deadEnds

end Highlighter
