import Highlighter.Proofs.Engine.Stretches
import Highlighter.Proofs.Lexeme.Kind
import Mathlib.Data.List.Induction

/-! What rules put in never overlaps what was put in before: a substitution takes it up as a whole or
leaves it as it is. This holds of every engine whose patterns, but for the first, find nothing that
begins or ends with a space, and so of the engines of both languages. -/
namespace Highlighter

namespace Engine

/-- The engines that can be made by adding rules. -/
inductive Built : Engine → Prop
  | empty : Built empty
  | push {e e' : Engine} {r : Rule} (he : Built e) (h : e.push r = .ok e') : Built e'

/-- In an engine that was made by adding rules, a rule for the whole text is the last one. -/
theorem Built.wholeTextLast {e : Engine} (h : e.Built) :
    ∀ r ∈ e.rules.dropLast, r.isWholeText = false := by
  induction h with
  | empty => exact fun r hr => absurd hr (by simp [Engine.empty])
  | @push e e' r _ hpush ih =>
    unfold Engine.push at hpush
    split at hpush
    · exact absurd hpush (by simp)
    · rename_i hlast
      obtain rfl := Except.ok.inj hpush
      intro r' hr'
      rw [List.dropLast_concat] at hr'
      rcases List.eq_nil_or_concat' e.rules with hnil | ⟨front, last, hrules⟩
      · rw [hnil] at hr'
        exact absurd hr' (by simp)
      · rw [hrules, List.getLast?_concat] at hlast
        rw [hrules, List.dropLast_concat] at ih
        rw [hrules] at hr'
        rcases List.mem_append.mp hr' with hfront | hlast'
        · exact ih r' hfront
        · rw [List.mem_singleton.mp hlast']
          exact Bool.eq_false_iff.mpr hlast

/-- There is a place behind rules of which none is for the whole text. -/
theorem not_any_getLast? {rules : List Rule} (h : ∀ r ∈ rules, r.isWholeText = false) :
    ¬ rules.getLast?.any Rule.isWholeText = true := by
  cases hl : rules.getLast? with
  | none => exact Bool.false_ne_true
  | some last =>
    rw [Option.any_some, h last (List.mem_of_getLast? hl)]
    exact Bool.false_ne_true

/-- Rules of which only the last may be for the whole text can be added one after another. -/
theorem built_of_wholeTextLast (rules : List Rule)
    (h : ∀ r ∈ rules.dropLast, r.isWholeText = false) : Built ⟨rules⟩ := by
  induction rules using List.reverseRecOn with
  | nil => exact .empty
  | append_singleton rules r ih =>
    rw [List.dropLast_concat] at h
    refine .push (ih fun r' hr' => h r' (List.dropLast_subset _ hr')) (r := r) ?_
    exact if_neg (not_any_getLast? h)

end Engine

namespace Language

open Lexeme

theorem rules_engine (s : Styler) (l : Language) :
    (l.engine s).rules = l.kinds.map (Kind.rule s) ++ [outerRule s] :=
  congrArg (· ++ [outerRule s]) (regexRules_eq s l)

/-- The engine of a language can be made by adding its rules. -/
theorem built_engine (s : Styler) (l : Language) : (l.engine s).Built := by
  refine Engine.built_of_wholeTextLast _ fun r hr => ?_
  rw [List.dropLast_concat, regexRules_eq] at hr
  obtain ⟨k, _, rfl⟩ := List.mem_map.mp hr
  rfl

/-- But for comments to the end of a line, which come first, the rules of a language find nothing
that begins or ends with a space. -/
theorem solid_engine (s : Styler) (l : Language) (pattern : Pattern) (handler : Handler)
    (h : .regex pattern handler ∈ (l.engine s).rules.tail) : pattern.Solid := by
  have htail : (l.engine s).rules.tail = l.kinds.tail.map (Kind.rule s) ++ [outerRule s] := by
    cases l <;> rw [rules_engine] <;> rfl
  have hkinds : ∀ k ∈ l.kinds.tail, k ≠ .lineComment := by cases l <;> decide
  rw [htail] at h
  rcases List.mem_append.mp h with h | h
  · obtain ⟨k, hk, hrule⟩ := List.mem_map.mp h
    obtain ⟨rfl, _⟩ := Rule.regex.inj hrule
    exact Kind.solid (hkinds k hk)
  · exact absurd (List.mem_singleton.mp h) Rule.noConfusion

/-- The rules of a language keep the texts that they work on. -/
theorem keeps_engine (s : Styler) (l : Language) : ∀ r ∈ (l.engine s).rules, r.Keeps := by
  intro r hr
  rw [rules_engine] at hr
  rcases List.mem_append.mp hr with hr | hr
  · obtain ⟨k, _, rfl⟩ := List.mem_map.mp hr
    exact fun t => ⟨_, _, rfl⟩
  · rw [List.mem_singleton.mp hr]
    exact fun t => ⟨s.containerStart ++ "<code>", "</code></pre>", rfl⟩

end Language

namespace Engine

open Substitution

/-- No substitution cuts through a text that was put in. In every engine that can be made by adding
rules, and whose patterns but the first find only what begins and ends with no space, the range of
each substitution holds the whole of an earlier replacement or lies beside it, and what no later
range holds stands unchanged in the formatted text. The engines of both languages are such engines,
and in every later state and in the formatted text every replacement is found as a whole. -/
theorem substitutions_never_cut :
    (∀ e : Engine, e.Built →
      (∀ pattern handler, .regex pattern handler ∈ e.rules.tail → pattern.Solid) →
      ∀ input : Text, ∃ ds, e.edit input = .ok ds ∧ NeverCut [] (ds.flatMap Edited.log) ∧
        ∀ p ∈ (ds.flatMap Edited.log).foldl after [], p.StandsIn (e.format input)) ∧
    ∀ (s : Styler) (l : Language), (l.engine s).Built ∧
      (∀ pattern handler, .regex pattern handler ∈ (l.engine s).rules.tail → pattern.Solid) ∧
      ∀ input : Text, ∃ ds, (l.engine s).edit input = .ok ds ∧
        Buffers.ofInput input :: ds.map Edited.buffers = (l.engine s).trace input ∧
        ∀ front d back, ds = front ++ d :: back → ∀ u ∈ d.log,
          (∀ d' ∈ d :: back, u.replacement <:+: d'.buffers.result) ∧
          u.replacement <:+: (l.engine s).format input := by
  have hinput (input : Text) :
      Buffers.ofInput input = Tile.buffers (Tile.ofText input.trim) :=
    (Tile.buffers_ofText input.trim).symm
  refine ⟨fun e hbuilt hsolid input => ?_, fun s l => ⟨l.built_engine s, l.solid_engine s,
    fun input => ?_⟩⟩
  · obtain ⟨ds, hds, _, hrun⟩ := editFrom_eq e.rules (aligned_ofInput input)
    have hlayered := Solid.layered ⟨hsolid, hbuilt.wholeTextLast⟩ input.trim
    have hds' := hds
    rw [hinput] at hds'
    obtain ⟨hcut, hstands⟩ := neverCut_editFrom hlayered (fun p hp => absurd hp List.not_mem_nil) hds'
    refine ⟨ds, hds, hcut, fun p hp => ?_⟩
    rw [format, hrun, hinput]
    exact hstands p hp
  · obtain ⟨ds, hds, hstates, hrun⟩ := editFrom_eq (l.engine s).rules (aligned_ofInput input)
    have hlayered := Solid.layered ⟨l.solid_engine s, (l.built_engine s).wholeTextLast⟩ input.trim
    have hds' := hds
    rw [hinput] at hds'
    have hkeeps := (infix_editFrom hlayered (l.keeps_engine s) hds').2
    refine ⟨ds, hds, hstates, fun front d back hsplit u hu =>
      ⟨hkeeps front d back hsplit u hu, ?_⟩⟩
    -- The formatted text is the last state, which comes at `d` or later.
    have hlast : ∃ d' ∈ d :: back, lastOf ds (Buffers.ofInput input) = d'.buffers := by
      refine ⟨(d :: back).getLast (List.cons_ne_nil d back), List.getLast_mem _, ?_⟩
      rw [hsplit, lastOf, List.getLast?_append_of_ne_nil _ (List.cons_ne_nil d back),
        List.getLast?_eq_some_getLast (List.cons_ne_nil d back)]
      rfl
    obtain ⟨d', hd', hbuffers⟩ := hlast
    rw [format, hrun, hbuffers]
    exact hkeeps front d back hsplit u hu d' hd'

/-- A string takes up a comment as a whole. -/
theorem substitutions_never_cut_in_string :
    let e := Language.lavendeux.engine .default
    e.Built ∧ (∀ pattern handler, .regex pattern handler ∈ e.rules.tail → pattern.Solid) ∧
      ∃ ds, e.edit "'/* a */ b'" = .ok ds ∧ NeverCut [] (ds.flatMap Edited.log) ∧
        ∀ p ∈ (ds.flatMap Edited.log).foldl after [], p.StandsIn (e.format "'/* a */ b'") :=
  let l := Language.lavendeux
  ⟨l.built_engine .default, l.solid_engine .default,
    substitutions_never_cut.1 _ (l.built_engine .default) (l.solid_engine .default) _⟩

end Engine

end Highlighter
