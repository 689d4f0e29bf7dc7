import Highlighter.Proofs.Engine.Overlap
import Highlighter.Proofs.Engine.States

/-! An engine that is built in place by calls, of which any may fail. What a call can do is said once
(`Call.result_cases`): it adds the rule that it offers, or it fails and the engine stays as it was. So
the engine holds the rules of the calls that did not fail, in their order, and a rule for the whole
text is the last one. -/
namespace Highlighter

namespace Engine

/-- A change of an engine in place, which can fail. -/
abbrev Change := ExceptT RuleError (StateM Engine)

namespace Change

/-- Adds a rule at the end, unless the last rule is one for the whole text. -/
def push (r : Rule) : Change Unit := do
  if (← get).rules.getLast?.any Rule.isWholeText then
    throw .ruleAfterWholeText
  modify fun e => ⟨e.rules ++ [r]⟩

/-- Makes a rule and adds it. -/
def addRule (source : Option Text) (handler : Handler) : Change Unit := do
  let r ← MonadExcept.ofExcept (Rule.make source handler)
  push r

/-- What a change answers, and the engine that it leaves. -/
def result (m : Change Unit) (e : Engine) : Except RuleError Unit × Engine := m.run.run e

/-- The answer and the engine that is left where the pure operation on `e` returns this. -/
def ofAdded (e : Engine) : Except RuleError Engine → Except RuleError Unit × Engine
  | .ok e' => (.ok (), e')
  | .error reason => (.error reason, e)

theorem result_push (r : Rule) (e : Engine) : (push r).result e = ofAdded e (e.push r) := by
  change (if e.rules.getLast?.any Rule.isWholeText then throw .ruleAfterWholeText
    else modify fun e => ⟨e.rules ++ [r]⟩ : Change Unit).result e = _
  rw [Engine.push]
  split <;> rfl

theorem result_addRule (source : Option Text) (handler : Handler) (e : Engine) :
    (addRule source handler).result e = ofAdded e (e.addRule source handler) := by
  unfold addRule Engine.addRule
  cases Rule.make source handler with
  | error reason => rfl
  | ok r => exact result_push r e

end Change

/-- A call that adds to an engine. -/
inductive Call where
  | addRule (source : Option Text) (handler : Handler)
  | push (r : Rule)

namespace Call

/-- The pattern that the call has to read, if there is one. -/
def source? : Call → Option Text
  | addRule source _ => source
  | push _ => none

/-- The rule that the call offers. -/
def rule : Call → Except RuleError Rule
  | addRule source handler => Rule.make source handler
  | push r => .ok r

/-- The engine with what the call adds. -/
def added (e : Engine) : Call → Except RuleError Engine
  | addRule source handler => e.addRule source handler
  | push r => e.push r

/-- The call on an engine in place. -/
def change : Call → Change Unit
  | addRule source handler => Change.addRule source handler
  | push r => Change.push r

variable (c : Call) (e : Engine)

theorem result_change : c.change.result e = Change.ofAdded e (c.added e) := by
  cases c with
  | addRule source handler => exact Change.result_addRule source handler e
  | push r => exact Change.result_push r e

/-- A call offers a rule, or its pattern cannot be read. -/
theorem rule_cases :
    (∃ r, c.rule = .ok r ∧ ∀ source ∈ c.source?, Pattern.ofText? source ≠ none) ∨
      ∃ source, c.rule = .error (.invalidPattern source) ∧ c.source? = some source ∧
        Pattern.ofText? source = none := by
  cases c with
  | push r => exact Or.inl ⟨r, rfl, by simp [source?]⟩
  | addRule source handler =>
    cases source with
    | none => exact Or.inl ⟨.wholeText handler, rfl, by simp [source?]⟩
    | some source =>
      simp only [rule, Rule.make]
      cases hread : Pattern.ofText? source with
      | none => exact Or.inr ⟨source, rfl, rfl, hread⟩
      | some pattern =>
        refine Or.inl ⟨.regex pattern handler, rfl, fun source' hsource => ?_⟩
        obtain rfl := Option.some.inj hsource
        rw [hread]
        exact Option.some_ne_none pattern

theorem added_of_rule {r : Rule} (h : c.rule = .ok r) : c.added e = e.push r := by
  cases c with
  | push r' => rw [Except.ok.inj h, added]
  | addRule source handler =>
    have hmake : Rule.make source handler = .ok r := h
    rw [added, Engine.addRule, hmake]
    rfl

theorem added_of_error {reason : RuleError} (h : c.rule = .error reason) :
    c.added e = .error reason := by
  cases c with
  | push r => exact absurd h (by simp [rule])
  | addRule source handler =>
    have hmake : Rule.make source handler = .error reason := h
    rw [added, Engine.addRule, hmake]
    rfl

/-- All that a call can do. Whether its pattern can be read comes before whether there is a place for
its rule. -/
theorem result_cases :
    (∃ r, c.rule = .ok r ∧ (∀ source ∈ c.source?, Pattern.ofText? source ≠ none) ∧
      e.rules.getLast?.any Rule.isWholeText = false ∧ e.push r = .ok ⟨e.rules ++ [r]⟩ ∧
      c.change.result e = (.ok (), ⟨e.rules ++ [r]⟩)) ∨
    ((∀ source ∈ c.source?, Pattern.ofText? source ≠ none) ∧
      e.rules.getLast?.any Rule.isWholeText = true ∧
      c.change.result e = (.error .ruleAfterWholeText, e)) ∨
    ∃ source, c.source? = some source ∧ Pattern.ofText? source = none ∧
      c.change.result e = (.error (.invalidPattern source), e) := by
  rw [result_change]
  -- A pattern is read before the engine is looked at, so only a rule that is there can come too late.
  rcases c.rule_cases with ⟨r, hr, hread⟩ | ⟨source, hr, hsource, hread⟩
  · rw [c.added_of_rule e hr]
    cases hlast : e.rules.getLast?.any Rule.isWholeText with
    | true =>
      have hpush : e.push r = .error .ruleAfterWholeText := if_pos hlast
      rw [hpush]
      exact Or.inr (Or.inl ⟨hread, rfl, rfl⟩)
    | false =>
      have hpush : e.push r = .ok ⟨e.rules ++ [r]⟩ :=
        if_neg (by rw [hlast]; exact Bool.false_ne_true)
      rw [hpush]
      exact Or.inl ⟨r, hr, hread, rfl, hpush, rfl⟩
  · rw [c.added_of_error e hr]
    exact Or.inr (Or.inr ⟨source, hsource, hread, rfl⟩)

/-- A pattern that cannot be read is found out whatever the engine holds. -/
theorem invalidPattern_iff (source : Text) :
    (c.change.result e).1 = .error (.invalidPattern source) ↔
      c.source? = some source ∧ Pattern.ofText? source = none := by
  rcases c.result_cases e with ⟨r, _, hread, _, _, hres⟩ | ⟨hread, _, hres⟩ | ⟨source', hs, hread, hres⟩
  · rw [hres]
    exact iff_of_false (by simp) fun h => hread source h.1 h.2
  · rw [hres]
    exact iff_of_false (by simp) fun h => hread source h.1 h.2
  · rw [hres]
    constructor
    · intro h
      obtain rfl := RuleError.invalidPattern.inj (Except.error.inj h)
      exact ⟨hs, hread⟩
    · rintro ⟨hs', _⟩
      rw [Option.some.inj (hs.symm.trans hs')]

theorem ruleAfterWholeText_iff : (c.change.result e).1 = .error .ruleAfterWholeText ↔
    (∀ source ∈ c.source?, Pattern.ofText? source ≠ none) ∧
      e.rules.getLast?.any Rule.isWholeText = true := by
  rcases c.result_cases e with ⟨r, _, _, hlast, _, hres⟩ | ⟨hread, hlast, hres⟩ | ⟨source, hs, hread, hres⟩
  · rw [hres]
    exact iff_of_false (by simp) fun h => Bool.false_ne_true (hlast.symm.trans h.2)
  · rw [hres]
    exact iff_of_true rfl ⟨hread, hlast⟩
  · rw [hres]
    exact iff_of_false (by simp) fun h => h.1 source hs hread

theorem engine_of_fails (h : (c.change.result e).1 ≠ .ok ()) : (c.change.result e).2 = e := by
  rcases c.result_cases e with ⟨_, _, _, _, _, hres⟩ | ⟨_, _, hres⟩ | ⟨_, _, _, hres⟩
  · rw [hres] at h
    exact absurd rfl h
  · rw [hres]
  · rw [hres]

/-- A rule that an engine accepts adds a state behind the states that were there. -/
theorem trace_of_accepted (h : (c.change.result e).1 = .ok ()) (input : Text) :
    e.trace input <+: (c.change.result e).2.trace input := by
  rcases c.result_cases e with ⟨r, _, _, _, _, hres⟩ | ⟨_, _, hres⟩ | ⟨_, _, _, hres⟩
  · rw [hres, trace, trace, states_concat]
    exact List.prefix_append _ _
  · rw [hres] at h
    exact absurd h (by simp)
  · rw [hres] at h
    exact absurd h (by simp)

end Call

/-- The answers to calls one after another, and the engine that they leave. -/
def performAll : List Call → Engine → List (Except RuleError Unit) × Engine
  | [], e => ([], e)
  | c :: calls, e =>
    let (answer, e') := c.change.result e
    let (answers, final) := performAll calls e'
    (answer :: answers, final)

/-- The rules of the calls that did not fail. -/
def accepted (calls : List Call) (answers : List (Except RuleError Unit)) : List Rule :=
  (calls.zip answers).filterMap fun (c, answer) =>
    match answer with
    | .ok _ => c.rule.toOption
    | .error _ => none

theorem performAll_cons {c : Call} {calls : List Call} {e e' : Engine}
    {answer : Except RuleError Unit} (h : c.change.result e = (answer, e')) :
    performAll (c :: calls) e = (answer :: (performAll calls e').1, (performAll calls e').2) := by
  rw [performAll, h]

/-- Calls add the rules that are accepted to those that are there. -/
theorem rules_performAll (calls : List Call) (e : Engine) :
    (performAll calls e).2.rules = e.rules ++ accepted calls (performAll calls e).1 := by
  induction calls generalizing e with
  | nil => exact (List.append_nil e.rules).symm
  | cons c calls ih =>
    rcases c.result_cases e with ⟨r, hr, _, _, _, hres⟩ | ⟨_, _, hres⟩ | ⟨_, _, _, hres⟩
    · rw [performAll_cons hres, ih, List.append_assoc]
      simp only [accepted, List.zip_cons_cons, List.filterMap_cons, hr, Except.toOption,
        List.singleton_append]
    · rw [performAll_cons hres, ih]
      rfl
    · rw [performAll_cons hres, ih]
      rfl

/-- What calls leave of an engine that was made by adding rules was made by adding rules. -/
theorem Built.performAll {e : Engine} (h : e.Built) (calls : List Call) :
    (performAll calls e).2.Built := by
  induction calls generalizing e with
  | nil => exact h
  | cons c calls ih =>
    rcases c.result_cases e with ⟨r, _, _, _, hpush, hres⟩ | ⟨_, _, hres⟩ | ⟨_, _, _, hres⟩
    · rw [performAll_cons hres]
      exact ih (.push h hpush)
    · rw [performAll_cons hres]
      exact ih h
    · rw [performAll_cons hres]
      exact ih h

/-- Calls whose rules can all be made build an engine of these rules, if only the last of them may be
for the whole text. -/
theorem performAll_of_rules {calls : List Call} {rules : List Rule}
    (hrules : calls.map Call.rule = rules.map .ok) (e : Engine)
    (hlast : ∀ r ∈ (e.rules ++ rules).dropLast, r.isWholeText = false) :
    performAll calls e = (calls.map fun _ => .ok (), ⟨e.rules ++ rules⟩) := by
  induction calls generalizing e rules with
  | nil =>
    obtain rfl := List.map_eq_nil_iff.mp hrules.symm
    rw [List.append_nil]
    rfl
  | cons c calls ih =>
    obtain ⟨r, rules, rfl, hr, hrules⟩ := List.map_eq_cons_iff.mp hrules.symm
    -- The rules that are there already stand before `r`, so none of them is for the whole text.
    have hopen : ¬ e.rules.getLast?.any Rule.isWholeText = true := by
      rw [List.dropLast_append_of_ne_nil (List.cons_ne_nil r rules)] at hlast
      exact not_any_getLast? fun r' hr' => hlast r' (List.mem_append_left _ hr')
    have hres : c.change.result e = (.ok (), ⟨e.rules ++ [r]⟩) := by
      rw [c.result_change e, c.added_of_rule e hr.symm, Engine.push, if_neg hopen]
      rfl
    have happend : e.rules ++ [r] ++ rules = e.rules ++ r :: rules := by
      rw [List.append_assoc, List.singleton_append]
    have hlater := ih hrules.symm ⟨e.rules ++ [r]⟩ (by rwa [happend])
    rw [performAll_cons hres, hlater, happend, List.map_cons]

/-- A rule for the whole text stands in the last place of an engine that was made by adding rules. -/
theorem Built.place_of_wholeText {e : Engine} (h : e.Built) {i : Nat} {r : Rule}
    (hr : e.rules[i]? = some r) (hwhole : r.isWholeText = true) : i + 1 = e.rules.length := by
  obtain ⟨hi, hri⟩ := List.getElem?_eq_some_iff.mp hr
  -- In an earlier place the rule would be among all but the last, of which none is for the whole text.
  by_contra hne
  have hfront : i < e.rules.dropLast.length := by
    rw [List.length_dropLast]
    omega
  have hmem : r ∈ e.rules.dropLast := by
    rw [← hri, ← List.getElem_dropLast hfront]
    exact List.getElem_mem hfront
  exact Bool.false_ne_true ((h.wholeTextLast r hmem).symm.trans hwhole)

/-- An engine that is built from the empty one by calls, of which any may fail, holds the rules that
were accepted, in the order of the calls; a rule for the whole text stands in the last place. The next
call adds in place what the operation without a place returns. It fails if and only if its pattern
cannot be read, whatever the engine holds, or else the engine ends with a rule for the whole text; and
then the rules are as they were, and so are formatting and tracing of every input. -/
theorem rules_of_calls (calls : List Call) :
    let answers := (performAll calls empty).1
    let e := (performAll calls empty).2
    e.rules = accepted calls answers ∧
      (∀ (i : Nat) (r : Rule), e.rules[i]? = some r → r.isWholeText = true →
        i + 1 = e.rules.length) ∧
      ∀ c : Call,
        let answer := (c.change.result e).1
        let e' := (c.change.result e).2
        (answer, e') = Change.ofAdded e (c.added e) ∧
          (∀ source, answer = .error (.invalidPattern source) ↔
            c.source? = some source ∧ Pattern.ofText? source = none) ∧
          (answer = .error .ruleAfterWholeText ↔
            (∀ source ∈ c.source?, Pattern.ofText? source ≠ none) ∧
              e.rules.getLast?.any Rule.isWholeText = true) ∧
          (answer ≠ .ok () → e'.rules = e.rules ∧
            ∀ input, e'.format input = e.format input ∧ e'.trace input = e.trace input) := by
  intro answers e
  have hbuilt : e.Built := Built.empty.performAll calls
  refine ⟨rules_performAll calls empty, fun i r => hbuilt.place_of_wholeText, fun c => ?_⟩
  refine ⟨c.result_change e, c.invalidPattern_iff e, c.ruleAfterWholeText_iff e, fun hfails => ?_⟩
  have hsame := c.engine_of_fails e hfails
  refine ⟨congrArg rules hsame, fun input => ?_⟩
  exact ⟨congrArg (format · input) hsame, congrArg (trace · input) hsame⟩

/-- Calls with a pattern that cannot be read, before a rule for the whole text and behind it. -/
theorem rules_of_calls_of_failures :
    let keep : Handler := fun t => t
    let calls : List Call := [.addRule (some "x") keep, .addRule (some "(") keep,
      .addRule none keep, .push (.wholeText keep)]
    let e := (performAll calls empty).2
    (performAll calls empty).1 = [.ok (), .error (.invalidPattern "("), .ok (),
      .error .ruleAfterWholeText] ∧
      e.rules.map Rule.patternText = ["x", "<whole string>"] ∧
      ((Call.addRule (some "(") keep).change.result e).1 = .error (.invalidPattern "(") ∧
      ((Call.addRule (some "(") keep).change.result e).2.rules = e.rules := by
  intro keep calls e
  obtain ⟨_, _, hnext⟩ := rules_of_calls calls
  obtain ⟨_, hinvalid, _, hfails⟩ := hnext (.addRule (some "(") keep)
  have hanswer := (hinvalid "(").mpr ⟨rfl, by decide +kernel⟩
  refine ⟨by decide +kernel, by decide +kernel, hanswer, (hfails ?_).1⟩
  rw [hanswer]
  simp

end Engine

namespace Language

open Engine Lexeme

/-- The calls that make the rules of a language from the sources of their patterns. -/
def calls (s : Styler) (l : Language) : List Call :=
  l.kinds.map (fun k => .addRule (some k.pattern.source) (k.wrap.handler s)) ++
    [.addRule none s.outer]

/-- The engine of a language is what its calls build, and none of them fails. -/
theorem performAll_calls (s : Styler) (l : Language) :
    performAll (l.calls s) .empty = ((l.calls s).map fun _ => .ok (), l.engine s) := by
  have hrule (k : Kind) :
      (Call.addRule (some k.pattern.source) (k.wrap.handler s)).rule = .ok (k.rule s) := by
    rw [Call.rule, Rule.make, k.ofText?_source]
    rfl
  have hrules : (l.calls s).map Call.rule = (l.engine s).rules.map .ok := by
    rw [calls, rules_engine, List.map_append, List.map_append, List.map_map, List.map_map]
    exact congrArg (· ++ _) (List.map_congr_left fun k _ => hrule k)
  exact performAll_of_rules hrules .empty (built_engine s l).wholeTextLast

end Language

end Highlighter
