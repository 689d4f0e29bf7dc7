import Highlighter.Proofs.CommandLine.Commands
import Highlighter.Proofs.Engine.Construction

/-! What the program shows of a run of rules agrees with what it formats. The trace pairs every rule
with the state behind it, and the HTML that is printed is the result of the last pair. -/
namespace Highlighter

namespace CommandLine

open Steps

/-- The command for formatting prints what the engine for the language makes of what it has read. -/
theorem result_carryOut_format {s : Setting} {o : Options} {file : Option Text} {r : Registry}
    {input : Text} {p : Progress} (hr : result (registry o) ⟨s.files, [], []⟩ = (.ok r, p))
    (hinput : source s.input file s.files = .ok input) (language : Text) (tracing : Bool) :
    result (carryOut s.input o (.format file language tracing)) ⟨s.files, [], []⟩ =
      (.ok (), ⟨s.files, line ((r.get language).format input),
        p.remarks ++ formatRemarks r language input tracing⟩) := by
  obtain ⟨files, output, said⟩ := p
  obtain ⟨houtput, hfiles⟩ := (looks_registry o).unchanged_of_ok hr
  obtain rfl : files = s.files := hfiles
  obtain rfl : output = [] := houtput
  rw [carryOut, result_bind_of_ok hr]
  simp only [result_bind, Job.result_look, hinput, result_format]
  rfl

/-- Lines are shown whatever the filter is. -/
theorem filterMap_line (f : EventFilter) (lines : List Text) :
    (lines.map Remark.line).filterMap (·.line? f) = lines := by
  rw [List.filterMap_map]
  exact List.filterMap_some

theorem trace_infix_formatRemarks (r : Registry) (language input : Text) :
    (trace (r.get language) input).map .line <:+: formatRemarks r language input true :=
  ((List.suffix_append _ _).trans (List.suffix_append _ _)).isInfix.trans
    (List.prefix_append _ _).isInfix

/-- What the trace of an engine shows agrees with what the engine formats. The states are one more than
the rules; the first is the trimmed input, each other one is a rule applied to the state before it, and
the result of the last is what is formatted. A rule that is added in place leaves these states as they
are. The program pairs each rule with the state behind it; when it formats a text that it could read,
it prints the result of the last pair, or the trimmed text if there are no rules, and a trace shows
the pairs in their order, numbered from one. -/
theorem trace_agrees_with_format (e : Engine) (input : Text) :
    let states := e.trace input
    let steps := e.rules.zip states.tail
    let html := match steps.getLast? with
      | some (_, b) => b.result
      | none => input.trim
    (states.length = e.rules.length + 1 ∧ states[0]? = some ⟨input.trim, input.trim⟩ ∧
      (∀ (i : Nat) (r : Rule) (b : Buffers), e.rules[i]? = some r → states[i]? = some b →
        states[i + 1]? = some (r.apply b)) ∧
      states.getLast?.map Buffers.result = some (e.format input)) ∧
    (∀ c : Engine.Call, (c.change.result e).1 = .ok () →
      states <+: (c.change.result e).2.trace input) ∧
    (steps.length = e.rules.length ∧
      (∀ (i : Nat) (r : Rule) (b : Buffers), steps[i]? = some (r, b) ↔
        e.rules[i]? = some r ∧ states[i + 1]? = some b) ∧ e.format input = html) ∧
    ∀ (s : Setting) (o : Options) (file : Option Text) (language : Text) (tracing : Bool)
      (r : Registry) (p : Progress), result (registry o) ⟨s.files, [], []⟩ = (.ok r, p) →
      source s.input file s.files = .ok input → r.get language = e →
      let out := execute s o (.format file language tracing)
      out.exitCode = 0 ∧ out.output = line html ∧
        (tracing = true → ((steps.zipIdx 1).flatMap fun ((r, b), number) =>
          traceLines number r b) <:+: out.diagnostics) := by
  intro states steps html
  have hhtml : e.format input = html := e.format_eq_steps input
  refine ⟨⟨Engine.length_states _ _, Engine.getElem?_states_zero _ _, ?_, ?_⟩, ?_,
    ⟨e.length_steps input, fun i r b => e.getElem?_steps input, hhtml⟩, ?_⟩
  · intro i r b hr hb
    exact Engine.getElem?_states_succ _ _ hr hb
  · exact congrArg (Option.map Buffers.result) (Engine.getLast?_states _ _)
  · intro c hc
    exact c.trace_of_accepted e hc input
  · intro s o file language tracing r p hr hinput he out
    have hout := execute_eq s o (.format file language tracing)
    rw [result_carryOut_format hr hinput] at hout
    refine ⟨congrArg Outcome.exitCode hout, ?_, fun htracing => ?_⟩
    · rw [← hhtml, ← he]
      exact congrArg Outcome.output hout
    · subst htracing
      -- The filter lets every line pass, so the trace stands in what is shown as it was said.
      have hshown := ((trace_infix_formatRemarks r language input).trans
        (List.suffix_append p.remarks _).isInfix).filterMap (·.line? (filter s o).1)
      rw [filterMap_line, he] at hshown
      rw [congrArg Outcome.diagnostics hout]
      exact hshown.trans (List.suffix_append _ _).isInfix

/-- A traced run without a configuration file, and a rule for the whole text behind another rule. -/
theorem trace_agrees_with_format_of_command :
    let input : Text := "f(2) // é"
    let s : Setting := ⟨.empty [], .text input, none⟩
    let o : Options := ⟨none, true, none, false⟩
    let e := Language.javascript.engine Config.default.styler
    let out := execute s o (.format none "javascript" true)
    let first : Engine := ⟨[.regex ⟨"f", .char 'f'⟩ fun t => "<" ++ t ++ ">"]⟩
    let c : Engine.Call := .addRule none fun t => "[" ++ t ++ "]"
    out.exitCode = 0 ∧ out.output = line (e.format input) ∧ trace e input <:+: out.diagnostics ∧
      first.trace input <+: (c.change.result first).2.trace input := by
  intro input s o e out first c
  obtain ⟨_, _, ⟨_, _, hhtml⟩, hprinted⟩ := trace_agrees_with_format e input
  obtain ⟨hcode, houtput, hlines⟩ := hprinted s o none "javascript" true
    (Registry.ofStyler Config.default.styler) ⟨s.files, [], []⟩ rfl rfl rfl
  obtain ⟨_, haccepted, _⟩ := trace_agrees_with_format first input
  exact ⟨hcode, hhtml ▸ houtput, hlines rfl, haccepted c rfl⟩

end CommandLine

end Highlighter
