import Highlighter.Rule

/-!
An engine applies its rules one after another.
-/
namespace Highlighter

inductive RuleError where
  | invalidPattern (source : Text)
  | ruleAfterWholeText
  deriving DecidableEq, Repr

/-- The message of a rule error, but for what is wrong with a pattern. -/
def RuleError.message : RuleError → Text
  | invalidPattern source => "Invalid rule pattern `" ++ source ++ "`"
  | ruleAfterWholeText => "A whole-string rule must be the last rule of a pipeline"

/-- The rule for a pattern, or for the whole text if there is none. -/
def Rule.make (source : Option Text) (handler : Handler) : Except RuleError Rule :=
  match source with
  | none => .ok (.wholeText handler)
  | some source =>
    match Pattern.ofText? source with
    | some pattern => .ok (.regex pattern handler)
    | none => .error (.invalidPattern source)

structure Engine where
  rules : List Rule

namespace Engine

def empty : Engine := ⟨[]⟩

/-- Adds a rule at the end, unless the last rule is one for the whole text. -/
def push (e : Engine) (r : Rule) : Except RuleError Engine :=
  if e.rules.getLast?.any Rule.isWholeText then .error .ruleAfterWholeText
  else .ok ⟨e.rules ++ [r]⟩

/-- Makes a rule and adds it. -/
def addRule (e : Engine) (source : Option Text) (handler : Handler) : Except RuleError Engine := do
  e.push (← Rule.make source handler)

def size (e : Engine) : Nat := e.rules.length

/-- Both texts after the rules have been applied in order. -/
def run (rules : List Rule) (b : Buffers) : Buffers := rules.foldl (fun b r => r.apply b) b

/-- The input as all rules leave it. -/
def format (e : Engine) (input : Text) : Text := (run e.rules (Buffers.ofInput input)).result

/-- Both texts at the beginning and after each rule. -/
def states : List Rule → Buffers → List Buffers
  | [], b => [b]
  | r :: rules, b => b :: states rules (r.apply b)

/-- Both texts for an input at the beginning and after each rule. -/
def trace (e : Engine) (input : Text) : List Buffers := states e.rules (Buffers.ofInput input)

/-- What there is to say about applying the rules in order. -/
def eventsFrom : List Rule → Buffers → List Event
  | [], _ => []
  | r :: rules, b => r.events b ++ eventsFrom rules (r.apply b)

/-- What there is to say about formatting an input. -/
def events (e : Engine) (input : Text) : List Event := eventsFrom e.rules (Buffers.ofInput input)

end Engine

end Highlighter
