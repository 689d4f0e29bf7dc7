import Highlighter.Engine

/-! The states of a run: one at the beginning and one behind each rule. Behind the first `i` rules
stands what these leave of the beginning; so the last state is what all rules leave, and a rule that
is added at the end adds one state at the end. -/
namespace Highlighter

namespace Engine

theorem run_cons (r : Rule) (rules : List Rule) (b : Buffers) :
    run (r :: rules) b = run rules (r.apply b) := rfl

theorem run_append (rules rules' : List Rule) (b : Buffers) :
    run (rules ++ rules') b = run rules' (run rules b) := List.foldl_append

theorem getElem?_states_zero (rules : List Rule) (b : Buffers) : (states rules b)[0]? = some b := by
  cases rules <;> rfl

theorem getElem?_states (before rules : List Rule) (b : Buffers) :
    (states (before ++ rules) b)[before.length]? = some (run before b) := by
  induction before generalizing b with
  | nil => exact getElem?_states_zero rules b
  | cons r before ih => exact ih (r.apply b)

theorem getElem?_states_take (rules : List Rule) (b : Buffers) {i : Nat} (hi : i ≤ rules.length) :
    (states rules b)[i]? = some (run (rules.take i) b) := by
  have h := getElem?_states (rules.take i) (rules.drop i) b
  rwa [List.take_append_drop, List.length_take_of_le hi] at h

/-- Up to the last of them, the states of the first rules are those of all rules. -/
theorem getElem?_states_append (before rules : List Rule) (b : Buffers) {j : Nat}
    (hj : j ≤ before.length) : (states (before ++ rules) b)[j]? = (states before b)[j]? := by
  have hall : j ≤ (before ++ rules).length := by
    rw [List.length_append]
    omega
  rw [getElem?_states_take _ b hall, getElem?_states_take before b hj,
    List.take_append_of_le_length hj]

section states

variable (rules : List Rule) (b : Buffers)

theorem length_states : (states rules b).length = rules.length + 1 := by
  induction rules generalizing b with
  | nil => rfl
  | cons r rules ih => rw [states, List.length_cons, ih, List.length_cons]

/-- The state behind a rule is the rule applied to the state before it. -/
theorem getElem?_states_succ {i : Nat} {r : Rule} {b' : Buffers} (hr : rules[i]? = some r)
    (hb' : (states rules b)[i]? = some b') : (states rules b)[i + 1]? = some (r.apply b') := by
  have hi : i < rules.length := (List.getElem?_eq_some_iff.mp hr).1
  rw [getElem?_states_take rules b (Nat.le_of_lt hi)] at hb'
  rw [getElem?_states_take rules b hi, List.take_add_one, hr, Option.toList_some, run_append,
    Option.some.inj hb']
  rfl

theorem getLast?_states : (states rules b).getLast? = some (run rules b) := by
  rw [List.getLast?_eq_getElem?, length_states, Nat.add_sub_cancel,
    getElem?_states_take rules b (Nat.le_refl _), List.take_length]

theorem states_concat (r : Rule) :
    states (rules ++ [r]) b = states rules b ++ [r.apply (run rules b)] := by
  induction rules generalizing b with
  | nil => rfl
  | cons first rules ih =>
    rw [List.cons_append, states, ih, run_cons]
    rfl

end states

/-- Each rule of an engine with the state behind it. -/
def steps (e : Engine) (input : Text) : List (Rule × Buffers) := e.rules.zip (e.trace input).tail

section steps

variable (e : Engine) (input : Text)

theorem length_steps : (e.steps input).length = e.rules.length := by
  rw [steps, trace, List.length_zip, List.length_tail, length_states, Nat.add_sub_cancel,
    Nat.min_self]

theorem getElem?_steps {i : Nat} {r : Rule} {b : Buffers} :
    (e.steps input)[i]? = some (r, b) ↔
      e.rules[i]? = some r ∧ (e.trace input)[i + 1]? = some b := by
  rw [steps, List.getElem?_zip_eq_some, List.getElem?_tail]

/-- What is formatted is the result behind the last rule, or the input as it is at the beginning. -/
theorem format_eq_steps : e.format input =
    match (e.steps input).getLast? with
    | some (_, b) => b.result
    | none => input.trim := by
  have hlength := e.length_steps input
  cases hlast : (e.steps input).getLast? with
  | none =>
    -- There are as many pairs as rules, so without a pair there is no rule.
    have hnone : e.rules = [] := by
      rw [List.getLast?_eq_none_iff.mp hlast] at hlength
      exact List.length_eq_zero_iff.mp hlength.symm
    rw [format, hnone]
    rfl
  | some step =>
    obtain ⟨r, b⟩ := step
    have hpos : 0 < e.rules.length := by
      rw [← hlength]
      exact List.length_pos_iff.mpr fun h => by simp [h] at hlast
    rw [List.getLast?_eq_getElem?, getElem?_steps, hlength, Nat.sub_add_cancel hpos, trace,
      getElem?_states_take _ _ (Nat.le_refl _), List.take_length] at hlast
    exact congrArg Buffers.result (Option.some.inj hlast.2)

end steps

end Engine

end Highlighter
