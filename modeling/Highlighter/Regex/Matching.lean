import Highlighter.Regex.Answer
import Highlighter.Regex.Point

/-!
Matching a pattern at a point.  A pattern is run with a continuation that tells what comes of each
point where a match of the pattern can end; the continuation is asked in the order in which the
pattern prefers its matches.

The rounds of a loop are asked at most once for each point: what comes of a further round is kept
in a table that is filled as it is used.  `run_loop` says that the table changes no answer.
-/
namespace Highlighter

/-- What comes of further rounds of a loop at one place and, later in the table, at all places after
it.  The answer for an empty list of remembered texts is computed only once. -/
inductive Rounds (α : Type) where
  | nowhere
  | here (answer : Groups → α) (once : Thunk α) (later : Thunk (Rounds α))

namespace Rounds

variable {α σ : Type}

/-- The answer `n` places on, where `groups` are remembered. -/
def get? : Rounds α → Nat → Groups → Option α
  | nowhere, _, _ => none
  | here answer once _, 0, groups => some (if groups = [] then once.get else answer groups)
  | here _ _ later, n + 1, groups => later.get.get? n groups

end Rounds

namespace Regex

variable {origin : Place} {α : Type} [Answer (Point origin) α]

/-- One more round of a loop at `p`, or none: `step` runs the round, `rest` tells what comes of
further rounds after `p`, and `k` what comes after the loop. -/
def round (step : Point origin → (Point origin → α) → α) (role : Role) (greedy : Bool)
    (k : Point origin → α) (rest : Point origin → α) (p : Point origin) : α :=
  let again := fun (_ : Unit) => step p fun q =>
    if p.index < q.index then rest q else if role = .regular then k p else Answer.deadEnd
  if greedy then Answer.orElse (again ()) fun _ => k p else Answer.orElse (k p) again

/-- The table of what comes of the rounds of a loop at a place and after it. -/
def rounds (step : Point origin → (Point origin → α) → α) (role : Role) (greedy : Bool)
    (k : Point origin → α) :
    (before after : Text) → (index : Int) → before.reverseAux after = origin.text →
    before.length = index + origin.before.length → Rounds α
  | b, [], i, ht, hi =>
    let answer := fun groups =>
      round step role greedy k (fun _ => Answer.deadEnd) ⟨b, [], i, groups, ht, hi⟩
    .here answer (Thunk.mk fun _ => answer []) (Thunk.mk fun _ => .nowhere)
  | b, c :: a, i, ht, hi =>
    let later := Thunk.mk fun _ =>
      rounds step role greedy k (c :: b) a (i + 1) ht (Point.length_next c hi)
    -- A round that goes forward ends at a later place, where the rest of the table has the answer.
    let rest := fun (q : Point origin) =>
      (later.get.get? (q.index - (i + 1)).toNat q.groups).getD Answer.deadEnd
    let answer := fun groups => round step role greedy k rest ⟨b, c :: a, i, groups, ht, hi⟩
    .here answer (Thunk.mk fun _ => answer []) later

/-- The answer of a part of a pattern that is tried at `p` and goes on with `k` wherever it can
end. -/
def run : Regex → Role → Point origin → (Point origin → α) → α
  | empty, _, p, k => k p
  | one set, _, p, k =>
    match p.next? with
    | some (c, q) => if set.has c then k q else Answer.deadEnd
    | none => Answer.deadEnd
  | many set greedy, _, p, k =>
    Answer.firstOf k (if greedy then (p.stops set).reverse else p.stops set)
  | edge e, _, p, k => if e.holds p.before p.after then k p else Answer.deadEnd
  | back n, _, p, k =>
    match p.back? n with
    | some q => k q
    | none => Answer.deadEnd
  | seq a b, role, p, k => run a role.followed p fun q => run b (role.ending b) q k
  | alt a b, role, p, k =>
    Answer.orElse (run a (role.ending a) p k) fun _ => run b (role.ending b) p k
  | loop a greedy, role, p, k =>
    let table := rounds (run a role.followed) role greedy k p.before p.after p.index
      p.reverseAux_before p.length_before
    (table.get? 0 p.groups).getD Answer.deadEnd
  | group n a, role, p, k => run a (role.ending a) p fun q => k (p.remember n q)
  | same n anyCase, _, p, k =>
    match p.groups.lookup n with
    | some word =>
      match p.over? anyCase word with
      | some q => k q
      | none => Answer.deadEnd
    | none => Answer.deadEnd
  | atomic a, _, p, k => Answer.follow (run a a.lastRole p Answer.found) k
  | ahead a, _, p, k =>
    Answer.follow (run a a.lastRole p Answer.found) fun q => k (p.withGroupsOf q)
  | notAhead a, _, p, k => Answer.barring (run a a.lastRole p Answer.found) fun _ => k p

end Regex

end Highlighter
