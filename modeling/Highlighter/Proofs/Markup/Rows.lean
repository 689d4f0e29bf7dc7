import Highlighter.Proofs.Markup.Reading

/-! The rows of marks of a run in which no search gives up: every rule reads the whole row that the
rule before it has made. The rows are the same for every styler. -/
namespace Highlighter

open Lexeme

namespace Event

/-- The event tells that a search gave up. -/
def isStop : Event → Bool
  | stoppedScanning .. => true
  | _ => false

end Event

namespace Engine

/-- No search gives up while the input is formatted. -/
def NeverStops (e : Engine) (input : Text) : Prop := ∀ ev ∈ e.events input, ev.isStop = false

instance (e : Engine) (input : Text) : Decidable (e.NeverStops input) :=
  inferInstanceAs (Decidable (∀ ev ∈ e.events input, _))

theorem eventsFrom_append (rules rules' : List Rule) (b : Buffers) :
    eventsFrom (rules ++ rules') b = eventsFrom rules b ++ eventsFrom rules' (run rules b) := by
  induction rules generalizing b with
  | nil => rfl
  | cons r rules ih =>
    rw [List.cons_append, eventsFrom, eventsFrom, ih, List.append_assoc, run_cons]

end Engine

namespace Lexeme.Kind

/-- What the rule for a kind of lexeme makes of a row that it reads to the end. -/
def Makes (k : Kind) (us us' : List Mark) : Prop :=
  ∃ ps, Reads k .noMatch none us ps ∧ us' = ps.flatMap (Piece.marks k.wrap)

variable {k : Kind} {us us' : List Mark}

theorem Makes.unique {vs : List Mark} (h : k.Makes us us') (h' : k.Makes us vs) : us' = vs := by
  obtain ⟨ps, hps, rfl⟩ := h
  obtain ⟨qs, hqs, rfl⟩ := h'
  rw [hps.unique hqs]

/-- A rule whose searches do not give up makes a row of a row. -/
theorem exists_makes (s : Styler) (k : Kind) (us : List Mark)
    (h : ∀ ev ∈ (k.rule s).events (Mark.buffers s us), ev.isStop = false) :
    ∃ us', k.Makes us us' ∧ (k.rule s).apply (Mark.buffers s us) = Mark.buffers s us' := by
  obtain ⟨e, ps, hreads, hedit, rfl | ⟨_, _, place, hmem⟩⟩ := k.edit_buffers s us
  · exact ⟨_, ⟨ps, hreads, rfl⟩, apply_of_edit hedit⟩
  · exact absurd (h _ hmem) (by simp [Event.isStop])

/-- The rule for a regular pattern never gives up. -/
theorem apply_of_isRegular (s : Styler) (hk : k.pattern.regex.isRegular = true)
    (h : k.Makes us us') : (k.rule s).apply (Mark.buffers s us) = Mark.buffers s us' := by
  obtain ⟨e, ps, hreads, hedit, rfl | ⟨_, hregular, _⟩⟩ := k.edit_buffers s us
  · rw [h.unique ⟨ps, hreads, rfl⟩]
    exact apply_of_edit hedit
  · exact absurd (hk.symm.trans hregular) (by decide)

end Lexeme.Kind

/-- The rows at the beginning and after each rule, and the last of them. -/
inductive Rows : List Kind → List Mark → List (List Mark) → List Mark → Prop
  | nil (us : List Mark) : Rows [] us [us] us
  | cons {k : Kind} {ks : List Kind} {us us' final : List Mark} {rows : List (List Mark)}
      (h : k.Makes us us') (later : Rows ks us' rows final) : Rows (k :: ks) us (us :: rows) final

namespace Rows

theorem unique {ks : List Kind} {us final final' : List Mark} {rows rows' : List (List Mark)}
    (h : Rows ks us rows final) (h' : Rows ks us rows' final') : rows = rows' ∧ final = final' := by
  induction h generalizing rows' final' with
  | nil =>
    cases h'
    exact ⟨rfl, rfl⟩
  | cons hmakes _ ih =>
    cases h' with
    | cons hmakes' later' =>
      obtain rfl := hmakes.unique hmakes'
      obtain ⟨rfl, rfl⟩ := ih later'
      exact ⟨rfl, rfl⟩

end Rows

namespace Engine

/-- A run in which no search gives up goes through rows, which every styler shows in its own way. -/
theorem exists_rows (s : Styler) (ks : List Kind) (us : List Mark)
    (h : ∀ ev ∈ eventsFrom (ks.map (Kind.rule s)) (Mark.buffers s us), ev.isStop = false) :
    ∃ rows final, Rows ks us rows final ∧
      states (ks.map (Kind.rule s)) (Mark.buffers s us) = rows.map (Mark.buffers s) ∧
      run (ks.map (Kind.rule s)) (Mark.buffers s us) = Mark.buffers s final := by
  induction ks generalizing us with
  | nil => exact ⟨[us], us, .nil us, rfl, rfl⟩
  | cons k ks ih =>
    rw [List.map_cons, eventsFrom] at h
    obtain ⟨us', hmakes, happly⟩ :=
      k.exists_makes s us fun ev hev => h ev (List.mem_append_left _ hev)
    rw [happly] at h
    obtain ⟨rows, final, hrows, hstates, hrun⟩ :=
      ih us' fun ev hev => h ev (List.mem_append_right _ hev)
    refine ⟨us :: rows, final, .cons hmakes hrows, ?_, ?_⟩
    · rw [List.map_cons, states, happly, hstates, List.map_cons]
    · rw [List.map_cons, run_cons, happly, hrun]

end Engine

namespace Language

/-- A run of an input in which no search gives up goes through rows. -/
theorem exists_run {s : Styler} {l : Language} {input : Text}
    (h : (l.engine s).NeverStops input) :
    ∃ rows final, Rows l.kinds (Mark.ofText input.trim) rows final ∧
      Engine.states (l.regexRules s) (Buffers.ofInput input) = rows.map (Mark.buffers s) ∧
      Engine.run (l.regexRules s) (Buffers.ofInput input) = Mark.buffers s final := by
  have hinput : Buffers.ofInput input = Mark.buffers s (Mark.ofText input.trim) :=
    (Mark.buffers_ofText s _).symm
  rw [regexRules_eq, hinput]
  apply Engine.exists_rows
  intro ev hev
  apply h ev
  rw [Engine.events, engine, Engine.eventsFrom_append, regexRules_eq, hinput]
  exact List.mem_append_left _ hev

/-- The rows of an input that is formatted without a search that gives up. -/
theorem exists_rows {s : Styler} {l : Language} {input : Text}
    (h : (l.engine s).NeverStops input) :
    ∃ rows final, Rows l.kinds (Mark.ofText input.trim) rows final ∧
      Engine.states (l.regexRules s) (Buffers.ofInput input) = rows.map (Mark.buffers s) ∧
      (l.engine s).format input = s.outer (final.flatMap (Mark.text s)) := by
  obtain ⟨rows, final, hrows, hstates, hrun⟩ := exists_run h
  refine ⟨rows, final, hrows, hstates, ?_⟩
  rw [format_engine, hrun, Mark.buffers_result]

end Language

end Highlighter
