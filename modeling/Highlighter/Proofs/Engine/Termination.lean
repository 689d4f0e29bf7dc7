import Highlighter.Proofs.Engine.Consumption
import Highlighter.Proofs.Markup.Reading

/-! Scans end, with no more searches than the remainder has bytes and one more. Both texts can grow
with every step, but what lies ahead of the cursor gets shorter (`ahead_lt_of_step`), unless an empty
match is replaced by something. -/
namespace Highlighter

namespace Editing

variable {pattern : Pattern} {handler : Handler} {e e' : Editing} {b : Buffers} {d : Edited}

/-- The number of bytes of the remainder at and after the cursor. -/
def ahead (e : Editing) : Nat := e.remainder.byteLength - e.cursor

theorem At.ahead_eq {left right done pending : Text} {gap : Nat}
    (h : e.At left right done gap pending) : e.ahead = right.byteLength := by
  rw [ahead, h.remainder, h.cursor, Text.byteLength_append, Text.byteLength_reverse,
    Nat.add_sub_cancel_left]

/-- A sound scan that is not over stands between two characters. -/
theorem Sound.exists_at (h : e.Sound) (hc : e.cursor ≤ e.remainder.byteLength) :
    ∃ left right done gap pending, e.At left right done gap pending := by
  rcases h with hat | ⟨_, hlt⟩
  · exact hat
  · omega

section Progress

variable (hprogress : pattern.NeverEmpty ∨ handler [] = [])

include hprogress

/-- A step comes past the end, or fewer bytes lie ahead after it. -/
theorem ahead_lt_of_step {done : List Substitution} (h : e.Sound)
    (hc : e.cursor ≤ e.remainder.byteLength)
    (hs : e.step pattern handler = .ok (.next e' done)) :
    e'.Sound ∧ (e'.remainder.byteLength < e'.cursor ∨ e'.ahead < e.ahead) := by
  obtain ⟨left, right, done', gap, pending, hat⟩ := h.exists_at hc
  rcases hat.step_cases pattern handler with ⟨_, hstop, _⟩ | hmoves
  · exact absurd (hs.symm.trans hstop) (by simp)
  · cases hmoves with
    | pastEnd hstep hb hlt =>
      obtain ⟨rfl, _⟩ := Step.next.inj (Except.ok.inj (hs.symm.trans hstep))
      exact ⟨Or.inr ⟨hb ▸ hat.aligned_buffers, hlt⟩, Or.inl hlt⟩
    | on hstep hat' hfound hright htaken =>
      obtain ⟨rfl, _⟩ := Step.next.inj (Except.ok.inj (hs.symm.trans hstep))
      refine ⟨hat'.sound, Or.inr ?_⟩
      -- Nothing is taken up only where an empty match is replaced by something.
      have hne := mt htaken fun hempty => hprogress.elim
        (fun hnever => hnever _ _ _ hfound hempty.1) fun hidle => hempty.2 hidle
      have hpos := Text.byteLength_pos_of_ne_nil hne
      rw [hat.ahead_eq, hat'.ahead_eq, hright, Text.byteLength_append]
      omega

/-- A scan that may make a search for each byte ahead and one more comes to its end. -/
theorem exists_run_of_ahead_lt (h : e.Sound) {n : Nat}
    (hn : e.remainder.byteLength < e.cursor ∨ e.ahead < n) :
    ∃ d, run pattern handler n e = .ok d ∧ d.ending ≠ .cutOff := by
  induction n generalizing e with
  | zero =>
    have hover : e.remainder.byteLength < e.cursor := hn.resolve_right (Nat.not_lt_zero _)
    exact ⟨_, run_of_lt hover 0, Ending.noConfusion⟩
  | succ n ih =>
    by_cases hc : e.cursor ≤ e.remainder.byteLength
    · have hless := hn.resolve_left (Nat.not_lt.mpr hc)
      rw [run_succ hc]
      obtain ⟨left, right, done, gap, pending, hat⟩ := h.exists_at hc
      rcases hat.step_cases pattern handler with ⟨ending, hstop, hne⟩ | hmoves
      · rw [hstop]
        exact ⟨_, rfl, hne⟩
      · obtain ⟨e', here, hstep⟩ : ∃ e' here, e.step pattern handler = .ok (.next e' here) := by
          cases hmoves with
          | pastEnd hstep | on hstep => exact ⟨_, _, hstep⟩
        obtain ⟨hsound, hlater⟩ := ahead_lt_of_step hprogress h hc hstep
        obtain ⟨d, hd, hne⟩ := ih hsound (hlater.imp_right fun hlt => by omega)
        rw [hstep]
        dsimp only
        rw [hd]
        exact ⟨_, rfl, hne⟩
    · exact ⟨_, run_of_lt (Nat.lt_of_not_le hc) _, Ending.noConfusion⟩

end Progress

/-- A scan that has come to its end does not need any further searches. -/
theorem run_of_le {n n' : Nat} (hn : n ≤ n') (h : run pattern handler n e = .ok d)
    (hd : d.ending ≠ .cutOff) : run pattern handler n' e = .ok d := by
  induction n generalizing n' e d with
  | zero =>
    unfold run at h
    split at h
    · rename_i hover
      rw [run_of_lt hover, h]
    · exact absurd (congrArg Edited.ending (Except.ok.inj h)).symm hd
  | succ n ih =>
    obtain ⟨n', rfl⟩ := Nat.exists_eq_add_of_le' (Nat.le_trans (Nat.succ_le_succ n.zero_le) hn)
    by_cases hc : e.cursor ≤ e.remainder.byteLength
    · rw [run_succ hc] at h ⊢
      cases hs : e.step pattern handler with
      | error fault =>
        rw [hs] at h
        exact absurd h (by simp)
      | ok s =>
        rw [hs] at h
        cases s with
        | stop ending => exact h
        | next e' done =>
          dsimp only at h ⊢
          cases hlater : run pattern handler n e' with
          | error fault =>
            rw [hlater] at h
            exact absurd h (by simp [Except.map])
          | ok d' =>
            rw [hlater] at h
            obtain rfl := Except.ok.inj h
            rw [ih (Nat.le_of_succ_le_succ hn) hlater hd]
            rfl
    · rw [run_of_lt (Nat.lt_of_not_le hc)] at h ⊢
      exact h

end Editing

namespace Rule

variable {pattern : Pattern} {handler : Handler} {b : Buffers} {d : Edited}

/-- What a scan makes that ends after any number of searches is what the rule makes. -/
theorem edit_of_run (hb : b.Aligned) {n : Nat}
    (h : Editing.run pattern handler n (Editing.start b) = .ok d) (hd : d.ending ≠ .cutOff) :
    (regex pattern handler).edit b = .ok d := by
  obtain ⟨log, hrun, _⟩ := edit_regex pattern handler hb n
  obtain ⟨log', hall, _⟩ := edit_regex pattern handler hb (searchBound pattern b)
  have hends : (scanWithin pattern handler n b).ending ≠ .cutOff := by
    obtain rfl := Except.ok.inj (hrun.symm.trans h)
    exact hd
  have hends' : (scanAll pattern handler b).ending ≠ .cutOff := by
    rw [(apply_eq_of_ends hends).2]
    exact hends
  have hmost := Editing.run_of_le (Nat.le_max_left n (searchBound pattern b)) h hd
  have hmost' := Editing.run_of_le (Nat.le_max_right n (searchBound pattern b)) hall hends'
  exact hall.trans (hmost'.symm.trans hmost)

/-- A rule that takes up some text with every match, or leaves the empty text as it is, makes no more
searches than the remainder has bytes and one more. -/
theorem exists_edit (hprogress : pattern.NeverEmpty ∨ handler [] = []) (hb : b.Aligned) :
    ∃ d, (regex pattern handler).edit b = .ok d ∧ d.ending ≠ .cutOff ∧
      ∀ n, b.remainder.byteLength + 1 ≤ n →
        Editing.run pattern handler n (Editing.start b) = .ok d := by
  have hsound := (Editing.at_start hb).sound
  have hahead : (Editing.start b).ahead < b.remainder.byteLength + 1 := by
    rw [(Editing.at_start hb).ahead_eq]
    exact Nat.lt_succ_self _
  obtain ⟨d, hd, hne⟩ := Editing.exists_run_of_ahead_lt hprogress hsound (Or.inr hahead)
  exact ⟨d, edit_of_run hb hd hne, hne, fun n hn => Editing.run_of_le hn hd hne⟩

end Rule

namespace Engine

/-- What the edits of some rules make of a state is what its rule makes. -/
theorem edit_of_editFrom {rules : List Rule} {b b' : Buffers} {ds : List Edited} (hb : b.Aligned)
    (hds : editFrom rules b = .ok ds) {i : Nat} {r : Rule} {d : Edited} (hr : rules[i]? = some r)
    (hb' : (states rules b)[i]? = some b') (hd : ds[i]? = some d) :
    b'.Aligned ∧ r.edit b' = .ok d := by
  obtain ⟨ha, hdrop, _⟩ := editFrom_drop hb hds hb'
  obtain ⟨hi, rfl⟩ := List.getElem?_eq_some_iff.mp hr
  obtain ⟨hi', rfl⟩ := List.getElem?_eq_some_iff.mp hd
  refine ⟨ha, ?_⟩
  rw [List.drop_eq_getElem_cons hi, List.drop_eq_getElem_cons hi'] at hdrop
  obtain ⟨d, hedit, _⟩ := (rules[i]).edit_eq ha
  obtain ⟨more, hmore, _⟩ := editFrom_cons_of_ok hedit hdrop
  rw [(List.cons.inj hmore).1]
  exact hedit

end Engine

namespace Language

open Lexeme

/-- No rule of a language matches the empty text. -/
theorem neverEmpty_of_mem_rules {s : Styler} {l : Language} {pattern : Pattern} {handler : Handler}
    (h : Rule.regex pattern handler ∈ (l.engine s).rules) : pattern.NeverEmpty := by
  rcases List.mem_append.mp h with h | h
  · rw [regexRules_eq] at h
    obtain ⟨k, _, hk⟩ := List.mem_map.mp h
    obtain ⟨rfl, _⟩ := Rule.regex.inj hk
    exact fun _ _ _ hfound => Kind.matched_ne_nil hfound
  · exact absurd (List.mem_singleton.mp h) (by simp [outerRule])

end Language

namespace Rule

/-- Every scan ends whose pattern never matches the empty text or whose handler leaves the empty text
as it is. On texts of the same length each step that does not come past the end leaves fewer bytes of
the remainder ahead of the cursor; so one search for each byte of the remainder and one more are
enough, and any more change nothing. The rules of both languages are such rules, whatever the styler
and the input, so that every formatting and every trace ends. -/
theorem scan_ends_within_bytes :
    (∀ (pattern : Pattern) (handler : Handler), pattern.NeverEmpty ∨ handler [] = [] →
      ∀ b : Buffers, b.Aligned →
        (∀ e e' done, Editing.Reached pattern handler b e → e.cursor ≤ e.remainder.byteLength →
          e.step pattern handler = .ok (.next e' done) →
            e'.remainder.byteLength < e'.cursor ∨ e'.ahead < e.ahead) ∧
        ∃ d, (regex pattern handler).edit b = .ok d ∧ d.ending ≠ .cutOff ∧
          d.buffers = (regex pattern handler).apply b ∧
          ∀ n, b.remainder.byteLength + 1 ≤ n →
            Editing.run pattern handler n (Editing.start b) = .ok d) ∧
    ∀ (s : Styler) (l : Language) (input : Text), ∃ ds, (l.engine s).edit input = .ok ds ∧
      Buffers.ofInput input :: ds.map Edited.buffers = (l.engine s).trace input ∧
      (l.engine s).format input = (Engine.lastOf ds (Buffers.ofInput input)).result ∧
      ∀ (i : Nat) (pattern : Pattern) (handler : Handler) (b : Buffers) (d : Edited),
        (l.engine s).rules[i]? = some (regex pattern handler) →
        ((l.engine s).trace input)[i]? = some b → ds[i]? = some d →
          d.ending ≠ .cutOff ∧ ∀ n, b.remainder.byteLength + 1 ≤ n →
            Editing.run pattern handler n (Editing.start b) = .ok d := by
  constructor
  · intro pattern handler hprogress b hb
    refine ⟨fun e e' done he hc hs => (Editing.ahead_lt_of_step hprogress (he.sound hb) hc hs).2, ?_⟩
    obtain ⟨d, hd, hne, hrun⟩ := exists_edit hprogress hb
    obtain ⟨d', hd', hbuffers, _⟩ := (regex pattern handler).edit_eq hb
    obtain rfl := Except.ok.inj (hd.symm.trans hd')
    exact ⟨d, hd, hne, hbuffers, hrun⟩
  · intro s l input
    have hinput := Engine.aligned_ofInput input
    obtain ⟨ds, hds, hstates, hrun⟩ := Engine.editFrom_eq (l.engine s).rules hinput
    refine ⟨ds, hds, hstates, congrArg Buffers.result hrun, ?_⟩
    intro i pattern handler b d hr hb hd
    obtain ⟨ha, hedit⟩ := Engine.edit_of_editFrom hinput hds hr hb hd
    have hprogress : pattern.NeverEmpty ∨ handler [] = [] :=
      Or.inl (Language.neverEmpty_of_mem_rules (List.mem_of_getElem? hr))
    obtain ⟨d', hd', hne, hrun⟩ := exists_edit hprogress ha
    obtain rfl := Except.ok.inj (hd'.symm.trans hedit)
    exact ⟨hne, hrun⟩

/-- A pattern that matches the empty text everywhere, also inside a character of the result, and a
handler that makes every other match three times as long. -/
theorem scan_ends_within_bytes_of_tripling :
    let pattern : Pattern := ⟨"a*", .many (.single 'a') true⟩
    let handler : Handler := fun t => t ++ t ++ t
    let b : Buffers := ⟨"aé€", "aé   "⟩
    let e' : Editing := ⟨"aaaé€", "   é   ", 3⟩
    handler [] = [] ∧ b.Aligned ∧ Editing.Reached pattern handler b (Editing.start b) ∧
      (Editing.start b).step pattern handler = .ok (.next e' [⟨0, 1, "aaa"⟩]) ∧
      e'.ahead < (Editing.start b).ahead ∧
      ∃ d, (regex pattern handler).edit b = .ok d ∧ d.ending ≠ .cutOff ∧
        d.buffers = (regex pattern handler).apply b ∧
        ∀ n, 7 ≤ n → Editing.run pattern handler n (Editing.start b) = .ok d := by
  intro pattern handler b e'
  have hhandler : handler [] = [] := rfl
  have hb : b.Aligned := by decide
  have hreached : Editing.Reached pattern handler b (Editing.start b) := .start
  have hfound : pattern.search [] b.remainder = .found ⟨[], ['a'], "é   "⟩ := by decide +kernel
  have hat : (Editing.start b).At [] b.remainder [] 0 ([] ++ ['a'] ++ ['é', '€']) :=
    Editing.at_start hb
  have hstep : (Editing.start b).step pattern handler = .ok (.next e' [⟨0, 1, "aaa"⟩]) :=
    (hat.step_of_slice handler hfound rfl rfl).trans rfl
  obtain ⟨hless, d, hd⟩ := scan_ends_within_bytes.1 pattern handler (Or.inr hhandler) b hb
  have hahead := hless _ e' _ hreached (by decide) hstep
  exact ⟨hhandler, hb, hreached, hstep, hahead.resolve_left (by decide), d, hd⟩

end Rule

end Highlighter
