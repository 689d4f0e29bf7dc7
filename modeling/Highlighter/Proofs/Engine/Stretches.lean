import Highlighter.Proofs.Rule.Editing
import Highlighter.Proofs.Rule.Tiles

/-! What becomes of the text that a rule has put in. Each later substitution takes up a stretch of it
as a whole or leaves it as it is, and never cuts through it, if the matches of all rules but the
first begin and end with characters that are no spaces. -/
namespace Highlighter

/-- A text that was put in and the byte of the result at which it begins. -/
structure Stretch where
  start : Nat
  text : Text
  deriving DecidableEq, Repr

namespace Stretch

def stop (p : Stretch) : Nat := p.start + p.text.byteLength

/-- The stretch stands in the text where it says. -/
def StandsIn (p : Stretch) (t : Text) : Prop :=
  ∃ front tail, t = front ++ p.text ++ tail ∧ front.byteLength = p.start

end Stretch

namespace Substitution

/-- The range holds the whole stretch. -/
def Contains (s : Substitution) (p : Stretch) : Prop := s.start ≤ p.start ∧ p.stop ≤ s.stop

/-- The range and the stretch lie one beside the other. -/
def Misses (s : Substitution) (p : Stretch) : Prop := p.stop ≤ s.start ∨ s.stop ≤ p.start

instance (s : Substitution) (p : Stretch) : Decidable (s.Contains p) :=
  inferInstanceAs (Decidable (_ ∧ _))

instance (s : Substitution) (p : Stretch) : Decidable (s.Misses p) :=
  inferInstanceAs (Decidable (_ ∨ _))

/-- Where a stretch is after the substitution. One that the range holds is part of what is put in
from then on. -/
def move? (s : Substitution) (p : Stretch) : Option Stretch :=
  if s.Contains p then none
  else if p.stop ≤ s.start then some p
  else some { p with start := p.start - s.stop + (s.start + s.replacement.byteLength) }

theorem move?_eq_some {s : Substitution} {p q : Stretch} (h : s.move? p = some q) :
    ¬ s.Contains p ∧ (p.stop ≤ s.start ∧ q = p ∨
      ¬ p.stop ≤ s.start ∧
        q = { p with start := p.start - s.stop + (s.start + s.replacement.byteLength) }) := by
  unfold move? at h
  by_cases hc : s.Contains p
  · rw [if_pos hc] at h
    exact absurd h (by simp)
  · rw [if_neg hc] at h
    refine ⟨hc, ?_⟩
    by_cases hle : p.stop ≤ s.start
    · rw [if_pos hle] at h
      exact Or.inl ⟨hle, (Option.some.inj h).symm⟩
    · rw [if_neg hle] at h
      exact Or.inr ⟨hle, (Option.some.inj h).symm⟩

/-- The stretches after the substitution. -/
def after (live : List Stretch) (s : Substitution) : List Stretch :=
  ⟨s.start, s.replacement⟩ :: live.filterMap s.move?

/-- Where the range holds every stretch, only what is put in is left. -/
theorem after_of_contains {live : List Stretch} {s : Substitution} (h : ∀ p ∈ live, s.Contains p) :
    after live s = [⟨s.start, s.replacement⟩] := by
  have hgone : live.filterMap s.move? = [] := by
    rw [List.filterMap_eq_nil_iff]
    intro p hp
    rw [move?, if_pos (h p hp)]
  rw [after, hgone]

/-- No substitution cuts through a stretch that stands at its time. -/
def NeverCut : List Stretch → List Substitution → Prop
  | _, [] => True
  | live, s :: log => (∀ p ∈ live, s.Contains p ∨ s.Misses p) ∧ NeverCut (after live s) log

theorem neverCut_append {live : List Stretch} {log log' : List Substitution}
    (h : NeverCut live log) (h' : NeverCut (log.foldl after live) log') :
    NeverCut live (log ++ log') := by
  induction log generalizing live with
  | nil => exact h'
  | cons s log ih => exact ⟨h.1, ih h.2 h'⟩

end Substitution

namespace Tile

open Substitution

/-- The stretch is a block of the row. -/
def Lies (ts : List Tile) (p : Stretch) : Prop :=
  ∃ front tail, ts = front ++ block p.text :: tail ∧ size front = p.start

theorem Lies.standsIn {ts : List Tile} {p : Stretch} (h : Lies ts p) :
    p.StandsIn (ts.flatMap shown) := by
  obtain ⟨front, tail, rfl, hsize⟩ := h
  refine ⟨front.flatMap shown, tail.flatMap shown, ?_, hsize⟩
  simp only [List.flatMap_append, List.flatMap_cons, shown, List.append_assoc]

theorem Lies.append_right {a : List Tile} {p : Stretch} (h : Lies a p) (b : List Tile) :
    Lies (a ++ b) p := by
  obtain ⟨front, tail, rfl, hsize⟩ := h
  exact ⟨front, tail ++ b, by simp only [List.append_assoc, List.cons_append], hsize⟩

theorem Lies.append_left {b : List Tile} {q : Stretch} (h : Lies b q) (a : List Tile) :
    Lies (a ++ b) ⟨size a + q.start, q.text⟩ := by
  obtain ⟨front, tail, rfl, hsize⟩ := h
  exact ⟨a ++ front, tail, by simp only [List.append_assoc], by rw [size_append, hsize]⟩

theorem Lies.stop_le {a : List Tile} {p : Stretch} (h : Lies a p) : p.stop ≤ size a := by
  obtain ⟨front, tail, rfl, hsize⟩ := h
  rw [Stretch.stop, size_append, size_block_cons]
  omega

/-- A block of two rows lies in the first or in the second. -/
theorem Lies.of_append {a b : List Tile} {p : Stretch} (h : Lies (a ++ b) p) :
    Lies a p ∨ ∃ q, Lies b q ∧ p = ⟨size a + q.start, q.text⟩ := by
  obtain ⟨front, tail, hsplit, hsize⟩ := h
  rcases List.append_eq_append_iff.mp hsplit with ⟨x, rfl, hb⟩ | ⟨x, rfl, hb⟩
  · right
    refine ⟨⟨size x, p.text⟩, ⟨x, tail, hb, rfl⟩, ?_⟩
    obtain ⟨start, text⟩ := p
    rw [size_append] at hsize
    rw [hsize]
  · cases x with
    | nil =>
      right
      refine ⟨⟨0, p.text⟩, ⟨[], tail, hb.symm, rfl⟩, ?_⟩
      obtain ⟨start, text⟩ := p
      rw [List.append_nil, Nat.add_zero, hsize]
    | cons t x =>
      left
      obtain ⟨rfl, _⟩ := List.cons.inj hb
      exact ⟨front, x, rfl, hsize⟩

/-- A slice of a row becomes a block: every block lies in the slice or beside it, and the blocks
beside it move with the tiles around them. -/
theorem lies_after (kept slice ts : List Tile) (t : Text) {p : Stretch}
    (h : Lies (kept ++ slice ++ ts) p) :
    let s : Substitution := ⟨size kept, size kept + size slice, t⟩
    (s.Contains p ∨ s.Misses p) ∧ ∀ q, s.move? p = some q → Lies (kept ++ block t :: ts) q := by
  intro s
  rcases h.of_append with hfront | ⟨q, hq, rfl⟩
  · rcases hfront.of_append with hkept | ⟨q, hq, rfl⟩
    · -- A block before the slice stays where it is.
      have hstop := hkept.stop_le
      refine ⟨Or.inr (Or.inl hstop), fun q hq => ?_⟩
      rcases (move?_eq_some hq).2 with ⟨_, rfl⟩ | ⟨hnot, _⟩
      · exact hkept.append_right _
      · exact absurd hstop hnot
    · -- A block of the slice becomes part of the new one.
      have hstop := hq.stop_le
      have hcontains : s.Contains ⟨size kept + q.start, q.text⟩ := by
        refine ⟨Nat.le_add_right _ _, ?_⟩
        unfold Stretch.stop at hstop ⊢
        dsimp only [s]
        omega
      exact ⟨Or.inl hcontains, fun r hr => absurd hcontains (move?_eq_some hr).1⟩
  · refine ⟨Or.inr (Or.inr ?_), fun r hr => ?_⟩
    · dsimp only [s]
      rw [size_append]
      omega
    · obtain ⟨hnot, hplace⟩ := move?_eq_some hr
      rw [size_append] at hnot hplace
      rcases hplace with ⟨hle, _⟩ | ⟨_, rfl⟩
      · -- Only a block of no bytes stops there, and then the range holds it.
        exfalso
        apply hnot
        unfold Stretch.stop at hle
        unfold Contains Stretch.stop
        dsimp only [s] at hle ⊢
        omega
      · have hlater := (hq.append_left [block t]).append_left kept
        have hblock : size [block t] = t.byteLength := by
          rw [size_block_cons, size_nil, Nat.add_zero]
        have hstart : size kept + size slice + q.start - s.stop +
            (s.start + s.replacement.byteLength) = size kept + (size [block t] + q.start) := by
          rw [hblock]
          dsimp only [s]
          omega
        dsimp only at hlater ⊢
        rwa [hstart]

/-- A row that is rewritten behind `front` cuts through none of its blocks, and its stretches are
blocks of the new row. -/
theorem Rewrites.neverCut {handler : Handler} {place : Nat} {ts ts' : List Tile}
    {log : List Substitution} (h : Rewrites handler place ts ts' log) (front : List Tile)
    (hplace : place = size front) (live : List Stretch) (hlive : ∀ p ∈ live, Lies (front ++ ts) p) :
    NeverCut live log ∧ ∀ p ∈ log.foldl after live, Lies (front ++ ts') p := by
  -- Step by step the front of the row takes up what has been rewritten.
  induction h generalizing front live with
  | stop => exact ⟨trivial, hlive⟩
  | @step place kept slice ts ts' log later ih =>
    subst hplace
    have hstep (p : Stretch) (hp : p ∈ live) :=
      lies_after (front ++ kept) slice ts (handler (slice.flatMap shown)) (p := p)
        (by simpa only [List.append_assoc] using hlive p hp)
    rw [size_append] at hstep
    have hsize : size front + size kept + (handler (slice.flatMap shown)).byteLength =
        size (front ++ kept ++ [block (handler (slice.flatMap shown))]) := by
      rw [size_append, size_append, size_block_cons, size_nil, Nat.add_zero]
    have hnow : ∀ p ∈ after live ⟨size front + size kept, size front + size kept + size slice,
        handler (slice.flatMap shown)⟩,
        Lies (front ++ kept ++ [block (handler (slice.flatMap shown))] ++ ts) p := by
      intro p hp
      have happend : front ++ kept ++ [block (handler (slice.flatMap shown))] ++ ts =
          front ++ kept ++ block (handler (slice.flatMap shown)) :: ts := by
        rw [List.append_assoc (front ++ kept), List.singleton_append]
      rw [happend]
      rcases List.mem_cons.mp hp with rfl | hp
      · exact ⟨front ++ kept, ts, rfl, size_append front kept⟩
      · obtain ⟨q, hq, hmove⟩ := List.mem_filterMap.mp hp
        exact (hstep q hq).2 p hmove
    obtain ⟨hcut, hlies⟩ := ih _ hsize _ hnow
    refine ⟨⟨fun p hp => (hstep p hp).1, hcut⟩, fun p hp => ?_⟩
    simpa only [List.append_assoc, List.singleton_append] using hlies p hp

/-- A text stands as a whole in one of the blocks. -/
def Holds (ts : List Tile) (t : Text) : Prop := ∃ u, block u ∈ ts ∧ t <:+: u

theorem Holds.infix_shown {ts : List Tile} {t : Text} (h : Holds ts t) :
    t <:+: ts.flatMap shown := by
  obtain ⟨u, hu, ht⟩ := h
  obtain ⟨front, tail, rfl⟩ := List.append_of_mem hu
  refine ht.trans ⟨front.flatMap shown, tail.flatMap shown, ?_⟩
  simp only [List.flatMap_append, List.flatMap_cons, shown, List.append_assoc]

/-- Where the handler keeps what it is given, the new row still holds what the old one held, and it
holds what was put in. -/
theorem Rewrites.holds {handler : Handler} (hk : ∀ t, t <:+: handler t) {place : Nat}
    {ts ts' : List Tile} {log : List Substitution} (h : Rewrites handler place ts ts' log) :
    (∀ t, Holds ts t → Holds ts' t) ∧ ∀ s ∈ log, Holds ts' s.replacement := by
  induction h with
  | stop => exact ⟨fun _ ht => ht, fun _ hs => absurd hs (by simp)⟩
  | @step place kept slice ts ts' log later ih =>
    obtain ⟨hold, hnew⟩ := ih
    have hlater (t : Text) (ht : Holds ts' t) :
        Holds (kept ++ block (handler (slice.flatMap shown)) :: ts') t := by
      obtain ⟨u, hu, ht⟩ := ht
      exact ⟨u, List.mem_append_right _ (List.mem_cons_of_mem _ hu), ht⟩
    refine ⟨?_, ?_⟩
    · rintro t ⟨u, hu, ht⟩
      rcases List.mem_append.mp hu with hu | hu
      · rcases List.mem_append.mp hu with hu | hu
        · exact ⟨u, List.mem_append_left _ hu, ht⟩
        · have hslice : t <:+: slice.flatMap shown := Holds.infix_shown ⟨u, hu, ht⟩
          exact ⟨_, List.mem_append_right _ List.mem_cons_self, hslice.trans (hk _)⟩
      · exact hlater t (hold t ⟨u, hu, ht⟩)
    · intro s hs
      rcases List.mem_cons.mp hs with rfl | hs
      · exact ⟨_, List.mem_append_right _ List.mem_cons_self, List.infix_refl _⟩
      · exact hlater _ (hnew s hs)

/-- Both texts as a row shows them. -/
def buffers (ts : List Tile) : Buffers := ⟨ts.flatMap shown, ts.flatMap seen⟩

theorem aligned_buffers (ts : List Tile) : (buffers ts).Aligned := (byteLength_seen ts).symm

/-- A text that no rule has worked on. -/
def ofText (t : Text) : List Tile := t.map char

theorem buffers_ofText (t : Text) : buffers (ofText t) = ⟨t, t⟩ := by
  have hshown : (ofText t).flatMap shown = t := by
    simp only [ofText, List.flatMap_map, shown, List.flatMap_singleton']
  have hseen : (ofText t).flatMap seen = t := by
    simp only [ofText, List.flatMap_map, seen, List.flatMap_singleton']
  rw [buffers, hshown, hseen]

/-- A rule for a pattern that fits rewrites the row. -/
theorem edit_buffers {pattern : Pattern} (handler : Handler) {ts : List Tile}
    (hfits : Fits pattern ts) :
    ∃ ts' ending log, (Rule.regex pattern handler).edit (buffers ts) =
      .ok ⟨buffers ts', ending, log⟩ ∧ Rewrites handler 0 ts ts' log := by
  obtain ⟨log, hrun, hscan⟩ := Rule.edit_regex pattern handler (aligned_buffers ts)
    (Rule.searchBound pattern (buffers ts))
  obtain ⟨ts', hresult, hremainder, hlog⟩ := rewrites_of_scans hscan [] ts rfl rfl rfl hfits
  have hbuffers : (Rule.scanWithin pattern handler (Rule.searchBound pattern (buffers ts))
      (buffers ts)).buffers = buffers ts' := congrArg₂ Buffers.mk hresult hremainder
  rw [hbuffers] at hrun
  exact ⟨ts', _, log, hrun, hlog⟩

end Tile

/-- The rule keeps the text that it works on within what it makes of it. -/
def Rule.Keeps : Rule → Prop
  | regex _ handler | wholeText handler => ∀ t, t <:+: handler t

/-- Rules that meet a row of tiles only between its tiles: the first one finds its pattern there, the
others find only what begins and ends with no space, and a rule for the whole text is the last. -/
structure Engine.Layered (rules : List Rule) (ts : List Tile) : Prop where
  first : ∀ pattern handler, rules.head? = some (.regex pattern handler) → Tile.Fits pattern ts
  later : ∀ pattern handler, .regex pattern handler ∈ rules.tail → pattern.Solid
  wholeTextLast : ∀ r ∈ rules.dropLast, r.isWholeText = false

namespace Engine

open Tile Substitution

theorem Layered.tail {r : Rule} {rules : List Rule} {ts : List Tile} (h : Layered (r :: rules) ts)
    (ts' : List Tile) : Layered rules ts' where
  first pattern handler hhead :=
    Or.inl (h.later pattern handler (List.mem_of_mem_head? hhead))
  later pattern handler hmem := h.later pattern handler (List.mem_of_mem_tail hmem)
  wholeTextLast r' hr' := by
    cases rules with
    | nil => exact absurd hr' (by simp)
    | cons r'' rules =>
      apply h.wholeTextLast r'
      rw [List.dropLast_cons_of_ne_nil (List.cons_ne_nil r'' rules)]
      exact List.mem_cons_of_mem r hr'

/-- A rule for the whole text is the last one. -/
theorem Layered.nil_of_wholeText {handler : Handler} {rules : List Rule} {ts : List Tile}
    (h : Layered (.wholeText handler :: rules) ts) : rules = [] := by
  cases rules with
  | nil => rfl
  | cons r rules =>
    have hr := h.wholeTextLast (.wholeText handler) (by
      rw [List.dropLast_cons_of_ne_nil (List.cons_ne_nil r rules)]
      exact List.mem_cons_self)
    exact absurd hr (by simp [Rule.isWholeText])

theorem Layered.editFrom_wholeText {handler : Handler} {rules : List Rule} {ts : List Tile}
    (h : Layered (.wholeText handler :: rules) ts) {b : Buffers} {ds : List Edited}
    (hds : editFrom (.wholeText handler :: rules) b = .ok ds) :
    ds = [⟨⟨handler b.result, handler b.result⟩, .noMatch,
      [⟨0, b.result.byteLength, handler b.result⟩]⟩] := by
  obtain rfl := h.nil_of_wholeText
  obtain ⟨more, rfl, hmore⟩ := editFrom_cons_of_ok rfl hds
  cases hmore
  rfl

/-- Layered rules cut through no stretch, and at the end every stretch stands where it says. -/
theorem neverCut_editFrom {rules : List Rule} {ts : List Tile} (h : Layered rules ts)
    {live : List Stretch} (hlive : ∀ p ∈ live, Lies ts p) {ds : List Edited}
    (hds : editFrom rules (buffers ts) = .ok ds) :
    NeverCut live (ds.flatMap Edited.log) ∧
      ∀ p ∈ (ds.flatMap Edited.log).foldl after live,
        p.StandsIn (lastOf ds (buffers ts)).result := by
  induction rules generalizing ts live ds with
  | nil =>
    cases hds
    exact ⟨trivial, fun p hp => (hlive p hp).standsIn⟩
  | cons r rules ih =>
    cases r with
    | regex pattern handler =>
      obtain ⟨ts', ending, log, hedit, hrewrites⟩ := edit_buffers handler
        (h.first pattern handler rfl)
      obtain ⟨more, rfl, hmore⟩ := editFrom_cons_of_ok hedit hds
      obtain ⟨hcut, hlies⟩ := hrewrites.neverCut [] rfl live hlive
      obtain ⟨hcut', hstands⟩ := ih (h.tail ts') hlies hmore
      rw [List.flatMap_cons, List.foldl_append, lastOf_cons]
      exact ⟨neverCut_append hcut hcut', hstands⟩
    | wholeText handler =>
      obtain rfl := h.editFrom_wholeText hds
      have hcontains (p : Stretch) (hp : p ∈ live) :
          Substitution.Contains ⟨0, Tile.size ts, handler (buffers ts).result⟩ p :=
        ⟨Nat.zero_le _, (hlive p hp).stop_le⟩
      refine ⟨⟨fun p hp => Or.inl (hcontains p hp), trivial⟩, fun p hp => ?_⟩
      change p ∈ after live ⟨0, Tile.size ts, handler (buffers ts).result⟩ at hp
      rw [after_of_contains hcontains, List.mem_singleton] at hp
      subst hp
      exact ⟨[], [], by rw [List.nil_append, List.append_nil]; rfl, rfl⟩

/-- What is put in is found as a whole in every later result, where handlers keep what they are
given. -/
theorem infix_editFrom {rules : List Rule} {ts : List Tile} (h : Layered rules ts)
    (hk : ∀ r ∈ rules, r.Keeps) {ds : List Edited} (hds : editFrom rules (buffers ts) = .ok ds) :
    (∀ t, Holds ts t → ∀ d ∈ ds, t <:+: d.buffers.result) ∧
      ∀ front d back, ds = front ++ d :: back →
        ∀ s ∈ d.log, ∀ d' ∈ d :: back, s.replacement <:+: d'.buffers.result := by
  induction rules generalizing ts ds with
  | nil =>
    cases hds
    exact ⟨fun _ _ _ hd => absurd hd (by simp), fun _ _ _ hsplit => absurd hsplit (by simp)⟩
  | cons r rules ih =>
    have hkr := hk r List.mem_cons_self
    cases r with
    | regex pattern handler =>
      obtain ⟨ts', ending, log, hedit, hrewrites⟩ := edit_buffers handler
        (h.first pattern handler rfl)
      obtain ⟨more, rfl, hmore⟩ := editFrom_cons_of_ok hedit hds
      obtain ⟨hold, hnew⟩ := hrewrites.holds hkr
      obtain ⟨hlater, hsplits⟩ := ih (h.tail ts') (fun r hr => hk r (List.mem_cons_of_mem _ hr)) hmore
      have hall (t : Text) (ht : Holds ts' t) (d : Edited)
          (hd : d ∈ (⟨buffers ts', ending, log⟩ : Edited) :: more) : t <:+: d.buffers.result := by
        rcases List.mem_cons.mp hd with rfl | hd
        · exact ht.infix_shown
        · exact hlater t ht d hd
      refine ⟨fun t ht => hall t (hold t ht), fun front d back hsplit => ?_⟩
      cases front with
      | nil =>
        obtain ⟨rfl, rfl⟩ := List.cons.inj hsplit
        exact fun s hs => hall _ (hnew s hs)
      | cons d' front => exact hsplits front d back (List.cons.inj hsplit).2
    | wholeText handler =>
      obtain rfl := h.editFrom_wholeText hds
      refine ⟨fun t ht d hd => ?_, fun front d back hsplit => ?_⟩
      · rw [List.mem_singleton] at hd
        subst hd
        exact ht.infix_shown.trans (hkr _)
      · obtain ⟨rfl, hd⟩ := List.append_eq_cons_iff.mp hsplit.symm |>.resolve_right (by
          rintro ⟨_, _, hd⟩
          exact absurd hd (by simp))
        obtain ⟨rfl, rfl⟩ := List.cons.inj hd
        intro s hs d' hd'
        rw [List.mem_singleton] at hs hd'
        subst hs hd'
        exact List.infix_refl _

/-- An engine whose rules meet every text between its tiles: all patterns but the first find only
what begins and ends with no space, and a rule for the whole text is the last one. -/
structure Solid (e : Engine) : Prop where
  edges : ∀ pattern handler, .regex pattern handler ∈ e.rules.tail → pattern.Solid
  wholeTextLast : ∀ r ∈ e.rules.dropLast, r.isWholeText = false

theorem Solid.layered {e : Engine} (h : e.Solid) (t : Text) : Layered e.rules (ofText t) where
  first _ _ _ := Or.inr fun tile ht => by
    obtain ⟨c, _, rfl⟩ := List.mem_map.mp ht
    exact ⟨c, rfl⟩
  later := h.edges
  wholeTextLast := h.wholeTextLast

end Engine

end Highlighter
