import Highlighter.Proofs.Engine.Stretches
import Highlighter.Proofs.Lexeme.Kind

/-! A text with its markup as a row of marks: characters, which are clear until a rule has replaced
them, and tags. The row does not say how a styler writes the tags; each styler shows it in its own
way, and all stylers show the same characters. -/
namespace Highlighter

inductive Mark where
  | char (c : Char) (clear : Bool)
  | tag (t : Tag)
  deriving DecidableEq, Repr

namespace Mark

/-- What the result shows of a mark. -/
def text (s : Styler) : Mark → Text
  | char c _ => [c]
  | tag t => t.text s

/-- A clear character is seen as it is; all other marks are blank. -/
def tile (s : Styler) : Mark → Tile
  | char c true => .char c
  | m => .block (m.text s)

/-- What the remainder shows of a mark. -/
def seen (s : Styler) (m : Mark) : Text := (m.tile s).seen

/-- The character that a mark stands for in the remainder. -/
def sym : Mark → Char
  | char c true => c
  | _ => ' '

/-- The mark after a rule has replaced it. -/
def hide : Mark → Mark
  | char c _ => char c false
  | m => m

/-- Both texts as a styler shows them. -/
def buffers (s : Styler) (us : List Mark) : Buffers := Tile.buffers (us.map (tile s))

/-- A text that no rule has worked on. -/
def ofText (t : Text) : List Mark := t.map (char · true)

/-- The characters of a row. -/
def chars (us : List Mark) : Text := us.flatMap fun
  | char c _ => [c]
  | tag _ => []

variable {s : Styler} {us : List Mark}

theorem shown_tile (s : Styler) (m : Mark) : (m.tile s).shown = m.text s := by
  unfold tile
  split <;> rfl

theorem flatMap_shown (s : Styler) (us : List Mark) :
    (us.map (tile s)).flatMap Tile.shown = us.flatMap (text s) := by
  simp only [List.flatMap_map, shown_tile]

theorem flatMap_seen (s : Styler) (us : List Mark) :
    (us.map (tile s)).flatMap Tile.seen = us.flatMap (seen s) := by
  rw [List.flatMap_map]
  rfl

theorem buffers_result (s : Styler) (us : List Mark) :
    (buffers s us).result = us.flatMap (text s) := flatMap_shown s us

theorem buffers_remainder (s : Styler) (us : List Mark) :
    (buffers s us).remainder = us.flatMap (seen s) := flatMap_seen s us

theorem byteLength_seen (s : Styler) (us : List Mark) :
    Text.byteLength (us.flatMap (seen s)) = Text.byteLength (us.flatMap (text s)) := by
  rw [← flatMap_seen, ← flatMap_shown]
  exact Tile.byteLength_seen _

/-- The slice of the result that lies beside a slice of the remainder. -/
theorem sliceAt?_marks (s : Styler) (passed x u v : List Mark) :
    Text.sliceAt? (Text.byteLength (passed.flatMap (text s)) + Text.byteLength (x.flatMap (seen s)))
      (Text.byteLength (u.flatMap (seen s))) ((passed ++ (x ++ u ++ v)).flatMap (text s)) =
      some ((passed ++ x).flatMap (text s), u.flatMap (text s), v.flatMap (text s)) := by
  have h := Tile.sliceAt?_tiles (passed.map (tile s)) (x.map (tile s)) (u.map (tile s))
    (v.map (tile s))
  simp only [Tile.size, ← List.map_append, flatMap_shown, flatMap_seen] at h
  exact h

theorem aligned_buffers (s : Styler) (us : List Mark) : (buffers s us).Aligned :=
  Tile.aligned_buffers _

theorem buffers_ofText (s : Styler) (t : Text) : buffers s (ofText t) = ⟨t, t⟩ := by
  have htiles : (ofText t).map (tile s) = Tile.ofText t := by
    rw [ofText, List.map_map]
    rfl
  rw [buffers, htiles, Tile.buffers_ofText]

theorem flatMap_text_ofText (s : Styler) (t : Text) : (ofText t).flatMap (text s) = t := by
  rw [← buffers_result, buffers_ofText]

theorem byteLength_text_pos (s : Styler) (m : Mark) : 0 < (m.text s).byteLength := by
  have hpos : m.text s ≠ [] := by
    cases m with
    | char c clear => exact List.cons_ne_nil _ _
    | tag t =>
      cases t with
      | start c =>
        change s.spanStart c ≠ []
        unfold Styler.spanStart
        cases s.mode <;> exact List.cons_ne_nil _ _
      | stop => exact List.cons_ne_nil _ _
  exact Nat.pos_of_ne_zero (mt (Text.byteLength_eq_zero_iff _).mp hpos)

/-- A styler sees a mark as its character, or as one or more blanks. -/
theorem spread (s : Styler) : Spread sym (seen s) := by
  intro m
  have hblock (t : Text) (ht : 0 < t.byteLength) (hm : m.sym = ' ') (hseen : m.seen s = t.shadow) :
      ∃ k, m.seen s = List.replicate (k + 1) m.sym ∧ (k = 0 ∨ m.sym = ' ') := by
    refine ⟨t.byteLength - 1, ?_, Or.inr hm⟩
    rw [hseen, hm, Text.shadow, Nat.sub_add_cancel ht]
  cases m with
  | char c clear =>
    cases clear with
    | true => exact ⟨0, rfl, Or.inl rfl⟩
    | false => exact hblock [c] (byteLength_text_pos s (char c false)) rfl rfl
  | tag t => exact hblock (t.text s) (byteLength_text_pos s (tag t)) rfl rfl

theorem chars_append (us vs : List Mark) : chars (us ++ vs) = chars us ++ chars vs :=
  List.flatMap_append

theorem chars_map_hide (us : List Mark) : chars (us.map hide) = chars us := by
  induction us with
  | nil => rfl
  | cons m us ih =>
    cases m with
    | char c clear => exact congrArg (c :: ·) ih
    | tag t => exact ih

theorem chars_tags (ts : List Tag) : chars (ts.map tag) = [] := by
  induction ts with
  | nil => rfl
  | cons t ts ih => exact ih

theorem chars_ofText (t : Text) : chars (ofText t) = t := by
  induction t with
  | nil => rfl
  | cons c t ih => exact congrArg (c :: ·) ih

theorem text_hide (s : Styler) (m : Mark) : m.hide.text s = m.text s := by
  cases m <;> rfl

theorem text_tag (s : Styler) (t : Tag) : (tag t).text s = t.text s := rfl

theorem seen_hide (s : Styler) (m : Mark) : m.hide.seen s = (m.text s).shadow := by
  cases m <;> rfl

theorem seen_tag (s : Styler) (t : Tag) : (tag t).seen s = (t.text s).shadow := rfl

end Mark

namespace Wrap

/-- The marks that a rule makes of what it has matched. -/
def marks (w : Wrap) (us : List Mark) : List Mark :=
  w.front.map .tag ++ us.map Mark.hide ++ w.back.map .tag

theorem chars_marks (w : Wrap) (us : List Mark) : Mark.chars (w.marks us) = Mark.chars us := by
  rw [marks, Mark.chars_append, Mark.chars_append, Mark.chars_tags, Mark.chars_tags,
    Mark.chars_map_hide, List.nil_append, List.append_nil]

theorem text_marks (s : Styler) (w : Wrap) (us : List Mark) :
    (w.marks us).flatMap (Mark.text s) = w.handler s (us.flatMap (Mark.text s)) := by
  simp only [marks, handler, List.flatMap_append, List.flatMap_map, Mark.text_hide, Mark.text_tag]

theorem seen_marks (s : Styler) (w : Wrap) (us : List Mark) :
    (w.marks us).flatMap (Mark.seen s) = (w.handler s (us.flatMap (Mark.text s))).shadow := by
  simp only [marks, handler, List.flatMap_append, List.flatMap_map, Mark.seen_hide, Mark.seen_tag,
    Text.shadow_append, Text.shadow_flatMap]

/-- What a rule has replaced is blank for all later rules. -/
theorem sym_marks {w : Wrap} {us : List Mark} {m : Mark} (h : m ∈ w.marks us) : m.sym = ' ' := by
  rcases List.mem_append.mp h with h | h
  · rcases List.mem_append.mp h with h | h
    · obtain ⟨t, _, rfl⟩ := List.mem_map.mp h
      rfl
    · obtain ⟨m', _, rfl⟩ := List.mem_map.mp h
      cases m' <;> rfl
  · obtain ⟨t, _, rfl⟩ := List.mem_map.mp h
    rfl

end Wrap

end Highlighter
