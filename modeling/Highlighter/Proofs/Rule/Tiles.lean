import Highlighter.Proofs.Rule.Scans

/-! Both texts as one row of tiles: characters that nobody has replaced, and blocks that a rule has
put in, which are blank in the remainder. Where the matches of a pattern begin and end with
characters that are no spaces, they begin and end between tiles, so that a rule makes one block of
whole tiles for each match (`rewrites_of_scans`). -/
namespace Highlighter

inductive Tile where
  | char (c : Char)
  | block (t : Text)
  deriving DecidableEq, Repr

namespace Tile

/-- What the result shows of a tile. -/
def shown : Tile → Text
  | char c => [c]
  | block t => t

/-- What the remainder shows of a tile. -/
def seen : Tile → Text
  | char c => [c]
  | block t => t.shadow

/-- The bytes of a row of tiles. -/
def size (ts : List Tile) : Nat := Text.byteLength (ts.flatMap shown)

@[simp] theorem size_nil : size [] = 0 := rfl

@[simp] theorem size_append (a b : List Tile) : size (a ++ b) = size a + size b := by
  rw [size, List.flatMap_append, Text.byteLength_append, size, size]

@[simp] theorem size_block_cons (t : Text) (ts : List Tile) :
    size (block t :: ts) = t.byteLength + size ts := by
  rw [size, List.flatMap_cons, Text.byteLength_append]
  rfl

theorem byteLength_seen (ts : List Tile) : Text.byteLength (ts.flatMap seen) = size ts := by
  induction ts with
  | nil => rfl
  | cons t ts ih =>
    rw [List.flatMap_cons, Text.byteLength_append, ih, size, size, List.flatMap_cons,
      Text.byteLength_append]
    cases t with
    | char c => rfl
    | block t => rw [seen, Text.byteLength_shadow, shown]

theorem shown_block (x ts : List Tile) (t : Text) :
    (x ++ block t :: ts).flatMap shown = x.flatMap shown ++ t ++ ts.flatMap shown := by
  rw [List.flatMap_append, List.flatMap_cons, shown, List.append_assoc]

theorem seen_block (x ts : List Tile) (t : Text) :
    (x ++ block t :: ts).flatMap seen = x.flatMap seen ++ t.shadow ++ ts.flatMap seen := by
  rw [List.flatMap_append, List.flatMap_cons, seen, List.append_assoc]

/-- A character that is no space is seen only at its own tile. -/
theorem split_at_char {ts : List Tile} {a b : Text} {c : Char} (h : ts.flatMap seen = a ++ c :: b)
    (hc : c ≠ ' ') : ∃ x z, ts = x ++ char c :: z ∧ x.flatMap seen = a ∧ z.flatMap seen = b := by
  -- The first tile ends before `c`, right before it, or holds it.
  induction ts generalizing a with
  | nil => exact absurd h (by simp)
  | cons t ts ih =>
    rw [List.flatMap_cons] at h
    rcases List.append_eq_append_iff.mp h with ⟨a', rfl, hts⟩ | ⟨t', ht, hts⟩
    · obtain ⟨x, z, rfl, rfl, rfl⟩ := ih hts
      exact ⟨t :: x, z, rfl, by rw [List.flatMap_cons], rfl⟩
    · cases t' with
      | nil =>
        rw [List.append_nil] at ht
        obtain ⟨x, z, rfl, hx, rfl⟩ := ih (a := []) hts.symm
        refine ⟨t :: x, z, rfl, ?_, rfl⟩
        rw [List.flatMap_cons, hx, ht, List.append_nil]
      | cons d t' =>
        obtain ⟨rfl, rfl⟩ := List.cons.inj hts
        cases t with
        | char d =>
          cases a with
          | nil =>
            obtain ⟨rfl, rfl⟩ := List.cons.inj ht
            exact ⟨[], ts, rfl, rfl, rfl⟩
          | cons d' a => exact absurd ht (by simp [seen])
        | block t =>
          have hmem : c ∈ t.shadow := by
            change t.shadow = a ++ c :: t' at ht
            rw [ht]
            exact List.mem_append_right a List.mem_cons_self
          exact absurd (Text.eq_space_of_mem_shadow hmem) hc

/-- Where all tiles are characters, they can be divided as what is seen of them. -/
theorem split_of_chars {ts : List Tile} (hts : ∀ t ∈ ts, ∃ c, t = char c) {a b : Text}
    (h : ts.flatMap seen = a ++ b) :
    ∃ x z, ts = x ++ z ∧ x.flatMap seen = a ∧ z.flatMap seen = b := by
  induction ts generalizing a with
  | nil =>
    obtain ⟨rfl, rfl⟩ := List.append_eq_nil_iff.mp h.symm
    exact ⟨[], [], rfl, rfl, rfl⟩
  | cons t ts ih =>
    obtain ⟨c, rfl⟩ := hts t List.mem_cons_self
    cases a with
    | nil => exact ⟨[], char c :: ts, rfl, rfl, h⟩
    | cons d a =>
      obtain ⟨rfl, hrest⟩ := List.cons.inj h
      obtain ⟨x, z, rfl, rfl, rfl⟩ := ih (fun t ht => hts t (List.mem_cons_of_mem _ ht)) hrest
      exact ⟨char c :: x, z, rfl, rfl, rfl⟩

end Tile

/-- Every match begins and ends with a character that is no space. -/
def Pattern.Solid (p : Pattern) : Prop :=
  ∀ (left right : Text) (m : Match), p.search left right = .found m →
    (∃ c, m.matched.head? = some c ∧ c ≠ ' ') ∧ ∃ c, m.matched.getLast? = some c ∧ c ≠ ' '

/-- The pattern is found only between these tiles and those after them. -/
def Tile.Fits (p : Pattern) (ts : List Tile) : Prop := p.Solid ∨ ∀ t ∈ ts, ∃ c, t = char c

namespace Tile

theorem Fits.of_append {p : Pattern} {a b : List Tile} (h : Fits p (a ++ b)) : Fits p b :=
  h.imp id fun hts t ht => hts t (List.mem_append_right a ht)

/-- The tiles before, in and after a match. -/
theorem Fits.split {p : Pattern} {ts : List Tile} (h : Fits p ts) {left : Text} {m : Match}
    (hs : p.search left (ts.flatMap seen) = .found m) :
    ∃ x y z, ts = x ++ y ++ z ∧ x.flatMap seen = m.skipped ∧ y.flatMap seen = m.matched ∧
      z.flatMap seen = m.rest := by
  have htext := (Pattern.text_of_found hs).symm
  rcases h with hsolid | hchars
  · -- The last character of the match is a tile of its own, and so is the first of what is before.
    obtain ⟨⟨c, hc, hcs⟩, ⟨d, hd, hds⟩⟩ := hsolid _ _ _ hs
    obtain ⟨w, hw⟩ := List.getLast?_eq_some_iff.mp hd
    have hlast : ts.flatMap seen = (m.skipped ++ w) ++ d :: m.rest := by
      rw [htext, hw]
      simp only [List.append_assoc, List.singleton_append]
    obtain ⟨x', z, rfl, hx', hz⟩ := split_at_char hlast hds
    have hfirst : (x' ++ [char d]).flatMap seen = m.skipped ++ m.matched := by
      rw [List.flatMap_append, hx', hw, List.append_assoc]
      rfl
    obtain ⟨v, hv⟩ := List.head?_eq_some_iff.mp hc
    rw [hv] at hfirst
    obtain ⟨x, y, hsplit, hx, hy⟩ := split_at_char hfirst hcs
    refine ⟨x, char c :: y, z, ?_, hx, ?_, hz⟩
    · rw [← hsplit, List.append_assoc, List.singleton_append]
    · rw [List.flatMap_cons, hy, hv]
      rfl
  · obtain ⟨x', z, rfl, hx', hz⟩ := split_of_chars hchars htext
    obtain ⟨x, y, rfl, hx, hy⟩ :=
      split_of_chars (fun t ht => hchars t (List.mem_append_left z ht)) hx'
    exact ⟨x, y, z, rfl, hx, hy, hz⟩

/-- A row of tiles with slices of it made into blocks, where `place` bytes stand before the row, and
the substitutions that do so. -/
inductive Rewrites (handler : Handler) : (place : Nat) → List Tile → List Tile →
    List Substitution → Prop
  | stop (place : Nat) (ts : List Tile) : Rewrites handler place ts ts []
  | step {place : Nat} (kept slice : List Tile) {ts ts' : List Tile} {log : List Substitution}
      (later : Rewrites handler (place + size kept + (handler (slice.flatMap shown)).byteLength)
        ts ts' log) :
      Rewrites handler place (kept ++ slice ++ ts)
        (kept ++ block (handler (slice.flatMap shown)) :: ts')
        (⟨place + size kept, place + size kept + size slice, handler (slice.flatMap shown)⟩ :: log)

theorem Rewrites.append_left {handler : Handler} {place : Nat} {ts ts' : List Tile}
    {log : List Substitution} (front : List Tile)
    (h : Rewrites handler (place + size front) ts ts' log) :
    Rewrites handler place (front ++ ts) (front ++ ts') log := by
  generalize hplace : place + size front = start at h
  cases h with
  | stop => exact .stop _ _
  | step kept slice later =>
    subst hplace
    rw [Nat.add_assoc place, ← size_append] at later ⊢
    have hstep := Rewrites.step (front ++ kept) slice later
    simpa only [List.append_assoc] using hstep

end Tile

namespace Tile

/-- The slice of the result that lies beside a slice of the remainder. -/
theorem sliceAt?_tiles (passed x y z : List Tile) :
    Text.sliceAt? (size passed + Text.byteLength (x.flatMap seen))
      (Text.byteLength (y.flatMap seen)) ((passed ++ (x ++ y ++ z)).flatMap shown) =
      some ((passed ++ x).flatMap shown, y.flatMap shown, z.flatMap shown) := by
  rw [byteLength_seen, byteLength_seen, ← size_append]
  have hparts : (passed ++ (x ++ y ++ z)).flatMap shown =
      (passed ++ x).flatMap shown ++ y.flatMap shown ++ z.flatMap shown := by
    simp only [List.flatMap_append, List.append_assoc]
  rw [hparts]
  exact Text.sliceAt?_append _ _ _

/-- Between tiles no match is torn, and where nothing is replaced by nothing, no tile shows
anything. -/
theorem of_isLeft {m : Match} {handler : Handler} {start : Nat} {here : List Substitution}
    {passed x y z : List Tile} (hx : x.flatMap seen = m.skipped) (hy : y.flatMap seen = m.matched)
    (hl : m.IsLeft handler start (size passed) ((passed ++ (x ++ y ++ z)).flatMap shown) here) :
    m.matched = [] ∧ y.flatMap shown = [] ∧ handler [] = [] ∧ here = [⟨start, start, []⟩] := by
  have hslice := sliceAt?_tiles passed x y z
  rw [hx, hy] at hslice
  cases hl with
  | torn ht => exact absurd (ht.symm.trans hslice) (by simp)
  | idle kept tail ht hm hh =>
    obtain ⟨_, hslice'⟩ := Prod.mk.inj (Option.some.inj (ht.symm.trans hslice))
    exact ⟨hm, (Prod.mk.inj hslice').1.symm, hh, rfl⟩

/-- A slice that shows nothing, made into a block of nothing. -/
theorem rewrites_idle {handler : Handler} {place : Nat} {x y ts ts' : List Tile}
    {log : List Substitution} (hy : y.flatMap shown = []) (hh : handler [] = [])
    (h : Rewrites handler (place + size x) ts ts' log) :
    Rewrites handler place (x ++ y ++ ts) (x ++ block [] :: ts')
      (⟨place + size x, place + size x, []⟩ :: log) := by
  have hsize : size y = 0 := by rw [size, hy, Text.byteLength_nil]
  have hnone : handler (y.flatMap shown) = [] := by rw [hy, hh]
  have hplace : place + size x + (handler (y.flatMap shown)).byteLength = place + size x := by
    rw [hnone, Text.byteLength_nil, Nat.add_zero]
  rw [← hplace] at h
  have hstep := Rewrites.step x y h
  rwa [hnone, hsize, Nat.add_zero] at hstep

/-- A run over a row of tiles makes slices of it into blocks. Of what no handler has seen, the tiles
`passed` lie before the place. -/
theorem rewrites_of_scans {pattern : Pattern} {handler : Handler} {n : Nat}
    {left right pending result remainder : Text} {gap : Nat} {ending : Ending}
    {log : List Substitution}
    (h : Rule.Scans pattern handler n left right gap pending result remainder ending log)
    (passed ts : List Tile) (hright : right = ts.flatMap seen)
    (hpending : pending = (passed ++ ts).flatMap shown) (hgap : gap = size passed)
    (hfits : Fits pattern ts) :
    ∃ ts', result = (passed ++ ts').flatMap shown ∧ remainder = ts'.flatMap seen ∧
      Rewrites handler left.byteLength ts ts' log := by
  -- Each match divides the row into the tiles `x` before it, its own `y` and those after it, and
  -- `y` becomes a block. The row of the whole run is that of what follows, behind `x` and the block.
  induction h generalizing passed ts with
  | cutOff | noMatch | gaveUp => exact ⟨ts, hpending, hright, .stop _ ts⟩
  | @pastEnd _ left right gap pending m here hs hl hp =>
    subst hright hpending hgap
    obtain ⟨x, y, z, rfl, hx, hy, hz⟩ := hfits.split hs
    obtain ⟨hm, hshown, hh, rfl⟩ := of_isLeft hx hy hl
    refine ⟨x ++ block [] :: z, ?_, ?_, ?_⟩
    · rw [← List.append_assoc passed x, shown_block]
      simp only [List.flatMap_append, hshown, List.append_nil, List.append_assoc, List.nil_append]
    · rw [seen_block]
      simp only [List.flatMap_append, hy, hm, Text.shadow_nil]
    · rw [← hx, byteLength_seen]
      exact rewrites_idle hshown hh (.stop _ z)
  | @pass _ left right gap pending m more rest result remainder ending here log hs hl hp later ih =>
    subst hright hpending hgap
    obtain ⟨x, y, z, rfl, hx, hy, hz⟩ := hfits.split hs
    obtain ⟨hm, hshown, hh, rfl⟩ := of_isLeft hx hy hl
    have hrest : z.flatMap seen = more ++ rest := by
      rw [hz, ← (Match.passed?_eq_some hp).1, hm, List.nil_append]
    -- A solid pattern finds no empty match, so there are only characters.
    have hchars : ∀ t ∈ z, ∃ c, t = char c := by
      rcases hfits with hsolid | hchars
      · obtain ⟨⟨c, hc, _⟩, _⟩ := hsolid _ _ _ hs
        rw [hm] at hc
        exact absurd hc (by simp)
      · exact fun t ht => hchars t (List.mem_append_right _ ht)
    obtain ⟨w, z', rfl, hw, hz'⟩ := split_of_chars hchars hrest
    obtain ⟨ts', hresult, hremainder, hlog⟩ := ih (passed ++ x ++ w) z' hz'.symm
      (by simp only [List.flatMap_append, hshown, List.append_assoc, List.nil_append])
      (by rw [Text.byteLength_append, ← hx, ← hw, byteLength_seen, byteLength_seen, size_append,
            size_append, Nat.add_assoc])
      (Or.inr fun t ht => hchars t (List.mem_append_right w ht))
    refine ⟨x ++ block [] :: (w ++ ts'), ?_, ?_, ?_⟩
    · rw [hresult, ← List.append_assoc, shown_block]
      simp only [List.flatMap_append, List.append_nil, List.append_assoc]
    · rw [hremainder, seen_block, List.flatMap_append, hx, hw, Text.shadow_nil, List.append_nil,
        List.append_assoc]
    · rw [← Rule.position_after, ← hx, ← hw, byteLength_seen, byteLength_seen] at hlog
      rw [← hx, byteLength_seen]
      exact rewrites_idle hshown hh hlog.append_left
  | @replace _ left right gap kept slice tail m result remainder ending log hs hk hl hn later ih =>
    subst hright hgap
    obtain ⟨x, y, z, rfl, hx, hy, hz⟩ := hfits.split hs
    have hslice := sliceAt?_tiles passed x y z
    rw [← hpending, hx, hy, ← hk, ← hl, Text.sliceAt?_append] at hslice
    obtain ⟨rfl, hparts⟩ := Prod.mk.inj (Option.some.inj hslice)
    obtain ⟨rfl, rfl⟩ := Prod.mk.inj hparts
    obtain ⟨ts', hresult, hremainder, hlog⟩ := ih [] z hz.symm rfl rfl hfits.of_append
    refine ⟨x ++ block (handler (y.flatMap shown)) :: ts', ?_, ?_, ?_⟩
    · rw [hresult, ← List.append_assoc, shown_block, List.nil_append]
    · rw [hremainder, seen_block, hx]
    · rw [← Rule.position_after_replace, ← hx, byteLength_seen] at hlog
      rw [← hx, ← hy, byteLength_seen, byteLength_seen]
      exact .step x y hlog

end Tile

end Highlighter
