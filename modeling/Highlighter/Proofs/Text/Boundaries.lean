import Highlighter.Proofs.Text.Slices

/-! Edits of a text by its bytes. An edit fails where a byte is no edge of a character; between known
parts of a text it succeeds. -/
namespace Highlighter.Text

/-- Can the text be cut after `n` bytes? -/
def isBoundary (t : Text) (n : Nat) : Bool := (t.cutAt? n).isSome

/-- The first byte beyond `n` after which the text can be cut, or the one after `n` where there is
none. -/
def nextBoundary (t : Text) (n : Nat) : Nat :=
  if n + 1 < t.byteLength ∧ t.isBoundary (n + 1) = false then nextBoundary t (n + 1) else n + 1
  termination_by t.byteLength - n

/-- The bytes from `start` to `stop`. -/
def slice? (t : Text) (start stop : Nat) : Option Text :=
  if start ≤ stop then (t.sliceAt? start (stop - start)).map fun (_, slice, _) => slice else none

/-- The text with `new` for the bytes from `start` to `stop`. -/
def splice? (t : Text) (start stop : Nat) (new : Text) : Option Text :=
  if start ≤ stop then
    (t.sliceAt? start (stop - start)).map fun (front, _, tail) => front ++ new ++ tail
  else none

theorem isBoundary_iff {t : Text} {n : Nat} :
    t.isBoundary n = true ↔ ∃ a b, t = a ++ b ∧ a.byteLength = n := by
  rw [isBoundary, Option.isSome_iff_exists]
  constructor
  · rintro ⟨⟨a, b⟩, h⟩
    exact ⟨a, b, cutAt?_eq_some_iff.mp h⟩
  · rintro ⟨a, b, h⟩
    exact ⟨(a, b), cutAt?_eq_some_iff.mpr h⟩

/-- Of two cuts of a text, the earlier one divides the first part of the later one. -/
theorem prefix_of_byteLength_le {a b a' b' : Text} (h : a ++ b = a' ++ b')
    (hl : a.byteLength ≤ a'.byteLength) : ∃ x, a' = a ++ x ∧ b = x ++ b' := by
  rcases List.append_eq_append_iff.mp h with ⟨x, ha, hb⟩ | ⟨x, ha, hb⟩
  · exact ⟨x, ha, hb⟩
  · rw [ha, byteLength_append] at hl
    have hx : x = [] := (byteLength_eq_zero_iff x).mp (by omega)
    subst hx
    exact ⟨[], by rw [ha, List.append_nil, List.append_nil], hb.symm⟩

theorem isBoundary_append_add (a b : Text) (n : Nat) :
    isBoundary (a ++ b) (a.byteLength + n) = b.isBoundary n := by
  rw [Bool.eq_iff_iff, isBoundary_iff, isBoundary_iff]
  constructor
  · rintro ⟨x, y, h, hx⟩
    obtain ⟨z, rfl, rfl⟩ := prefix_of_byteLength_le h (by omega)
    rw [byteLength_append] at hx
    exact ⟨z, y, rfl, by omega⟩
  · rintro ⟨x, y, rfl, rfl⟩
    exact ⟨a ++ x, y, (List.append_assoc a x y).symm, byteLength_append a x⟩

/-- A slice exists where both its edges do. -/
theorem sliceAt?_eq_none_iff {t : Text} {n m : Nat} :
    t.sliceAt? n m = none ↔ ¬ (t.isBoundary n = true ∧ t.isBoundary (n + m) = true) := by
  rw [Option.eq_none_iff_forall_ne_some, ← not_exists, not_iff_not, isBoundary_iff, isBoundary_iff]
  constructor
  · rintro ⟨⟨a, b, c⟩, h⟩
    obtain ⟨rfl, rfl, rfl⟩ := sliceAt?_eq_some_iff.mp h
    exact ⟨⟨a, b ++ c, List.append_assoc a b c, rfl⟩, ⟨a ++ b, c, rfl, byteLength_append a b⟩⟩
  · rintro ⟨⟨a, b, rfl, rfl⟩, ⟨a', b', h, hl⟩⟩
    obtain ⟨x, rfl, rfl⟩ := prefix_of_byteLength_le h (by omega)
    rw [byteLength_append] at hl
    exact ⟨(a, x, b'), sliceAt?_eq_some_iff.mpr
      ⟨(List.append_assoc a x b').symm, rfl, by omega⟩⟩

section Between

variable {front middle tail t : Text} {start stop : Nat}

/-- The part of a text between two known others. -/
theorem slice?_of_append (ht : t = front ++ middle ++ tail) (hs : front.byteLength = start)
    (he : start + middle.byteLength = stop) : t.slice? start stop = some middle := by
  have hsub : stop - start = middle.byteLength := by omega
  rw [slice?, if_pos (by omega), hsub, ht, ← hs, sliceAt?_append, Option.map_some]

/-- A known part of a text gives way to a new one. -/
theorem splice?_of_append (new : Text) (ht : t = front ++ middle ++ tail)
    (hs : front.byteLength = start) (he : start + middle.byteLength = stop) :
    t.splice? start stop new = some (front ++ new ++ tail) := by
  have hsub : stop - start = middle.byteLength := by omega
  rw [splice?, if_pos (by omega), hsub, ht, ← hs, sliceAt?_append, Option.map_some]

end Between

theorem isBoundary_inside {c : Char} {t : Text} {n : Nat} (h0 : 0 < n) (hn : n < c.utf8Size) :
    isBoundary (c :: t) n = false := by
  rw [Bool.eq_false_iff, Ne, isBoundary_iff]
  rintro ⟨a, b, h, rfl⟩
  cases a with
  | nil => exact Nat.lt_irrefl 0 h0
  | cons d a =>
    obtain ⟨rfl, _⟩ := List.cons.inj h
    rw [byteLength_cons] at hn
    omega

/-- After a cut the next one is that after the next character. -/
theorem nextBoundary_append_cons (a b : Text) (c : Char) :
    nextBoundary (a ++ c :: b) a.byteLength = a.byteLength + c.utf8Size := by
  have hstep (k n : Nat) (hk : n + k + 1 = c.utf8Size) :
      nextBoundary (a ++ c :: b) (a.byteLength + n) = a.byteLength + c.utf8Size := by
    induction k generalizing n with
    | zero =>
      have hb : isBoundary (a ++ c :: b) (a.byteLength + n + 1) = true :=
        isBoundary_iff.mpr ⟨a ++ [c], b, by simp only [List.append_assoc, List.singleton_append],
          by rw [byteLength_append, byteLength_cons, byteLength_nil]; omega⟩
      rw [nextBoundary, if_neg (by rw [hb]; exact fun h => Bool.noConfusion h.2)]
      omega
    | succ k ih =>
      have hb : isBoundary (a ++ c :: b) (a.byteLength + n + 1) = false := by
        rw [Nat.add_assoc, isBoundary_append_add]
        exact isBoundary_inside (by omega) (by omega)
      have hlt : a.byteLength + n + 1 < byteLength (a ++ c :: b) := by
        rw [byteLength_append, byteLength_cons]
        omega
      rw [nextBoundary, if_pos ⟨hlt, hb⟩]
      exact ih (n + 1) (by omega)
  exact hstep (c.utf8Size - 1) 0 (by have := c.utf8Size_pos; omega)

theorem nextBoundary_of_le {t : Text} {n : Nat} (h : t.byteLength ≤ n) :
    t.nextBoundary n = n + 1 := by
  rw [nextBoundary, if_neg (by omega)]

end Highlighter.Text
