import Highlighter.Unicode.WhiteSpace

/-!
Text is a list of characters.  Offsets and lengths are counted in the bytes of its UTF-8 form,
and a text can be cut only between two characters.
-/
namespace Highlighter

abbrev Text := List Char

instance : Coe String Text := ⟨String.toList⟩

namespace Text

/-- A property of all characters of a text is decided along the text. -/
instance (t : Text) (P : Char → Prop) [DecidablePred P] : Decidable (∀ c ∈ t, P c) :=
  List.decidableBAll P t

/-- The number of bytes of the UTF-8 form. -/
def byteLength : Text → Nat
  | [] => 0
  | c :: t => c.utf8Size + byteLength t

/-- Cuts a text after `n` bytes.  There is no cut inside a character or beyond the end. -/
def cutAt? : Nat → Text → Option (Text × Text)
  | 0, t => some ([], t)
  | _ + 1, [] => none
  | n + 1, c :: t =>
    if c.utf8Size ≤ n + 1 then
      (cutAt? (n + 1 - c.utf8Size) t).map fun (a, b) => (c :: a, b)
    else none

/-- Cuts a text after `skip` bytes and again `size` bytes further. -/
def sliceAt? (skip size : Nat) (t : Text) : Option (Text × Text × Text) :=
  match cutAt? skip t with
  | none => none
  | some (kept, rest) => (cutAt? size rest).map fun (slice, tail) => (kept, slice, tail)

/-- The text without white space at both ends. -/
def trim (t : Text) : Text :=
  ((t.dropWhile Unicode.isWhiteSpace).reverse.dropWhile Unicode.isWhiteSpace).reverse

/-- As many spaces as `t` has bytes. -/
def shadow (t : Text) : Text := List.replicate (byteLength t) ' '

/-- The lines with a newline between each two. -/
def unlines (lines : List Text) : Text := ['\n'].intercalate lines

/-- The decimal digits of `n`. -/
def ofNat (n : Nat) : Text := Nat.toDigits 10 n

/-- `t` with each pair of empty braces replaced by `filling`. -/
def fillBraces (filling : Text) : Text → Text
  | '\x7b' :: '\x7d' :: t => filling ++ fillBraces filling t
  | c :: t => c :: fillBraces filling t
  | [] => []

@[simp] theorem byteLength_nil : byteLength [] = 0 := rfl

@[simp] theorem byteLength_cons (c : Char) (t : Text) :
    byteLength (c :: t) = c.utf8Size + byteLength t := rfl

@[simp] theorem byteLength_append (a b : Text) :
    byteLength (a ++ b) = byteLength a + byteLength b := by
  induction a with
  | nil => simp
  | cons c a ih => simp [ih, Nat.add_assoc]

/-- The two parts of a cut give the text back. -/
theorem append_of_cutAt? {n : Nat} {t a b : Text} (h : cutAt? n t = some (a, b)) : a ++ b = t := by
  fun_induction cutAt? n t generalizing a b with
  | case1 => simp_all
  | case2 => simp at h
  | case3 n c t _ ih =>
    obtain ⟨⟨x, y⟩, hxy, heq⟩ := Option.map_eq_some_iff.1 h
    cases heq
    simp [ih hxy]
  | case4 => simp at h

/-- The first part of a cut after `n` bytes has `n` bytes. -/
theorem byteLength_of_cutAt? {n : Nat} {t a b : Text} (h : cutAt? n t = some (a, b)) :
    byteLength a = n := by
  fun_induction cutAt? n t generalizing a b with
  | case1 => simp_all
  | case2 => simp at h
  | case3 n c t _ ih =>
    obtain ⟨⟨x, y⟩, hxy, heq⟩ := Option.map_eq_some_iff.1 h
    cases heq
    have := ih hxy
    simp only [byteLength_cons]
    omega
  | case4 => simp at h

/-- A text cuts after the bytes of its first part. -/
theorem cutAt?_append (a b : Text) : cutAt? (byteLength a) (a ++ b) = some (a, b) := by
  induction a with
  | nil => simp [cutAt?]
  | cons c a ih =>
    have hc : 0 < c.utf8Size := c.utf8Size_pos
    obtain ⟨n, hn⟩ : ∃ n, byteLength (c :: a) = n + 1 := ⟨byteLength (c :: a) - 1, by simp; omega⟩
    have hn' : c.utf8Size + byteLength a = n + 1 := by simpa using hn
    rw [hn, List.cons_append, cutAt?, if_pos (by omega),
      show n + 1 - c.utf8Size = byteLength a by omega, ih]
    rfl

end Text

end Highlighter
