import Highlighter.Text

/-!
Values under names, in increasing order of the names by code points.
-/
namespace Highlighter

/-- Each name stands once, in its place. -/
structure Dictionary (α : Type) where
  entries : List (Text × α)
  sorted : (entries.map (·.1)).Pairwise (· < ·)
  deriving DecidableEq, Repr

namespace Dictionary

variable {α : Type}

/-- Puts a value under a name, in its place among the entries. -/
def insertInto (name : Text) (value : α) : List (Text × α) → List (Text × α)
  | [] => [(name, value)]
  | (n, v) :: entries =>
    if name = n then (name, value) :: entries
    else if name < n then (name, value) :: (n, v) :: entries
    else (n, v) :: insertInto name value entries

theorem mem_insertInto {name : Text} {value : α} {entry : Text × α} {entries : List (Text × α)}
    (h : entry ∈ insertInto name value entries) : entry = (name, value) ∨ entry ∈ entries := by
  induction entries with
  | nil => exact Or.inl (List.mem_singleton.mp h)
  | cons e entries ih =>
    obtain ⟨n, v⟩ := e
    rw [insertInto] at h
    split at h
    · exact (List.mem_cons.mp h).imp_right (List.mem_cons_of_mem _)
    split at h
    · exact List.mem_cons.mp h
    · rcases List.mem_cons.mp h with heq | hmem
      · exact Or.inr (List.mem_cons.mpr (Or.inl heq))
      · exact (ih hmem).imp_right (List.mem_cons_of_mem _)

/-- The names stay in order, since a new one is put before the first that is greater. -/
theorem sorted_insertInto (name : Text) (value : α) {entries : List (Text × α)}
    (h : (entries.map (·.1)).Pairwise (· < ·)) :
    ((insertInto name value entries).map (·.1)).Pairwise (· < ·) := by
  induction entries with
  | nil => exact List.pairwise_singleton _ name
  | cons e entries ih =>
    obtain ⟨n, v⟩ := e
    obtain ⟨hfirst, hrest⟩ := List.pairwise_cons.mp h
    by_cases heq : name = n
    · rw [insertInto, if_pos heq, heq]
      exact h
    by_cases hlt : name < n
    · rw [insertInto, if_neg heq, if_pos hlt]
      refine List.pairwise_cons.mpr ⟨fun m hm => ?_, h⟩
      rcases List.mem_cons.mp hm with rfl | hm
      · exact hlt
      · exact List.lt_trans hlt (hfirst m hm)
    · rw [insertInto, if_neg heq, if_neg hlt]
      have hgt : n < name := Decidable.byContradiction fun hnot =>
        heq (Std.Trichotomous.trichotomous name n hlt hnot)
      refine List.pairwise_cons.mpr ⟨fun m hm => ?_, ih hrest⟩
      obtain ⟨entry, hentry, rfl⟩ := List.mem_map.mp hm
      rcases mem_insertInto hentry with rfl | hentry
      · exact hgt
      · exact hfirst entry.1 (List.mem_map_of_mem hentry)

def empty : Dictionary α := ⟨[], List.Pairwise.nil⟩

/-- Puts a value under a name, in place of a value that is there. -/
def insert (d : Dictionary α) (name : Text) (value : α) : Dictionary α :=
  ⟨insertInto name value d.entries, sorted_insertInto name value d.sorted⟩

/-- Values put under their names one after another. -/
def ofEntries (entries : List (Text × α)) : Dictionary α :=
  entries.foldl (fun d (name, value) => d.insert name value) empty

/-- The value under exactly this name. -/
def find? (d : Dictionary α) (name : Text) : Option α := d.entries.lookup name

def contains (d : Dictionary α) (name : Text) : Bool := (d.find? name).isSome

def names (d : Dictionary α) : List Text := d.entries.map (·.1)

theorem pairwise_names (d : Dictionary α) : d.names.Pairwise (· < ·) := d.sorted

theorem find?_insert (d : Dictionary α) (name n : Text) (value : α) :
    (d.insert name value).find? n = if n = name then some value else d.find? n := by
  simp only [insert, find?]
  induction d.entries with
  | nil =>
    by_cases h : n = name
    · simp [insertInto, h]
    · simp [insertInto, h, List.lookup_cons, beq_false_of_ne h]
  | cons e entries ih =>
    obtain ⟨m, v⟩ := e
    by_cases h : n = name
    · subst h
      by_cases h1 : n = m
      · simp [insertInto, h1]
      · by_cases h2 : n < m
        · simp [insertInto, h1, h2]
        · simp [insertInto, h1, h2, List.lookup_cons, beq_false_of_ne h1, ih]
    · have hb := beq_false_of_ne h
      by_cases h1 : name = m
      · simp [insertInto, h1 ▸ h, h1, List.lookup_cons, beq_false_of_ne (h1 ▸ h)]
      · by_cases h2 : name < m
        · simp [insertInto, h, h1, h2, List.lookup_cons, hb]
        · simp [insertInto, h, h1, h2, List.lookup_cons, ih]

theorem contains_iff_mem_names (d : Dictionary α) (name : Text) :
    d.contains name ↔ name ∈ d.names := by
  rw [contains, find?, List.lookup_isSome_iff, names, List.mem_map]
  constructor
  · rintro ⟨entry, hentry, hname⟩
    exact ⟨entry, hentry, (eq_of_beq hname).symm⟩
  · rintro ⟨entry, hentry, rfl⟩
    exact ⟨entry, hentry, beq_self_eq_true entry.1⟩

theorem find?_eq_none_iff (d : Dictionary α) (name : Text) :
    d.find? name = none ↔ name ∉ d.names := by
  rw [← contains_iff_mem_names, contains, Option.not_isSome_iff_eq_none]

theorem mem_names_insert (d : Dictionary α) (name n : Text) (value : α) :
    n ∈ (d.insert name value).names ↔ n = name ∨ n ∈ d.names := by
  rw [← contains_iff_mem_names, ← contains_iff_mem_names, contains, contains, find?_insert]
  by_cases h : n = name
  · simp [h]
  · simp [h]

end Dictionary

end Highlighter
