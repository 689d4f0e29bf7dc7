import Highlighter.Registry
import Mathlib.Data.List.Nodup

/-! Looking up engines after any history of registrations. The engine of the default language has a
place of its own, which is also where every unknown tag leads; the dictionary of the other engines
never holds the default tag (`Proper`), and so all operations agree on which tags have an engine. -/
namespace Highlighter

namespace Registry

variable {r : Registry}

/-- None of the other engines is under the default tag. -/
structure Proper (r : Registry) : Prop where
  noDefault : Language.default.name ∉ r.others.names

theorem register_default (r : Registry) (e : Engine) :
    r.register Language.default.name e = { r with fallback := e } := if_pos rfl

theorem register_other (r : Registry) {name : Text} (h : name ≠ Language.default.name) (e : Engine) :
    r.register name e = { r with others := r.others.insert name e } := if_neg h

theorem Proper.register (h : r.Proper) (name : Text) (e : Engine) : (r.register name e).Proper := by
  by_cases hname : name = Language.default.name
  · rw [hname, register_default]
    exact ⟨h.noDefault⟩
  · rw [register_other r hname]
    refine ⟨fun hdefault => ?_⟩
    rcases (Dictionary.mem_names_insert _ _ _ _).mp hdefault with heq | hmem
    · exact hname heq.symm
    · exact h.noDefault hmem

/-- The default tag and the tags of the other engines. -/
theorem mem_languages (r : Registry) (name : Text) :
    name ∈ r.languages ↔ name = Language.default.name ∨ name ∈ r.others.names := by
  rw [languages, List.mem_mergeSort, List.mem_append, List.mem_singleton, or_comm]

theorem has_iff_mem_languages (r : Registry) (name : Text) :
    r.has name ↔ name ∈ r.languages := by
  rw [mem_languages, has, Bool.or_eq_true, decide_eq_true_iff, Dictionary.contains_iff_mem_names]

/-- Registering under a tag changes what is found under it, and registering under the default tag also
what is found under the tags that are not listed. -/
theorem Proper.get_register (h : r.Proper) (name n : Text) (e : Engine) :
    (r.register name e).get n =
      if n = name ∨ name = Language.default.name ∧ n ∉ r.languages then e else r.get n := by
  by_cases hname : name = Language.default.name
  · subst hname
    rw [register_default, get, get]
    by_cases hn : n ∈ r.others.names
    · have hne : n ≠ Language.default.name := fun heq => h.noDefault (heq ▸ hn)
      have hlisted : n ∈ r.languages := (r.mem_languages n).mpr (Or.inr hn)
      obtain ⟨old, hold⟩ := Option.ne_none_iff_exists'.mp
        (mt (r.others.find?_eq_none_iff n).mp (not_not_intro hn))
      rw [if_neg (by simp [hne, hlisted]), hold]
      rfl
    · -- The default tag is listed, but its engine is not among the others either.
      have hfound : n = Language.default.name ∨
          Language.default.name = Language.default.name ∧ n ∉ r.languages :=
        Classical.or_iff_not_imp_left.mpr fun hne =>
          ⟨rfl, fun hlisted => ((r.mem_languages n).mp hlisted).elim hne hn⟩
      rw [if_pos hfound, (r.others.find?_eq_none_iff n).mpr hn]
      rfl
  · rw [register_other r hname, get, get, Dictionary.find?_insert]
    by_cases hn : n = name
    · rw [if_pos hn, if_pos (Or.inl hn)]
      rfl
    · rw [if_neg hn, if_neg (by simp [hn, hname])]

theorem languages_ordered (r : Registry) : r.languages.Pairwise fun a b => ¬ b < a := by
  have htrans (a b c : Text) (hab : decide (¬ b < a) = true) (hbc : decide (¬ c < b) = true) :
      decide (¬ c < a) = true :=
    decide_eq_true (List.le_trans (of_decide_eq_true hab) (of_decide_eq_true hbc))
  have htotal (a b : Text) : (decide (¬ b < a) || decide (¬ a < b)) = true := by
    rw [Bool.or_eq_true, decide_eq_true_iff, decide_eq_true_iff]
    exact List.le_total a b
  have hsorted := List.pairwise_mergeSort htrans htotal (r.others.names ++ [Language.default.name])
  exact hsorted.imp of_decide_eq_true

/-- No tag is listed twice, since the default tag joins tags that it is not among. -/
theorem Proper.nodup_languages (h : r.Proper) : r.languages.Nodup := by
  apply (List.mergeSort_perm _ _).nodup_iff.mpr
  refine List.nodup_append.mpr ⟨List.Pairwise.nodup r.others.sorted, List.nodup_singleton _, ?_⟩
  intro a ha b hb heq
  exact h.noDefault (List.mem_singleton.mp hb ▸ heq ▸ ha)

theorem Proper.languages_increasing (h : r.Proper) : r.languages.Pairwise (· < ·) := by
  refine (r.languages_ordered.and h.nodup_languages).imp fun {a b} ⟨hle, hne⟩ => ?_
  by_contra hnot
  exact hne (Std.Trichotomous.trichotomous a b hnot hle)

/-- Engines are put under tags one after another. -/
def registerAll (r : Registry) (calls : List (Text × Engine)) : Registry :=
  calls.foldl (fun r (name, e) => r.register name e) r

theorem registerAll_cons (r : Registry) (name : Text) (e : Engine) (calls : List (Text × Engine)) :
    r.registerAll ((name, e) :: calls) = (r.register name e).registerAll calls := rfl

theorem Proper.registerAll (h : r.Proper) (calls : List (Text × Engine)) :
    (r.registerAll calls).Proper := by
  induction calls generalizing r with
  | nil => exact h
  | cons call calls ih => exact ih (h.register call.1 call.2)

/-- The engine that was registered last under exactly this tag. -/
def latest? (calls : List (Text × Engine)) (name : Text) : Option Engine :=
  calls.reverse.lookup name

theorem latest?_cons (name n : Text) (e : Engine) (calls : List (Text × Engine)) :
    latest? ((name, e) :: calls) n =
      (latest? calls n).or (if n = name then some e else none) := by
  rw [latest?, latest?, List.reverse_cons, List.lookup_append, List.lookup_cons, List.lookup_nil]
  by_cases h : n = name
  · rw [if_pos h, h, beq_self_eq_true]
  · rw [if_neg h, beq_false_of_ne h]

theorem fallback_registerAll (r : Registry) (calls : List (Text × Engine)) :
    (r.registerAll calls).fallback = (latest? calls Language.default.name).getD r.fallback := by
  induction calls generalizing r with
  | nil => rfl
  | cons call calls ih =>
    obtain ⟨name, e⟩ := call
    rw [registerAll_cons, ih, latest?_cons]
    by_cases hname : Language.default.name = name
    · subst hname
      rw [register_default, if_pos rfl]
      cases latest? calls Language.default.name with
      | some e' => rfl
      | none => rfl
    · rw [register_other r (Ne.symm hname), if_neg hname, Option.or_none]

theorem find?_registerAll (r : Registry) (calls : List (Text × Engine)) {n : Text}
    (hn : n ≠ Language.default.name) :
    (r.registerAll calls).others.find? n = (latest? calls n).or (r.others.find? n) := by
  induction calls generalizing r with
  | nil => rfl
  | cons call calls ih =>
    obtain ⟨name, e⟩ := call
    rw [registerAll_cons, ih, latest?_cons, Option.or_assoc]
    by_cases hname : name = Language.default.name
    · rw [hname, register_default, if_neg hn, Option.none_or]
    · rw [register_other r hname, Dictionary.find?_insert]
      by_cases heq : n = name
      · rw [if_pos heq, if_pos heq, Option.some_or]
      · rw [if_neg heq, if_neg heq, Option.none_or]

/-- What is found after registrations is what was registered last, under the tag itself if it can be,
and else under the default tag. -/
theorem Proper.get_registerAll (h : r.Proper) (calls : List (Text × Engine)) (name : Text) :
    (r.registerAll calls).get name =
      ((latest? calls name).or (r.others.find? name)).getD
        ((latest? calls Language.default.name).getD r.fallback) := by
  rw [get, fallback_registerAll]
  by_cases hname : name = Language.default.name
  · -- The default tag is never among the other tags, so that only the fallback can answer.
    subst hname
    rw [((r.registerAll calls).others.find?_eq_none_iff _).mpr (h.registerAll calls).noDefault,
      (r.others.find?_eq_none_iff _).mpr h.noDefault, Option.or_none]
    cases latest? calls Language.default.name with
    | some e => rfl
    | none => rfl
  · rw [find?_registerAll r calls hname]

/-- Only one language has an engine beside that of the default language. -/
theorem ofStyler_eq (s : Styler) :
    ofStyler s = registerAll ⟨Language.lavendeux.engine s, .empty⟩
      [(Language.javascript.name, Language.javascript.engine s)] := rfl

theorem proper_ofStyler (s : Styler) : (ofStyler s).Proper := by
  rw [ofStyler_eq]
  exact Proper.registerAll ⟨List.not_mem_nil⟩ _

theorem find?_ofStyler (s : Styler) (name : Text) :
    (ofStyler s).others.find? name =
      if name = Language.javascript.name then some (Language.javascript.engine s) else none :=
  Dictionary.find?_insert .empty Language.javascript.name name (Language.javascript.engine s)

/-- Every tag leads to the engine of a language. -/
theorem exists_get_ofStyler (s : Styler) (name : Text) :
    ∃ l : Language, (ofStyler s).get name = l.engine s := by
  rw [get, find?_ofStyler]
  by_cases hname : name = Language.javascript.name
  · exact ⟨.javascript, by rw [if_pos hname]; rfl⟩
  · exact ⟨.lavendeux, by rw [if_neg hname]; rfl⟩

/-- The registry of all languages after any engines have been registered one after another. A tag has
the engine that was registered last under exactly this tag, and otherwise the engine of its own
language, if that is not the default one. Every other tag has what was registered last under the
default tag, or else the engine of the default language. The tags that are registered are those that
are listed; the list is increasing and holds the default tag once. One more engine under another tag
changes what is found under this tag alone; under the default tag, it is then found under this tag and
all tags that are not listed, and the others keep their engines. -/
theorem get_after_registrations (s : Styler) (calls : List (Text × Engine)) :
    let r := (ofStyler s).registerAll calls
    let main := Language.default.name
    (∀ name : Text, r.get name =
      match latest? calls name with
      | some e => e
      | none =>
        if name = Language.javascript.name then Language.javascript.engine s
        else (latest? calls main).getD (Language.lavendeux.engine s)) ∧
      (∀ name : Text, r.has name ↔ name ∈ r.languages) ∧
      r.languages.Pairwise (· < ·) ∧ r.languages.count main = 1 ∧
      (∀ (name : Text) (e : Engine), name ≠ main →
        ∀ n ≠ name, (r.register name e).get n = r.get n) ∧
      ∀ (e : Engine) (n : Text), (r.register main e).get n =
        if n = main ∨ n ∉ r.languages then e else r.get n := by
  intro r main
  have hr : r.Proper := (proper_ofStyler s).registerAll calls
  refine ⟨fun name => ?_, r.has_iff_mem_languages, hr.languages_increasing, ?_, ?_, ?_⟩
  · rw [(proper_ofStyler s).get_registerAll, find?_ofStyler]
    cases latest? calls name with
    | some e => rfl
    | none =>
      rw [Option.none_or]
      change _ = if name = Language.javascript.name then _ else _
      by_cases hname : name = Language.javascript.name
      · rw [if_pos hname, if_pos hname]
        rfl
      · rw [if_neg hname, if_neg hname]
        rfl
  · exact List.count_eq_one_of_mem hr.nodup_languages
      ((r.mem_languages main).mpr (Or.inl rfl))
  · intro name e hname n hn
    rw [hr.get_register, if_neg]
    rintro (heq | ⟨hmain, _⟩)
    · exact hn heq
    · exact hname hmain
  · intro e n
    rw [hr.get_register main n e]
    simp only [main, true_and]

/-- An empty engine in the place of the default language, and another one under a tag of its own. -/
theorem get_after_registrations_of_empty :
    let s : Styler := .default
    let calls : List (Text × Engine) :=
      [("python", .empty), (Language.default.name, .empty), ("python", Language.javascript.engine s)]
    let r := (ofStyler s).registerAll calls
    r.get "python" = Language.javascript.engine s ∧ r.get "rust" = .empty ∧
      r.get Language.javascript.name = Language.javascript.engine s ∧
      (r.register "rust" (Language.lavendeux.engine s)).get "python" = r.get "python" := by
  intro s calls r
  obtain ⟨hget, _, _, _, hother, _⟩ := get_after_registrations s calls
  refine ⟨hget "python", hget "rust", hget Language.javascript.name, ?_⟩
  exact hother "rust" (Language.lavendeux.engine s) (by decide +kernel) "python" (by decide +kernel)

end Registry

end Highlighter
