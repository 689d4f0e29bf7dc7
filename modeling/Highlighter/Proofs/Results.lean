import Mathlib.Data.List.Forall2
import Highlighter.Text

/-! Steps that can fail, one after another: when all of them succeed, and what they do to a state, which
a failure leaves as it is. -/
namespace Highlighter

namespace Except

variable {ε α β : Type}

theorem bind_eq_ok_iff {x : Except ε α} {f : α → Except ε β} {b : β} :
    x >>= f = .ok b ↔ ∃ a, x = .ok a ∧ f a = .ok b := by
  cases x with
  | error e => simp [bind, Except.bind]
  | ok a => simp [bind, Except.bind]

theorem map_eq_ok_iff {x : Except ε α} {f : α → β} {b : β} :
    x.map f = .ok b ↔ ∃ a, x = .ok a ∧ f a = b := by
  cases x with
  | error e => simp [Except.map]
  | ok a => simp [Except.map]

theorem toOption_eq_some_iff {x : Except ε α} {a : α} : x.toOption = some a ↔ x = .ok a := by
  cases x <;> simp [Except.toOption]

theorem toOption_bind (x : Except ε α) (f : α → Except ε β) :
    (x >>= f).toOption = x.toOption.bind fun a => (f a).toOption := by
  cases x <;> rfl

theorem toOption_mapError {ε' : Type} (x : Except ε α) (f : ε → ε') :
    (x.mapError f).toOption = x.toOption := by
  cases x <;> rfl

theorem mapM_eq_ok_iff {f : α → Except ε β} {as : List α} {bs : List β} :
    as.mapM f = .ok bs ↔ List.Forall₂ (fun a b => f a = .ok b) as bs := by
  induction as generalizing bs with
  | nil =>
    rw [List.mapM_nil, List.forall₂_nil_left_iff]
    exact ⟨fun h => (Except.ok.inj h).symm, fun h => h ▸ rfl⟩
  | cons a as ih =>
    rw [List.mapM_cons, bind_eq_ok_iff, List.forall₂_cons_left_iff]
    simp only [bind_eq_ok_iff, ih]
    constructor
    · rintro ⟨b, hb, bs', hbs, h⟩
      exact ⟨b, bs', hb, hbs, (Except.ok.inj h).symm⟩
    · rintro ⟨b, bs', hb, hbs, rfl⟩
      exact ⟨b, hb, bs', hbs, rfl⟩

end Except

namespace Steps

variable {ε ε' σ α β : Type}

/-- How steps end, and the state then. -/
def result (j : ExceptT ε (StateM σ) α) (s : σ) : Except ε α × σ := j.run.run s

theorem result_pure (a : α) (s : σ) :
    result (pure a : ExceptT ε (StateM σ) α) s = (.ok a, s) := rfl

theorem result_get (s : σ) : result (get : ExceptT ε (StateM σ) σ) s = (.ok s, s) := rfl

theorem result_modify (f : σ → σ) (s : σ) :
    result (modify f : ExceptT ε (StateM σ) PUnit) s = (.ok ⟨⟩, f s) := rfl

/-- A failure ends all that comes behind it, and the state stays as it is then. -/
theorem result_bind (j : ExceptT ε (StateM σ) α) (f : α → ExceptT ε (StateM σ) β) (s : σ) :
    result (j >>= f) s = match result j s with
      | (.ok a, s') => result (f a) s'
      | (.error e, s') => (.error e, s') := by
  change (ExceptT.bindCont f (result j s).1) (result j s).2 = _
  rcases result j s with ⟨a | e, s'⟩ <;> rfl

theorem result_bind_of_ok {j : ExceptT ε (StateM σ) α} {s s' : σ} {a : α}
    (h : result j s = (.ok a, s')) (f : α → ExceptT ε (StateM σ) β) :
    result (j >>= f) s = result (f a) s' := by
  rw [result_bind, h]

theorem result_bind_of_error {j : ExceptT ε (StateM σ) α} {s s' : σ} {e : ε}
    (h : result j s = (.error e, s')) (f : α → ExceptT ε (StateM σ) β) :
    result (j >>= f) s = (.error e, s') := by
  rw [result_bind, h]

theorem result_adapt (f : ε → ε') (j : ExceptT ε (StateM σ) α) (s : σ) :
    result (j.adapt f) s = ((result j s).1.mapError f, (result j s).2) := rfl

end Steps

end Highlighter
