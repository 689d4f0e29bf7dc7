import Highlighter.CommandLine.Outcome
import Highlighter.Proofs.Results

/-! What a job does. A job can print and write and then fail, and nothing takes that back; a job that
`Does` something is one that fails only before it prints or writes. Such a job is put together of
looks at the files, which may fail, of one step that prints or writes, and behind it of what cannot
fail. -/
namespace Highlighter

open Steps

namespace FileSteps

variable {ε : Type}

/-- The steps leave the files that `f` gives. Where it gives none they fail, and the files are those
that they found. -/
def Leaves (steps : FileSteps ε Unit) (f : FileSystem → Except ε FileSystem) : Prop :=
  ∀ fs, result steps fs = match f fs with
    | .ok files => (.ok (), files)
    | .error e => (.error e, fs)

theorem leaves_write (path t : Text) : (write path t).Leaves fun fs => fs.write path t := by
  intro fs
  rw [write, result_bind_of_ok (result_get fs)]
  beta_reduce
  cases fs.write path t <;> rfl

end FileSteps

namespace Config

/-- A new file is made only where nothing is yet: there is no write before that is known. -/
theorem result_make (path : Text) (fs : FileSystem) : result (make path) fs =
    if fs.exists? path then (.error (.alreadyExists path), fs)
    else match fs.write path defaultText with
      | .ok files => (.ok (), files)
      | .error reason => (.error (.inaccessible path reason), fs) := by
  rw [make, result_bind_of_ok (result_get fs)]
  split_ifs
  · rfl
  · rw [result_adapt, FileSteps.leaves_write path defaultText fs]
    beta_reduce
    cases fs.write path defaultText <;> rfl

theorem create_eq (fs : FileSystem) (path : Text) : create fs path =
    if fs.exists? path then .error (.alreadyExists path)
    else (fs.write path defaultText).mapError (.inaccessible path) := by
  have hmake : (make path).run.run fs = _ := result_make path fs
  rw [create, hmake]
  split_ifs
  · rfl
  · cases fs.write path defaultText <;> rfl

theorem leaves_make (path : Text) : (make path).Leaves fun fs => create fs path := by
  intro fs
  simp only [result_make, create_eq]
  split_ifs
  · rfl
  · cases fs.write path defaultText <;> rfl

end Config

namespace CommandLine.Job

variable {ε α β : Type}

theorem result_say (remarks : List Remark) (p : Progress) :
    result (say remarks) p = (.ok (), { p with remarks := p.remarks ++ remarks }) := rfl

theorem result_tell (events : List Event) (p : Progress) :
    result (tell events) p = (.ok (), { p with remarks := p.remarks ++ events.map .event }) := rfl

theorem result_print (t : Text) (p : Progress) :
    result (print t) p = (.ok (), { p with output := p.output ++ t }) := rfl

/-- What has been printed before a failure stays printed. -/
example (t : Text) (e : Failure) (p : Progress) : result (do print t; throw e : Job Unit) p =
    (.error e, { p with output := p.output ++ t }) := rfl

theorem result_take (failure : ε → Failure) (x : Except ε α) (p : Progress) :
    result (take failure x) p = (x.mapError failure, p) := by
  cases x <;> rfl

theorem result_files (p : Progress) : result files p = (.ok p.files, p) := rfl

theorem result_look (failure : ε → Failure) (f : FileSystem → Except ε α) (p : Progress) :
    result (look failure f) p = ((f p.files).mapError failure, p) := by
  rw [look, result_bind_of_ok (result_files p), result_take]

theorem result_onFiles (failure : ε → Failure) (steps : FileSteps ε α) (p : Progress) :
    result (onFiles failure steps) p =
      ((result steps p.files).1.mapError failure,
        { p with files := (result steps p.files).2 }) := by
  rw [onFiles, result_bind_of_ok (result_files p)]
  exact (result_bind_of_ok (result_modify _ p) _).trans (result_take failure _ _)

/-- Lines that are printed one after another. -/
theorem result_forM_print (lines : List Text) (f : Text → Text) (p : Progress) :
    result (lines.forM fun t => print (f t)) p =
      (.ok (), { p with output := p.output ++ lines.flatMap f }) := by
  induction lines generalizing p with
  | nil =>
    rw [List.flatMap_nil, List.append_nil]
    rfl
  | cons t lines ih =>
    change result (print (f t) >>= fun _ => lines.forM fun t => print (f t)) p = _
    rw [result_bind_of_ok (result_print (f t) p), ih, List.flatMap_cons, List.append_assoc]

/-- How a job ends before which `p` has been done: it has returned a value, printed a text and left
files, or else it has failed, and then it has not printed anything or changed any file. -/
def Ends (p : Progress) (r : Except Failure α × Progress) : Option (α × Text × FileSystem) → Prop
  | some (a, t, files) => ∃ said, r = (.ok a, ⟨files, p.output ++ t, said⟩)
  | none => ∃ e said, r = (.error e, ⟨p.files, p.output, said⟩)

/-- What a job does to the files that it finds, whatever has been done before. -/
def Does (j : Job α) (x : FileSystem → Option (α × Text × FileSystem)) : Prop :=
  ∀ p, Ends p (result j p) (x p.files)

/-- The job only looks at the files. -/
def Looks (j : Job α) (x : FileSystem → Option α) : Prop :=
  j.Does fun files => (x files).map fun a => (a, [], files)

theorem looks_of_result {j : Job α} {x : FileSystem → Except Failure α}
    (h : ∀ p, ∃ said, result j p = (x p.files, { p with remarks := said })) :
    j.Looks fun files => (x files).toOption := by
  intro p
  obtain ⟨said, h⟩ := h p
  rw [h]
  beta_reduce
  cases x p.files with
  | error e => exact ⟨e, said, rfl⟩
  | ok a => exact ⟨said, by rw [List.append_nil]⟩

theorem looks_pure (a : α) : (pure a : Job α).Looks fun _ => some a :=
  looks_of_result (x := fun _ => .ok a) fun p => ⟨p.remarks, rfl⟩

theorem looks_say (remarks : List Remark) : (say remarks).Looks fun _ => some () :=
  looks_of_result (x := fun _ => .ok ()) fun p => ⟨p.remarks ++ remarks, rfl⟩

theorem looks_files : files.Looks some :=
  looks_of_result (x := .ok) fun p => ⟨p.remarks, rfl⟩

theorem looks_take (failure : ε → Failure) (x : Except ε α) :
    (take failure x).Looks fun _ => x.toOption := by
  rw [← Except.toOption_mapError x failure]
  exact looks_of_result (x := fun _ => x.mapError failure) fun p =>
    ⟨p.remarks, result_take failure x p⟩

theorem looks_look (failure : ε → Failure) (f : FileSystem → Except ε α) :
    (look failure f).Looks fun files => (f files).toOption := by
  have h : (look failure f).Looks fun files => ((f files).mapError failure).toOption :=
    looks_of_result fun p => ⟨p.remarks, result_look failure f p⟩
  simpa only [Except.toOption_mapError] using h

theorem does_print (t : Text) : (print t).Does fun files => some ((), t, files) :=
  fun p => ⟨p.remarks, rfl⟩

theorem does_onFiles {steps : FileSteps ε Unit} {f : FileSystem → Except ε FileSystem}
    (h : steps.Leaves f) (failure : ε → Failure) :
    (onFiles failure steps).Does fun files =>
      (f files).toOption.bind fun files' => some ((), [], files') := by
  intro p
  rw [result_onFiles, h p.files]
  beta_reduce
  cases f p.files with
  | error e => exact ⟨failure e, p.remarks, rfl⟩
  | ok files => exact ⟨p.remarks, by rw [List.append_nil]; rfl⟩

variable {j : Job α} {x : FileSystem → Option α} {f : α → Job β}

/-- A look at the files before anything else may fail. -/
theorem Looks.bind_does {y : α → FileSystem → Option (β × Text × FileSystem)} (hj : j.Looks x)
    (hf : ∀ a, (f a).Does (y a)) : (j >>= f).Does fun files => (x files).bind fun a => y a files := by
  intro p
  have h := hj p
  beta_reduce at h ⊢
  cases hx : x p.files with
  | none =>
    rw [hx] at h
    obtain ⟨e, said, h⟩ := h
    exact ⟨e, said, result_bind_of_error h f⟩
  | some a =>
    rw [hx] at h
    obtain ⟨said, h⟩ := h
    rw [result_bind_of_ok h, List.append_nil]
    exact hf a ⟨p.files, p.output, said⟩

theorem Looks.bind {y : α → FileSystem → Option β} (hj : j.Looks x)
    (hf : ∀ a, (f a).Looks (y a)) : (j >>= f).Looks fun files => (x files).bind fun a => y a files := by
  unfold Looks
  simp only [Option.map_bind]
  exact hj.bind_does hf

/-- The files may decide which look to take at them. -/
theorem looks_of_files {g : FileSystem → Job α} {y : FileSystem → FileSystem → Option α}
    (hg : ∀ found, (g found).Looks (y found)) : (files >>= g).Looks fun files => y files files :=
  looks_files.bind hg

/-- What a look has found is returned in some form, and there may be something to say about it. -/
theorem Looks.told (hj : j.Looks x) (events : α → List Event) (g : α → β) :
    (do let a ← j; tell (events a); return g a : Job β).Looks fun files => (x files).map g := by
  simp only [Option.map_eq_bind]
  exact hj.bind fun a => (looks_say ((events a).map .event)).bind fun _ => looks_pure (g a)

/-- A job that has something to say first. -/
theorem Does.after_say {g : Unit → Job α} {y : FileSystem → Option (α × Text × FileSystem)}
    (remarks : List Remark) (hg : (g ()).Does y) : (say remarks >>= g).Does y :=
  (looks_say remarks).bind_does fun _ => hg

/-- Printing cannot fail, and so it can come last. -/
theorem Does.then_print {k : Job Unit} {y : FileSystem → Option FileSystem} (t : Text)
    (hk : k.Does fun files => (y files).bind fun files' => some ((), [], files')) :
    (k >>= fun _ => print t).Does fun files =>
      (y files).bind fun files' => some ((), t, files') := by
  intro p
  have h := hk p
  beta_reduce at h ⊢
  cases hy : y p.files with
  | none =>
    rw [hy] at h
    obtain ⟨e, said, h⟩ := h
    exact ⟨e, said, result_bind_of_error h _⟩
  | some files' =>
    rw [hy] at h
    obtain ⟨said, h⟩ := h
    rw [result_bind_of_ok h, List.append_nil]
    exact ⟨said, rfl⟩

theorem Looks.unchanged_of_ok (hj : j.Looks x) {p p' : Progress} {a : α}
    (h : result j p = (.ok a, p')) : p'.output = p.output ∧ p'.files = p.files := by
  have hends := hj p
  rw [h] at hends
  cases hx : x p.files with
  | none =>
    simp only [hx] at hends
    obtain ⟨_, _, heq⟩ := hends
    cases (Prod.mk.inj heq).1
  | some b =>
    simp only [hx] at hends
    obtain ⟨_, heq⟩ := hends
    obtain ⟨_, rfl⟩ := Prod.mk.inj heq
    exact ⟨List.append_nil _, rfl⟩

/-- A job that fails has not printed anything or changed any file. -/
theorem Does.unchanged_of_error {y : FileSystem → Option (α × Text × FileSystem)} (hj : j.Does y)
    {p p' : Progress} {e : Failure} (h : result j p = (.error e, p')) :
    p'.output = p.output ∧ p'.files = p.files := by
  have hends := hj p
  rw [h] at hends
  cases hy : y p.files with
  | none =>
    rw [hy] at hends
    obtain ⟨_, _, heq⟩ := hends
    obtain ⟨_, rfl⟩ := Prod.mk.inj heq
    exact ⟨rfl, rfl⟩
  | some a =>
    rw [hy] at hends
    obtain ⟨_, heq⟩ := hends
    cases (Prod.mk.inj heq).1

end CommandLine.Job

end Highlighter
