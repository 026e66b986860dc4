import Mathlib.Data.List.Basic
import SceneView.Project.FileTree

/-!
# File trees

A file tree is known by its directories, which say where a path leads, and by the text at every
place. To set the text of one file, or to take a file away, changes neither the directories nor the
text at any other place.
-/

open List

namespace SceneView.FileTree

variable {t t' : FileTree}

lemma lookup_filter_ne (files : List (Place × String)) (place q : Place) :
    (files.filter (·.1 != place)).lookup q = if q = place then none else files.lookup q := by
  induction files with
  | nil => simp
  | cons f files ih =>
    obtain ⟨p, text⟩ := f
    by_cases hp : p = place
    · rw [filter_cons_of_neg (by simpa using hp), ih, lookup_cons]
      by_cases hq : q = place
      · simp [hq]
      · have hqp : (q == p) = false := by simpa [hp] using hq
        rw [hqp]
    · rw [filter_cons_of_pos (by simpa using hp), lookup_cons, lookup_cons, ih]
      by_cases hq : q = place
      · have hqp : (q == p) = false := by simpa [hq] using Ne.symm hp
        rw [hqp, if_pos hq]
      · simp [hq]

@[simp]
lemma fileAt?_erase (place q : Place) :
    (t.erase place).fileAt? q = if q = place then none else t.fileAt? q :=
  lookup_filter_ne t.files place q

@[simp]
lemma fileAt?_put (place : Place) (text : String) (q : Place) :
    (t.put place text).fileAt? q = if q = place then some text else t.fileAt? q := by
  rw [fileAt?, put, lookup_cons, lookup_filter_ne]
  by_cases hq : q = place
  · simp [hq]
  · have hne : (q == place) = false := by simpa using hq
    simp [hne, hq, fileAt?]

/-- Two trees with the same directories. -/
structure Alike (t t' : FileTree) : Prop where
  directories : t'.directories = t.directories
  workingDirectory : t'.workingDirectory = t.workingDirectory

namespace Alike

lemma refl (t : FileTree) : Alike t t :=
  ⟨rfl, rfl⟩

lemma symm (h : Alike t t') : Alike t' t :=
  ⟨h.directories.symm, h.workingDirectory.symm⟩

lemma trans {t''} (h : Alike t t') (h' : Alike t' t'') : Alike t t'' :=
  ⟨h'.directories.trans h.directories, h'.workingDirectory.trans h.workingDirectory⟩

lemma put (t : FileTree) (place : Place) (text : String) : Alike t (t.put place text) :=
  ⟨rfl, rfl⟩

lemma erase (t : FileTree) (place : Place) : Alike t (t.erase place) :=
  ⟨rfl, rfl⟩

lemma isDirectoryAt (h : Alike t t') (place : Place) :
    t'.isDirectoryAt place = t.isDirectoryAt place := by
  unfold FileTree.isDirectoryAt
  rw [h.directories]

variable {place : Place}

lemma follow_eq_ok (h : Alike t t') {q pieces} (hf : t.follow place pieces = .ok q) :
    t'.follow place pieces = .ok q := by
  induction pieces generalizing place with
  | nil => exact hf
  | cons piece pieces ih =>
    unfold follow at hf ⊢
    rw [h.isDirectoryAt]
    split_ifs at hf ⊢ with hdir hdot hparent hlong
    iterate 3 exact ih hf

lemma resolve_eq_ok (h : Alike t t') {p} (hr : t.resolve p = .ok place) :
    t'.resolve p = .ok place := by
  have hstart : t'.start p = t.start p := by
    unfold start
    rw [h.workingDirectory]
  unfold resolve at hr ⊢
  rw [hstart]
  cases hs : t.start p with
  | error e =>
    rw [hs] at hr
    cases hr
  | ok s =>
    rw [hs] at hr
    exact h.follow_eq_ok hr

lemma resolve_eq_ok_iff (h : Alike t t') {p} : t'.resolve p = .ok place ↔ t.resolve p = .ok place :=
  ⟨h.symm.resolve_eq_ok, h.resolve_eq_ok⟩

end Alike

/-- A path that leads to a place where a file is or can be. -/
def Leads (t : FileTree) (p : Path) (place : Place) : Prop :=
  t.resolve p = .ok place ∧ t.isDirectoryAt place = false

variable {p : Path} {text : String}

lemma Alike.leads_iff (h : Alike t t') {place} : t'.Leads p place ↔ t.Leads p place := by
  unfold Leads
  rw [h.resolve_eq_ok_iff, h.isDirectoryAt]

lemma read_eq_ok_iff :
    t.read p = .ok text ↔ ∃ place, t.Leads p place ∧ t.fileAt? place = some text := by
  unfold read Leads
  cases hr : t.resolve p with
  | error e =>
    refine ⟨nofun, ?_⟩
    rintro ⟨_, ⟨⟨⟩, _⟩, _⟩
  | ok place =>
    change (if t.isDirectoryAt place then _ else _) = _ ↔ _
    cases hdir : t.isDirectoryAt place with
    | true => simp [hdir]
    | false =>
      cases hfile : t.fileAt? place with
      | none => simp [hfile]
      | some text' => simp [hdir, hfile]

lemma write_eq_ok_iff :
    t.write p text = .ok t' ↔ ∃ place, t.Leads p place ∧ t' = t.put place text := by
  unfold write Leads
  cases hr : t.resolve p with
  | error e =>
    refine ⟨nofun, ?_⟩
    rintro ⟨_, ⟨⟨⟩, _⟩, _⟩
  | ok place =>
    change (if t.isDirectoryAt place then _ else _) = _ ↔ _
    cases hdir : t.isDirectoryAt place with
    | true => simp [hdir]
    | false =>
      constructor
      · rintro ⟨⟩
        exact ⟨place, ⟨rfl, hdir⟩, rfl⟩
      · rintro ⟨_, ⟨⟨⟩, _⟩, rfl⟩
        rfl

lemma read_of_write (h : t.write p text = .ok t') :
    t'.read p = .ok text := by
  obtain ⟨place, hleads, rfl⟩ := write_eq_ok_iff.1 h
  exact read_eq_ok_iff.2 ⟨place, (Alike.put t place text).leads_iff.2 hleads, by simp⟩

lemma read_put {place text'} (h : (t.put place text).read p = .ok text') :
    text' = text ∨ t.read p = .ok text' := by
  obtain ⟨q, hleads, hfile⟩ := read_eq_ok_iff.1 h
  rw [(Alike.put t place text).leads_iff] at hleads
  rw [fileAt?_put] at hfile
  split_ifs at hfile with hq
  · exact .inl (Option.some.inj hfile).symm
  · exact .inr (read_eq_ok_iff.2 ⟨q, hleads, hfile⟩)

def without (t : FileTree) (p : Path) : FileTree :=
  match t.resolve p with
  | .ok place => t.erase place
  | .error _ => t

lemma read_without {q} (h : (t.without p).read q = .ok text) : t.read q = .ok text := by
  unfold without at h
  split at h
  · next place _ =>
    obtain ⟨found, hleads, hfile⟩ := read_eq_ok_iff.1 h
    rw [(Alike.erase t place).leads_iff] at hleads
    rw [fileAt?_erase] at hfile
    split_ifs at hfile with hfound
    exact read_eq_ok_iff.2 ⟨found, hleads, hfile⟩
  · exact h

section Actions

variable {α β ε : Type}

/-- The answer of an action and the tree after it. -/
abbrev run (t : FileTree) (x : StateM FileTree α) : α × FileTree :=
  StateT.run x t

lemma run_bind (x : StateM FileTree α) (f : α → StateM FileTree β) (t : FileTree) :
    t.run (x >>= f) = (t.run x).2.run (f (t.run x).1) :=
  rfl

lemma run_pure (a : α) (t : FileTree) : t.run (pure a) = (a, t) :=
  rfl

lemma run_lift_bind (x : StateM FileTree α) (f : α → ExceptT ε (StateM FileTree) β)
    (t : FileTree) :
    t.run (liftM x >>= f : ExceptT ε (StateM FileTree) β).run =
      (t.run x).2.run (f (t.run x).1).run :=
  rfl

lemma run_except_bind (x : ExceptT ε (StateM FileTree) α) (f : α → ExceptT ε (StateM FileTree) β)
    (t : FileTree) :
    t.run (x >>= f).run =
      match t.run x.run with
      | (.ok a, t') => t'.run (f a).run
      | (.error e, t') => (.error e, t') := by
  rw [ExceptT.run_bind, run_bind]
  generalize t.run x.run = r
  obtain ⟨r, t'⟩ := r
  cases r <;> rfl

lemma run_return (a : α) (t : FileTree) :
    t.run (pure a : ExceptT ε (StateM FileTree) α).run = (.ok a, t) :=
  rfl

lemma run_read (p : Path) (t : FileTree) : t.run (FileAccess.read p) = (t.read p, t) :=
  rfl

lemma run_remove (p : Path) (t : FileTree) : t.run (FileAccess.remove p) = ((), t.without p) :=
  rfl

lemma run_createDirectories (p : Path) (t : FileTree) :
    t.run (FileAccess.createDirectories p) = t.createDirectories p :=
  rfl

lemma run_write (p : Path) (text : String) (t : FileTree) :
    t.run (FileAccess.write p text) =
      match t.write p text with
      | .ok t' => (.ok (), t')
      | .error e => (.error e, t) := by
  have hget : t.run get = (t, t) := rfl
  simp only [FileAccess.write]
  rw [run_bind, hget]
  dsimp only
  cases t.write p text <;> rfl

end Actions

end SceneView.FileTree
