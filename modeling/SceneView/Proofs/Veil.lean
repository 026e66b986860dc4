import Mathlib.Data.String.Basic
import SceneView.Proofs.Composition

/-!
# What a compilation does not look at

The log and the imports are only ever added to, so no action of the compiler depends on them. An
action that starts with another log, and with more names imported from the library of controls, ends
as it would have ended, with those names added to what it leaves.
-/

namespace SceneView

lemma insertName_comm (a b : String) (names : List String) :
    insertName a (insertName b names) = insertName b (insertName a names) := by
  induction names with
  | nil =>
    obtain hlt | rfl | hgt := lt_trichotomy a b
    · simp [insertName, hlt.ne, hlt.ne', hlt, hlt.asymm]
    · rfl
    · simp [insertName, hgt.ne, hgt.ne', hgt, hgt.asymm]
  | cons c names ih =>
    obtain hac | rfl | hca := lt_trichotomy a c
    · obtain hbc | rfl | hcb := lt_trichotomy b c
      · obtain hab | rfl | hba := lt_trichotomy a b
        · simp [insertName, hac, hbc, hac.ne, hbc.ne, hab, hab.ne, hab.ne', hab.asymm]
        · rfl
        · simp [insertName, hac, hbc, hac.ne, hbc.ne, hba, hba.ne, hba.ne', hba.asymm]
      · simp [insertName, hac, hac.ne, hac.ne', hac.asymm]
      · have hab := hac.trans hcb
        simp [insertName, hac, hac.ne, hcb.ne', hcb.asymm, hab.ne', hab.asymm]
    · obtain hba | rfl | hab := lt_trichotomy b a
      · simp [insertName, hba, hba.ne, hba.ne', hba.asymm]
      · rfl
      · simp [insertName, hab.ne', hab.asymm]
    · obtain hbc | rfl | hcb := lt_trichotomy b c
      · have hba := hbc.trans hca
        simp [insertName, hbc, hbc.ne, hca.ne', hca.asymm, hba.ne', hba.asymm]
      · simp [insertName, hca.ne', hca.asymm]
      · simp [insertName, hca.ne', hca.asymm, hcb.ne', hcb.asymm, ih]

lemma insertName_self (a : String) (names : List String) :
    insertName a (insertName a names) = insertName a names := by
  induction names with
  | nil => simp [insertName]
  | cons c names ih =>
    rw [insertName]
    split
    · next h => simp [insertName, h]
    · split
      · simp [insertName]
      · next hne hlt => rw [insertName, if_neg hne, if_neg hlt, ih]

def insertNames (more names : List String) : List String :=
  more.foldr insertName names

lemma insertName_insertNames (a : String) (more names : List String) :
    insertName a (insertNames more names) = insertNames more (insertName a names) := by
  induction more with
  | nil => rfl
  | cons b more ih =>
    rw [insertNames, List.foldr_cons, insertName_comm, ← insertNames, ih]
    rfl

def Imports.withControls (i : Imports) (more : List String) : Imports :=
  { i with gui := insertNames more i.gui }

lemma Imports.add_withControls (i : Imports) (more : List String) (origin : Origin)
    (name : String) :
    (i.withControls more).add origin name = (i.add origin name).withControls more := by
  cases origin with
  | gui =>
    unfold withControls add
    dsimp only
    rw [insertName_insertNames]
  | core | runtime | utility => rfl

/-- The session with another log and with more names of controls imported. -/
def Session.veiled (s : Session) (more : List String) (log : List LogEntry) : Session :=
  { s with imports := s.imports.withControls more, log }

namespace Compile

variable {α β : Type}

/-- An action that does not look at the log nor at the imported names. -/
def Blind (x : Compile α) : Prop :=
  ∀ s more log, ∃ log',
    x.run.run (s.veiled more log) = ((x.run.run s).1, (x.run.run s).2.veiled more log')

namespace Blind

variable {x : Compile α} {f : α → Compile β}

lemma pure (a : α) : Blind (Pure.pure a) :=
  fun _ _ log => ⟨log, rfl⟩

lemma bind (h : Blind x) (hf : ∀ a, Blind (f a)) : Blind (x >>= f) := by
  intro s more log
  obtain ⟨log', hx⟩ := h s more log
  rw [run_bind, run_bind, hx]
  generalize x.run.run s = r
  obtain ⟨r, s'⟩ := r
  cases r with
  | ok a => exact hf a s' more log'
  | error fault => exact ⟨log', rfl⟩

lemma forM {f : α → Compile PUnit} (h : ∀ a, Blind (f a)) : (l : List α) → Blind (l.forM f)
  | [] => .pure _
  | a :: l => .bind (h a) fun _ => forM h l

end Blind

lemma imports_of_update {g : Session → Session}
    (h : ∀ s imports log, g { s with imports, log } = { g s with imports, log }) (s : Session) :
    (g s).imports = s.imports := by
  have hs := congrArg Session.imports (h s s.imports s.log)
  exact hs

lemma Composed.blind {S own} {x : Compile α} {p} (h : Composed S own x p) : Blind x := by
  induction h with
  | pure => exact .pure _
  | @bind own α β x f p q hx _ ih ihf =>
    intro s more log
    obtain ⟨log', hveiled⟩ := ih s more log
    have houtcome := hx.outcome s
    rw [run_bind, run_bind, hveiled]
    generalize x.run.run s = r at houtcome
    cases houtcome with
    | @finished a s' ha => exact ihf a ha s' more log'
    | stopped => exact ⟨log', rfl⟩
  | throw | lift | lookup => exact fun _ _ log => ⟨log, rfl⟩
  | log => exact fun _ _ _ => ⟨_, rfl⟩
  | addImport origin name =>
    intro s more log
    refine ⟨log, Prod.ext rfl ?_⟩
    change ({ s.veiled more log with imports := (s.imports.withControls more).add origin name } :
      Session) = _
    rw [Imports.add_withControls]
    rfl
  | @read own β f q hf _ ih =>
    intro s more log
    obtain ⟨log', hs⟩ := ih s s more log
    refine ⟨log', ?_⟩
    rw [run_bind, run_bind, run_get, run_get]
    dsimp only
    rw [← hs, Session.veiled, hf]
  | @update own g hg _ =>
    intro s more log
    refine ⟨log, Prod.ext rfl ?_⟩
    change g (s.veiled more log) = (g s).veiled more log
    rw [Session.veiled, Session.veiled, hg, imports_of_update hg]
  | @named own e given? q type deferred hq =>
    intro s more log
    cases hname : s.names.assignUnused s.generated type given? with
    | mk o names =>
    obtain ⟨log₀, hrun⟩ := named_run deferred (f := Pure.pure) hname hq
    obtain ⟨log', hrun'⟩ := named_run (s := s.veiled more log) deferred (f := Pure.pure) hname hq
    have hgenerated : (s.veiled more log).generated = s.generated := rfl
    refine ⟨log', ?_⟩
    rw [hrun, hrun', hgenerated]
    cases s.generated.declare type o deferred <;> rfl
  | mesh =>
    intro s more log
    refine ⟨log, ?_⟩
    unfold Compile.mesh
    rw [run_bind, run_bind, run_get, run_get]
    dsimp only [Session.veiled]
    split
    · rfl
    · split <;> rfl
  | @located own e α x p _ _ ih =>
    intro s more log
    obtain ⟨log', hx⟩ := ih s more log
    refine ⟨log', ?_⟩
    change ((x.run.run (s.veiled more log)).1.mapError (Fault.atLine e.line),
      (x.run.run (s.veiled more log)).2) = _
    rw [hx]
    rfl

lemma Blind.of_composed {x : Compile α} {p : α → Prop}
    (h : Composed Scope.whole (fun _ => True) x p) : Blind x :=
  h.blind

end Compile

end SceneView
