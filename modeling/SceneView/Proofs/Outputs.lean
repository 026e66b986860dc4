import SceneView.Project.Batch
import SceneView.Proofs.Paths

/-!
# Output files

Of the documents with the same output file the first keeps it, and every later one is in conflict
with it. So no file is written twice, and after all files are written each one holds the text of its
document, while everything else is as it was.
-/

open List

namespace SceneView

open FileTree

namespace Outcome

def goesTo (outDir target : Path) (o : Outcome) : Bool :=
  match o.result with
  | .ok view => (targetOf outDir view).same target
  | .error _ => false

/-- What a document is told if another one has its output file. -/
def refused (outDir : Path) (o : Outcome) (view : CompiledView) (first : Path) : Outcome :=
  let fault : Fault :=
    .conflict (.outputFile view.className first.text (targetOf outDir view).text) 0
  { o with result := .error (fault.toDiagnostic o.path.text) }

lemma goesTo_congr {p q} (h : p.same q = true) (outDir : Path) :
    goesTo outDir p = goesTo outDir q := by
  funext o
  unfold goesTo Path.same
  rw [beq_iff_eq.1 h]

end Outcome

/-- What becomes of a document after some earlier ones. -/
inductive Settles (outDir : Path) (earlier : List Outcome) (o : Outcome) : Outcome → Prop where
  | failed {d} :
    o.result = .error d →
    Settles outDir earlier o o
  | kept {view} :
    o.result = .ok view →
    earlier.find? (·.goesTo outDir (targetOf outDir view)) = none →
    Settles outDir earlier o o
  | refused {view first} :
    o.result = .ok view →
    earlier.find? (·.goesTo outDir (targetOf outDir view)) = some first →
    Settles outDir earlier o (o.refused outDir view first.path)

/-- What becomes of documents one after the other. -/
inductive AllSettle (outDir : Path) : List Outcome → List Outcome → List Outcome → Prop where
  | nil {earlier} :
    AllSettle outDir earlier [] []
  | cons {earlier o o' os os'} :
    Settles outDir earlier o o' →
    AllSettle outDir (earlier ++ [o]) os os' →
    AllSettle outDir earlier (o :: os) (o' :: os')

/-- The files that are taken are those of the earlier documents, each with the first of them. -/
def ClaimedBy (outDir : Path) (earlier : List Outcome) (claimed : List (Path × Path)) : Prop :=
  ∀ target, (claimed.find? (·.1.same target)).map (·.2) =
    (earlier.find? (·.goesTo outDir target)).map (·.path)

variable {outDir : Path} {earlier os os' : List Outcome} {o o' : Outcome}
  {claimed : List (Path × Path)}

namespace ClaimedBy

lemma start : ClaimedBy outDir [] [] :=
  fun _ => rfl

lemma skip (h : ClaimedBy outDir earlier claimed)
    (hskip : ∀ target, o.goesTo outDir target = true →
      (earlier.find? (·.goesTo outDir target)).isSome = true) :
    ClaimedBy outDir (earlier ++ [o]) claimed := by
  intro target
  rw [h target, List.find?_append]
  cases hfind : earlier.find? (·.goesTo outDir target) with
  | some first => rfl
  | none =>
    have hnot : o.goesTo outDir target = false := by
      refine Bool.eq_false_iff.2 fun hgoes => ?_
      have hsome := hskip target hgoes
      rw [hfind] at hsome
      cases hsome
    simp [List.find?, hnot]

lemma take {view} (h : ClaimedBy outDir earlier claimed) (ho : o.result = .ok view)
    (hfirst : earlier.find? (·.goesTo outDir (targetOf outDir view)) = none) :
    ClaimedBy outDir (earlier ++ [o]) ((targetOf outDir view, o.path) :: claimed) := by
  intro target
  have hgoes : o.goesTo outDir target = (targetOf outDir view).same target := by
    rw [Outcome.goesTo, ho]
  rw [List.find?_append, List.find?_cons]
  cases hsame : (targetOf outDir view).same target with
  | true =>
    rw [Outcome.goesTo_congr hsame] at hfirst
    simp [hfirst, List.find?, hgoes, hsame]
  | false =>
    rw [h target]
    simp [List.find?, hgoes, hsame]

end ClaimedBy

lemma claimTargetsFrom_allSettle (h : ClaimedBy outDir earlier claimed) (os : List Outcome) :
    AllSettle outDir earlier os (claimTargetsFrom outDir claimed os) := by
  induction os generalizing earlier claimed with
  | nil => exact .nil
  | cons o os ih =>
    rw [claimTargetsFrom]
    cases ho : o.result with
    | error d =>
      refine .cons (.failed ho) (ih (h.skip fun target hgoes => ?_))
      rw [Outcome.goesTo, ho] at hgoes
      cases hgoes
    | ok view =>
      dsimp only
      have ht := h (targetOf outDir view)
      cases hclaim : claimed.find? (·.1.same (targetOf outDir view)) with
      | none =>
        rw [hclaim, Option.map_none, eq_comm, Option.map_eq_none_iff] at ht
        exact .cons (.kept ho ht) (ih (h.take ho ht))
      | some claim =>
        rw [hclaim, Option.map_some, eq_comm, Option.map_eq_some_iff] at ht
        obtain ⟨first, hfirst, hpath⟩ := ht
        dsimp only
        rw [← hpath]
        refine .cons (.refused ho hfirst) (ih (h.skip fun target hgoes => ?_))
        rw [Outcome.goesTo, ho] at hgoes
        rw [← Outcome.goesTo_congr hgoes, hfirst]
        rfl

lemma claimTargets_allSettle (outDir : Path) (os : List Outcome) :
    AllSettle outDir [] os (claimTargets outDir os) :=
  claimTargetsFrom_allSettle .start os

variable {view : CompiledView} {t : FileTree}

lemma Settles.of_ok (h : Settles outDir earlier o o') (ho' : o'.result = .ok view) :
    o' = o ∧ ∀ e ∈ earlier, e.goesTo outDir (targetOf outDir view) = false := by
  cases h with
  | failed ho => cases ho.symm.trans ho'
  | kept ho hnone =>
    cases ho.symm.trans ho'
    exact ⟨rfl, fun e he => by simpa using List.find?_eq_none.1 hnone e he⟩
  | refused => cases ho'

namespace AllSettle

variable (h : AllSettle outDir earlier os os')
include h

lemma mem_of_ok {view} (ho : o ∈ os') (hview : o.result = .ok view) : o ∈ os := by
  induction h with
  | nil => cases ho
  | cons hfirst _ ih =>
    obtain rfl | ho := mem_cons.1 ho
    · rw [(hfirst.of_ok hview).1]
      exact mem_cons_self
    · exact mem_cons_of_mem _ (ih ho)

end AllSettle

lemma mem_outputs_iff {f} :
    f ∈ outputs outDir os ↔
      ∃ o ∈ os, ∃ view, o.result = .ok view ∧ f = (targetOf outDir view, view.code) := by
  unfold outputs
  rw [mem_filterMap]
  refine exists_congr fun o => and_congr_right fun _ => ?_
  cases o.result with
  | error d => simp
  | ok view => simp [eq_comm]

/-- A tree after a change of some files only. -/
structure FileTree.Framed (t : FileTree) (files : List (Path × String)) (t' : FileTree) : Prop where
  alike : Alike t t'
  other : ∀ place, (∀ f ∈ files, ¬ t.Leads f.1 place) → t'.fileAt? place = t.fileAt? place

lemma FileTree.Framed.refl (t : FileTree) (files : List (Path × String)) : t.Framed files t :=
  ⟨.refl t, fun _ _ => rfl⟩

lemma FileTree.Framed.put {t' f files place} (hleads : t.Leads f.1 place)
    (h : (t.put place f.2).Framed files t') : t.Framed (f :: files) t' := by
  have hput := FileTree.Alike.put t place f.2
  refine ⟨hput.trans h.alike, fun q hq => ?_⟩
  have hne : q ≠ place := fun heq => hq f mem_cons_self (heq ▸ hleads)
  have hother := h.other q fun g hg hl => hq g (mem_cons_of_mem _ hg) (hput.leads_iff.1 hl)
  rw [hother, fileAt?_put, if_neg hne]

lemma writeAll_cons (f : Path × String) (files : List (Path × String)) (t : FileTree) :
    t.run (writeAll (f :: files)).run =
      match t.write f.1 f.2 with
      | .ok t' => t'.run (writeAll files).run
      | .error cause => (.error (.write f.1 cause), t) := by
  change t.run (_ >>= fun _ => writeAll files).run = _
  rw [run_except_bind, run_lift_bind, run_write]
  cases t.write f.1 f.2 <;> rfl

lemma framed_writeAll (files : List (Path × String)) (t : FileTree) :
    t.Framed files (t.run (writeAll files).run).2 := by
  induction files generalizing t with
  | nil => exact .refl t []
  | cons f files ih =>
    rw [writeAll_cons]
    cases hwrite : t.write f.1 f.2 with
    | error cause => exact .refl t _
    | ok t' =>
      obtain ⟨place, hleads, rfl⟩ := write_eq_ok_iff.1 hwrite
      exact .put hleads (ih _)

namespace FileTree

lemma files_createDirectory {t t' : FileTree} {p} (h : t.createDirectory p = .ok t') :
    t'.files = t.files := by
  unfold createDirectory at h
  cases hstart : t.start p with
  | error e =>
    rw [hstart] at h
    cases h
  | ok s =>
    rw [hstart] at h
    change (t.follow _ _ >>= _) = _ at h
    cases hfollow : t.follow s.1 (s.2.reverse.dropWhile (· = "")).reverse with
    | error e =>
      rw [hfollow] at h
      cases h
    | ok place =>
      rw [hfollow] at h
      change (if _ then _ else _) = _ at h
      split_ifs at h
      cases h
      rfl

lemma files_createDirectoriesWithin (steps : Nat) (t : FileTree) (p : Path) :
    (createDirectoriesWithin steps t p).2.files = t.files := by
  fun_induction createDirectoriesWithin steps t p with
  | case1 | case6 => rfl
  | case2 _ _ _ _ _ hcreate => exact files_createDirectory hcreate
  | case3 _ _ _ _ _ _ _ _ _ habove ih | case5 _ _ _ _ _ _ _ _ habove _ _ ih =>
    rw [habove] at ih
    exact ih
  | case4 _ _ _ _ _ _ _ _ habove _ hcreate ih =>
    rw [habove] at ih
    exact (files_createDirectory hcreate).trans ih

lemma fileAt?_createDirectories (t : FileTree) (p : Path) (place : Place) :
    (t.createDirectories p).2.fileAt? place = t.fileAt? place := by
  unfold fileAt? createDirectories
  rw [files_createDirectoriesWithin]

end FileTree

lemma CompiledView.isFileName_fileName (h : '/' ∉ view.className.toList) :
    IsFileName view.fileName := by
  refine .of_length ?_ ?_
  · simpa [fileName] using h
  · simp [fileName]

/-- The tree that output files are written to: the directory is made if there are any. -/
def FileTree.prepared (t : FileTree) (outDir : Path) (files : List (Path × String)) : FileTree :=
  if files.isEmpty then t else (t.createDirectories outDir).2

lemma FileTree.fileAt?_prepared (t : FileTree) (outDir : Path) (files : List (Path × String))
    (place : Place) : (t.prepared outDir files).fileAt? place = t.fileAt? place := by
  unfold prepared
  split_ifs
  · rfl
  · exact t.fileAt?_createDirectories outDir place

lemma framed_writeOutputs (outDir : Path) (os : List Outcome) (t : FileTree) :
    (t.prepared outDir (outputs outDir os)).Framed (outputs outDir os)
      (t.run (writeOutputs outDir os).run).2 := by
  unfold writeOutputs prepared
  cases hfiles : (outputs outDir os).isEmpty with
  | true =>
    dsimp only
    rw [hfiles]
    exact .refl t _
  | false =>
    dsimp only
    rw [hfiles, if_neg Bool.false_ne_true, if_neg Bool.false_ne_true, run_lift_bind,
      run_createDirectories]
    generalize t.createDirectories outDir = created
    obtain ⟨created, t'⟩ := created
    cases created with
    | error cause => exact .refl t' _
    | ok _ =>
      dsimp only
      rw [run_except_bind]
      have hframed := framed_writeAll (outputs outDir os) t'
      generalize t'.run (writeAll (outputs outDir os)).run = r at hframed
      obtain ⟨r, t''⟩ := r
      cases r <;> exact hframed

end SceneView
