import SceneView.Proofs.Batch

/-!
# Where output is written

An output file is named after the class of its document, and the class after the root of the
document. Nothing keeps slashes out of that name. A file is right below the output directory exactly
if there is none in it.
-/

namespace SceneView

lemma className_of_compileDocument {options d view} (h : (compileDocument options d).1 = .ok view) :
    d.className? = some view.className := by
  unfold compileDocument Document.className at h
  cases hname : d.className? with
  | none =>
    rw [hname] at h
    cases h
  | some className =>
    rw [hname] at h
    dsimp only at h
    split at h
    · cases h
    · cases h
      rfl

lemma className_of_compileView {options : CompileOptions} {source : String} {view : CompiledView}
    (h : (compileView options source).1 = .ok view) :
    ∃ d, Markup.readDocument source = .ok d ∧ d.className? = some view.className := by
  unfold compileView at h
  cases hd : Markup.readDocument source with
  | error e =>
    rw [hd] at h
    cases h
  | ok d =>
    rw [hd] at h
    exact ⟨d, rfl, className_of_compileDocument h⟩

lemma components_targetOf_iff (outDir : Path) (view : CompiledView) :
    (targetOf outDir view).components = outDir.components ++ [.normal view.fileName] ↔
      '/' ∉ view.className.toList := by
  constructor
  · intro h
    have hmem : .normal view.fileName ∈ (targetOf outDir view).components := by simp [h]
    have hslash := (Path.isFileName_of_mem_components hmem).no_slash
    simpa [CompiledView.fileName] using hslash
  · exact fun h => (CompiledView.isFileName_fileName h).components_child outDir

lemma targetOf_of_isAbsolute (outDir : Path) {view}
    (h : (⟨view.className⟩ : Path).isAbsolute = true) : targetOf outDir view = ⟨view.fileName⟩ := by
  have hname : (⟨view.fileName⟩ : Path).isAbsolute = true := by
    have hhead := beq_iff_eq.1 h
    have hne : view.className.toList ≠ [] := by
      intro hnil
      rw [hnil] at hhead
      cases hhead
    simp [Path.isAbsolute, CompiledView.fileName, List.head?_append_of_ne_nil _ hne, hhead]
  unfold targetOf Path.child Path.join
  rw [hname]
  rfl

def settledOf (outDir : Path) : Except Failure (List Outcome) → List Outcome
  | .ok outcomes => claimTargets outDir outcomes
  | .error _ => []

section Requests

variable {t : FileTree} {config : ProjectConfig} {request : Request} {outDir : Path}
  {cache? : Option Cache}

lemma fileAt?_compileInto {place : Place}
    (h : ∀ f ∈ outputs outDir
        (settledOf outDir (t.run (compileAll config request.paths cache?).run).1),
      ¬ (t.run (compileInto config request outDir cache?).run).2.Leads f.1 place) :
    (t.run (compileInto config request outDir cache?).run).2.fileAt? place =
      (t.run (compileAll config request.paths cache?).run).2.fileAt? place := by
  rw [run_compileInto] at h ⊢
  generalize t.run (compileAll config request.paths cache?).run = compiled at h ⊢
  obtain ⟨r, t'⟩ := compiled
  cases r with
  | error failure => rfl
  | ok outcomes =>
    dsimp only [settledOf] at h ⊢
    have hframed := framed_writeOutputs outDir (claimTargets outDir outcomes) t'
    generalize t'.run (writeOutputs outDir (claimTargets outDir outcomes)).run = written
      at h hframed ⊢
    obtain ⟨r', t''⟩ := written
    have hother := hframed.other place
    rw [t'.fileAt?_prepared] at hother
    cases r' with
    | error | ok => exact hother fun f hf hl => h f hf (hframed.alike.leads_iff.2 hl)

lemma compileAll_none (t : FileTree) (config : ProjectConfig) (paths : List Path) (outDir : Path) :
    (t.run (compileAll config paths none).run).2 = t ∧
      ∀ o ∈ settledOf outDir (t.run (compileAll config paths none).run).1,
        ∀ view, o.result = .ok view →
          ∃ source d, t.read o.path = .ok source ∧ Markup.readDocument source = .ok d ∧
            d.className? = some view.className := by
  rw [run_compileAll]
  obtain ⟨sources, hsources⟩ | hunread := t.holds_or (t.inputs config paths)
  · rw [run_compileFiles config.compile hsources]
    refine ⟨rfl, fun o ho view hview => ?_⟩
    have hmem := (claimTargets_allSettle outDir _).mem_of_ok ho hview
    obtain ⟨source, hread, hsource⟩ := mem_outcomesOf hsources hmem
    rw [hsource] at hview
    obtain ⟨d, hd, hname⟩ := className_of_compileView ((ofSource_eq_ok_iff o.path).1 hview)
    exact ⟨source, d, hread, hd, hname⟩
  · obtain ⟨failure, hfailure⟩ := run_compileFiles_of_error config.compile hunread
    rw [hfailure]
    exact ⟨rfl, nofun⟩

end Requests

/-- Where a request to compile documents writes to. Whether it succeeds or not, after the documents
are compiled it changes no files but the output files of those that are compiled and did not lose
their file to an earlier one. The path of an output file is that of the output directory and one
component more, the class name with its ending, exactly if the class name has no slash; then the
file is right below the directory. If the class name starts with a slash, the directory makes no
difference. Without stored results, the class name is the one that the root of a document gives. -/
theorem output_below_directory_iff {t : FileTree} {config : ProjectConfig} {request : Request}
    {outDir? : Option Path} {useCache : Bool} (htask : request.task = .compile outDir? useCache) :
    let outDir := outDir?.getD config.outDir
    let compiled := (t.opened config useCache).run
      (compileAll config request.paths (cacheFor config useCache)).run
    let settled := settledOf outDir compiled.1
    let final := (t.run (perform config request).run).2
    (∀ place, (∀ f ∈ outputs outDir settled, ¬ final.Leads f.1 place) →
      final.fileAt? place = compiled.2.fileAt? place) ∧
    (∀ f ∈ outputs outDir settled, ∃ o ∈ settled, ∃ view, o.result = .ok view ∧
      f = (outDir.child (view.className ++ ".ts"), view.code) ∧
      (f.1.components = outDir.components ++ [.normal (view.className ++ ".ts")] ↔
        '/' ∉ view.className.toList) ∧
      ('/' ∉ view.className.toList → ∀ place, final.Leads f.1 place →
        ∃ base, final.home outDir = .ok base ∧ place = base ++ [view.className ++ ".ts"]) ∧
      ((⟨view.className⟩ : Path).isAbsolute = true → f.1 = ⟨view.className ++ ".ts"⟩)) ∧
    (useCache = false → compiled.2 = t ∧ ∀ o ∈ settled, ∀ view, o.result = .ok view →
      ∃ source d, t.read o.path = .ok source ∧ Markup.readDocument source = .ok d ∧
        d.className? = some view.className) := by
  intro outDir compiled settled final
  have hfinal : final = ((t.opened config useCache).run
      (compileInto config request outDir (cacheFor config useCache)).run).2 := by
    rw [← run_perform_compile htask]
  refine ⟨fun place hplace => ?_, fun f hf => ?_, ?_⟩
  · rw [hfinal] at hplace ⊢
    exact fileAt?_compileInto hplace
  · obtain ⟨o, ho, view, hview, rfl⟩ := mem_outputs_iff.1 hf
    refine ⟨o, ho, view, hview, rfl, components_targetOf_iff outDir view, fun hslash place hl => ?_,
      targetOf_of_isAbsolute outDir⟩
    exact hl.child (CompiledView.isFileName_fileName hslash)
  · rintro rfl
    exact compileAll_none t config request.paths outDir

lemma settledOf_pairTree : settledOf ⟨"out"⟩
    ((pairTree.opened pairConfig false).run
      (compileAll pairConfig pairRequest.paths (cacheFor pairConfig false)).run).1 =
        pairSettled := by
  change settledOf ⟨"out"⟩ (pairTree.run (compileAll pairConfig pairFiles none).run).1 = _
  rw [run_compileAll, run_compileFiles pairConfig.compile holds_pairTree, inputs_pairTree]
  rfl

/-- With a class name without slashes, no file is changed but one of that name. -/
theorem pairTree_contained :
    pairRequest.task = .compile (some ⟨"out"⟩) false ∧
    ∀ place, place.getLast? ≠ some "A.ts" →
      (pairTree.run (perform pairConfig pairRequest).run).2.fileAt? place =
        pairTree.fileAt? place := by
  have htask : pairRequest.task = .compile (some ⟨"out"⟩) false := rfl
  refine ⟨htask, fun place hplace => ?_⟩
  obtain ⟨hother, hbelow, hdocuments⟩ :=
    @output_below_directory_iff pairTree pairConfig pairRequest _ _ htask
  rw [hother place, (hdocuments rfl).1]
  intro f hf hleads
  obtain ⟨o, ho, view, hview, -, -, hplaced, -⟩ := hbelow f hf
  rw [Option.getD_some, settledOf_pairTree] at ho
  have hname := (of_mem_pairSettled ho hview).2
  obtain ⟨base, -, rfl⟩ := hplaced (hname ▸ by decide) place hleads
  rw [hname] at hplace
  exact hplace (by simp)

def straySource : String := "<View name=\"../Evil\"/>"

def strayTree : FileTree :=
  { directories := [["src"]], files := [(["src", "V.xml"], straySource)] }

def strayRequest : Request :=
  { verbosity := 0, config? := none, paths := [], format := .text, task := .compile none false }

def strayConfig : ProjectConfig :=
  ({} : ProjectConfig).relativeTo ⟨"/"⟩

lemma inputs_strayTree : strayTree.inputs strayConfig [] = [⟨"/src/V.xml"⟩] := by
  have hfiles : (strayTree.filesUnder strayConfig.sourceDir).filter
      (·.extension? == some strayConfig.extension) = [⟨"/src/V.xml"⟩] := by
    decide +kernel
  change sortPaths ((strayTree.filesUnder strayConfig.sourceDir).filter
    (·.extension? == some strayConfig.extension)) = _
  rw [hfiles]
  exact List.mergeSort_of_pairwise (by decide)

/-- The file is written next to the document and not in the output directory. -/
theorem written_above_directory :
    strayConfig.outDir = ⟨"/src/generated"⟩ ∧ strayTree.fileAt? ["src", "Evil.ts"] = none ∧
      ((strayTree.run (runRequest strayRequest)).2.fileAt? ["src", "Evil.ts"]).isSome ∧
      (strayTree.run (runRequest strayRequest)).2.files.length = 2 := by
  have hconfig : (strayTree.run (configFor strayRequest.config?)).1 = .ok strayConfig := by
    decide +kernel
  have htask : strayRequest.task = .compile none false := rfl
  have hinputs : strayTree.inputs strayConfig strayRequest.paths = [⟨"/src/V.xml"⟩] :=
    inputs_strayTree
  have hholds :
      strayTree.Holds (strayTree.inputs strayConfig strayRequest.paths) [straySource] := by
    rw [hinputs]
    exact .cons (by decide +kernel) .nil
  have hsettled : claimTargets strayConfig.outDir (outcomesOf strayConfig.compile
      (strayTree.inputs strayConfig strayRequest.paths) [straySource]) =
        claimTargets strayConfig.outDir (outcomesOf strayConfig.compile [⟨"/src/V.xml"⟩]
          [straySource]) := by
    rw [hinputs]
  rw [run_compile hconfig htask hholds (Option.getD_none ..) hsettled]
  exact ⟨by decide +kernel, by decide +kernel, by decide +kernel, by decide +kernel⟩

end SceneView
