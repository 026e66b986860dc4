import SceneView.Project.Command
import SceneView.Proofs.Cache
import SceneView.Proofs.Outputs

/-!
# Compiling many documents

A request reads all its documents before it writes anything. If one of them cannot be read, nothing
is written. If all can be read, the output files of the documents that were compiled are written and
nothing else, and to check the documents gives the same diagnostics and writes nothing.
-/

open List

namespace SceneView

open FileTree

def FileTree.Looks {α : Type} (x : StateM FileTree α) : Prop :=
  ∀ t : FileTree, (t.run x).2 = t

namespace FileTree.Looks

variable {α β : Type} {x : StateM FileTree α} {f : α → StateM FileTree β}

lemma pure (a : α) : Looks (Pure.pure a : StateM FileTree α) :=
  fun _ => rfl

lemma bind (h : Looks x) (hf : ∀ a, Looks (f a)) : Looks (x >>= f) := by
  intro t
  rw [run_bind, h t, hf]

lemma mapM (h : ∀ a, Looks (f a)) : (l : List α) → Looks (l.mapM f)
  | [] => pure []
  | a :: l => by
    rw [mapM_cons]
    exact (h a).bind fun _ => (mapM h l).bind fun _ => pure _

lemma run_mapM (h : ∀ a, Looks (f a)) (t : FileTree) (l : List α) :
    (t.run (l.mapM f)).1 = l.map fun a => (t.run (f a)).1 := by
  induction l with
  | nil => rfl
  | cons a l ih =>
    rw [mapM_cons, run_bind, h a t, run_bind, mapM h l t, map_cons, ← ih]
    rfl

end FileTree.Looks

open FileTree (Looks)

lemma documentsUnder_looks (extension : String) (dir : Path) :
    Looks (documentsUnder extension dir) :=
  fun _ => rfl

lemma expandInput_looks (extension : String) (input : Path) :
    Looks (expandInput extension input) := by
  refine Looks.bind (fun _ => rfl) fun isDirectory => ?_
  split
  · exact documentsUnder_looks extension input
  · exact .pure _

lemma collectInputs_looks (inputs : List Path) (sourceDir : Path) (extension : String) :
    Looks (collectInputs inputs sourceDir extension) := by
  unfold collectInputs
  split
  · exact documentsUnder_looks extension sourceDir
  · exact (Looks.mapM (expandInput_looks extension) inputs).bind fun _ => .pure _

lemma load_looks (path : Path) : Looks (ProjectConfig.load path) := by
  refine Looks.bind (fun _ => rfl) fun text => ?_
  split
  · exact .pure _
  · split
    · exact .pure _
    · split <;> exact .pure _

lemma firstFile?_looks : (paths : List Path) → Looks (ProjectConfig.firstFile? paths)
  | [] => .pure none
  | path :: paths => by
    refine Looks.bind (fun _ => rfl) fun isFile => ?_
    split
    · exact .pure _
    · exact firstFile?_looks paths

lemma configFor_looks (config? : Option Path) : Looks (configFor config?) := by
  unfold configFor
  split
  · exact load_looks _
  · refine Looks.bind (fun _ => rfl) fun start => ?_
    refine Looks.bind (firstFile?_looks _) fun path? => ?_
    split
    · exact load_looks _
    · exact .pure _

def FileTree.inputs (t : FileTree) (config : ProjectConfig) (paths : List Path) : List Path :=
  (t.run (collectInputs paths config.sourceDir config.extension)).1

lemma pairwise_sortPaths (ps : List Path) : (sortPaths ps).Pairwise fun p q => p.le q = true := by
  have htrans : ∀ p q r : Path, p.le q = true → q.le r = true → p.le r = true := by
    simpa only [Path.le_iff] using fun _ _ _ => le_trans
  have htotal : ∀ p q : Path, (p.le q || q.le p) = true := by
    simpa only [Bool.or_eq_true, Path.le_iff] using fun _ _ => le_total _ _
  exact pairwise_mergeSort htrans htotal ps

lemma dropRepeats_sublist (ps : List Path) : (dropRepeats ps).Sublist ps := by
  induction ps with
  | nil => exact .slnil
  | cons p ps ih =>
    rw [dropRepeats]
    split
    · exact (nil_sublist ps).cons_cons p
    · next q qs hrest =>
      rw [hrest] at ih
      split_ifs
      · exact ((sublist_cons_self q qs).trans ih).cons_cons p
      · exact ih.cons_cons p

lemma pairwise_inputs (t : FileTree) (config : ProjectConfig) (paths : List Path) :
    (t.inputs config paths).Pairwise fun p q => p.le q = true := by
  unfold inputs collectInputs
  split
  · exact pairwise_sortPaths _
  · rw [run_bind]
    exact (pairwise_sortPaths _).sublist (dropRepeats_sublist _)

def FileTree.Holds (t : FileTree) (files : List Path) (sources : List String) : Prop :=
  List.Forall₂ (fun file source => t.read file = .ok source) files sources

def outcomesOf (options : CompileOptions) (files : List Path) (sources : List String) :
    List Outcome :=
  List.zipWith (fun file source => .ofSource file options source) files sources

variable {t : FileTree} {config : ProjectConfig} {request : Request} {files : List Path}
  {sources : List String}

lemma run_compileFiles (options : CompileOptions) (h : t.Holds files sources) :
    t.run (files.mapM (compileFile options none)).run =
      (.ok (outcomesOf options files sources), t) := by
  induction h with
  | nil => rfl
  | cons hread _ ih =>
    rw [mapM_cons, run_except_bind, run_compileFile_none hread]
    dsimp only
    rw [run_except_bind, ih]
    rfl

lemma run_compileFiles_of_error (options : CompileOptions)
    (h : ∃ file ∈ files, ∃ cause, t.read file = .error cause) :
    ∃ failure, t.run (files.mapM (compileFile options none)).run = (.error failure, t) := by
  induction files with
  | nil =>
    obtain ⟨file, hfile, _⟩ := h
    cases hfile
  | cons file files ih =>
    rw [mapM_cons, run_except_bind]
    cases hread : t.read file with
    | error cause =>
      rw [run_compileFile_of_error hread]
      exact ⟨_, rfl⟩
    | ok source =>
      rw [run_compileFile_none hread]
      dsimp only
      have hrest : ∃ file ∈ files, ∃ cause, t.read file = .error cause := by
        obtain ⟨file', hmem, cause, hcause⟩ := h
        obtain rfl | hmem := mem_cons.1 hmem
        · cases hread.symm.trans hcause
        · exact ⟨file', hmem, cause, hcause⟩
      obtain ⟨failure, hfailure⟩ := ih hrest
      rw [run_except_bind, hfailure]
      exact ⟨failure, rfl⟩

lemma FileTree.holds_or (t : FileTree) (files : List Path) :
    (∃ sources, t.Holds files sources) ∨ ∃ file ∈ files, ∃ cause, t.read file = .error cause := by
  induction files with
  | nil => exact .inl ⟨[], .nil⟩
  | cons file files ih =>
    cases hread : t.read file with
    | error cause => exact .inr ⟨file, mem_cons_self, cause, hread⟩
    | ok source =>
      obtain ⟨sources, h⟩ | ⟨file', hmem, h⟩ := ih
      · exact .inl ⟨source :: sources, .cons hread h⟩
      · exact .inr ⟨file', mem_cons_of_mem _ hmem, h⟩

lemma run_compileAll (config : ProjectConfig) (paths : List Path) (t : FileTree) :
    t.run (compileAll config paths none).run =
      t.run ((t.inputs config paths).mapM (compileFile config.compile none)).run := by
  unfold compileAll
  rw [run_lift_bind, collectInputs_looks]
  rfl

lemma run_runRequest (request : Request)
    (hconfig : (t.run (configFor request.config?)).1 = .ok config) :
    t.run (runRequest request) =
      match t.run (perform config request).run with
      | (.ok completion, t') => (completion, t')
      | (.error failure, t') => (failed failure.message, t') := by
  unfold runRequest
  rw [run_bind, configFor_looks, hconfig]
  dsimp only
  rw [run_bind]
  generalize t.run (perform config request).run = r
  obtain ⟨r, t'⟩ := r
  cases r <;> rfl

def cacheFor (config : ProjectConfig) (useCache : Bool) : Option Cache :=
  if useCache then some ⟨config.cacheDir⟩ else none

def FileTree.opened (t : FileTree) (config : ProjectConfig) (useCache : Bool) : FileTree :=
  if useCache then (t.createDirectories config.cacheDir).2 else t

def compileInto (config : ProjectConfig) (request : Request) (outDir : Path)
    (cache? : Option Cache) : ExceptT Failure (StateM FileTree) Completion := do
  let outcomes ← compileAll config request.paths cache?
  let written ← writeOutputs outDir (claimTargets outDir outcomes)
  return report request.format (claimTargets outDir outcomes) written

lemma run_compileInto (outDir : Path) (cache? : Option Cache) :
    t.run (compileInto config request outDir cache?).run =
      match t.run (compileAll config request.paths cache?).run with
      | (.error failure, t') => (.error failure, t')
      | (.ok outcomes, t') =>
        match t'.run (writeOutputs outDir (claimTargets outDir outcomes)).run with
        | (.error failure, t'') => (.error failure, t'')
        | (.ok written, t'') =>
          (.ok (report request.format (claimTargets outDir outcomes) written), t'') := by
  unfold compileInto
  rw [run_except_bind]
  generalize t.run (compileAll config request.paths cache?).run = r
  obtain ⟨r, t'⟩ := r
  cases r with
  | error failure => rfl
  | ok outcomes =>
    dsimp only
    rw [run_except_bind]
    generalize t'.run (writeOutputs outDir (claimTargets outDir outcomes)).run = r'
    obtain ⟨r', t''⟩ := r'
    cases r' <;> rfl

lemma run_perform_compile {outDir? useCache} (htask : request.task = .compile outDir? useCache) :
    t.run (perform config request).run = (t.opened config useCache).run
      (compileInto config request (outDir?.getD config.outDir) (cacheFor config useCache)).run := by
  unfold perform
  rw [htask]
  cases useCache <;> rfl

def Outcome.target? (outDir : Path) (o : Outcome) : Option Path :=
  match o.result with
  | .ok view => some (targetOf outDir view)
  | .error _ => none

def Diagnostic.printed (d : Diagnostic) : String :=
  d.file ++ (if d.line = 0 then "" else ":" ++ toString d.line) ++ ": [" ++ d.code ++ "] " ++ d.message

/-- What a request prints about its documents. As text, the files that were written and the number
of documents that were compiled are the output and the diagnostics are the errors; as one value, all
of them are the output. -/
structure Completion.Tells (c : Completion) (format : ReportFormat) (checked : Nat)
    (written : List Path) (ds : List Diagnostic) : Prop where
  exit : c.exit = if ds = [] then 0 else 1
  output : format = .text → c.output =
    String.join (written.map fun p => "wrote " ++ p.text ++ "\n") ++
      toString (checked - ds.length) ++ " of " ++ toString checked ++ " documents compiled\n"
  errors : format = .text → c.errors = String.join (ds.map fun d => d.printed ++ "\n")
  value : format = .json → c.errors = "" ∧ c.output = (Json.ofMembers
    [("checked", .ofNat checked), ("written", .ofStrings (written.map (·.text))),
      ("diagnostics", .array (ds.map fun d => .ofMembers [("code", .ofString d.code),
        ("message", .ofString d.message), ("file", .ofString d.file),
        ("line", .ofNat d.line)]))]).pretty "" ++ "\n"

lemma Diagnostic.text_eq (d : Diagnostic) : d.text = d.printed := by
  unfold Diagnostic.text Diagnostic.printed
  cases d.line <;> simp [String.append_assoc]

lemma mem_outcomesOf {options o} (h : t.Holds files sources)
    (ho : o ∈ outcomesOf options files sources) :
    ∃ source, t.read o.path = .ok source ∧ o = .ofSource o.path options source := by
  induction h with
  | nil => cases ho
  | @cons file source files sources hread _ ih =>
    obtain rfl | ho := mem_cons.1 ho
    · rw [path_ofSource]
      exact ⟨source, hread, rfl⟩
    · exact ih ho

lemma run_compile {outDir? : Option Path} {outDir : Path} {settled : List Outcome}
    (hconfig : (t.run (configFor request.config?)).1 = .ok config)
    (htask : request.task = .compile outDir? false)
    (h : t.Holds (t.inputs config request.paths) sources)
    (houtDir : outDir?.getD config.outDir = outDir)
    (hsettled : claimTargets outDir
      (outcomesOf config.compile (t.inputs config request.paths) sources) = settled) :
    t.run (runRequest request) =
      match t.run (writeOutputs outDir settled).run with
      | (.ok written, t') => (report request.format settled written, t')
      | (.error failure, t') => (failed failure.message, t') := by
  rw [run_runRequest request hconfig, run_perform_compile htask, houtDir]
  change (match t.run (compileInto config request outDir none).run with
    | (.ok completion, t') => (completion, t')
    | (.error failure, t') => (failed failure.message, t')) = _
  rw [run_compileInto, run_compileAll, run_compileFiles config.compile h]
  dsimp only
  rw [hsettled]
  generalize t.run (writeOutputs outDir settled).run = written
  obtain ⟨r, t'⟩ := written
  cases r <;> rfl

def pairTree : FileTree :=
  { directories := [["in"], ["out"]]
    files :=
      [(["in", "a.xml"], "<View name=\"A\"/>"), (["in", "b.xml"], "<View name=\" A \"/>"),
        (["in", "c.xml"], "<View/>"), (["out", "Old.ts"], "old")] }

def pairFiles : List Path :=
  [⟨"in/a.xml"⟩, ⟨"in/b.xml"⟩, ⟨"in/c.xml"⟩]

def pairRequest : Request :=
  { verbosity := 0, config? := none, paths := pairFiles, format := .text,
    task := .compile (some ⟨"out"⟩) false }

def pairConfig : ProjectConfig :=
  ({} : ProjectConfig).relativeTo ⟨"/"⟩

lemma inputs_pairTree : pairTree.inputs pairConfig pairFiles = pairFiles := by
  have hexpand : (pairTree.run (pairFiles.mapM (expandInput pairConfig.extension))).1.flatten =
      pairFiles := by
    decide +kernel
  have hsort : sortPaths pairFiles = pairFiles := mergeSort_of_pairwise (by decide +kernel)
  change dropRepeats (sortPaths (pairTree.run (pairFiles.mapM
    (expandInput pairConfig.extension))).1.flatten) = pairFiles
  rw [hexpand, hsort]
  decide +kernel

lemma holds_pairTree : pairTree.Holds (pairTree.inputs pairConfig pairFiles)
    ["<View name=\"A\"/>", "<View name=\" A \"/>", "<View/>"] := by
  rw [inputs_pairTree]
  exact .cons (by decide +kernel) (.cons (by decide +kernel) (.cons (by decide +kernel) .nil))

def pairSettled : List Outcome :=
  claimTargets ⟨"out"⟩ (outcomesOf {} pairFiles
    ["<View name=\"A\"/>", "<View name=\" A \"/>", "<View/>"])

lemma of_mem_pairSettled {o view} (ho : o ∈ pairSettled) (hview : o.result = .ok view) :
    o.path = ⟨"in/a.xml"⟩ ∧ view.className = "A" := by
  have hall : (pairSettled.filterMap fun o => o.result.toOption.map fun view =>
      (o.path, view.className)) = [(⟨"in/a.xml"⟩, "A")] := by
    decide +kernel
  have hmem : (o.path, view.className) ∈ pairSettled.filterMap fun o =>
      o.result.toOption.map fun view => (o.path, view.className) :=
    mem_filterMap.2 ⟨o, ho, by rw [hview]; rfl⟩
  rw [hall] at hmem
  exact Prod.mk.inj (mem_singleton.1 hmem)

end SceneView
