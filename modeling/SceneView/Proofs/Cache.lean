import SceneView.Project.Batch
import SceneView.Proofs.Key
import SceneView.Proofs.Paths

/-!
# Stored results are right

Documents whose paths differ in separators only share an entry, and every result that is stored
replaces the one before. A result is taken all the same only if it is that of the document and the
options at hand, since every entry tells the digest of what it depends on.
-/

open List

namespace SceneView

open FileTree

namespace CacheEntry

lemma ofJson?_toJson (e : CacheEntry) :
    ofJson? (Json.ofMembers [("hash", .ofString e.hash), ("view", e.view.toJson)]) = some e := by
  rfl

lemma parse?_text (e : CacheEntry) : parse? e.text = some e := by
  have hview : e.view.toJson.ReadsBack := by
    refine .ofMembers fun p hp => ?_
    simp only [mem_cons, not_mem_nil, or_false] at hp
    obtain rfl | rfl := hp
    all_goals exact .ofString _
  have hentry :
      (Json.ofMembers [("hash", .ofString e.hash), ("view", e.view.toJson)]).ReadsBack := by
    refine .ofMembers fun p hp => ?_
    simp only [mem_cons, not_mem_nil, or_false] at hp
    obtain rfl | rfl := hp
    · exact .ofString _
    · exact hview
  rw [parse?, text, hentry.read?, Option.bind_some, ofJson?_toJson]

end CacheEntry

namespace Cache

def entryOf (options : CompileOptions) (source : String) (view : CompiledView) : CacheEntry :=
  { hash := digest options source, view }

/-- The trees that come about, with the results that were stored on the way, the last one first. At
first there is no entry. Between the looks and changes of any number of calls, in any order, other
files may come and go, and entries may go. -/
inductive Reached (c : Cache) : List (CompileOptions × String) → FileTree → Prop where
  | start {t} :
    (∀ file text, t.read (c.entryPath file) ≠ .ok text) →
    Reached c [] t
  | edit {history t t'} :
    Reached c history t →
    (∀ file text, t'.read (c.entryPath file) = .ok text → t.read (c.entryPath file) = .ok text) →
    Reached c history t'
  | look {history t} (file : Path) (options : CompileOptions) (source : String) :
    Reached c history t →
    Reached c history (t.run (c.get? file options source)).2
  | store {history t} (file : Path) (options : CompileOptions) (source : String)
    {view : CompiledView} :
    Reached c history t →
    (compileView options source).1 = .ok view →
    Reached c ((options, source) :: history) (t.run (c.store file options source view)).2

lemma run_get? (c : Cache) (file : Path) (options : CompileOptions) (source : String)
    (t : FileTree) :
    t.run (c.get? file options source) =
      match t.read (c.entryPath file) with
      | .error _ => (none, t)
      | .ok text =>
        match CacheEntry.parse? text with
        | none => (none, t.without (c.entryPath file))
        | some entry =>
          (if entry.hash == digest options source then some entry.view else none, t) := by
  rw [get?, run_bind, run_read]
  dsimp only
  cases t.read (c.entryPath file) with
  | error _ => rfl
  | ok text =>
    dsimp only
    cases CacheEntry.parse? text with
    | none =>
      dsimp only
      rw [run_bind, run_remove, run_pure]
    | some entry =>
      dsimp only
      rw [run_pure]

lemma run_store (c : Cache) (file : Path) (options : CompileOptions) (source : String)
    (view : CompiledView) (t : FileTree) :
    t.run (c.store file options source view) =
      ((), match t.write (c.entryPath file) (entryOf options source view).text with
        | .ok t' => t'
        | .error _ => t) := by
  rw [store, run_bind, run_write]
  change ((), _) = _
  unfold entryOf
  cases t.write (c.entryPath file) _ <;> rfl

variable {c : Cache} {t : FileTree} {file : Path} {options : CompileOptions} {source : String}
  {view : CompiledView}

lemma read_of_get? {p text} (h : (t.run (c.get? file options source)).2.read p = .ok text) :
    t.read p = .ok text := by
  rw [run_get?] at h
  cases hread : t.read (c.entryPath file) with
  | error _ =>
    rw [hread] at h
    exact h
  | ok stored =>
    rw [hread] at h
    dsimp only at h
    cases hentry : CacheEntry.parse? stored with
    | some entry =>
      rw [hentry] at h
      exact h
    | none =>
      rw [hentry] at h
      dsimp only at h
      exact read_without h

lemma entry_of_get? (h : (t.run (c.get? file options source)).1 = some view) :
    ∃ text, t.read (c.entryPath file) = .ok text ∧
      CacheEntry.parse? text = some (entryOf options source view) := by
  rw [run_get?] at h
  cases hread : t.read (c.entryPath file) with
  | error _ =>
    rw [hread] at h
    cases h
  | ok stored =>
    rw [hread] at h
    dsimp only at h
    refine ⟨stored, rfl, ?_⟩
    cases hentry : CacheEntry.parse? stored with
    | none =>
      rw [hentry] at h
      cases h
    | some entry =>
      rw [hentry] at h
      dsimp only at h
      split_ifs at h with hhash
      obtain rfl := Option.some.inj h
      rw [entryOf, ← beq_iff_eq.1 hhash]

lemma read_of_store {p text} (h : (t.run (c.store file options source view)).2.read p = .ok text) :
    text = (entryOf options source view).text ∨ t.read p = .ok text := by
  rw [run_store] at h
  dsimp only at h
  split at h
  · next t' hwrite =>
    obtain ⟨place, _, rfl⟩ := write_eq_ok_iff.1 hwrite
    exact read_put h
  · exact .inr h

lemma run_store_of_write {t'}
    (h : t.write (c.entryPath file) (entryOf options source view).text = .ok t') :
    t.run (c.store file options source view) = ((), t') := by
  rw [run_store, h]

lemma get?_store {t'} (h : t.write (c.entryPath file) (entryOf options source view).text = .ok t') :
    (t.run do
      c.store file options source view
      c.get? file options source).1 = some view := by
  rw [run_bind, run_store_of_write h]
  dsimp only
  rw [run_get?, read_of_write h]
  dsimp only
  rw [CacheEntry.parse?_text]
  simp [entryOf]

def Sound (c : Cache) (history : List (CompileOptions × String)) (t : FileTree) : Prop :=
  ∀ file text, t.read (c.entryPath file) = .ok text →
    ∃ options source view, (options, source) ∈ history ∧
      (compileView options source).1 = .ok view ∧ text = (entryOf options source view).text

lemma Reached.sound {history} (h : c.Reached history t) : c.Sound history t := by
  induction h with
  | start hempty => exact fun file text hread => absurd hread (hempty file text)
  | edit _ hkept ih => exact fun file text hread => ih file text (hkept file text hread)
  | look _ _ _ _ ih => exact fun file text hread => ih file text (read_of_get? hread)
  | store file options source _ hview ih =>
    intro file' text hread
    obtain rfl | hread := read_of_store hread
    · exact ⟨options, source, _, mem_cons_self, hview, rfl⟩
    · obtain ⟨options', source', view', hmem, hview', htext⟩ := ih file' text hread
      exact ⟨options', source', view', mem_cons_of_mem _ hmem, hview', htext⟩

def Distinguishes (history : List (CompileOptions × String)) (options : CompileOptions)
    (source : String) : Prop :=
  ∀ p ∈ history, Digest.sha256 (key p.1 p.2) = Digest.sha256 (key options source) →
    key p.1 p.2 = key options source

lemma Sound.compileView_of_get? {history} (h : c.Sound history t)
    (hsha : Distinguishes history options source)
    (hget : (t.run (c.get? file options source)).1 = some view) :
    (compileView options source).1 = .ok view := by
  obtain ⟨text, hread, hparse⟩ := entry_of_get? hget
  obtain ⟨options', source', view', hmem, hview, rfl⟩ := h file text hread
  rw [CacheEntry.parse?_text] at hparse
  obtain ⟨hhash, rfl⟩ := CacheEntry.mk.injEq .. ▸ Option.some.inj hparse
  have hkey := hsha _ hmem (Digest.hex_inj hhash)
  obtain ⟨rfl, rfl⟩ := key_inj hkey
  exact hview

end Cache

section Calls

variable {t : FileTree} {path : Path} {options : CompileOptions} {source : String}

lemma run_compileFile_of_error {cause} (h : t.read path = .error cause) (options : CompileOptions)
    (cache? : Option Cache) :
    t.run (compileFile options cache? path).run = (.error (.read path cause), t) := by
  unfold compileFile
  rw [run_lift_bind, run_read, h]
  rfl

lemma run_compileFile_none (h : t.read path = .ok source) (options : CompileOptions) :
    t.run (compileFile options none path).run = (.ok (.ofSource path options source), t) := by
  unfold compileFile
  rw [run_lift_bind, run_read, h]
  rfl

lemma run_compileFile_some (h : t.read path = .ok source) (options : CompileOptions) (c : Cache) :
    t.run (compileFile options (some c) path).run =
      match t.run (c.get? path options source) with
      | (some view, t') => (.ok { path, result := .ok view }, t')
      | (none, t') =>
        (.ok (.ofSource path options source),
          match (Outcome.ofSource path options source).result with
          | .ok view => (t'.run (c.store path options source view)).2
          | .error _ => t') := by
  unfold compileFile
  rw [run_lift_bind, run_read, h]
  dsimp only
  rw [run_lift_bind]
  generalize t.run (c.get? path options source) = found
  obtain ⟨found, t'⟩ := found
  cases found with
  | some view => rfl
  | none =>
    dsimp only
    cases (Outcome.ofSource path options source).result with
    | ok view =>
      dsimp only
      rw [run_lift_bind, run_return]
    | error _ =>
      dsimp only
      rw [run_return]

lemma ofSource_eq_ok_iff (path : Path) {view} :
    (Outcome.ofSource path options source).result = .ok view ↔
      (compileView options source).1 = .ok view := by
  unfold Outcome.ofSource
  generalize compileView options source = r
  obtain ⟨r, log⟩ := r
  cases r with
  | ok view' => simp only [Except.ok.injEq]
  | error fault => exact ⟨nofun, nofun⟩

lemma path_ofSource (path : Path) (options : CompileOptions) (source : String) :
    (Outcome.ofSource path options source).path = path := by
  unfold Outcome.ofSource
  split <;> rfl

def told (r : Except Failure Outcome) : Except Failure (Path × Except Diagnostic CompiledView) :=
  r.map fun o => (o.path, o.result)

variable {c : Cache} {history : List (CompileOptions × String)}

lemma Cache.Reached.call (h : c.Reached history t) (options : CompileOptions) (path : Path) :
    ∃ history', c.Reached history' (t.run (compileFile options (some c) path).run).2 ∧
      (history' = history ∨
        ∃ source, t.read path = .ok source ∧ history' = (options, source) :: history) := by
  cases hread : t.read path with
  | error cause =>
    rw [run_compileFile_of_error hread]
    exact ⟨history, h, .inl rfl⟩
  | ok source =>
    have hlook := h.look path options source
    rw [run_compileFile_some hread]
    generalize t.run (c.get? path options source) = found at hlook ⊢
    obtain ⟨found, t'⟩ := found
    cases found with
    | some view => exact ⟨history, hlook, .inl rfl⟩
    | none =>
      dsimp only at hlook ⊢
      cases hresult : (Outcome.ofSource path options source).result with
      | error d => exact ⟨history, hlook, .inl rfl⟩
      | ok view =>
        exact ⟨_, hlook.store path options source ((ofSource_eq_ok_iff path).1 hresult),
          .inr ⟨source, rfl, rfl⟩⟩

lemma Cache.Sound.told_compileFile (h : c.Sound history t) (options : CompileOptions) (path : Path)
    (hsha : ∀ source, t.read path = .ok source → Cache.Distinguishes history options source) :
    told (t.run (compileFile options (some c) path).run).1 =
      told (t.run (compileFile options none path).run).1 := by
  cases hread : t.read path with
  | error cause => rw [run_compileFile_of_error hread, run_compileFile_of_error hread]
  | ok source =>
    have hright : ∀ view, (t.run (c.get? path options source)).1 = some view →
        (compileView options source).1 = .ok view :=
      fun view hget => h.compileView_of_get? (hsha source hread) hget
    rw [run_compileFile_none hread, run_compileFile_some hread]
    generalize t.run (c.get? path options source) = found at hright ⊢
    obtain ⟨found, t'⟩ := found
    cases found with
    | none => rfl
    | some view =>
      have hresult := (ofSource_eq_ok_iff path).2 (hright view rfl)
      change Except.ok (path, Except.ok view) = Except.ok (_, _)
      rw [path_ofSource, hresult]

end Calls

/-- Stored results make no difference. After any history of calls, a result that is taken is that of
the document and the options at hand, a call tells the same as without stored results, and it leads
to a longer history. A result that can be stored is taken again as it is. -/
theorem stored_results_transparent {c : Cache} {history : List (CompileOptions × String)}
    {t : FileTree} (h : c.Reached history t) :
    (∀ options path,
      (∀ source, t.read path = .ok source → Cache.Distinguishes history options source) →
      told (t.run (compileFile options (some c) path).run).1 =
        told (t.run (compileFile options none path).run).1) ∧
    (∀ options path, ∃ history',
      c.Reached history' (t.run (compileFile options (some c) path).run).2 ∧
        (history' = history ∨
          ∃ source, t.read path = .ok source ∧ history' = (options, source) :: history)) ∧
    (∀ file options source view, Cache.Distinguishes history options source →
      (t.run (c.get? file options source)).1 = some view →
      (compileView options source).1 = .ok view) ∧
    ∀ (t' t'' : FileTree) file options source view,
      t'.write (c.entryPath file) (Cache.entryOf options source view).text = .ok t'' →
      (t'.run do
        c.store file options source view
        c.get? file options source).1 = some view :=
  ⟨fun options path hsha => h.sound.told_compileFile options path hsha, fun options path =>
    h.call options path, fun _ _ _ _ hsha hget => h.sound.compileView_of_get? hsha hget,
    fun _ _ _ _ _ _ hwrite => Cache.get?_store hwrite⟩

lemma Cache.isFileName_entryName (file : Path) : IsFileName (Cache.entryName file) := by
  refine .of_length ?_ ?_
  · simp only [Cache.entryName, String.toList_append, String.toList_ofList, mem_append,
      mem_map, not_or, not_exists, not_and]
    refine ⟨fun c _ => ?_, by decide⟩
    split_ifs with hc
    · decide
    · rintro rfl
      exact hc rfl
  · simp [Cache.entryName]

def twinTree : FileTree :=
  { directories := [["a"], ["cache"]]
    files := [(["a", "b.xml"], "<View name=\"A\"/>"), (["a_b.xml"], "<View name=\"B\"/>")] }

def twinCache : Cache := ⟨⟨"cache"⟩⟩

lemma twinTree_reached : twinCache.Reached [] twinTree := by
  refine .start fun file text hread => ?_
  obtain ⟨place, hleads, hfile⟩ := read_eq_ok_iff.1 hread
  obtain ⟨base, hhome, rfl⟩ := hleads.child (Cache.isFileName_entryName file)
  have hbase : twinTree.home twinCache.directory = .ok ["cache"] := by decide
  obtain rfl := Except.ok.inj (hhome.symm.trans hbase)
  simp [twinTree, fileAt?, lookup_cons] at hfile

def twinsStored (a b : CompiledView) : FileTree :=
  ((twinTree.run (twinCache.store ⟨"a/b.xml"⟩ {} "<View name=\"A\"/>" a)).2.run
    (twinCache.store ⟨"a_b.xml"⟩ {} "<View name=\"B\"/>" b)).2

lemma twins_written (t : FileTree) (h : FileTree.Alike twinTree t) {path}
    (hpath : path = ⟨"a/b.xml"⟩ ∨ path = ⟨"a_b.xml"⟩) (text : String) :
    t.write (twinCache.entryPath path) text = .ok (t.put ["cache", "a_b.xml.json"] text) := by
  refine write_eq_ok_iff.2 ⟨_, h.leads_iff.2 ?_, rfl⟩
  obtain rfl | rfl := hpath
  iterate 2 exact ⟨by decide +kernel, by decide +kernel⟩

lemma read_twinsStored (a b : CompiledView) :
    (twinsStored a b).read ⟨"a/b.xml"⟩ = .ok "<View name=\"A\"/>" ∧
      (twinsStored a b).read ⟨"a_b.xml"⟩ = .ok "<View name=\"B\"/>" := by
  unfold twinsStored
  rw [Cache.run_store_of_write (twins_written _ (.refl _) (.inl rfl) _)]
  rw [Cache.run_store_of_write (twins_written _ (.put ..) (.inr rfl) _)]
  have halike : ∀ text text', FileTree.Alike twinTree
      ((twinTree.put ["cache", "a_b.xml.json"] text).put ["cache", "a_b.xml.json"] text') :=
    fun _ _ => .trans (.put ..) (.put ..)
  refine ⟨read_eq_ok_iff.2 ⟨["a", "b.xml"], ?_, ?_⟩,
    read_eq_ok_iff.2 ⟨["a_b.xml"], ?_, ?_⟩⟩
  · exact (halike _ _).leads_iff.2 ⟨by decide +kernel, by decide +kernel⟩
  · rw [fileAt?_put, if_neg (by decide), fileAt?_put, if_neg (by decide)]
    rfl
  · exact (halike _ _).leads_iff.2 ⟨by decide +kernel, by decide +kernel⟩
  · rw [fileAt?_put, if_neg (by decide), fileAt?_put, if_neg (by decide)]
    rfl

/-- The two share an entry, which holds the result for the second one. A call for either of them
tells the same as without stored results. -/
theorem twins_transparent :
    twinCache.entryPath ⟨"a/b.xml"⟩ = twinCache.entryPath ⟨"a_b.xml"⟩ ∧
    ∃ a b, (compileView {} "<View name=\"A\"/>").1 = .ok a ∧
      (compileView {} "<View name=\"B\"/>").1 = .ok b ∧
      ((twinsStored a b).run (twinCache.get? ⟨"a_b.xml"⟩ {} "<View name=\"B\"/>")).1 = some b ∧
      ∀ path ∈ [(⟨"a/b.xml"⟩ : Path), ⟨"a_b.xml"⟩],
        told ((twinsStored a b).run (compileFile {} (some twinCache) path).run).1 =
          told ((twinsStored a b).run (compileFile {} none path).run).1 := by
  have haccepted : ∀ source, (compileView {} source).1.isOk = true →
      ∃ view, (compileView {} source).1 = .ok view := by
    intro source hok
    cases hv : (compileView {} source).1 with
    | ok view => exact ⟨view, rfl⟩
    | error fault =>
      rw [hv] at hok
      cases hok
  have hsha : Digest.sha256 (Cache.key {} "<View name=\"A\"/>") ≠
      Digest.sha256 (Cache.key {} "<View name=\"B\"/>") := by
    decide +kernel
  obtain ⟨a, ha⟩ := haccepted "<View name=\"A\"/>" (by decide +kernel)
  obtain ⟨b, hb⟩ := haccepted "<View name=\"B\"/>" (by decide +kernel)
  have hreached : twinCache.Reached [({}, "<View name=\"B\"/>"), ({}, "<View name=\"A\"/>")]
      (twinsStored a b) :=
    .store _ _ _ (.store _ _ _ twinTree_reached ha) hb
  obtain ⟨hcalls, -, -, hstored⟩ := stored_results_transparent hreached
  refine ⟨by decide +kernel, a, b, ha, hb, ?_, fun path hpath => hcalls {} path ?_⟩
  · have halike : FileTree.Alike twinTree
        (twinTree.run (twinCache.store ⟨"a/b.xml"⟩ {} "<View name=\"A\"/>" a)).2 := by
      rw [Cache.run_store_of_write (twins_written _ (.refl _) (.inl rfl) _)]
      exact .put ..
    have htaken := hstored _ _ ⟨"a_b.xml"⟩ {} "<View name=\"B\"/>" b
      (twins_written _ halike (.inr rfl) _)
    rw [FileTree.run_bind] at htaken
    exact htaken
  · intro source hread p hp heq
    have hsource : source = "<View name=\"A\"/>" ∨ source = "<View name=\"B\"/>" := by
      obtain ⟨hA, hB⟩ := read_twinsStored a b
      simp only [List.mem_cons, List.not_mem_nil, or_false] at hpath
      obtain rfl | rfl := hpath
      · exact .inl (Except.ok.inj (hread.symm.trans hA))
      · exact .inr (Except.ok.inj (hread.symm.trans hB))
    simp only [List.mem_cons, List.not_mem_nil, or_false] at hp
    obtain rfl | rfl := hp <;> obtain rfl | rfl := hsource
    · exact absurd heq.symm hsha
    · rfl
    · rfl
    · exact absurd heq hsha

end SceneView
