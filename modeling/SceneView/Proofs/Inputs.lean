import Mathlib.Data.List.Sort
import SceneView.Proofs.Batch

/-!
# The documents of a request

The documents of a request are in the order of their paths, each once, whatever inputs lead to it. A
directory stands for the documents at and below it, so it adds nothing to a directory above it.
-/

open List

namespace SceneView

open Component Path

lemma mem_dropRepeats {ps : List Path} {c : List Component} :
    c ∈ (dropRepeats ps).map components ↔ c ∈ ps.map components := by
  induction ps with
  | nil => rfl
  | cons p ps ih =>
    rw [map_cons, mem_cons, ← ih, dropRepeats]
    split
    · next h => simp [h]
    · next q qs h =>
      rw [h]
      split_ifs with hsame
      · have hpq : p.components = q.components := by simpa [same] using hsame
        simp [hpq]
      · simp

lemma pairwise_dropRepeats {ps : List Path} (h : ps.Pairwise fun p q => p.le q = true) :
    (dropRepeats ps).Pairwise fun p q => p.order < q.order := by
  induction ps with
  | nil => exact .nil
  | cons p ps ih =>
    obtain ⟨hp, hps⟩ := pairwise_cons.1 h
    have ih := ih hps
    have hsub := dropRepeats_sublist ps
    rw [dropRepeats]
    split
    · exact pairwise_singleton _ _
    · next q qs hrest =>
      rw [hrest] at ih hsub
      obtain ⟨hq, hqs⟩ := pairwise_cons.1 ih
      have hsame : p.same q = true ↔ p.order = q.order := by
        rw [same, beq_iff_eq, order_eq_iff]
      split_ifs with hpq
      · exact pairwise_cons.2 ⟨fun r hr => (hsame.1 hpq) ▸ hq r hr, hqs⟩
      · have hlt : p.order < q.order :=
          (le_iff.1 (hp q (hsub.mem mem_cons_self))).lt_of_ne (hsame.not.1 hpq)
        refine pairwise_cons.2 ⟨fun r hr => ?_, ih⟩
        obtain rfl | hr := mem_cons.1 hr
        · exact hlt
        · exact hlt.trans (hq r hr)

lemma map_components_eq {ps qs : List Path} (hp : ps.Pairwise fun p q => p.order < q.order)
    (hq : qs.Pairwise fun p q => p.order < q.order)
    (h : ∀ c, c ∈ ps.map components ↔ c ∈ qs.map components) :
    ps.map components = qs.map components := by
  have hkey : Function.Injective (map key) := map_injective_iff.2 key_injective
  refine map_injective_iff.2 hkey (Pairwise.eq_of_mem_iff (r := (· < ·)) ?_ ?_ fun o => ?_)
  iterate 2 rwa [pairwise_map, pairwise_map]
  · simp only [mem_map (l := map _ _), h]

/-- A piece of a path that stands for the component. -/
def Component.piece : Component → String
  | root => ""
  | current => "."
  | parent => ".."
  | normal name => name

lemma Component.root_not_mem (pieces : List String) : root ∉ pieces.filterMap ofPiece? := by
  intro h
  obtain ⟨piece, _, hpiece⟩ := mem_filterMap.1 h
  unfold ofPiece? at hpiece
  split_ifs at hpiece <;> cases hpiece

lemma Path.components_cases (p : Path) :
    p.isAbsolute = false ∧ p.components = p.pieces.filterMap ofPiece? ∨
      ∃ c rest, p.pieces = piece c :: rest ∧
        p.components = c :: rest.filterMap ofPiece? ∧
          (c = .root ∧ p.isAbsolute = true ∨ c = .current ∧ p.isAbsolute = false) := by
  obtain ⟨first, rest, hpieces⟩ := exists_cons_of_ne_nil p.pieces_ne_nil
  have hcomponents := components_eq hpieces
  cases habsolute : p.isAbsolute with
  | true =>
    obtain rfl : first = "" := by
      obtain ⟨cs, hcs⟩ := head?_eq_some_iff.1 (beq_iff_eq.1 habsolute)
      rw [pieces, hcs, Text.splitAt, if_pos rfl] at hpieces
      exact (cons.inj hpieces).1.symm
    refine .inr ⟨.root, rest, hpieces, ?_, .inl ⟨rfl, rfl⟩⟩
    simp [hcomponents, firstComponents, habsolute]
  | false =>
    obtain rfl | hfirst := eq_or_ne first "."
    · refine .inr ⟨.current, rest, hpieces, ?_, .inr ⟨rfl, rfl⟩⟩
      simp [hcomponents, firstComponents]
    · refine .inl ⟨rfl, ?_⟩
      rw [hcomponents, hpieces, firstComponents, habsolute, filterMap_cons, ofPiece?]
      split_ifs <;> simp_all

lemma Path.isAbsolute_iff (p : Path) : p.isAbsolute = true ↔ p.components.head? = some .root := by
  obtain ⟨habsolute, hall⟩ | ⟨c, rest, -, hfirst, h⟩ := p.components_cases
  · rw [habsolute, hall]
    exact iff_of_false nofun fun h => root_not_mem _ (mem_of_mem_head? h)
  · obtain ⟨rfl, habsolute⟩ | ⟨rfl, habsolute⟩ := h <;> simp [habsolute, hfirst]

lemma Path.extension?_eq_some {p : Path} {extension} :
    p.extension? = some extension ↔
      ∃ name, p.components.getLast? = some (.normal name) ∧ extensionOf? name = some extension := by
  unfold extension? fileName?
  split
  · next h => simp [h]
  · next h => exact iff_of_false nofun fun ⟨name, hname, _⟩ => h name hname

lemma components_foldl_child {names : Place} (h : ∀ name ∈ names, IsFileName name) (p : Path) :
    (names.foldl child p).components = p.components ++ names.map .normal := by
  induction names generalizing p with
  | nil => simp
  | cons name names ih =>
    obtain ⟨hname, hnames⟩ := forall_mem_cons.1 h
    rw [foldl_cons, ih hnames, hname.components_child, append_assoc]
    rfl

namespace FileTree

/-- A tree with one file at a place, and with names that files can have. -/
structure Proper (t : FileTree) : Prop where
  names : ∀ file ∈ t.files, ∀ name ∈ file.1, IsFileName name
  places : t.files.Pairwise fun file other => file.1 ≠ other.1

/-- The components lead to a file with the extension, at the place of a path or below it. -/
def Document (t : FileTree) (extension : String) (p : Path) (c : List Component) : Prop :=
  ∃ place names text, t.resolve p = .ok place ∧ (place ++ names, text) ∈ t.files ∧
    c = p.components ++ names.map .normal ∧
      ∃ name, c.getLast? = some (.normal name) ∧ Path.extensionOf? name = some extension

/-- A path is as good as given when the other one is: it is the same, or a directory below that. -/
def Overlaps (t : FileTree) (q p : Path) : Prop :=
  t.isDirectory q = t.isDirectory p ∧
    (q.components = p.components ∨
      t.isDirectory p = true ∧ ∃ names : Place, q.components = p.components ++ names.map .normal)

variable {t : FileTree} {extension : String} {p q : Path} {c : List Component} {place d : Place}

lemma below?_eq_some {file names : Place} :
    below? place file = some names ↔ file = place ++ names := by
  induction place generalizing file with
  | nil => simp [below?]
  | cons a place ih =>
    cases file with
    | nil => simp [below?]
    | cons b file =>
      rw [below?]
      split_ifs with h
      · simp [ih, h]
      · simp [Ne.symm h]

lemma mem_filesUnder : q ∈ t.filesUnder p ↔ ∃ place names text, t.resolve p = .ok place ∧
    (place ++ names, text) ∈ t.files ∧ names.foldl child p = q := by
  unfold filesUnder
  split
  · next h => simp [h]
  · next place h =>
    simp only [mem_filterMap, Option.map_eq_some_iff, below?_eq_some, h, Except.ok.injEq,
      Prod.exists]
    grind

lemma Proper.components_child (ht : t.Proper) {names text}
    (h : (place ++ names, text) ∈ t.files) (p : Path) :
    (names.foldl child p).components = p.components ++ names.map .normal :=
  components_foldl_child (fun name hname => ht.names _ h name (mem_append_right _ hname)) p

lemma Proper.mem_documents (ht : t.Proper) :
    c ∈ (t.run (documentsUnder extension p)).1.map components ↔ t.Document extension p c := by
  have hrun : (t.run (documentsUnder extension p)).1 =
    sortPaths ((t.filesUnder p).filter (·.extension? == some extension)) := rfl
  simp only [hrun, sortPaths, mem_map, mem_mergeSort, mem_filter, beq_iff_eq, mem_filesUnder,
    extension?_eq_some, Document]
  constructor
  · rintro ⟨_, ⟨⟨place, names, text, hplace, hfile, rfl⟩, hname⟩, rfl⟩
    exact ⟨place, names, text, hplace, hfile, ht.components_child hfile p, hname⟩
  · rintro ⟨place, names, text, hplace, hfile, rfl, hname⟩
    rw [← ht.components_child hfile p] at hname ⊢
    exact ⟨_, ⟨⟨place, names, text, hplace, hfile, rfl⟩, hname⟩, rfl⟩

lemma Proper.pairwise_documents (ht : t.Proper) :
    (t.run (documentsUnder extension p)).1.Pairwise fun q r => q.order < r.order := by
  have hne : (t.filesUnder p).Pairwise fun q r => q.order ≠ r.order := by
    unfold filesUnder
    split
    · exact .nil
    · next place h =>
      refine pairwise_filterMap.2 (ht.places.imp_of_mem ?_)
      rintro ⟨file, text⟩ ⟨file', text'⟩ hfile hfile' hplaces q hq r hr
      obtain ⟨names, hnames, rfl⟩ := Option.map_eq_some_iff.1 hq
      obtain ⟨names', hnames', rfl⟩ := Option.map_eq_some_iff.1 hr
      obtain rfl := below?_eq_some.1 hnames
      obtain rfl := below?_eq_some.1 hnames'
      rw [Ne, order_eq_iff, ht.components_child hfile, ht.components_child hfile']
      intro heq
      have hsame := map_injective_iff.2 (fun _ _ => normal.inj) (append_cancel_left heq)
      exact hplaces (by rw [hsame])
  have hsorted : (t.run (documentsUnder extension p)).1.Pairwise fun q r => q.order ≠ r.order :=
    ((mergeSort_perm _ _).pairwise_iff Ne.symm).2 (hne.filter _)
  exact ((pairwise_sortPaths _).and hsorted).imp fun h => (le_iff.1 h.1).lt_of_ne h.2

lemma follow_piece {pieces} (h : t.follow place pieces = .ok d) :
    t.follow place ((pieces.filterMap ofPiece?).map piece) = .ok d := by
  induction pieces generalizing place with
  | nil => exact h
  | cons piece pieces ih =>
    rw [filterMap_cons, ofPiece?]
    rw [follow] at h
    split_ifs at h ⊢ with hblank hplace hdots hplace
    · exact ih h
    · simp [follow, Component.piece, hplace, ih h]
    · simp_all [follow, Component.piece]

lemma follow_components (h : t.resolve p = .ok d) :
    t.follow (if p.components.head? = some .root then [] else t.workingDirectory)
      (p.components.map piece) = .ok d := by
  obtain ⟨-, -, h⟩ := resolve_eq_ok_iff.1 h
  simp only [isAbsolute_iff] at h
  obtain ⟨-, hall⟩ | ⟨c, rest, hpieces, hfirst, hc⟩ := p.components_cases
  · rw [hall] at h ⊢
    exact follow_piece h
  · rw [hpieces] at h
    have hblank : c.piece = "" ∨ c.piece = "." := by
      obtain ⟨rfl, -⟩ | ⟨rfl, -⟩ := hc <;> simp [piece]
    rw [hfirst] at h ⊢
    rw [map_cons, follow]
    rw [follow] at h
    simp only [hblank, Bool.or_eq_true, decide_eq_true_eq, if_true] at h ⊢
    split_ifs at h ⊢
    · exact follow_piece h
    · exact follow_piece h

lemma eq_append_of_follow {names : Place} (hnames : ∀ name ∈ names, IsFileName name)
    (h : t.follow place names = .ok d) : d = place ++ names := by
  induction names generalizing place with
  | nil => simpa [follow] using h.symm
  | cons name names ih =>
    obtain ⟨hname, hnames⟩ := forall_mem_cons.1 hnames
    rw [follow_name hname] at h
    split_ifs at h
    rw [ih hnames h, append_assoc, singleton_append]

lemma resolve_below {names : Place} {d'} (hp : t.resolve p = .ok d) (hq : t.resolve q = .ok d')
    (h : q.components = p.components ++ names.map .normal) : d' = d ++ names := by
  have hnames : ∀ name ∈ names, IsFileName name := fun name hname =>
    q.isFileName_of_mem_components (h ▸ mem_append_right _ (mem_map_of_mem hname))
  have hhead : q.components.head? = some .root ↔ p.components.head? = some .root := by
    rw [h]
    cases p.components <;> cases names <;> simp
  have hfollow := follow_components hq
  simp only [hhead] at hfollow
  rw [h, map_append, follow_append, follow_components hp, map_map] at hfollow
  have hpieces : piece ∘ normal = id := rfl
  rw [hpieces, map_id] at hfollow
  exact eq_append_of_follow hnames hfollow

lemma isDirectory_eq_true_iff :
    t.isDirectory p = true ↔ ∃ d, t.resolve p = .ok d ∧ t.isDirectoryAt d = true := by
  unfold isDirectory
  cases t.resolve p <;> simp

/-- The components are those of a document that an input stands for. -/
def StandsFor (t : FileTree) (extension : String) (p : Path) (c : List Component) : Prop :=
  if t.isDirectory p then t.Document extension p c else c = p.components

lemma Overlaps.standsFor (h : t.Overlaps q p) (hq : t.StandsFor extension q c) :
    t.StandsFor extension p c := by
  obtain ⟨hsame, h⟩ := h
  unfold StandsFor at hq ⊢
  rw [hsame] at hq
  split_ifs at hq ⊢ with hp
  · obtain ⟨names, hnames⟩ : ∃ names : Place, q.components = p.components ++ names.map .normal :=
      h.elim (fun h => ⟨[], by simp [h]⟩) (·.2)
    obtain ⟨d, hd, -⟩ := isDirectory_eq_true_iff.1 hp
    obtain ⟨d', more, text, hd', hfile, hc, hname⟩ := hq
    obtain rfl := resolve_below hd hd' hnames
    exact ⟨d, names ++ more, text, hd, by simpa using hfile, by simpa [hnames] using hc, hname⟩
  · exact h.elim (fun h => hq.trans h) fun h => absurd h.1 hp

lemma Proper.mem_inputs (ht : t.Proper) {config : ProjectConfig} {inputs : List Path}
    (h : inputs ≠ []) : c ∈ (t.inputs config inputs).map components ↔
      ∃ p ∈ inputs, t.StandsFor config.extension p c := by
  have hrun : t.inputs config inputs = dropRepeats (sortPaths
      (inputs.map fun p => (t.run (expandInput config.extension p)).1).flatten) := by
    rw [FileTree.inputs, collectInputs, if_neg (by simpa using h), run_bind,
      Looks.run_mapM (expandInput_looks _)]
    rfl
  have hexpand : ∀ p, c ∈ (t.run (expandInput config.extension p)).1.map components ↔
      t.StandsFor config.extension p c := by
    intro p
    rw [StandsFor, ← ht.mem_documents]
    have hrun : (t.run (expandInput config.extension p)).1 =
      (t.run (if t.isDirectory p then documentsUnder config.extension p else pure [p])).1 := rfl
    rw [hrun]
    split_ifs
    · rfl
    · exact mem_singleton
  rw [hrun, mem_dropRepeats, sortPaths, ((mergeSort_perm _ _).map _).mem_iff, map_flatten, map_map,
    mem_flatten]
  simp only [mem_map (l := inputs), exists_exists_and_eq_and, Function.comp_apply, hexpand]

lemma Proper.pairwise_inputs (ht : t.Proper) (config : ProjectConfig) (inputs : List Path) :
    (t.inputs config inputs).Pairwise fun p q => p.order < q.order := by
  unfold FileTree.inputs collectInputs
  split
  · exact ht.pairwise_documents
  · rw [run_bind]
    exact pairwise_dropRepeats (pairwise_sortPaths _)

/-- The documents of a request are in strict order, and they are those that the inputs stand for, or
those below the source directory if there are none. So neither the order of the inputs matters, nor
how often one is given, nor whether a directory below another is given too. -/
theorem inputs_canonical (ht : t.Proper) (config : ProjectConfig) (inputs : List Path) :
    (t.inputs config inputs).Pairwise (fun p q => p.order < q.order) ∧
      (∀ c, c ∈ (t.inputs config inputs).map components ↔
        if inputs = [] then t.Document config.extension config.sourceDir c
        else ∃ p ∈ inputs, t.StandsFor config.extension p c) ∧
      ∀ inputs', inputs ≠ [] → (∀ q ∈ inputs', ∃ p ∈ inputs, t.Overlaps q p) →
        (∀ p ∈ inputs, ∃ q ∈ inputs', t.Overlaps p q) →
          (t.inputs config inputs').map components =
            (t.inputs config inputs).map components := by
  refine ⟨ht.pairwise_inputs config inputs, fun c => ?_, fun inputs' hne hnew hold => ?_⟩
  · split_ifs with h
    · subst h
      exact ht.mem_documents
    · exact ht.mem_inputs h
  · have hne' : inputs' ≠ [] := by
      rintro rfl
      obtain ⟨p, hp⟩ := exists_mem_of_ne_nil _ hne
      simpa using hold p hp
    refine map_components_eq (ht.pairwise_inputs _ _) (ht.pairwise_inputs _ _) fun c => ?_
    rw [ht.mem_inputs hne, ht.mem_inputs hne']
    constructor
    · rintro ⟨q, hq, hc⟩
      obtain ⟨p, hp, h⟩ := hnew q hq
      exact ⟨p, hp, h.standsFor hc⟩
    · rintro ⟨p, hp, hc⟩
      obtain ⟨q, hq, h⟩ := hold p hp
      exact ⟨q, hq, h.standsFor hc⟩

/-- A document in a directory, and one in a directory below that. -/
def nested : FileTree where
  directories := [["a"], ["a", "b"]]
  files := [(["a", "x.xml"], ""), (["a", "b", "y.xml"], "")]

theorem inputs_canonical_nested : nested.Proper ∧
    (nested.inputs {} [⟨"a/b"⟩, ⟨"a/."⟩, ⟨"a"⟩]).map components =
      (nested.inputs {} [⟨"a"⟩]).map components := by
  have hproper : nested.Proper := by
    refine ⟨?_, by decide⟩
    have hname : ∀ name ∈ ["a", "b", "x.xml", "y.xml"], IsFileName name := by
      simp only [forall_mem_cons]
      refine ⟨?_, ?_, ?_, ?_, forall_mem_nil _⟩ <;> constructor <;> decide
    simp [nested, hname]
  have hself : nested.Overlaps ⟨"a"⟩ ⟨"a"⟩ := ⟨rfl, .inl rfl⟩
  refine ⟨hproper, (inputs_canonical hproper {} _).2.2 _ (cons_ne_nil _ _) ?_ ?_⟩
  · have hbelow : nested.Overlaps ⟨"a/b"⟩ ⟨"a"⟩ := ⟨by decide, .inr ⟨by decide, ["b"], by decide⟩⟩
    have hdot : nested.Overlaps ⟨"a/."⟩ ⟨"a"⟩ := ⟨by decide, .inl (by decide)⟩
    simp [hbelow, hdot, hself]
  · simp [hself]

end FileTree

end SceneView
