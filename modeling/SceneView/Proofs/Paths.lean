import Mathlib.Data.List.Lex
import Mathlib.Data.Prod.Lex
import Mathlib.Data.String.Basic
import SceneView.Proofs.Files

/-!
# Paths in a directory

The path to a name in a directory has the pieces of the directory and then those of the name. If the
name is a file name, it is one component more than the directory, and it leads to a place right
below that of the directory.
-/

open List

namespace SceneView

open Component

namespace Text

variable {separator : Char}

lemma splitAt_ne_nil (separator : Char) (cs : List Char) : splitAt separator cs ≠ [] := by
  cases cs with
  | nil => nofun
  | cons c cs =>
    rw [splitAt]
    split_ifs
    · nofun
    · split <;> nofun

lemma splitAt_append (front back : List Char) :
    splitAt separator (front ++ separator :: back) =
      splitAt separator front ++ splitAt separator back := by
  induction front with
  | nil => simp [splitAt]
  | cons c front ih =>
    rw [cons_append, splitAt, splitAt, ih]
    split_ifs with hc
    · rfl
    · cases hfront : splitAt separator front with
      | nil => exact absurd hfront (splitAt_ne_nil separator front)
      | cons part parts => rfl

lemma splitAt_of_not_mem {cs} (h : separator ∉ cs) : splitAt separator cs = [cs] := by
  induction cs with
  | nil => rfl
  | cons c cs ih =>
    simp only [mem_cons, not_or] at h
    rw [splitAt, if_neg (Ne.symm h.1), ih h.2]

lemma not_mem_of_mem_splitAt {cs part} (h : part ∈ splitAt separator cs) : separator ∉ part := by
  induction cs generalizing part with
  | nil =>
    obtain rfl := mem_singleton.1 h
    nofun
  | cons c cs ih =>
    rw [splitAt] at h
    split_ifs at h with hc
    · obtain rfl | h := mem_cons.1 h
      · nofun
      · exact ih h
    · cases hcs : splitAt separator cs with
      | nil => exact absurd hcs (splitAt_ne_nil separator cs)
      | cons first parts =>
        rw [hcs] at h
        obtain rfl | h := mem_cons.1 h
        · have hfirst := ih (hcs ▸ mem_cons_self)
          simp [Ne.symm hc, hfirst]
        · exact ih (hcs ▸ mem_cons_of_mem _ h)

end Text

/-- A name that a file can have. -/
structure IsFileName (name : String) : Prop where
  no_slash : '/' ∉ name.toList
  ne_empty : name ≠ ""
  ne_dot : name ≠ "."
  ne_dots : name ≠ ".."

namespace Path

/-- The pieces of a path to a name in the directory that come before those of the name. -/
def stem (p : Path) : List String :=
  if p.text = "" then []
  else if p.text.toList.getLast? = some '/' then p.pieces.dropLast
  else p.pieces

def firstComponents (p : Path) (first : String) : List Component :=
  if first = "" then if p.isAbsolute then [.root] else []
  else if first = "." then [.current]
  else (Component.ofPiece? first).toList

lemma components_eq {p : Path} {first rest} (h : p.pieces = first :: rest) :
    p.components = p.firstComponents first ++ rest.filterMap ofPiece? := by
  rw [components, h]
  rfl

lemma pieces_ne_nil (p : Path) : p.pieces ≠ [] := by
  simpa [pieces] using Text.splitAt_ne_nil '/' p.text.toList

lemma pieces_slash (a b : String) :
    (⟨a ++ "/" ++ b⟩ : Path).pieces = (⟨a⟩ : Path).pieces ++ (⟨b⟩ : Path).pieces := by
  have hlist : (a ++ "/" ++ b).toList = a.toList ++ '/' :: b.toList := by simp
  rw [pieces, hlist, Text.splitAt_append, map_append]
  rfl

lemma eq_of_getLast?_slash {text} (h : text.toList.getLast? = some '/') :
    ∃ body, text = body ++ "/" := by
  obtain ⟨cs, hcs⟩ := getLast?_eq_some_iff.1 h
  refine ⟨String.ofList cs, String.toList_inj.1 ?_⟩
  simp [hcs]

lemma child_cases (p : Path) {name} (h : (⟨name⟩ : Path).isAbsolute = false) :
    p.text = "" ∧ p.child name = ⟨name⟩ ∧ p.stem = [] ∨
      p.text ≠ "" ∧ ∃ body, p.child name = ⟨body ++ "/" ++ name⟩ ∧ p.stem = (⟨body⟩ : Path).pieces ∧
        (p.pieces = p.stem ∨ p.pieces = p.stem ++ [""]) := by
  unfold child join stem
  rw [h]
  by_cases hempty : p.text = ""
  · exact .inl ⟨hempty, by simp [hempty], by simp [hempty]⟩
  · refine .inr ⟨hempty, ?_⟩
    by_cases hslash : p.text.toList.getLast? = some '/'
    · obtain ⟨body, hbody⟩ := eq_of_getLast?_slash hslash
      have hpieces : p.pieces = (⟨body⟩ : Path).pieces ++ [""] := by
        have hall := pieces_slash body ""
        rw [String.append_empty, ← hbody] at hall
        exact hall
      refine ⟨body, by simp [hbody], ?_, ?_⟩
      iterate 2 simp [hempty, hslash, hpieces]
    · exact ⟨p.text, by simp [hempty, hslash], by simp [hempty, hslash], by simp [hempty, hslash]⟩

lemma pieces_child (p : Path) {name} (h : (⟨name⟩ : Path).isAbsolute = false) :
    (p.child name).pieces = p.stem ++ (⟨name⟩ : Path).pieces := by
  obtain ⟨_, hchild, hstem⟩ | ⟨_, body, hchild, hstem, _⟩ := p.child_cases h
  · rw [hchild, hstem, nil_append]
  · rw [hchild, hstem, pieces_slash]

lemma isAbsolute_child (p : Path) {name} (h : (⟨name⟩ : Path).isAbsolute = false) :
    (p.child name).isAbsolute = p.isAbsolute := by
  unfold child join
  rw [h]
  by_cases hempty : p.text = ""
  · have hp : p.isAbsolute = false := by simp [isAbsolute, hempty]
    simp [hempty, h, hp]
  · have hne : p.text.toList ≠ [] := by simpa using hempty
    by_cases hslash : p.text.toList.getLast? = some '/'
    iterate 2 simp [hempty, hslash, isAbsolute, List.head?_append_of_ne_nil _ hne]

end Path

namespace IsFileName

variable {name : String}

lemma of_length (h : '/' ∉ name.toList) (hlength : 2 < name.toList.length) : IsFileName name where
  no_slash := h
  ne_empty := by
    rintro rfl
    exact absurd hlength (by decide)
  ne_dot := by
    rintro rfl
    exact absurd hlength (by decide)
  ne_dots := by
    rintro rfl
    exact absurd hlength (by decide)

lemma ofPiece? (h : IsFileName name) : ofPiece? name = some (.normal name) := by
  simp [Component.ofPiece?, h.ne_empty, h.ne_dot, h.ne_dots]

lemma isAbsolute (h : IsFileName name) : (⟨name⟩ : Path).isAbsolute = false := by
  refine beq_eq_false_iff_ne.2 fun hhead => h.no_slash ?_
  exact mem_of_mem_head? hhead

lemma pieces_child (h : IsFileName name) (p : Path) :
    (p.child name).pieces = p.stem ++ [name] := by
  have hpieces : (⟨name⟩ : Path).pieces = [name] := by
    rw [Path.pieces, Text.splitAt_of_not_mem h.no_slash]
    simp
  rw [p.pieces_child h.isAbsolute, hpieces]

lemma components_child (h : IsFileName name) (p : Path) :
    (p.child name).components = p.components ++ [.normal name] := by
  have hfirst : ∀ first, (p.child name).firstComponents first = p.firstComponents first := by
    intro first
    unfold Path.firstComponents
    rw [p.isAbsolute_child h.isAbsolute]
  have hpieces := h.pieces_child p
  obtain ⟨hempty, _, hstem⟩ | ⟨_, body, _, hstem, hwhole⟩ := p.child_cases h.isAbsolute
  · rw [hstem] at hpieces
    have hp : p.pieces = [""] := by
      rw [Path.pieces, hempty]
      rfl
    have hrelative : p.isAbsolute = false := by simp [Path.isAbsolute, hempty]
    rw [Path.components_eq hpieces, Path.components_eq hp, hfirst]
    simp [Path.firstComponents, h.ne_empty, h.ne_dot, h.ofPiece?, hrelative]
  · obtain ⟨first, rest, hbody⟩ := exists_cons_of_ne_nil (⟨body⟩ : Path).pieces_ne_nil
    rw [hstem, hbody, cons_append] at hpieces hwhole
    have hempty : Component.ofPiece? "" = none := rfl
    rw [Path.components_eq hpieces, hfirst]
    obtain hwhole | hwhole := hwhole
    · rw [Path.components_eq hwhole]
      simp [h.ofPiece?]
    · rw [Path.components_eq hwhole]
      simp [h.ofPiece?, hempty]

end IsFileName

lemma Path.isFileName_of_mem_components {p : Path} {name} (h : .normal name ∈ p.components) :
    IsFileName name := by
  have hpiece : ∀ piece ∈ p.pieces, '/' ∉ piece.toList := by
    intro piece hmem
    obtain ⟨part, hpart, rfl⟩ := mem_map.1 hmem
    rw [String.toList_ofList]
    exact Text.not_mem_of_mem_splitAt hpart
  have hnormal : ∀ piece ∈ p.pieces, ofPiece? piece = some (.normal name) →
      IsFileName name := by
    intro piece hmem hof
    unfold ofPiece? at hof
    split_ifs at hof with hblank hdots
    · cases hof
    · obtain rfl := normal.inj (Option.some.inj hof)
      simp only [Bool.or_eq_true, decide_eq_true_eq, not_or] at hblank
      exact ⟨hpiece piece hmem, hblank.1, hblank.2, hdots⟩
  obtain ⟨first, rest, hpieces⟩ := exists_cons_of_ne_nil p.pieces_ne_nil
  rw [hpieces] at hnormal
  rw [Path.components_eq hpieces, mem_append] at h
  obtain h | h := h
  · unfold Path.firstComponents at h
    split_ifs at h
    · simp at h
    · simp at h
    · simp at h
    · exact hnormal first mem_cons_self (Option.mem_toList.1 h)
  · obtain ⟨piece, hmem, hof⟩ := mem_filterMap.1 h
    exact hnormal piece (mem_cons_of_mem _ hmem) hof

/-- What a component is ordered by: its rank, and then its name. -/
def Component.key (c : Component) : ℕ ×ₗ String :=
  toLex (c.rank, c.name)

lemma Component.precedes_iff {a b : Component} : a.precedes b = true ↔ a.key < b.key := by
  simp [precedes, key, Prod.Lex.toLex_lt_toLex]

lemma Component.key_injective : Function.Injective key := by
  intro a b h
  cases a <;> cases b <;> simp_all [key, rank, name]

/-- What a path is ordered by. Paths with the same components have the same place in the order. -/
def Path.order (p : Path) : List (ℕ ×ₗ String) :=
  p.components.map Component.key

namespace Path

lemma componentsLe_iff {as bs : List Component} :
    componentsLe as bs = true ↔ as.map key ≤ bs.map key := by
  rw [← not_lt]
  induction as generalizing bs with
  | nil => simp [componentsLe]
  | cons a as ih =>
    cases bs with
    | nil => simp [componentsLe]
    | cons b bs =>
      rw [componentsLe, Bool.or_eq_true, Bool.and_eq_true, precedes_iff, beq_iff_eq, ih,
        map_cons, map_cons, cons_lt_cons_iff, key_injective.eq_iff]
      obtain h | h | h := lt_trichotomy a.key b.key
      · simp [h, h.asymm, (key_injective.ne_iff.1 h.ne).symm]
      · simp [key_injective h]
      · simp [h, h.asymm, (key_injective.ne_iff.1 h.ne).symm]

lemma le_iff {p q : Path} : p.le q = true ↔ p.order ≤ q.order :=
  componentsLe_iff

lemma order_eq_iff {p q : Path} : p.order = q.order ↔ p.components = q.components :=
  (map_injective_iff.2 key_injective).eq_iff

end Path

namespace FileTree

variable {t : FileTree}

lemma follow_append (place : Place) (front back : List String) :
    t.follow place (front ++ back) = (t.follow place front).bind (t.follow · back) := by
  induction front generalizing place with
  | nil => rfl
  | cons piece front ih =>
    rw [cons_append, follow, follow]
    split_ifs
    · exact ih _
    · exact ih _
    · rfl
    · exact ih _
    · rfl

lemma follow_name {name} (h : IsFileName name) (place : Place) (rest : List String) :
    t.follow place (name :: rest) = if t.isDirectoryAt place then
        if name.utf8ByteSize > maxName then .error .nameTooLong
        else t.follow (place ++ [name]) rest
      else .error (t.notDirectoryAt place) := by
  simp [follow, h.ne_empty, h.ne_dot, h.ne_dots]

/-- The place that the names in a directory are below. -/
def home (t : FileTree) (p : Path) : Except FileError Place :=
  t.follow (if p.isAbsolute then [] else t.workingDirectory) p.stem

lemma resolve_eq_ok_iff {p place} :
    t.resolve p = .ok place ↔ '\x00' ∉ p.text.toList ∧ p.text ≠ "" ∧
      t.follow (if p.isAbsolute then [] else t.workingDirectory) p.pieces = .ok place := by
  unfold resolve start
  by_cases hnul : '\x00' ∈ p.text.toList
  · simp [hnul, bind, Except.bind]
  · by_cases hempty : p.text = ""
    · simp [hempty, bind, Except.bind]
    · simp [hnul, hempty, bind, Except.bind]

lemma Leads.child {p name place} (hname : IsFileName name) (h : t.Leads (p.child name) place) :
    ∃ base, t.home p = .ok base ∧ place = base ++ [name] := by
  have hfollow := (resolve_eq_ok_iff.1 h.1).2.2
  rw [hname.pieces_child, p.isAbsolute_child hname.isAbsolute, follow_append] at hfollow
  change (t.home p).bind _ = _ at hfollow
  cases hhome : t.home p with
  | error e =>
    rw [hhome] at hfollow
    cases hfollow
  | ok base =>
    refine ⟨base, rfl, ?_⟩
    rw [hhome] at hfollow
    change t.follow base [name] = _ at hfollow
    rw [follow_name hname] at hfollow
    split_ifs at hfollow
    exact (Except.ok.inj hfollow).symm

end FileTree

end SceneView
