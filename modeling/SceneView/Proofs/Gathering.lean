import Mathlib.Data.String.Basic
import SceneView.Proofs.Object

/-!
# Gathering imports

Imports concern no other change of a session, so that it does not matter where in a trace they
stand. A run *gathers* the imports of its trace: what was imported stays so, in rising order, and
what the trace imports is there at the end. The types that shared objects are answered with are
imported by the references that need them.
-/

open List

namespace SceneView

lemma mem_insertName {a b names} : a ∈ insertName b names ↔ a = b ∨ a ∈ names := by
  induction names with
  | nil => simp [insertName]
  | cons c names ih =>
    unfold insertName
    split
    · next h =>
      rw [h, mem_cons]
      exact ⟨.inr, fun h => h.elim .inl id⟩
    · split
      · exact mem_cons
      · rw [mem_cons, ih, mem_cons]
        exact or_left_comm

lemma pairwise_insertName {a names} (h : names.Pairwise (· < ·)) :
    (insertName a names).Pairwise (· < ·) := by
  induction names with
  | nil => exact pairwise_singleton _ _
  | cons b names ih =>
    obtain ⟨hb, hnames⟩ := pairwise_cons.1 h
    unfold insertName
    split
    · exact h
    · next hne =>
      split
      · next hlt =>
        refine pairwise_cons.2 ⟨fun c hc => ?_, h⟩
        obtain rfl | hc := mem_cons.1 hc
        · exact hlt
        · exact hlt.trans (hb c hc)
      · next hnot =>
        refine pairwise_cons.2 ⟨fun c hc => ?_, ih hnames⟩
        obtain rfl | hc := mem_insertName.1 hc
        · exact (lt_or_gt_of_ne hne).resolve_left hnot
        · exact hb c hc

namespace Imports

def Sorted (i : Imports) : Prop :=
  ∀ origin, (i.group origin).Pairwise (· < ·)

lemma group_add (i : Imports) (origin other : Origin) (name : String) :
    (i.add origin name).group other =
      if origin = other then insertName name (i.group other) else i.group other := by
  cases origin <;> cases other <;> rfl

lemma mem_group_add {i : Imports} {origin other name n} :
    n ∈ (i.add origin name).group other ↔ n ∈ i.group other ∨ origin = other ∧ name = n := by
  rw [group_add]
  split
  · next h => simp [mem_insertName, h, or_comm, eq_comm]
  · next h => simp [h]

lemma Sorted.add {i : Imports} (h : i.Sorted) (origin : Origin) (name : String) :
    (i.add origin name).Sorted := by
  intro other
  rw [group_add]
  split
  · exact pairwise_insertName (h other)
  · exact h other

end Imports

namespace Effect

def isImport : Effect → Bool
  | imports .. => true
  | _ => false

def authorLines : Effect → List String
  | author lines => lines
  | _ => []

def isStill : Effect → Bool
  | imports .. | author _ => false
  | _ => true

end Effect

/-- The changes of a trace that are no imports. -/
def plain (T : List Effect) : List Effect :=
  T.filter (!·.isImport)

variable {T T' : List Effect}

@[simp]
lemma plain_nil : plain [] = [] :=
  rfl

@[simp]
lemma plain_append (T T' : List Effect) : plain (T ++ T') = plain T ++ plain T' :=
  filter_append ..

lemma plain_cons {e : Effect} (he : e.isImport = false) : plain (e :: T) = e :: plain T := by
  rw [plain, filter_cons_of_pos (by simp [he])]
  rfl

lemma plain_eq_self (h : ∀ e ∈ T, e.isImport = false) : plain T = T :=
  filter_eq_self.2 fun e he => by simp [h e he]

@[simp]
lemma plain_importing (names : List (Origin × String)) : plain (importing names) = [] := by
  refine filter_eq_nil_iff.2 fun e he => ?_
  obtain ⟨n, _, rfl⟩ := mem_map.1 he
  simp [Effect.isImport]

@[simp]
lemma mem_importing {origin name names} :
    .imports origin name ∈ importing names ↔ (origin, name) ∈ names := by
  simp [importing]

@[simp]
lemma plain_emit_cons {site st} : plain (.emit site st :: T) = .emit site st :: plain T :=
  plain_cons rfl

@[simp]
lemma plain_emit (site : Site) (sts : List Statement) :
    plain (sts.map (.emit site)) = sts.map (.emit site) := by
  refine plain_eq_self fun e he => ?_
  obtain ⟨_, _, rfl⟩ := mem_map.1 he
  rfl

lemma Note.isImport_eq_false {n : Note} {site : Site} {own : Target} {e}
    (he : e ∈ n.effects site own) : e.isImport = false := by
  cases n with
  | statement | use =>
    rw [mem_singleton.1 he]
    rfl
  | link =>
    obtain rfl | he := mem_cons.1 he
    · rfl
    · rw [mem_singleton.1 he]
      rfl

@[simp]
lemma plain_notes (site : Site) (own : Target) (ns : List Note) :
    plain (ns.flatMap (Note.effects site own)) = ns.flatMap (Note.effects site own) := by
  refine plain_eq_self fun e he => ?_
  obtain ⟨n, _, he⟩ := mem_flatMap.1 he
  exact n.isImport_eq_false he

@[simp]
lemma plain_mesh (c : Bool) (mesh : Mesh) :
    plain (if c then [.mesh mesh] else []) = if c then [.mesh mesh] else [] := by
  cases c <;> rfl

lemma authorLines_plain (T : List Effect) :
    (plain T).flatMap Effect.authorLines = T.flatMap Effect.authorLines := by
  induction T with
  | nil => rfl
  | cons e T ih =>
    cases he : e.isImport with
    | false => rw [plain_cons he, flatMap_cons, flatMap_cons, ih]
    | true =>
      have hnone : e.authorLines = [] := by
        cases e with
        | imports => rfl
        | _ => cases he
      rw [plain, filter_cons_of_neg (by simp [he]), flatMap_cons, hnone]
      exact ih

lemma trace_plain_iff {s s' : Core} : Trace s (plain T) s' ↔ Trace s T s' := by
  induction T generalizing s with
  | nil => rfl
  | cons e T ih =>
    cases he : e.isImport with
    | false =>
      rw [plain_cons he]
      constructor
      · rintro (_ | ⟨st, tr⟩)
        exact .cons st (ih.1 tr)
      · rintro (_ | ⟨st, tr⟩)
        exact .cons st (ih.2 tr)
    | true =>
      rw [plain, filter_cons_of_neg (by simp [he])]
      cases e with
      | imports =>
        constructor
        · exact fun tr => .cons .imports (ih.1 tr)
        · rintro (_ | ⟨_ | _, tr⟩)
          exact ih.2 tr
      | _ => cases he

/-- The trace `T` is `T'` but for the places of its imports, and it may import more. -/
structure Covers (T T' : List Effect) : Prop where
  plain : plain T = plain T'
  imports : ∀ {origin name}, .imports origin name ∈ T' → .imports origin name ∈ T

lemma not_imports_of_plain {origin name} (h : plain T = T) : .imports origin name ∉ T := by
  rw [← h]
  intro hn
  cases (mem_filter.1 hn).2

namespace Covers

lemma trans {T''} (h : Covers T T') (h' : Covers T' T'') : Covers T T'' :=
  ⟨h.plain.trans h'.plain, fun hn => h.imports (h'.imports hn)⟩

lemma append_right (h : Covers T T') (T₂ : List Effect) : Covers (T ++ T₂) (T' ++ T₂) where
  plain := by rw [plain_append, plain_append, h.plain]
  imports hn := mem_append.2 ((mem_append.1 hn).imp_left h.imports)

lemma cons (e : Effect) (h : Covers T T') : Covers (e :: T) (e :: T') where
  plain := by
    rw [← singleton_append, plain_append, h.plain, ← plain_append]
    rfl
  imports hn := mem_cons.2 ((mem_cons.1 hn).imp_right h.imports)

lemma delay (e : Effect) (he : e.isImport = false) (names : List (Origin × String)) :
    Covers (importing names ++ e :: T) (e :: (importing names ++ T)) where
  plain := by simp [plain_cons he]
  imports hn := by
    simp only [mem_cons, mem_append] at hn ⊢
    exact or_left_comm.1 hn

lemma effects {x : Part} {isMixin site place?}
    (hplain : SceneView.plain T =
      .emit site (.construct x.object.storage (x.construction isMixin place?)) ::
        ((x.placing place?).map (.emit site) ++
          ((if x.role.isMesh && x.object.isGiven then [.mesh x.mesh] else []) ++
            x.notes.flatMap (Note.effects site x.target))))
    (hown : importing x.ownImports ⊆ T)
    (hneeds : importing (x.attributes.flatMap (x.needs isMixin site)) ⊆ T) :
    Covers T (x.effects isMixin site place?) := by
  refine ⟨?_, fun {origin name} hn => ?_⟩
  · rw [hplain, Part.effects, Part.rest, plain_cons rfl]
    simp [-Bool.and_eq_true]
  · have hmem : .imports origin name ∈ importing (x.imports isMixin site) := by
      rw [Part.effects, Part.rest] at hn
      simpa [not_imports_of_plain (plain_mesh ..), not_imports_of_plain (plain_notes ..)] using hn
    rw [Part.imports, importing_append] at hmem
    exact (mem_append.1 hmem).elim (hown ·) (hneeds ·)

lemma trace (x : Part) {isMixin site place? names} (hbase : x.base? = none)
    (h : Covers (importing names ++ T) (x.effects isMixin site place?)) :
    Covers (importing names ++ .object x.type x.object (isDeferred x.method) false :: T)
      (x.trace isMixin site place?) := by
  rw [Part.trace, hbase]
  exact (delay _ rfl names).trans (h.cons _)

end Covers

/-- The type that a shared object of a method of its own is answered with is imported. -/
def Session.Answered (s : Session) : Prop :=
  ∀ kind name e, s.shared.find? kind name = some e → e.site.isEnsured = true →
    kind.returnType ∈ s.imports.group .core

namespace Session.Answered

variable {s s' : Session} {kind : SharedKind} {name : String}

lemma update (h : s.Answered) {entry}
    (hfind : ∀ k n, s'.shared.find? k n =
      if kind = k ∧ name = n then some entry else s.shared.find? k n)
    (hkept : s.imports.group .core ⊆ s'.imports.group .core)
    (hentry : entry.site.isEnsured = true → kind.returnType ∈ s'.imports.group .core) :
    s'.Answered := by
  intro k n e he hsite
  rw [hfind] at he
  split at he
  · next hkn =>
    cases he
    exact hkn.1 ▸ hentry hsite
  · exact hkept (h k n e he hsite)

lemma register (h : s.Answered) {method}
    (hr : s.shared.register kind name method = .ok s'.shared)
    (himports : s'.imports = s.imports) : s'.Answered := by
  obtain ⟨_, _, hfind⟩ := SharedTable.register_eq_ok hr
  refine h.update hfind (himports ▸ List.Subset.refl _) fun hsite => ?_
  cases hsite

lemma declare (h : s.Answered) {build} (hd : s.shared.declare kind name = .ok (build, s'.shared))
    (himports : s'.imports = s.imports) : s'.Answered := by
  obtain ⟨e, he, _, _, _, hfind⟩ := SharedTable.declare_eq_ok hd
  refine h.update hfind (himports ▸ List.Subset.refl _) fun hsite => ?_
  rw [himports]
  exact h kind name e he hsite

lemma access (h : s.Answered) {a} (ha : s.shared.access kind name = .ok (a, s'.shared))
    (hkept : s.imports.group .core ⊆ s'.imports.group .core)
    (hcreated : ∀ method, a = .ensure method true → kind.returnType ∈ s'.imports.group .core) :
    s'.Answered := by
  have same (heq : s'.shared = s.shared) : s'.Answered := by
    intro k n e he hsite
    exact hkept (h k n e (heq ▸ he) hsite)
  obtain ⟨e, _, _, hcase⟩ := SharedTable.access_eq_ok ha
  obtain ⟨_, _, _, heq⟩ | ⟨_, _, _, _, heq⟩ | ⟨_, _, _, rfl, hfind⟩ := hcase
  · exact same heq
  · exact same heq
  · exact h.update hfind hkept fun _ => hcreated _ rfl

end Session.Answered

/-- All of a session that concerns its imports. -/
def Session.library (s : Session) : SharedTable × Imports × List String :=
  (s.shared, s.imports, s.authorImports)

/-- What a run with the given changes does to the imports. -/
structure Gathers (s : Session) (T : List Effect) (s' : Session) : Prop where
  kept : ∀ origin, s.imports.group origin ⊆ s'.imports.group origin
  gained : ∀ {origin name}, .imports origin name ∈ T → name ∈ s'.imports.group origin
  sorted : s.imports.Sorted → s'.imports.Sorted
  answered : s.Answered → s'.Answered
  author : s'.authorImports = s.authorImports ++ T.flatMap Effect.authorLines

namespace Gathers

variable {s s' s'' : Session}

lemma append (h : Gathers s T s') (h' : Gathers s' T' s'') : Gathers s (T ++ T') s'' where
  kept origin := List.Subset.trans (h.kept origin) (h'.kept origin)
  gained hn := (mem_append.1 hn).elim (fun hn => h'.kept _ (h.gained hn)) h'.gained
  sorted hs := h'.sorted (h.sorted hs)
  answered hs := h'.answered (h.answered hs)
  author := by rw [h'.author, h.author, flatMap_append, append_assoc]

lemma still {e} (hanswered : s.Answered → s'.Answered) (himports : s'.imports = s.imports)
    (hauthor : s'.authorImports = s.authorImports) (he : e.isStill = true) : Gathers s [e] s' where
  kept origin := by rw [himports]; exact List.Subset.refl _
  gained hn := by
    cases mem_singleton.1 hn
    cases he
  sorted hs := himports ▸ hs
  answered := hanswered
  author := by
    have hnone : e.authorLines = [] := by
      cases e with
      | author => cases he
      | _ => rfl
    rw [hauthor, flatMap_singleton, hnone, append_nil]

lemma same (h : s'.library = s.library) : Gathers s [] s' := by
  obtain ⟨hshared, hrest⟩ := Prod.mk.inj h
  obtain ⟨himports, hauthor⟩ := Prod.mk.inj hrest
  refine ⟨fun origin => ?_, fun hn => ?_, fun hs => himports ▸ hs, fun hs => ?_, ?_⟩
  · rw [himports]
    exact List.Subset.refl _
  · cases hn
  · rw [Session.Answered, hshared, himports]
    exact hs
  · rw [hauthor, flatMap_nil, append_nil]

lemma step {e} (h : s'.library = s.library) (he : e.isStill = true) : Gathers s [e] s' := by
  have hsame := same h
  obtain ⟨_, hrest⟩ := Prod.mk.inj h
  obtain ⟨himports, hauthor⟩ := Prod.mk.inj hrest
  exact still hsame.answered himports hauthor he

lemma refl (s : Session) : Gathers s [] s :=
  same rfl

lemma forget {origin name} (h : Gathers s [.imports origin name] s') : Gathers s [] s' where
  kept := h.kept
  gained hn := by cases hn
  sorted := h.sorted
  answered := h.answered
  author := h.author

lemma arrange (h : Gathers s T s') (hT : Covers T T') : Gathers s T' s' where
  kept := h.kept
  gained hn := h.gained (hT.imports hn)
  sorted := h.sorted
  answered := h.answered
  author := by rw [h.author, ← authorLines_plain, hT.plain, authorLines_plain]

lemma add (s : Session) (origin : Origin) (name : String) :
    Gathers s [.imports origin name] { s with imports := s.imports.add origin name } where
  kept other _ hn := Imports.mem_group_add.2 (.inl hn)
  gained hn := by
    cases mem_singleton.1 hn
    exact Imports.mem_group_add.2 (.inr ⟨rfl, rfl⟩)
  sorted hs := hs.add _ _
  answered hs kind n e he hsite := Imports.mem_group_add.2 (.inl (hs kind n e he hsite))
  author := (append_nil _).symm

lemma lines (s : Session) (lines : List String) :
    Gathers s [.author lines] { s with authorImports := s.authorImports ++ lines } where
  kept _ := List.Subset.refl _
  gained hn := by cases mem_singleton.1 hn
  sorted := id
  answered := id
  author := by rw [flatMap_singleton]; rfl

end Gathers

end SceneView
