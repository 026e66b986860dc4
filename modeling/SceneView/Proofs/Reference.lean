import Mathlib.Data.List.Perm.Basic
import SceneView.Proofs.Composition
import SceneView.Proofs.Layout
import SceneView.Proofs.SlotConflict

/-!
# References and the order of sections

A compilation stops at a reference to a material or a texture only if no section declares an object
of that name. All names are known after the first look, so it makes no difference whether the
section stands before or after the element that refers to it.
-/

namespace SceneView

open Compile List

/-- The names of the shared objects of a kind, without the blanks around them. -/
def Document.sharedNames (d : Document) (kind : SharedKind) : List String :=
  d.sections.flatMap fun e =>
    if SectionKind.ofTag? e.tag = some kind.home then
      e.children.filterMap fun c => (c.attr? "name").map Text.trim
    else []

namespace Compile

/-- An action that stops at a reference to a shared object only if the object is not in the table
and satisfies a condition. -/
def Misses {α : Type} (x : Compile α) (B : SharedKind → String → Prop) : Prop :=
  ∀ s kind n line, (x.run.run s).1 = .error (.reference kind.referenceKind n line) →
    (x.run.run s).2.shared.find? kind n = none ∧ B kind n

lemma Misses.of_composed {α : Type} {x : Compile α} {p B}
    (h : Composed { Scope.whole with uses := B } (fun _ => True) x p) : Misses x B := by
  intro s kind n line hr
  have houtcome := h.outcome s
  generalize x.run.run s = r at hr houtcome
  cases houtcome with
  | finished => cases hr
  | stopped _ hmissing => exact hmissing kind n line (Except.error.inj hr)

/-- A section misses what its elements refer to, or one of the objects that it declares. -/
def UsedOrDeclared (e : Element) (kind : SharedKind) (n : String) : Prop :=
  Used (sectionOutline e) kind n ∨ .register kind n ∈ sectionRegisters e

lemma register_of_child {e c kind} (h : SectionKind.ofTag? e.tag = some kind.home)
    (hc : c ∈ e.children) : .register kind c.ownName ∈ sectionRegisters e := by
  rw [sectionRegisters, h]
  cases kind <;> exact mem_map.2 ⟨c, hc, rfl⟩

lemma document_missing {s : Session} {d className isMixin visibility}
    (hs : s.core = (start className isMixin visibility).core) {kind n line}
    (h : ((document d).run.run s).1 = .error (.reference kind.referenceKind n line)) :
    .register kind n ∉ d.names ∧ Used d.outline kind n := by
  have sound : Sound s.core := hs ▸ sound_start className isMixin visibility
  have ready : ∀ {s' T}, Trace s.core T s'.core →
      Ready isMixin (.method Builtin.init) Builtin.init s' := fun tr =>
    ⟨tr.sound sound, .method (tr.sound sound).hosts_init,
      tr.isMixin.trans (congrArg Core.isMixin hs)⟩
  unfold document at h
  rw [run_bind] at h
  obtain ⟨R, tr1, _, hR⟩ := lookAheads_writes d s (ready .nil)
  have hfirst : Misses (d.sections.forM lookAhead) fun _ _ => False :=
    .of_composed (.forM fun e _ => lookAhead_composed trivial trivial)
  replace hfirst := hfirst s kind n line
  generalize (d.sections.forM lookAhead).run.run s = r1 at h tr1 hR hfirst
  obtain ⟨r1, s1⟩ := r1
  cases hR with
  | error _ =>
    cases h
    exact (hfirst rfl).2.elim
  | ok hR =>
  subst hR
  dsimp only at h tr1
  rw [run_bind] at h
  obtain ⟨A, tr2, _, _⟩ := sections_yields (tr1.sound sound) d
  have hsections : Misses (d.sections.forM (sectionElement d.root.tag)) fun kind n =>
      ∃ e ∈ d.sections, UsedOrDeclared e kind n := by
    refine .of_composed (.forM fun e he => sectionElement_composed trivial trivial _ ?_ ?_)
    · exact fun kind hkind c hc => ⟨e, he, .inr (register_of_child hkind hc)⟩
    · exact fun kind n hused => ⟨e, he, .inl hused⟩
  replace hsections := hsections s1 kind n line
  generalize (d.sections.forM (sectionElement d.root.tag)).run.run s1 = r2 at h tr2 hsections
  obtain ⟨r2, s2⟩ := r2
  cases r2 with
  | ok _ =>
    have hfinish : Misses finish fun _ _ => False := .of_composed finish_composed
    exact (hfinish s2 kind n line h).2.elim
  | error fault =>
    cases h
    obtain ⟨hfind, e, he, hu⟩ := hsections rfl
    have table : TableOf _ s2.core :=
      Course.table (hs ▸ tr1.append tr2 : Course className isMixin visibility _ _)
    have hnot : .register kind n ∉ d.names := by
      intro hmem
      have hfound := table.find? kind n
      rw [if_pos (mem_append_left _ hmem)] at hfound
      cases hfound.symm.trans hfind
    refine ⟨hnot, ?_⟩
    obtain hu | hr := hu
    · exact hu.mono fun v hv => mem_flatMap.2 ⟨e, he, hv⟩
    · exact absurd (mem_flatMap.2 ⟨e, he, mem_cons_of_mem _ hr⟩) hnot

end Compile

variable {d : Document} {kind : SharedKind} {n : String}

lemma register_of_mem_sharedNames (h : n ∈ d.sharedNames kind) : .register kind n ∈ d.names := by
  obtain ⟨e, he, h⟩ := mem_flatMap.1 h
  split at h
  · next hkind =>
    obtain ⟨c, hc, hname⟩ := mem_filterMap.1 h
    obtain ⟨raw, hraw, rfl⟩ := Option.map_eq_some_iff.1 hname
    refine mem_flatMap.2 ⟨e, he, mem_cons_of_mem _ ?_⟩
    rw [← (sharedName hraw).1]
    exact register_of_child hkind hc
  · cases h

lemma mem_sharedNames_of_register
    (hnamed : ∀ e ∈ d.sections, ∀ k : SharedKind, SectionKind.ofTag? e.tag = some k.home →
      ∀ c ∈ e.children, c.hasAttr "name" = true) (h : .register kind n ∈ d.names) :
    n ∈ d.sharedNames kind := by
  obtain ⟨e, he, h⟩ := mem_flatMap.1 h
  obtain h | h := mem_cons.1 h
  · cases h
  have each : ∀ k : SharedKind, SectionKind.ofTag? e.tag = some k.home →
      .register kind n ∈ e.children.map (fun c => Effect.register k c.ownName) →
      n ∈ d.sharedNames kind := by
    intro k hk hmem
    obtain ⟨c, hc, heq⟩ := mem_map.1 hmem
    cases heq
    obtain ⟨raw, hraw⟩ := Option.isSome_iff_exists.1 (hnamed e he kind hk c hc)
    refine mem_flatMap.2 ⟨e, he, ?_⟩
    rw [if_pos hk, (sharedName hraw).1]
    exact mem_filterMap.2 ⟨c, hc, by rw [hraw]; rfl⟩
  unfold sectionRegisters at h
  split at h
  · next hk => exact each .material hk h
  · next hk => exact each .texture hk h
  all_goals cases h

namespace Compile

lemma lookAhead_demands (e : Element) : Demands (lookAhead e)
    (∀ k : SharedKind, SectionKind.ofTag? e.tag = some k.home →
      ∀ c ∈ e.children, c.hasAttr "name" = true) := by
  have each : ∀ kind, Demands (e.children.forM (registerShared kind))
      (∀ c ∈ e.children, c.hasAttr "name" = true) := by
    refine fun kind => .forM fun c _ => .quiet (.lift (c.require_answers _)) fun raw hraw => ?_
    exact .of_true (by rw [Element.hasAttr, hraw]; rfl)
  unfold lookAhead
  refine .rest fun _ => ?_
  split
  iterate 2 exact (each _).mono fun h _ _ => h
  · next hk => exact .of_true fun k h => by rw [hk] at h; cases k <;> cases h
  · next hm ht _ =>
    refine .of_true fun k h => ?_
    cases k with
    | material => exact absurd h hm
    | texture => exact absurd h ht

lemma view_demands_names (d : Document) (className : String) : Demands (view d className)
    (∀ e ∈ d.sections, ∀ k : SharedKind, SectionKind.ofTag? e.tag = some k.home →
      ∀ c ∈ e.children, c.hasAttr "name" = true) :=
  .rest fun _ => .first (.forM fun e _ => lookAhead_demands e)

end Compile

lemma mem_sharedNames_of_use {options v} (h : (compileDocument options d).1 = .ok v) {u}
    (hu : .use u ∈ d.outline) : u.name ∈ d.sharedNames u.kind := by
  cases hname : d.className with
  | error fault =>
    rw [compileDocument, hname] at h
    cases h
  | ok className =>
    rw [compileDocument_eq hname] at h
    obtain ⟨T, tr, _, hw⟩ := view_yields d className options.visibility
    have hnamed := view_demands_names d className
      (start className d.isMixin options.visibility)
    generalize (view d className).run.run _ = r at h tr hw hnamed
    obtain ⟨r, s⟩ := r
    cases hw with
    | error _ => cases h
    | ok hw =>
      cases hnamed with
      | ok hnamed =>
        have table := Course.table (tr : Course className d.isMixin options.visibility T s.core)
        have hregister := table.registered u.kind u.name (hw.events ▸ settled_of_use hu)
        refine mem_sharedNames_of_register hnamed ?_
        cases hw with
        | intro hA hW =>
          simp only [mem_append, mem_cons, reduceCtorEq, false_or] at hregister
          obtain hr | hr | hr := hregister
          · exact hr
          · exact absurd .register (hA.not_isFirstLook hr)
          · cases hW _ hr

lemma compileDocument_missing {options line}
    (h : (compileDocument options d).1 = .error (.reference kind.referenceKind n line)) :
    n ∉ d.sharedNames kind ∧ Compile.Used d.outline kind n := by
  cases hname : d.className with
  | error fault =>
    rw [compileDocument, hname] at h
    unfold Document.className at hname
    split at hname <;> cases hname
    cases h
  | ok className =>
    rw [compileDocument_eq hname] at h
    have hview : ((view d className).run.run
        (start className d.isMixin options.visibility)).1 =
        .error (.reference kind.referenceKind n line) := by
      generalize (view d className).run.run _ = r at h ⊢
      obtain ⟨r, s⟩ := r
      cases r with
      | ok _ => cases h
      | error fault =>
        cases h
        rfl
    obtain ⟨s, hlog, hc⟩ := log_run .debug ("translating view '" ++ className ++
      "' (mixin: " ++ (if d.isMixin then "true" else "false") ++ ")")
      (start className d.isMixin options.visibility)
    unfold view at hview
    rw [run_bind, hlog] at hview
    obtain ⟨hnot, hused⟩ := document_missing hc hview
    exact ⟨fun hmem => hnot (register_of_mem_sharedNames hmem), hused⟩

/-- A compilation stops at a reference to a shared object only if no section of the document
declares the name, and every reference of an accepted document is to a declared name. The order of
the sections has no part in it: a reference that is not found in one order is there in every order,
it is found in none, and no order is accepted. -/
theorem references_independent_of_order (options : CompileOptions) (d : Document) :
    (∀ (kind : SharedKind) n line,
        (compileDocument options d).1 = .error (.reference kind.referenceKind n line) →
        n ∉ d.sharedNames kind) ∧
      (∀ v, (compileDocument options d).1 = .ok v →
        ∀ u, .use u ∈ d.outline → u.name ∈ d.sharedNames u.kind) ∧
      ∀ (d' : Document) (options' : CompileOptions), d'.sections.Perm d.sections →
        ∀ (kind : SharedKind) n line,
          (compileDocument options' d').1 = .error (.reference kind.referenceKind n line) →
          n ∉ d.sharedNames kind ∧ (∃ u, .use u ∈ d.outline ∧ u.kind = kind ∧ u.name = n) ∧
            ∀ v, (compileDocument options d).1 ≠ .ok v := by
  refine ⟨fun kind n line h => (compileDocument_missing h).1,
    fun v h u hu => mem_sharedNames_of_use h hu, fun d' options' hperm kind n line h => ?_⟩
  obtain ⟨hnot, hused⟩ := compileDocument_missing h
  have hnot' : n ∉ d.sharedNames kind := fun hmem => hnot ((hperm.flatMap_right _).mem_iff.2 hmem)
  obtain ⟨u, hu, rfl, rfl⟩ := hused.mono (hperm.flatMap_right sectionOutline).subset
  exact ⟨hnot', ⟨u, hu, rfl, rfl⟩, fun v hv => hnot' (mem_sharedNames_of_use hv hu)⟩

def lateView : Document where
  root :=
    { tag := "View"
      attributes := [⟨"name", "V"⟩]
      children :=
        [{ tag := "Nodes"
           children := [{ tag := "Box", attributes := [⟨"name", "a"⟩, ⟨"material", " m "⟩] }] },
          { tag := "Materials"
            children :=
              [{ tag := "StandardMaterial"
                 attributes := [⟨"name", "m"⟩, ⟨"diffuseTexture", "t"⟩] }] },
          { tag := "Textures"
            children :=
              [{ tag := "Texture", attributes := [⟨"name", "t "⟩, ⟨"url", "t.png"⟩] }] }] }

/-- The document is accepted, its references are to declared names, and with its sections in the
opposite order it does not stop at one of them. -/
theorem lateView_references :
    ∃ v, (compileDocument {} lateView).1 = .ok v ∧
      (∀ u, .use u ∈ lateView.outline → u.name ∈ lateView.sharedNames u.kind) ∧
      ∀ (kind : SharedKind) n line,
        (compileDocument {} ⟨{ lateView.root with children := lateView.sections.reverse }⟩).1 ≠
          .error (.reference kind.referenceKind n line) := by
  have haccepted : (compileDocument {} lateView).1.isOk = true := by decide +kernel
  obtain ⟨v, hv⟩ := exists_of_isOk haccepted
  obtain ⟨_, hresolved, hmoved⟩ := references_independent_of_order {} lateView
  refine ⟨v, hv, hresolved v hv, fun kind n line h => ?_⟩
  have hperm : (Document.sections
      ⟨{ lateView.root with children := lateView.sections.reverse }⟩).Perm lateView.sections :=
    List.reverse_perm lateView.sections
  exact (hmoved _ {} hperm kind n line h).2.2 v hv

end SceneView
