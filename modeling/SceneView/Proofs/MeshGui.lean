import SceneView.Proofs.DeferredGroup
import SceneView.Proofs.Parts

/-!
# User interfaces on meshes

A user interface on a mesh names a shape or a custom node of an earlier section. All that is written
for it and for its controls goes to the method that builds the mesh, after the mesh and after
everything that the earlier sections write there, however deep the mesh is in deferred groups. Only
the checks and the callbacks of groups follow, since they are put off until the end.
-/

open List

namespace SceneView

open Compile

/-- The statements of a user interface and of its controls. -/
def Branch.guiStatements (d : Document) (method : String) (b : Branch) : List Statement :=
  (b.stations []).flatMap (Station.statements (guiGrowth d.isMixin method) d.outline)

/-- What some sections write to a method. -/
def Document.written (d : Document) (plan : List Portion) (f : String) : List Statement :=
  (d.pieces plan).flatMap (Piece.writes f)

/-- A user interface is in one method, between what comes before it in the document and what comes
after it. -/
structure Document.Arranged (d : Document) (c : ClassDef) (earlier : List Portion)
    (front : List (String × Branch)) (method : String) (gui : Branch)
    (back : List (String × Branch)) (later : List Portion) : Prop where
  fits : ∀ y ∈ gui.stations [], y.Fits (guiGrowth d.isMixin method)
  body : ∀ f, ∃ waiting,
    c.body f = (if f = Builtin.init then initBody d.isMixin else []) ++
      (d.written earlier f ++ (d.written [.guis front] f ++
        ((if method = f then gui.guiStatements d method else []) ++
          (d.written [.guis back] f ++ (d.written later f ++ waiting))))) ∧
    ∀ st ∈ waiting, st.isCheck = true ∨ st.isCallback = true

/-- The node is a shape or a custom one, with an object of its own. -/
structure Station.IsMesh (isMixin : Bool) (y : Station) (x : Part) : Prop where
  content : y.entry.content = .object x []
  role : y.node.role? = some x.role
  isMesh : x.role.isMesh = true
  built : x.BuiltFor isMixin (methodBelow y.above) x.role y.entry.element

namespace Station.IsMesh

variable {d : Document} {y : Station} {x : Part} (h : y.IsMesh d.isMixin x)
include h

lemma statements : ∃ v rest, y.statements (nodeGrowth d.isMixin) d.outline =
    .construct x.object.storage v :: rest := by
  rw [Station.statements, Entry.statements, h.content]
  exact ⟨_, _, rfl⟩

lemma infix_written {plan} (hy : y ∈ plan.flatMap Portion.stations) :
    y.statements (nodeGrowth d.isMixin) d.outline <:+: d.written plan x.method := by
  have hwrites := Piece.infix_writes (d.piece_mem hy)
  rwa [show (y.piece (nodeGrowth d.isMixin) d.outline).method = x.method from
    h.built.method.symm] at hwrites

end Station.IsMesh

/-- A user interface in a method is drawn on the object of a node of the earlier sections. -/
structure Branch.DrawnOn (d : Document) (c : ClassDef) (earlier : List Portion) (method : String)
    (y : Station) (x : Part) (gui : Branch) : Prop where
  mesh : y ∈ earlier.flatMap Portion.stations ∧ y.IsMesh d.isMixin x
  named : ∃ raw, gui.element.attr? "mesh" = some raw ∧ x.object.given = some (Text.trim raw)
  inside : method = groupsMethod y.node.groups
  built : ∀ f, (∃ v, .construct x.object.storage v ∈ c.body f) ↔ f = method
  before : y.statements (nodeGrowth d.isMixin) d.outline <:+: d.written earlier method
  first : ∃ v rest, y.statements (nodeGrowth d.isMixin) d.outline =
    .construct x.object.storage v :: rest
  drawn : ∃ root rest, gui.entry.content = .object root [] ∧
    gui.guiStatements d method =
      .construct root.object.storage (.onMesh guiType x.target
        (root.argument d.isMixin "width" false) (root.argument d.isMixin "height" false)) :: rest

lemma forall₂_split {α β : Type} {R : α → β → Prop} {as₁ as₂ : List α} {a : α} {bs : List β}
    (h : List.Forall₂ R (as₁ ++ a :: as₂) bs) : ∃ bs₁ b bs₂, bs = bs₁ ++ b :: bs₂ ∧
      List.Forall₂ R as₁ bs₁ ∧ R a b ∧ List.Forall₂ R as₂ bs₂ := by
  induction as₁ generalizing bs with
  | nil =>
    obtain ⟨b, bs₂, hab, hrest, rfl⟩ := forall₂_cons_left_iff.1 h
    exact ⟨[], b, bs₂, rfl, .nil, hab, hrest⟩
  | cons a' as₁ ih =>
    obtain ⟨b', bs', hab', hrest, rfl⟩ := forall₂_cons_left_iff.1 h
    obtain ⟨bs₁, b, bs₂, rfl, h₁, hab, h₂⟩ := ih hrest
    exact ⟨b' :: bs₁, b, bs₂, rfl, .cons hab' h₁, hab, h₂⟩

lemma Portion.mem_guiParts {isMixin es roots r y x} (hr : r ∈ roots) (hy : y ∈ r.2.stations [])
    (hcontent : y.entry.content = .object x []) :
    x ∈ ((Portion.guis roots).pieces isMixin es).flatMap Piece.parts := by
  refine mem_flatMap.2 ⟨y.piece (guiGrowth isMixin r.1) es,
    mem_flatMap.2 ⟨r, hr, mem_map_of_mem hy⟩, ?_⟩
  rw [Station.piece, Entry.parts, hcontent]
  exact mem_cons_self

lemma Part.Lies.exists_node {isMixin q} {x : Part} (h : x.Lies isMixin q)
    (hmesh : x.role.isMesh = true) : ∃ y ∈ q.stations, y.IsMesh isMixin x := by
  cases h with
  | node hy hcontent hrole hx => exact ⟨_, hy, hcontent, hrole, hmesh, hx⟩
  | gui _ _ _ _ horigin => cases hrole : x.role <;> simp_all [Role.isMesh, Role.origin?]
  | shared hshared => cases hrole : x.role <;> simp_all [Role.isMesh, Role.isShared]

section

variable {d : Document} {c : ClassDef} {earlier later : List Portion}
  {roots front back : List (String × Branch)} {method : String} {gui : Branch}

lemma Planned.found (h : Planned d c (earlier ++ .guis roots :: later)) {x base}
    (hx : x ∈ ((Portion.guis roots).pieces d.isMixin d.outline).flatMap Piece.parts)
    (hfind : .find base ∈ x.sights) :
    ∃ y ∈ earlier.flatMap Portion.stations, ∃ z, y.IsMesh d.isMixin z ∧
      z.object.given = some base.name ∧ z.mesh = base := by
  obtain ⟨p, hp, hx⟩ := mem_flatMap.1 hx
  have hsight : .find base ∈
      ((Portion.guis roots).pieces d.isMixin d.outline).flatMap Piece.sights :=
    mem_flatMap.2 ⟨p, hp, mem_append_right _ (mem_flatMap.2 ⟨x, hx, hfind⟩)⟩
  obtain ⟨front, back, hsplit⟩ := append_of_mem hsight
  have hall : (d.pieces (earlier ++ .guis roots :: later)).flatMap Piece.sights =
      ((d.pieces earlier).flatMap Piece.sights ++ front) ++
        .find base :: (back ++ (d.pieces later).flatMap Piece.sights) := by
    rw [Document.pieces, flatMap_append, flatMap_cons, flatMap_append, flatMap_append, hsplit]
    simp only [Document.pieces, append_assoc, cons_append]
  have hmesh : ∀ {q p}, q ∈ earlier ++ .guis roots :: later → p ∈ q.pieces d.isMixin d.outline →
      .mesh base ∈ p.sights → ∃ y ∈ q.stations, ∃ z, y.IsMesh d.isMixin z ∧
        z.object.given = some base.name ∧ z.mesh = base := by
    intro q p hq hp hmem
    obtain ⟨z, hz, hmesh, hgiven, heq⟩ := Piece.mesh_mem_sights hmem
    obtain ⟨e, he⟩ := h.isOf hq
    obtain ⟨y, hy, hmesh⟩ := (he.lies hp hz).exists_node hmesh
    exact ⟨y, hy, z, hmesh, hgiven, heq⟩
  obtain hmem | hmem := mem_append.1 (h.known hall)
  · obtain ⟨p, hp, hmem⟩ := mem_flatMap.1 hmem
    obtain ⟨q, hq, hp⟩ := mem_flatMap.1 hp
    obtain ⟨y, hy, hrest⟩ := hmesh (mem_append_left _ hq) hp hmem
    exact ⟨y, mem_flatMap.2 ⟨q, hq, hy⟩, hrest⟩
  · have hmem' : .mesh base ∈
        ((Portion.guis roots).pieces d.isMixin d.outline).flatMap Piece.sights := by
      rw [hsplit]
      exact mem_append_left _ hmem
    obtain ⟨p, hp, hmem'⟩ := mem_flatMap.1 hmem'
    obtain ⟨y, hy, _⟩ := hmesh (mem_append_right _ mem_cons_self) hp hmem'
    cases hy

lemma Branch.flatMap_writes (d : Document) (method : String) (b : Branch) (f : String) :
    ((b.stations []).map (Station.piece (guiGrowth d.isMixin method) d.outline)).flatMap
      (Piece.writes f) = if method = f then b.guiStatements d method else [] := by
  rw [flatMap_map]
  split
  · next h => exact flatMap_congr fun y _ => if_pos h
  · next h => exact flatMap_eq_nil_iff.2 fun y _ => if_neg h

lemma Planned.arranged
    (h : Planned d c (earlier ++ .guis (front ++ (method, gui) :: back) :: later)) :
    d.Arranged c earlier front method gui back later where
  fits := by
    obtain ⟨e, he⟩ := h.isOf (mem_append_right _ mem_cons_self)
    cases he with
    | guis _ _ hroots => exact (hroots (method, gui) (by simp)).2
  body f := by
    have hbody := h.body f
    generalize ((earlier ++ .guis (front ++ (method, gui) :: back) :: later).flatMap
      Portion.groups) = gs at hbody
    refine ⟨gs.flatMap (Station.checks f) ++ gs.flatMap (Station.calls f), ?_, fun st hst => ?_⟩
    · rw [hbody, Document.pieces, flatMap_append, flatMap_cons, Portion.pieces, flatMap_append,
        flatMap_append, flatMap_append, flatMap_cons, flatMap_append, flatMap_append,
        Branch.flatMap_writes]
      simp only [Document.written, Document.pieces, flatMap_singleton, Portion.pieces, append_assoc]
    · obtain hst | hst := mem_append.1 hst
      · exact .inl (isCheck_checks st hst)
      · exact .inr (isCallback_calls st hst)

lemma Planned.exists_drawnOn
    (h : Planned d c (earlier ++ .guis (front ++ (method, gui) :: back) :: later))
    (hroot : GuiRoot.ofTag? gui.element.tag = some .onMesh) :
    ∃ y x, gui.DrawnOn d c earlier method y x := by
  obtain ⟨entry, bs⟩ := gui
  have hroot' : GuiRoot.ofTag? entry.element.tag = some .onMesh := hroot
  have hfits : Station.Fits (guiGrowth d.isMixin method) ⟨.mk entry bs, []⟩ :=
    h.arranged.fits _ mem_cons_self
  have hentry : GuiEntry d.isMixin method [] entry := hfits.entry
  cases hentry with
  | fullScreen hkind => cases hkind.symm.trans hroot'
  | @onMesh e root base raw _ hraw hname hmethod hbase hbuilt =>
    have hfind : .find base ∈ root.sights := by
      rw [Part.sights, hbase]
      exact mem_cons_self
    have hmem : root ∈ ((Portion.guis (front ++
        (method, .mk ⟨e, .object root []⟩ bs) :: back)).pieces d.isMixin d.outline).flatMap
          Piece.parts :=
      Portion.mem_guiParts (mem_append_right _ mem_cons_self) mem_cons_self rfl
    obtain ⟨y, hy, x, hx, hgiven, rfl⟩ := h.found hmem hfind
    have hmethod' : x.method = method := hmethod
    refine ⟨y, x, ⟨hy, hx⟩, ⟨raw, hraw, hname ▸ hgiven⟩, ?_, fun f => ?_, ?_, hx.statements, ?_⟩
    · rw [← hmethod', hx.built.method, methodBelow_eq]
      rfl
    · rw [← hmethod']
      refine h.construct_iff (d.part_mem ?_ hx.content)
      rw [flatMap_append]
      exact mem_append_left _ hy
    · rw [← hmethod']
      exact hx.infix_written hy
    · obtain ⟨rest, hrest⟩ : ∃ rest, (Branch.mk ⟨e, .object root []⟩ bs).guiStatements d method =
          .construct root.object.storage (root.construction d.isMixin none) :: rest := ⟨_, rfl⟩
      have htype : root.type = guiType := by
        rw [Part.type, hbuilt.role]
        rfl
      rw [Part.construction, hbuilt.role, hbase, htype] at hrest
      exact ⟨root, rest, rfl, hrest⟩

end

/-- A user interface on a mesh follows its mesh. The sections before it build a shape or a custom
node of the name that it asks for, in the method of the groups around that node. Everything that is
written for the user interface and its controls comes later in the same method, after all that these
sections write. -/
theorem mesh_gui_follows_mesh {d : Document} {options : CompileOptions} {c : ClassDef}
    {before after roots₁ roots₂ : List Element} {e r : Element}
    (h : d.generated? options = some c)
    (hsections : d.sections = before ++ e :: after)
    (hkind : SectionKind.ofTag? e.tag = some .guis)
    (hroots : e.children = roots₁ ++ r :: roots₂)
    (hroot : GuiRoot.ofTag? r.tag = some .onMesh) :
    ∃ earlier front method gui back later,
      Planned d c (earlier ++ .guis (front ++ (method, gui) :: back) :: later) ∧
      List.Forall₂ (Portion.IsOf d.isMixin) before earlier ∧
      front.map (·.2.element) = roots₁ ∧ gui.element = r ∧ back.map (·.2.element) = roots₂ ∧
      List.Forall₂ (Portion.IsOf d.isMixin) after later ∧
      d.Arranged c earlier front method gui back later ∧
      ∃ y x, gui.DrawnOn d c earlier method y x := by
  obtain ⟨plan, hplan⟩ := d.planned h
  have hportions := hplan.sections
  rw [hsections] at hportions
  obtain ⟨earlier, q, later, rfl, hbefore, hq, hafter⟩ := forall₂_split hportions
  cases hq with
  | @guis roots _ helements _ =>
    rw [hroots] at helements
    obtain ⟨front, rest, rfl, hfront, hrest⟩ := List.map_eq_append_iff.1 helements
    obtain ⟨⟨method, gui⟩, back, rfl, rfl, hback⟩ := List.map_eq_cons_iff.1 hrest
    exact ⟨earlier, front, method, gui, back, later, hplan, hbefore, hfront, rfl, hback, hafter,
      hplan.arranged, hplan.exists_drawnOn hroot⟩
  | nodes hother | properties hother | imports hother => cases hkind.symm.trans hother
  | @shared kind _ hother => cases kind <;> cases hkind.symm.trans hother

def theaterNodes : Element where
  tag := "Nodes"
  children :=
    [{ tag := "DeferredGroup"
       attributes := [⟨"name", "stage"⟩, ⟨"initWhen", "\x7bthis.open\x7d"⟩]
       children :=
         [{ tag := "DeferredGroup"
            attributes := [⟨"name", "back"⟩, ⟨"initWhen", "\x7bthis.dressed\x7d"⟩]
            children :=
              [{ tag := "Box", attributes := [⟨"name", "screen"⟩] },
                { tag := "TransformNode", attributes := [⟨"name", "lamp"⟩] }] }] }]

def subtitles : Element where
  tag := "TextureGui"
  attributes := [⟨"mesh", " screen "⟩, ⟨"alpha", "0.5"⟩]
  children :=
    [{ tag := "StackPanel"
       attributes := [⟨"name", "lines"⟩]
       children := [{ tag := "TextBlock", attributes := [⟨"name", "line"⟩, ⟨"text", "Hello"⟩] }] }]

def theaterGuis : Element where
  tag := "Guis"
  children := [{ tag := "FullScreen" }, subtitles]

def theaterView : Document where
  root :=
    { tag := "View", attributes := [⟨"name", "V"⟩], children := [theaterNodes, theaterGuis] }

theorem theaterView_follows :
    ∃ c, theaterView.generated? {} = some c ∧
      ∃ earlier front method gui back later,
        Planned theaterView c (earlier ++ .guis (front ++ (method, gui) :: back) :: later) ∧
        List.Forall₂ (Portion.IsOf theaterView.isMixin) [theaterNodes] earlier ∧
        front.map (·.2.element) = [{ tag := "FullScreen" }] ∧ gui.element = subtitles ∧
        back.map (·.2.element) = [] ∧
        List.Forall₂ (Portion.IsOf theaterView.isMixin) [] later ∧
        theaterView.Arranged c earlier front method gui back later ∧
        ∃ y x, gui.DrawnOn theaterView c earlier method y x := by
  obtain ⟨c, h⟩ := Option.isSome_iff_exists.1
    (show (theaterView.generated? {}).isSome = true by decide +kernel)
  have hsections : theaterView.sections = [theaterNodes] ++ theaterGuis :: [] := rfl
  have hroots : theaterGuis.children = [{ tag := "FullScreen" }] ++ subtitles :: [] := rfl
  exact ⟨c, h, mesh_gui_follows_mesh h hsections (by decide) hroots (by decide)⟩

end SceneView
