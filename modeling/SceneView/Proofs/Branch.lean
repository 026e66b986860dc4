import SceneView.Proofs.Object

/-!
# Branches

What the compiler makes of the node tree and of the user interfaces of a document. The *entry* of an
element tells what the element brings, and a *branch* is an entry with the branches of the elements
below it. The entries above an element tell where its statements go and below which object its own
is placed: a deferred group changes the method, every other node changes the parent.

All changes of a branch are told by its entries (`Branch.trace`).
-/

open List

namespace SceneView

def Element.seat (e : Element) (member : String) : String :=
  match NodeKind.ofTag? e.tag, e.attr? "attachChildrenTo" with
  | some .custom, some part => member ++ "." ++ Text.trim part
  | _, _ => member

lemma Element.seat_eq {e : Element} {kind} (hk : NodeKind.ofTag? e.tag = some kind)
    (hcustom : kind ≠ .custom) (member : String) : e.seat member = member := by
  unfold Element.seat
  rw [hk]
  split
  · next h _ => cases h; exact absurd rfl hcustom
  · rfl

/-- What an element brings: an object, with the textures in the slots of a material, or a deferred
group, with the path that it observes, the condition that it checks and the function that it
calls. -/
inductive Content where
  | object (part : Part) (slots : List (String × Part))
  | group (path? check? call? : Option String)

structure Entry where
  element : Element
  content : Content

namespace Entry

def isGroup (x : Entry) : Bool :=
  match x.content with
  | .object .. => false
  | .group .. => true

def name (x : Entry) : String :=
  match x.content with
  | .object part _ => part.object.name
  | .group .. => x.element.ownName

def member (x : Entry) : String :=
  storageName x.name

def seat (x : Entry) : String :=
  x.element.seat x.member

def parts (x : Entry) : List Part :=
  match x.content with
  | .object part slots => part :: slots.map (·.2)
  | .group .. => []

def check? (x : Entry) : Option String :=
  match x.content with
  | .object .. => none
  | .group _ check? _ => check?

def call? (x : Entry) : Option String :=
  match x.content with
  | .object .. => none
  | .group _ _ call? => call?

def statements (es : List Event) (isMixin : Bool) (place? : Option String) (x : Entry) :
    List Statement :=
  match x.content with
  | .object part slots => part.statementsWith es isMixin place? slots
  | .group path? _ _ =>
    path?.toList.map (.bindGroup Builtin.engine · (Compile.groupMethod x.name))

def opening (isMixin : Bool) (method : String) (place? : Option String) (x : Entry) : List Effect :=
  match x.content with
  | .object part slots =>
    part.trace isMixin (.method method) place? ++
      slots.flatMap (part.slotTrace isMixin (.method method))
  | .group path? check? _ =>
    .group x.name :: (path?.toList.map (fun path => .emit (.method method)
        (.bindGroup Builtin.engine path (Compile.groupMethod x.name))) ++
      check?.toList.map (.trigger method · x.name))

def closing (x : Entry) : List Effect :=
  x.call?.toList.map (.callback x.name)

lemma opening_group {x : Entry} (h : x.isGroup = true) (es : List Event) (isMixin : Bool)
    (method : String) (place? : Option String) :
    x.opening isMixin method place? =
      .group x.name :: ((x.statements es isMixin place?).map (.emit (.method method)) ++
        x.check?.toList.map (.trigger method · x.name)) := by
  obtain ⟨e, content⟩ := x
  cases content with
  | object => cases h
  | group path? => cases path? <;> rfl

lemma parts_group {x : Entry} (h : x.isGroup = true) : x.parts = [] := by
  obtain ⟨e, content⟩ := x
  cases content with
  | object => cases h
  | group => rfl

end Entry

def parentBelow (above : List Entry) : String :=
  match above.find? (!·.isGroup) with
  | some x => x.seat
  | none => Builtin.root

def methodBelow (above : List Entry) : String :=
  match above.find? (·.isGroup) with
  | some g => Compile.groupMethod g.name
  | none => Builtin.init

lemma parentBelow_group {x} (h : x.isGroup = true) (above : List Entry) :
    parentBelow (x :: above) = parentBelow above := by
  simp [parentBelow, h]

lemma parentBelow_node {x} (h : x.isGroup = false) (above : List Entry) :
    parentBelow (x :: above) = x.seat := by
  simp [parentBelow, h]

lemma methodBelow_group {x} (h : x.isGroup = true) (above : List Entry) :
    methodBelow (x :: above) = Compile.groupMethod x.name := by
  simp [methodBelow, h]

lemma methodBelow_node {x} (h : x.isGroup = false) (above : List Entry) :
    methodBelow (x :: above) = methodBelow above := by
  simp [methodBelow, h]

lemma isHost_methodBelow (above : List Entry) : IsHost (methodBelow above) := by
  unfold methodBelow
  split
  · exact .inr ⟨_, rfl⟩
  · exact .inl rfl

/-- An element with what is written for it and with what is below it. -/
inductive Branch where
  | mk (entry : Entry) (children : List Branch)

namespace Branch

def entry : Branch → Entry
  | mk x _ => x

def children : Branch → List Branch
  | mk _ bs => bs

def element (b : Branch) : Element :=
  b.entry.element

end Branch

/-- A branch with the entries above it, from the innermost on. -/
structure Station where
  branch : Branch
  above : List Entry

def Station.entry (x : Station) : Entry :=
  x.branch.entry

mutual

def Branch.stations (above : List Entry) : Branch → List Station
  | .mk x bs => ⟨.mk x bs, above⟩ :: Branch.stationsOf (x :: above) bs

def Branch.stationsOf (above : List Entry) : List Branch → List Station
  | [] => []
  | b :: bs => b.stations above ++ Branch.stationsOf above bs

end

lemma Branch.stationsOf_append (above : List Entry) (bs bs' : List Branch) :
    stationsOf above (bs ++ bs') = stationsOf above bs ++ stationsOf above bs' := by
  induction bs with
  | nil => rfl
  | cons b bs ih => rw [cons_append, stationsOf, stationsOf, ih, append_assoc]

def NodeKind.role? : NodeKind → Option Role
  | transform => some .transform
  | shape s => some (.shape s)
  | model => some .model
  | custom => some .custom
  | deferredGroup | material => none

namespace Element

/-- The path that a deferred group observes and the condition that it checks. -/
inductive Waits (isMixin : Bool) (e : Element) : Option String → Option String → Prop where
  | never :
    e.attr? "initWhen" = none →
    Waits isMixin e none none
  | literal {raw} :
    e.attr? "initWhen" = some raw →
    Value.bound? (Builtin.host isMixin) raw = .ok none →
    Waits isMixin e none (some (Text.trim raw))
  | bound {raw x} :
    e.attr? "initWhen" = some raw →
    Value.bound? (Builtin.host isMixin) raw = .ok (some x) →
    Waits isMixin e x.path (some x.code)

/-- The function that is called once a deferred group is built. -/
inductive Calls (isMixin : Bool) (e : Element) : Option String → Prop where
  | never :
    e.attr? "onInit" = none →
    Calls isMixin e none
  | once {raw code} :
    e.attr? "onInit" = some raw →
    (viewBinder isMixin).argument raw false = .ok code →
    Calls isMixin e (some code)

def initCall? (isMixin : Bool) (e : Element) : Option String :=
  (e.attr? "onInit").bind fun raw => ((viewBinder isMixin).argument raw false).toOption

def nodesIn (e : Element) : List Element :=
  if NodeKind.ofTag? e.tag = some .material then [] else e.children

end Element

/-- The part is that of an element, and it is built in the method. -/
structure Part.BuiltFor (isMixin : Bool) (m : String) (role : Role) (e : Element) (x : Part) : Prop
    extends x.IsFor isMixin (.method m) role e where
  method : x.method = m

/-- What a node brings. -/
inductive NodeEntry (isMixin : Bool) (above : List Entry) : Entry → Prop where
  | object {e kind role x} :
    NodeKind.ofTag? e.tag = some kind →
    kind.role? = some role →
    x.BuiltFor isMixin (methodBelow above) role e →
    NodeEntry isMixin above ⟨e, .object x []⟩
  | material {e child kind x slots} :
    NodeKind.ofTag? e.tag = some .material →
    e.children = [child] →
    MaterialKind.ofTag? child.tag = some kind →
    x.BuiltFor isMixin (methodBelow above) (.material kind) child →
    x.FillsAll isMixin (.method (methodBelow above)) child.children slots →
    NodeEntry isMixin above ⟨e, .object x slots⟩
  | group {e path? check? call?} :
    NodeKind.ofTag? e.tag = some .deferredGroup →
    e.Waits isMixin path? check? →
    e.Calls isMixin call? →
    NodeEntry isMixin above ⟨e, .group path? check? call?⟩

/-- What a user interface in the given method brings, and what the controls in it bring. A user
interface on a mesh is in the method that builds the mesh. -/
inductive GuiEntry (isMixin : Bool) (method : String) : List Entry → Entry → Prop where
  | fullScreen {e x} :
    GuiRoot.ofTag? e.tag = some .fullScreen →
    method = Builtin.init →
    x.BuiltFor isMixin method .fullScreen e →
    GuiEntry isMixin method [] ⟨e, .object x []⟩
  | onMesh {e x base raw} :
    GuiRoot.ofTag? e.tag = some .onMesh →
    e.attr? "mesh" = some raw →
    base.name = Text.trim raw →
    base.method = method →
    x.base? = some base →
    x.BuiltFor isMixin method .onMesh e →
    GuiEntry isMixin method [] ⟨e, .object x []⟩
  | control {e x parent outer} :
    x.BuiltFor isMixin method .control e →
    GuiEntry isMixin method (parent :: outer) ⟨e, .object x []⟩

def Entry.BuiltIn (isMixin : Bool) (method : String) (x : Entry) : Prop :=
  ∀ part slots, x.content = .object part slots →
    (∃ role e, part.BuiltFor isMixin method role e) ∧
      ∃ es, part.FillsAll isMixin (.method method) es slots

/-- How a tree of elements is compiled: which elements are below another one, and, by the entries
above an element, the method that its statements go to, the place of its object and what it
brings. -/
structure Growth where
  isMixin : Bool
  kids : Element → List Element
  method : List Entry → String
  place? : List Entry → Option String
  fits : List Entry → Entry → Prop
  built : ∀ {above x}, fits above x → x.BuiltIn isMixin (method above)

def nodeGrowth (isMixin : Bool) : Growth where
  isMixin
  kids := Element.nodesIn
  method := methodBelow
  place? above := some (parentBelow above)
  fits := NodeEntry isMixin
  built h := by
    intro part slots hcontent
    cases h with
    | object _ _ hx =>
      cases hcontent
      exact ⟨⟨_, _, hx⟩, [], .nil⟩
    | material _ _ _ hx hslots =>
      cases hcontent
      exact ⟨⟨_, _, hx⟩, _, hslots⟩
    | group => cases hcontent

def guiGrowth (isMixin : Bool) (method : String) : Growth where
  isMixin
  kids := Element.children
  method _ := method
  place? above := above.head?.map Entry.member
  fits := GuiEntry isMixin method
  built h := by
    intro part slots hcontent
    cases h with
    | fullScreen _ _ hx | onMesh _ _ _ _ _ hx | control hx =>
      cases hcontent
      exact ⟨⟨_, _, hx⟩, [], .nil⟩

namespace Station

variable (G : Growth)

def statements (es : List Event) (y : Station) : List Statement :=
  y.entry.statements es G.isMixin (G.place? y.above)

/-- A station of a tree: what its element brings, and which elements are below it. -/
structure Fits (y : Station) : Prop where
  entry : G.fits y.above y.entry
  below : y.branch.children.map Branch.element = G.kids y.entry.element

end Station

namespace Branch

variable (G : Growth)

mutual

def trace (above : List Entry) : Branch → List Effect
  | .mk x bs =>
    x.opening G.isMixin (G.method above) (G.place? above) ++ (traceOf (x :: above) bs ++ x.closing)

def traceOf (above : List Entry) : List Branch → List Effect
  | [] => []
  | b :: bs => b.trace above ++ traceOf above bs

end

lemma traceOf_append (above : List Entry) (bs bs' : List Branch) :
    traceOf G above (bs ++ bs') = traceOf G above bs ++ traceOf G above bs' := by
  induction bs with
  | nil => rfl
  | cons b bs ih => rw [cons_append, traceOf, traceOf, ih, append_assoc]

end Branch

def Grown (G : Growth) (above : List Entry) (elements : List Element) (T : List Effect) : Prop :=
  ∃ bs : List Branch, bs.map Branch.element = elements ∧
    (∀ y ∈ Branch.stationsOf above bs, y.Fits G) ∧ T = Branch.traceOf G above bs

namespace Grown

variable {G : Growth} {above : List Entry} {elements elements' : List Element}
  {T T' inside : List Effect} {x : Entry}

lemma nil : Grown G above [] [] :=
  ⟨[], rfl, by simp [Branch.stationsOf], rfl⟩

lemma append (h : Grown G above elements T) (h' : Grown G above elements' T') :
    Grown G above (elements ++ elements') (T ++ T') := by
  obtain ⟨bs, rfl, hbs, rfl⟩ := h
  obtain ⟨bs', rfl, hbs', rfl⟩ := h'
  refine ⟨bs ++ bs', map_append, fun y hy => ?_, (Branch.traceOf_append G above bs bs').symm⟩
  rw [Branch.stationsOf_append] at hy
  exact (mem_append.1 hy).elim (hbs y) (hbs' y)

lemma exists_branch (hx : G.fits above x) (h : Grown G (x :: above) (G.kids x.element) inside) :
    ∃ b : Branch, b.element = x.element ∧ (∀ y ∈ b.stations above, y.Fits G) ∧
      x.opening G.isMixin (G.method above) (G.place? above) ++ (inside ++ x.closing) =
        b.trace G above := by
  obtain ⟨bs, hbs, hfits, rfl⟩ := h
  refine ⟨.mk x bs, rfl, fun y hy => ?_, rfl⟩
  obtain rfl | hy := mem_cons.1 hy
  · exact ⟨hx, hbs⟩
  · exact hfits y hy

lemma single (hx : G.fits above x) (h : Grown G (x :: above) (G.kids x.element) inside) :
    Grown G above [x.element]
      (x.opening G.isMixin (G.method above) (G.place? above) ++ (inside ++ x.closing)) := by
  obtain ⟨b, helement, hfits, htrace⟩ := exists_branch hx h
  refine ⟨[b], by rw [map_singleton, helement], fun y hy => ?_, ?_⟩
  · rw [Branch.stationsOf, Branch.stationsOf, append_nil] at hy
    exact hfits y hy
  · rw [htrace, Branch.traceOf, Branch.traceOf, append_nil]

end Grown

variable {isMixin : Bool} {above : List Entry} {x : Entry} {inside : List Effect} {M : List String}

lemma Entry.opening_object {isMixin method place? e part} :
    (⟨e, .object part []⟩ : Entry).opening isMixin method place? =
      part.trace isMixin (.method method) place? :=
  append_nil _

lemma Entry.closing_object {e part slots} : (⟨e, .object part slots⟩ : Entry).closing = [] :=
  rfl

lemma Loose.group {evs : List Event} {T : List Effect} {m n : String}
    {path? check? call? : Option String} (hP : Site.IsTree (.method m))
    (h : Loose Site.IsTree M evs T) :
    Loose Site.IsTree M (.group n :: evs)
      (.group n :: (path?.toList.map (fun path => .emit (.method m)
          (.bindGroup Builtin.engine path (Compile.groupMethod n))) ++
        check?.toList.map (.trigger m · n)) ++ (T ++ call?.toList.map (.callback n))) := by
  have hgroup : Loose Site.IsTree M [.group n] [.group n] :=
    .single (e := .group n) (.method (.inr ⟨n, rfl⟩)) (by simp) rfl
  have hopen := hgroup.wire (g := n) mem_cons_self
    (W := path?.toList.map (fun path => .emit (.method m)
      (.bindGroup Builtin.engine path (Compile.groupMethod n))) ++
        check?.toList.map (.trigger m · n)) (by
    simp only [mem_append, mem_map]
    rintro e (⟨path, _, rfl⟩ | ⟨check, _, rfl⟩)
    · exact ⟨⟨hP, rfl⟩, rfl⟩
    · exact ⟨trivial, rfl⟩)
  have hall := (hopen.append h).wire (g := n) mem_cons_self
    (W := call?.toList.map (.callback n)) (by
    simp only [mem_map]
    rintro e ⟨code, _, rfl⟩
    exact ⟨trivial, rfl⟩)
  simpa using hall

lemma nodeOutline_object {m : String} {e : Element} {kind role} {x : Part}
    (hk : NodeKind.ofTag? e.tag = some kind) (hrole : kind.role? = some role)
    (hx : x.IsFor isMixin (.method m) role e) :
    nodeOutline m e = .object x.type e.givenName? :: x.uses (.method m) ++
      nodesOutline m e.nodesIn := by
  have htype : x.type = role.typeOf e := by rw [Part.type, hx.role, hx.element]
  have htag := NodeKind.tag_eq hk
  have hnodes : e.nodesIn = e.children := by
    rw [Element.nodesIn, if_neg]
    rw [hk]
    rintro ⟨⟩
    cases hrole
  rw [hnodes, htype]
  obtain ⟨tag, attributes, children, text, line⟩ := e
  obtain rfl := htag
  dsimp only at hk
  unfold nodeOutline
  cases kind with
  | transform | model | custom =>
    cases hrole
    rw [hx.uses_eq_nil (by simp) (by simp), hk]
    rfl
  | shape s =>
    cases hrole
    rw [Part.uses_shape hx, hk]
    rfl
  | deferredGroup | material => cases hrole

lemma NodeEntry.loose (h : NodeEntry isMixin above x)
    (hinside : Loose Site.IsTree M
      (nodesOutline (methodBelow (x :: above)) x.element.nodesIn) inside) :
    Loose Site.IsTree M (nodeOutline (methodBelow above) x.element)
      (x.opening isMixin (methodBelow above) (some (parentBelow above)) ++
        (inside ++ x.closing)) := by
  have hP : Site.IsTree (.method (methodBelow above)) := .method (isHost_methodBelow above)
  cases h with
  | object hk hrole hx =>
    rw [methodBelow_node rfl] at hinside
    rw [nodeOutline_object hk hrole hx.toIsFor, Entry.closing_object, append_nil inside]
    have htrace := hx.trace_loose (M := M) (some (parentBelow above)) hP
    rw [← append_nil (Part.trace ..)] at htrace
    exact htrace.append hinside
  | @material e child kind x slots hk hchild hkind hx hslots =>
    have hnodes : e.nodesIn = [] := by rw [Element.nodesIn, if_pos hk]
    rw [hnodes] at hinside
    have htype : x.type = child.tag := by
      rw [Part.type, hx.role, Role.typeOf, MaterialKind.typeName_eq hkind]
    have houtline : nodeOutline (methodBelow above) e =
        (.object x.type child.givenName? :: x.uses (.method (methodBelow above)) ++
          child.children.flatMap fun slot =>
            slot.children.map fun texture => .object texture.tag texture.givenName?) ++ [] := by
      obtain ⟨tag, attributes, children, text, line⟩ := e
      dsimp only at hk hchild
      unfold nodeOutline
      rw [hk, htype, Part.uses_material hx.toIsFor, append_nil]
      dsimp only
      rw [hchild, flatMap_singleton, materialParts, hkind]
      rfl
    rw [houtline, Entry.closing_object, append_nil inside]
    have htrace := hx.trace_loose (M := M) (some (parentBelow above)) hP
    exact (htrace.append (hslots.loose hP)).append hinside
  | @group e path? check? call? hk =>
    rw [methodBelow_group rfl] at hinside
    have hnodes : e.nodesIn = e.children := by
      rw [Element.nodesIn, hk]
      rfl
    rw [hnodes] at hinside
    have houtline : nodeOutline (methodBelow above) e =
        .group e.ownName :: nodesOutline (Compile.groupMethod e.ownName) e.children := by
      obtain ⟨tag, attributes, children, text, line⟩ := e
      dsimp only at hk
      unfold nodeOutline
      rw [hk]
    rw [houtline]
    exact hinside.group hP

lemma GuiEntry.loose {method} (h : GuiEntry isMixin method above x)
    (hinside : Loose (· = .method method) M (controlsOutline x.element.children) inside) :
    Loose (· = .method method) M
      ((if above = [] then guiOutline x.element else controlOutline x.element))
      (x.opening isMixin method (above.head?.map Entry.member) ++ (inside ++ x.closing)) := by
  have each : ∀ {e : Element} {role x}, Part.BuiltFor isMixin method role e x →
      (∀ s, role ≠ .shape s) → (∀ kind, role ≠ .material kind) →
      Loose (· = .method method) M (controlsOutline e.children) inside →
      Loose (· = .method method) M
        (.object (role.typeOf e) e.givenName? :: controlsOutline e.children)
        ((Entry.mk e (.object x [])).opening isMixin method (above.head?.map Entry.member) ++
          (inside ++ (Entry.mk e (.object x [])).closing)) := by
    intro e role x hx hshape hmaterial hinside
    have htype : role.typeOf e = x.type := by rw [Part.type, hx.role, hx.element]
    have htrace := hx.trace_loose (M := M) (P := (· = .method method))
      (above.head?.map Entry.member) rfl
    rw [hx.uses_eq_nil hshape hmaterial, ← append_nil (Part.trace ..)] at htrace
    rw [Entry.closing_object, append_nil inside, htype]
    exact htrace.append hinside
  cases h with
  | fullScreen _ _ hx => exact each hx (by simp) (by simp) hinside
  | onMesh _ _ _ _ _ hx => exact each hx (by simp) (by simp) hinside
  | @control e x parent outer hx =>
    rw [if_neg (by simp)]
    have houtline : controlOutline e =
        .object (Role.control.typeOf e) e.givenName? :: controlsOutline e.children := by
      obtain ⟨tag, attributes, children, text, line⟩ := e
      rfl
    rw [houtline]
    exact each hx (by simp) (by simp) hinside

namespace Branch

mutual

lemma loose_node : (b : Branch) → {above : List Entry} →
    (∀ y ∈ b.stations above, y.Fits (nodeGrowth isMixin)) →
    Loose Site.IsTree M (nodeOutline (methodBelow above) b.element)
      (b.trace (nodeGrowth isMixin) above)
  | .mk x bs, above, h => by
    have hx := h _ mem_cons_self
    have hbelow : bs.map element = x.element.nodesIn := hx.below
    have hinside := loose_nodes bs fun y hy => h y (mem_cons_of_mem _ hy)
    rw [hbelow] at hinside
    exact NodeEntry.loose hx.entry hinside

lemma loose_nodes : (bs : List Branch) → {above : List Entry} →
    (∀ y ∈ stationsOf above bs, y.Fits (nodeGrowth isMixin)) →
    Loose Site.IsTree M (nodesOutline (methodBelow above) (bs.map element))
      (traceOf (nodeGrowth isMixin) above bs)
  | [], _, _ => .nil
  | b :: bs, above, h => by
    have hb := loose_node b fun y hy => h y (mem_append_left _ hy)
    exact hb.append (loose_nodes bs fun y hy => h y (mem_append_right _ hy))

end

mutual

lemma loose_gui {method} : (b : Branch) → {above : List Entry} →
    (∀ y ∈ b.stations above, y.Fits (guiGrowth isMixin method)) →
    Loose (· = .method method) M
      (if above = [] then guiOutline b.element else controlOutline b.element)
      (b.trace (guiGrowth isMixin method) above)
  | .mk x bs, above, h => by
    have hx := h _ mem_cons_self
    have hbelow : bs.map element = x.element.children := hx.below
    have hinside := loose_controls bs fun y hy => h y (mem_cons_of_mem _ hy)
    rw [hbelow] at hinside
    exact GuiEntry.loose hx.entry hinside

lemma loose_controls {method} : (bs : List Branch) → {x : Entry} → {outer : List Entry} →
    (∀ y ∈ stationsOf (x :: outer) bs, y.Fits (guiGrowth isMixin method)) →
    Loose (· = .method method) M (controlsOutline (bs.map element))
      (traceOf (guiGrowth isMixin method) (x :: outer) bs)
  | [], _, _, _ => .nil
  | b :: bs, x, outer, h => by
    have hb := loose_gui b fun y hy => h y (mem_append_left _ hy)
    rw [if_neg (by simp)] at hb
    exact hb.append (loose_controls bs fun y hy => h y (mem_append_right _ hy))

end

end Branch

end SceneView
