import SceneView.Proofs.Ledger
import SceneView.Proofs.Shape

/-!
# The objects of a view

An object of a view is built for an element of the document. The *role* of the element tells the
type of the object, how it is constructed and placed, and how the attributes of the element are
translated. A *part* is an object with the method that builds it and with the notes on its
attributes: each attribute gives the object a value, refers to a shared object, or links a control
to a mesh. All that is written for a part is read off the part (`Part.statements`).
-/

open List

namespace SceneView

open Compile

lemma Element.givenName?_eq (e : Element) :
    e.givenName? = if e.ownName = "" then none else some e.ownName := by
  unfold givenName? ownName ObjectName.given?
  cases e.attr? "name" with
  | none => rfl
  | some raw => by_cases h : Text.trim raw = "" <;> simp [Option.filter, h]

def viewBinder (isMixin : Bool) : Value.Binder :=
  { host := Builtin.host isMixin, engine := Builtin.engine }

/-- What an element stands for in a view. -/
inductive Role where
  | transform
  | shape (shape : Shape)
  | model
  | custom
  | material (kind : MaterialKind)
  | texture (kind : TextureKind)
  | fullScreen
  | onMesh
  | control
deriving DecidableEq, Repr

namespace Role

/-- The library that the type of the object comes from. The types of custom nodes are the author's
own. -/
def origin? : Role → Option Origin
  | transform | material _ | texture _ => some .core
  | shape _ | model => some .runtime
  | fullScreen | onMesh | control => some .gui
  | custom => none

def typeOf (e : Element) : Role → String
  | transform => NodeKind.transform.tag
  | shape s => s.typeName
  | model => NodeKind.model.tag
  | custom => e.ownType
  | material kind => kind.typeName
  | texture kind => kind.typeName
  | fullScreen | onMesh => guiType
  | control => e.tag

def isMesh : Role → Bool
  | shape _ | custom => true
  | _ => false

/-- The attributes that are about the object as a whole and give it no value. -/
def ownAttributes : Role → List String
  | custom => customAttributes
  | onMesh => ["name", "mesh", "width", "height"]
  | _ => ["name"]

/-- Whether the constructor takes the value of an attribute, so that only its changes are
followed. -/
def passes (name : String) : Role → Bool
  | shape s => s.options.contains name
  | model => name == "url"
  | custom => true
  | texture kind => name == kind.sourceAttribute
  | transform | material _ | fullScreen | onMesh | control => false

end Role

namespace SharedKind

/-- The section that declares the shared objects of a kind. -/
def home : SharedKind → SectionKind
  | material => .materials
  | texture => .textures

def role? (tag : String) : SharedKind → Option Role
  | material => (MaterialKind.ofTag? tag).map .material
  | texture => (TextureKind.ofTag? tag).map .texture

/-- The elements that fill the slots of an object. -/
def slotElements (e : Element) : SharedKind → List Element
  | material => e.children
  | texture => []

end SharedKind

/-- What is written for an attribute. A reference to a shared object is resolved once it is known
where the object is built. -/
inductive Note where
  | statement (st : Statement)
  | use (use : Use)
  | link (mesh : Mesh)

namespace Note

def effects (site : Site) (own : Target) : Note → List Effect
  | statement st => [.emit site st]
  | use u => [.use u own.path]
  | link base => [.find base, .emit site (.linkWithMesh own base.target)]

def written (es : List Event) (own : Target) : Note → Statement
  | statement st => st
  | use u => u.statement own.path (referenceTo es u.kind u.name)
  | link base => .linkWithMesh own base.target

end Note

lemma written_emit (site : Site) (sts : List Statement) (es : List Event) (m : String) :
    (sts.map (.emit site)).flatMap (Effect.written es m) =
      if site.methodIn es = m then sts else [] := by
  rw [flatMap_map]
  by_cases hm : site.methodIn es = m <;> simp [Effect.written, hm]

lemma Note.written_effects {site : Site} {own : Target} {ns : List Note}
    (h : ∀ u, .use u ∈ ns → u.site = site) (es : List Event) (m : String) :
    (ns.flatMap (Note.effects site own)).flatMap (Effect.written es m) =
      if site.methodIn es = m then ns.map (Note.written es own) else [] := by
  have single : ∀ n ∈ ns, (n.effects site own).flatMap (Effect.written es m) =
      if site.methodIn es = m then [n.written es own] else [] := by
    intro n hn
    cases n with
    | statement st => exact written_emit site [st] es m
    | use u => simp [effects, Effect.written, written, h u hn]
    | link base => exact written_emit site [_] es m
  rw [flatMap_assoc, flatMap_congr single]
  split
  · exact (map_eq_flatMap ..).symm
  · exact flatMap_eq_nil_iff.2 fun _ _ => rfl

def importing (names : List (Origin × String)) : List Effect :=
  names.map fun n => .imports n.1 n.2

lemma importing_nil : importing [] = [] :=
  rfl

lemma importing_append (names names' : List (Origin × String)) :
    importing (names ++ names') = importing names ++ importing names' :=
  map_append

/-- The type that a translated value constructs. -/
def needed (constructs? : Option Value.Primitive) : List (Origin × String) :=
  constructs?.toList.map fun p => (.core, p.typeName)

lemma flatMap_importing {α : Type} {f : Effect → List α} (names : List (Origin × String))
    (h : ∀ origin name, f (.imports origin name) = []) : (importing names).flatMap f = [] := by
  refine flatMap_eq_nil_iff.2 fun e he => ?_
  obtain ⟨n, _, rfl⟩ := mem_map.1 he
  exact h n.1 n.2

lemma loose_importing {P M} (names : List (Origin × String)) :
    Loose P M [] (importing names) := by
  induction names with
  | nil => exact .nil
  | cons n names ih =>
    exact (Loose.single (e := .imports n.1 n.2) trivial (by simp) rfl).append ih

/-- The object that is built for an element. -/
structure Part where
  role : Role
  element : Element
  object : ObjectName
  method : String
  /-- The mesh that a user interface is drawn on. -/
  base? : Option Mesh := none
  notes : List Note := []

namespace Part

def type (x : Part) : String :=
  x.role.typeOf x.element

def target (x : Part) : Target :=
  { path := x.object.storage, deferred := isDeferred x.method }

def mesh (x : Part) : Mesh :=
  { name := x.object.name, member := x.object.storage, method := x.method }

/-- How an attribute is translated. The opacity of a user interface on a mesh is that of the
material of the mesh. -/
def options (x : Part) (name : String) : Value.Options :=
  match x.role with
  | .transform | .shape _ => nodeOptions name x.method
  | .model =>
    { nodeOptions name x.method with
      isEvent := modelEvents.contains name, quoteIfNeeded := name == "url" }
  | .custom | .fullScreen => { skipPrimitives := true, deferred := isDeferred x.method }
  | .material _ => { deferred := isDeferred x.method }
  | .texture kind =>
    if name == kind.sourceAttribute then
      { updateMethod? := some "updateURL", quoteIfNeeded := true, deferred := isDeferred x.method }
    else { deferred := isDeferred x.method }
  | .onMesh =>
    { skipPrimitives := true
      path? := if name == "alpha" then x.base?.map (·.target.part "material") else none
      deferred := isDeferred x.method }
  | .control => controlOptions name x.method

def attributes (x : Part) : List Attribute :=
  x.element.attributesExcept x.role.ownAttributes

def translate (isMixin : Bool) (x : Part) (a : Attribute) : Except Fault Value.Translated :=
  (viewBinder isMixin).translate a.name a.value x.object.storage (x.options a.name)

/-- The reference of an attribute with a literal value. -/
def refers? (site : Site) (x : Part) (a : Attribute) : Option Event :=
  match x.role with
  | .shape _ => materialUse? site x.element a
  | .material kind => slotUse? site x.element kind a
  | _ => none

def isLink (x : Part) (a : Attribute) : Bool :=
  x.role == .control && (a.name == linkAttribute && isLiteral a.value)

/-- The notes on an attribute. -/
inductive Attends (isMixin : Bool) (site : Site) (x : Part) (a : Attribute) : List Note → Prop where
  | value {t} :
    x.refers? site a = none →
    x.isLink a = false →
    x.translate isMixin a = .ok t →
    Attends isMixin site x a ((if x.role.passes a.name then [] else [.statement t.apply]) ++
      t.bind?.toList.map .statement)
  | use {u} :
    x.refers? site a = some (.use u) →
    Attends isMixin site x a [.use u]
  | link {base} :
    x.isLink a = true →
    base.name = Text.trim a.value →
    Attends isMixin site x a [.link base]

/-- An argument of the constructor. -/
def argument (isMixin : Bool) (x : Part) (name : String) (quoteLiteral : Bool) : String :=
  match x.element.attr? name with
  | some raw => ((viewBinder isMixin).argument raw quoteLiteral).toOption.getD ""
  | none => "undefined"

/-- The values that the constructor takes. -/
def passed (isMixin : Bool) (x : Part) : List (String × String) :=
  (x.attributes.filter (x.role.passes ·.name)).filterMap fun a =>
    (x.translate isMixin a).toOption.map fun t => (a.name, t.value)

def construction (isMixin : Bool) (place? : Option String) (x : Part) : Construction :=
  match x.role with
  | .transform | .material _ => .named x.type x.object.name Builtin.scene
  | .shape _ => .shape x.type Builtin.scene x.object.name (x.passed isMixin)
  | .model => .model x.type Builtin.scene x.object.name (x.argument isMixin "url" true)
  | .custom =>
    .factory (x.argument isMixin "factory" false) (x.passed isMixin) (place?.getD Builtin.root)
  | .texture kind =>
    .texture x.type (x.argument isMixin kind.sourceAttribute true) Builtin.scene
  | .fullScreen => .fullScreen x.type x.object.name Builtin.scene
  | .onMesh =>
    .onMesh x.type ((x.base?.map Mesh.target).getD x.target) (x.argument isMixin "width" false)
      (x.argument isMixin "height" false)
  | .control => .control x.type x.object.name

/-- The statements that give the object its place: below a node, on a node or in a control. -/
def placing (place? : Option String) (x : Part) : List Statement :=
  match x.role with
  | .transform | .shape _ | .model => place?.toList.map (.attach x.object.storage)
  | .material _ => place?.toList.map (.nodeMaterial · (.member x.object.storage))
  | .texture _ => [.textureName x.object.storage x.object.name]
  | .control =>
    place?.toList.map fun place =>
      .addControl { path := place, deferred := isDeferred x.method } x.target
  | .custom | .fullScreen | .onMesh => []

/-- All that is written for the object in the given place. -/
def statements (es : List Event) (isMixin : Bool) (place? : Option String) (x : Part) :
    List Statement :=
  .construct x.object.storage (x.construction isMixin place?) ::
    (x.placing place? ++ x.notes.map (Note.written es x.target))

/-- The part is that of an element, with notes on each of its attributes. -/
structure IsFor (isMixin : Bool) (site : Site) (role : Role) (e : Element) (x : Part) : Prop where
  role : x.role = role
  element : x.element = e
  given : x.object.given = e.givenName?
  base : x.role ≠ .onMesh → x.base? = none
  notes : ∃ nss, List.Forall₂ (x.Attends isMixin site) x.attributes nss ∧ x.notes = nss.flatten

/-- A texture of its own fills the slot of a material that an element stands for. -/
structure Fills (isMixin : Bool) (site : Site) (x : Part) (e : Element) (slot : String) (y : Part) :
    Prop where
  tag : slot = slotOfTag e.tag
  hasSlot : ∃ kind, x.role = .material kind ∧ kind.hasSlot slot = true
  single : x.element.hasAttr slot = false
  texture : ∃ texture kind, e.children = [texture] ∧ TextureKind.ofTag? texture.tag = some kind ∧
    y.IsFor isMixin site (.texture kind) texture
  method : y.method = x.method

/-- All that is written for a material whose slots are filled by textures of their own. -/
def statementsWith (es : List Event) (isMixin : Bool) (place? : Option String)
    (slots : List (String × Part)) (x : Part) : List Statement :=
  x.statements es isMixin place? ++ slots.flatMap fun (slot, y) =>
    y.statements es isMixin none ++ [.slotTexture x.object.storage slot (.member y.object.storage)]

/-- The type that an attribute constructs when it is translated. -/
def constructs (isMixin : Bool) (x : Part) (a : Attribute) : List (Origin × String) :=
  needed ((x.translate isMixin a).toOption.bind (·.constructs?))

/-- The type that the value of an attribute constructs. -/
def needs (isMixin : Bool) (site : Site) (x : Part) (a : Attribute) : List (Origin × String) :=
  if (x.refers? site a).isNone && !x.isLink a then x.constructs isMixin a else []

/-- The type of a user interface is imported once for all of them. -/
def ownImports (x : Part) : List (Origin × String) :=
  match x.role with
  | .fullScreen | .onMesh => []
  | role => role.origin?.toList.map (·, x.type)

/-- What is imported for the object. -/
def imports (isMixin : Bool) (site : Site) (x : Part) : List (Origin × String) :=
  x.ownImports ++ x.attributes.flatMap (x.needs isMixin site)

/-- What follows the construction of the object. -/
def rest (isMixin : Bool) (site : Site) (place? : Option String) (x : Part) : List Effect :=
  importing (x.imports isMixin site) ++ ((x.placing place?).map (.emit site) ++
    ((if x.role.isMesh && x.object.isGiven then [.mesh x.mesh] else []) ++
      x.notes.flatMap (Note.effects site x.target)))

def effects (isMixin : Bool) (site : Site) (place? : Option String) (x : Part) : List Effect :=
  .emit site (.construct x.object.storage (x.construction isMixin place?)) ::
    x.rest isMixin site place?

def trace (isMixin : Bool) (site : Site) (place? : Option String) (x : Part) : List Effect :=
  x.base?.toList.map .find ++
    .object x.type x.object (isDeferred x.method) false :: x.effects isMixin site place?

def slotTrace (isMixin : Bool) (site : Site) (x : Part) : String × Part → List Effect
  | (slot, y) => y.trace isMixin site none ++
    [.emit site (.slotTexture x.object.storage slot (.member y.object.storage))]

/-- The shared objects that the attributes refer to. -/
def uses (site : Site) (x : Part) : List Event :=
  x.attributes.flatMap fun a => (x.refers? site a).toList

variable {isMixin : Bool} {site : Site} {x : Part} {role : Role} {e : Element} {a : Attribute}
  {place? : Option String} {P : Site → Prop} {M : List String}

lemma refers?_eq {ev} (h : x.refers? site a = some ev) :
    ∃ u, ev = .use u ∧ u.site = site ∧ u.owner? = x.element.givenName? := by
  unfold refers? materialUse? slotUse? at h
  split at h
  iterate 2
    · split at h
      · cases h
        exact ⟨_, rfl, rfl, rfl⟩
      · cases h
  · cases h

namespace Attends

variable {ns : List Note}

lemma with_notes (h : x.Attends isMixin site a ns) (notes : List Note) :
    Attends isMixin site { x with notes } a ns := by
  cases h with
  | value hrefers hlink ht => exact .value (x := { x with notes }) hrefers hlink ht
  | use hu => exact .use (x := { x with notes }) hu
  | link hlink hbase => exact .link (x := { x with notes }) hlink hbase

lemma site_eq (h : x.Attends isMixin site a ns) {u} (hu : .use u ∈ ns) : u.site = site := by
  cases h with
  | value =>
    simp only [mem_append, mem_map, reduceCtorEq, and_false, exists_false, or_false] at hu
    split at hu
    · cases hu
    · cases mem_singleton.1 hu
  | use h =>
    cases mem_singleton.1 hu
    obtain ⟨_, heq, hsite, _⟩ := refers?_eq h
    cases heq
    exact hsite
  | link => cases mem_singleton.1 hu

lemma loose (h : x.Attends isMixin site a ns) (hP : P site)
    (hgiven : x.object.given = x.element.givenName?) :
    Loose P M (x.refers? site a).toList (ns.flatMap (Note.effects site x.target)) := by
  have plain : ∀ {st : Statement}, st.isOrdinary = true → st.bindsGroup = false →
      (∀ m, st.touches m = false) → Loose P M [] [.emit site st] := by
    intro st ho hb ht
    refine .emit hP ho hb fun m hm => ?_
    rw [ht m] at hm
    cases hm
  cases h with
  | @value t hrefers =>
    have happly : Loose P M []
        ((if x.role.passes a.name then [] else [Note.statement t.apply]).flatMap
          (Note.effects site x.target)) := by
      split
      · exact .nil
      · exact plain rfl rfl fun _ => rfl
    have hbind : Loose P M []
        ((t.bind?.toList.map Note.statement).flatMap (Note.effects site x.target)) := by
      unfold Value.Translated.bind?
      cases t.binding? with
      | none => exact .nil
      | some => exact plain rfl rfl fun _ => rfl
    rw [hrefers, flatMap_append]
    exact happly.append hbind
  | @use u hu =>
    obtain ⟨_, heq, rfl, howner⟩ := refers?_eq hu
    cases heq
    rw [hu]
    refine Loose.single (e := .use u x.object.storage) ⟨hP, fun n hn => ?_⟩ (by simp) rfl
    have hname := ObjectName.eq_of_given (hgiven.trans (howner.symm.trans hn))
    rw [hname]
    rfl
  | @link base hlink =>
    have hrefers : x.refers? site a = none := by
      have hrole : x.role = .control := by
        simp only [isLink, Bool.and_eq_true, beq_iff_eq] at hlink
        exact hlink.1
      rw [refers?, hrole]
    have hfind : Loose P M [] [.find base] := Loose.single (e := .find base) trivial (by simp) rfl
    rw [hrefers]
    exact hfind.append (plain rfl rfl fun _ => rfl)

end Attends

lemma loose_emit {st : Statement} (hP : P site) (ho : st.isOrdinary = true)
    (hb : st.bindsGroup = false) (ht : ∀ m ∉ M, st.touches m = false) :
    Loose P M [] [.emit site st] := by
  refine .emit hP ho hb fun m hm => ?_
  by_contra hne
  rw [ht m hne] at hm
  cases hm

lemma placing_loose (x : Part) (hP : P site) (hplace : place? = none ∨ x.object.storage ∈ M) :
    Loose P M [] ((x.placing place?).map (.emit site)) := by
  have material : ∀ node m, m ∉ M → place? = some node →
      (Statement.nodeMaterial node (.member x.object.storage)).touches m = false := by
    intro node m hm hnode
    obtain hnone | hown := hplace
    · rw [hnone] at hnode
      cases hnode
    · simp only [Statement.touches, Statement.builds, Statement.reference?, Bool.false_or,
        beq_eq_false_iff_ne, ne_eq, Option.some.injEq, SharedReference.member.injEq]
      rintro rfl
      exact hm hown
  unfold placing
  cases place? with
  | none =>
    cases x.role with
    | texture => exact loose_emit hP rfl rfl fun _ _ => rfl
    | _ => exact .nil
  | some place =>
    cases x.role with
    | transform | shape | model | texture | control => exact loose_emit hP rfl rfl fun _ _ => rfl
    | material => exact loose_emit hP rfl rfl fun m hm => material place m hm rfl
    | custom | fullScreen | onMesh => exact .nil

lemma notes_loose {as nss} (h : List.Forall₂ (x.Attends isMixin site) as nss) (hP : P site)
    (hgiven : x.object.given = x.element.givenName?) :
    Loose P M (as.flatMap fun a => (x.refers? site a).toList)
      (nss.flatten.flatMap (Note.effects site x.target)) := by
  induction h with
  | nil => exact .nil
  | cons h _ ih =>
    rw [flatMap_cons, flatten_cons, flatMap_append]
    exact (h.loose hP hgiven).append ih

lemma site_of_notes {as nss} (h : List.Forall₂ (x.Attends isMixin site) as nss) {u}
    (hu : .use u ∈ nss.flatten) : u.site = site := by
  induction h with
  | nil => cases hu
  | cons h _ ih =>
    obtain hu | hu := mem_append.1 hu
    · exact h.site_eq hu
    · exact ih hu

lemma isFor_of_notes {nss} (hnss : List.Forall₂ (x.Attends isMixin site) x.attributes nss)
    (hgiven : x.object.given = x.element.givenName?) (hbase : x.role ≠ .onMesh → x.base? = none) :
    IsFor isMixin site x.role x.element { x with notes := nss.flatten } :=
  ⟨rfl, rfl, hgiven, hbase, nss, hnss.imp fun _ _ h => h.with_notes _, rfl⟩

namespace IsFor

variable (hx : x.IsFor isMixin site role e)
include hx

lemma site_eq {u} (hu : .use u ∈ x.notes) : u.site = site := by
  obtain ⟨nss, hnss, hnotes⟩ := hx.notes
  exact site_of_notes hnss (hnotes ▸ hu)

lemma rest_loose (place? : Option String) (hP : P site) (hplace : place? = none ∨ x.object.storage ∈ M) :
    Loose P M (x.uses site) (x.rest isMixin site place?) := by
  obtain ⟨nss, hnss, hnotes⟩ := hx.notes
  have hgiven : x.object.given = x.element.givenName? := by rw [hx.given, hx.element]
  have hmesh : Loose P M []
      (if x.role.isMesh && x.object.isGiven then [Effect.mesh x.mesh] else []) := by
    split
    · exact Loose.single (e := .mesh x.mesh) trivial (by simp) rfl
    · exact .nil
  rw [rest, hnotes]
  exact (loose_importing _).append
    ((x.placing_loose hP hplace).append (hmesh.append (notes_loose hnss hP hgiven)))

lemma trace_loose_with {evs closing} (place? : Option String) (hP : P site)
    (hclosing : Loose P (x.object.storage :: M) evs closing) :
    Loose P M (.object x.type e.givenName? :: (x.uses site ++ evs))
      (x.trace isMixin site place? ++ closing) := by
  have hfind : Loose P M [] (x.base?.toList.map .find) := by
    cases x.base? with
    | none => exact .nil
    | some base => exact Loose.single (e := .find base) trivial (by simp) rfl
  have hrest : Loose P (x.object.storage :: M) (x.uses site) (x.rest isMixin site place?) :=
    hx.rest_loose place? hP (.inr mem_cons_self)
  have heffects : Loose P (x.object.storage :: M) (x.uses site ++ evs)
      (x.effects isMixin site place? ++ closing) :=
    (Loose.construct hP (hrest.append hclosing)).mono (fun _ => id) (by simp)
  rw [← hx.given, trace, append_assoc, cons_append]
  exact hfind.append heffects.object

lemma trace_loose (place? : Option String) (hP : P site) :
    Loose P M (.object x.type e.givenName? :: x.uses site) (x.trace isMixin site place?) := by
  have h := hx.trace_loose_with (M := M) place? hP .nil
  rwa [append_nil, append_nil] at h

lemma trace_eq (hrole : role ≠ .onMesh) :
    x.trace isMixin site place? =
      .object x.type x.object (isDeferred x.method) false :: x.effects isMixin site place? := by
  rw [trace, hx.base (hx.role ▸ hrole)]
  rfl

lemma uses_eq_nil (hshape : ∀ s, role ≠ .shape s) (hmaterial : ∀ kind, role ≠ .material kind) :
    x.uses site = [] := by
  refine flatMap_eq_nil_iff.2 fun a _ => ?_
  rw [refers?, hx.role]
  cases role with
  | shape s => exact absurd rfl (hshape s)
  | material kind => exact absurd rfl (hmaterial kind)
  | _ => rfl

lemma rest_written (place? : Option String) (es : List Event) (m : String) :
    (x.rest isMixin site place?).flatMap (Effect.written es m) =
      if site.methodIn es = m then x.placing place? ++ x.notes.map (Note.written es x.target)
      else [] := by
  have hmesh : (if x.role.isMesh && x.object.isGiven then [Effect.mesh x.mesh] else []).flatMap
      (Effect.written es m) = [] := by
    split <;> rfl
  rw [rest, flatMap_append, flatMap_importing _ fun _ _ => rfl, flatMap_append, flatMap_append,
    written_emit, hmesh, Note.written_effects fun u hu => hx.site_eq hu]
  split <;> rfl

lemma effects_written (place? : Option String) (es : List Event) (m : String) :
    (x.effects isMixin site place?).flatMap (Effect.written es m) =
      if site.methodIn es = m then x.statements es isMixin place? else [] := by
  rw [effects, flatMap_cons, hx.rest_written, Effect.written]
  split <;> rfl

lemma trace_written (place? : Option String) (es : List Event) (m : String) :
    (x.trace isMixin site place?).flatMap (Effect.written es m) =
      if site.methodIn es = m then x.statements es isMixin place? else [] := by
  have hfind : (x.base?.toList.map Effect.find).flatMap (Effect.written es m) = [] := by
    cases x.base? <;> rfl
  rw [trace, flatMap_append, flatMap_cons, hx.effects_written, hfind]
  rfl

end IsFor

lemma Fills.loose {slot y} (h : x.Fills isMixin site e slot y) (hP : P site) :
    Loose P M (e.children.map fun texture => .object texture.tag texture.givenName?)
      (x.slotTrace isMixin site (slot, y)) := by
  obtain ⟨texture, kind, hchildren, hkind, hy⟩ := h.texture
  have hgive : Loose P (y.object.storage :: M) []
      [.emit site (.slotTexture x.object.storage slot (.member y.object.storage))] := by
    refine loose_emit hP rfl rfl fun m hm => ?_
    simp only [Statement.touches, Statement.builds, Statement.reference?, Bool.false_or,
      beq_eq_false_iff_ne, ne_eq, Option.some.injEq, SharedReference.member.injEq]
    rintro rfl
    exact hm mem_cons_self
  have hloose := hy.trace_loose_with none hP hgive
  have htype : y.type = texture.tag := by
    rw [type, hy.role, Role.typeOf, TextureKind.typeName_eq hkind]
  rw [hy.uses_eq_nil (by simp) (by simp), htype] at hloose
  rw [hchildren]
  exact hloose

lemma Fills.written {slot y} (h : x.Fills isMixin site e slot y) (es : List Event) (m : String) :
    (x.slotTrace isMixin site (slot, y)).flatMap (Effect.written es m) =
      if site.methodIn es = m then y.statements es isMixin none ++
        [.slotTexture x.object.storage slot (.member y.object.storage)]
      else [] := by
  obtain ⟨texture, kind, _, _, hy⟩ := h.texture
  rw [slotTrace, flatMap_append, hy.trace_written, flatMap_singleton, Effect.written]
  split <;> rfl

/-- The slots of a material are filled by the elements in it. -/
def FillsAll (isMixin : Bool) (site : Site) (x : Part) (es : List Element)
    (slots : List (String × Part)) : Prop :=
  List.Forall₂ (fun e slot => x.Fills isMixin site e slot.1 slot.2) es slots

namespace FillsAll

variable {es : List Element} {slots : List (String × Part)}

lemma exists_fills (h : x.FillsAll isMixin site es slots) {slot y} (hy : (slot, y) ∈ slots) :
    ∃ e, x.Fills isMixin site e slot y := by
  induction h with
  | nil => cases hy
  | cons h _ ih =>
    obtain rfl | hy := mem_cons.1 hy
    · exact ⟨_, h⟩
    · exact ih hy

lemma with_notes (h : x.FillsAll isMixin site es slots) (notes : List Note) :
    FillsAll isMixin site { x with notes } es slots :=
  h.imp fun _ _ h => ⟨h.tag, h.hasSlot, h.single, h.texture, h.method⟩

lemma loose (h : x.FillsAll isMixin site es slots) (hP : P site) :
    Loose P M (es.flatMap fun slot =>
        slot.children.map fun texture => .object texture.tag texture.givenName?)
      (slots.flatMap (x.slotTrace isMixin site)) := by
  induction h with
  | nil => exact .nil
  | cons h _ ih => exact (h.loose hP).append ih

lemma written (h : x.FillsAll isMixin site es slots) (evs : List Event) (m : String) :
    (slots.flatMap (x.slotTrace isMixin site)).flatMap (Effect.written evs m) =
      if site.methodIn evs = m then slots.flatMap fun (slot, y) => y.statements evs isMixin none ++
        [.slotTexture x.object.storage slot (.member y.object.storage)]
      else [] := by
  induction h with
  | nil => exact (ite_self []).symm
  | cons h _ ih =>
    rw [flatMap_cons, flatMap_append, h.written, ih]
    split <;> rfl

end FillsAll

lemma placing_within (x : Part) {st} (hst : st ∈ x.placing place?) : st.Within [] := by
  unfold placing at hst
  cases place? with
  | none =>
    cases hrole : x.role with
    | texture =>
      rw [hrole] at hst
      rw [mem_singleton.1 hst]
      exact .plain rfl fun _ => rfl
    | _ =>
      rw [hrole] at hst
      cases hst
  | some place =>
    cases hrole : x.role with
    | custom | fullScreen | onMesh =>
      rw [hrole] at hst
      cases hst
    | _ =>
      rw [hrole] at hst
      rw [mem_singleton.1 hst]
      exact .plain rfl fun _ => rfl

lemma Attends.within {ns n} (h : x.Attends isMixin site a ns) (hn : n ∈ ns) (es : List Event)
    (own : Target) : (n.written es own).Within [] := by
  cases h with
  | @value t =>
    have hst : ∃ st, n = .statement st ∧ (st = t.apply ∨ t.bind? = some st) := by
      obtain hn | hn := mem_append.1 hn
      · split at hn
        · cases hn
        · exact ⟨_, mem_singleton.1 hn, .inl rfl⟩
      · obtain ⟨st, hst, rfl⟩ := mem_map.1 hn
        exact ⟨st, rfl, .inr (Option.mem_toList.1 hst)⟩
    obtain ⟨st, rfl, rfl | hbind⟩ := hst
    · exact .plain rfl fun _ => rfl
    · unfold Value.Translated.bind? at hbind
      obtain ⟨_, _, rfl⟩ := Option.map_eq_some_iff.1 hbind
      exact .plain rfl fun _ => rfl
  | @use u =>
    rw [mem_singleton.1 hn, Note.written, Use.statement]
    split <;> exact .plain rfl fun _ => rfl
  | link =>
    rw [mem_singleton.1 hn]
    exact .plain rfl fun _ => rfl

lemma notes_within {as nss n} (h : List.Forall₂ (x.Attends isMixin site) as nss)
    (hn : n ∈ nss.flatten) (es : List Event) (own : Target) : (n.written es own).Within [] := by
  induction h with
  | nil => cases hn
  | cons h _ ih =>
    obtain hn | hn := mem_append.1 hn
    · exact h.within hn es own
    · exact ih hn

lemma IsFor.within_rest (hx : x.IsFor isMixin site role e) {es st}
    (hst : st ∈ x.placing place? ++ x.notes.map (Note.written es x.target)) : st.Within [] := by
  obtain hst | hst := mem_append.1 hst
  · exact x.placing_within hst
  · obtain ⟨n, hn, rfl⟩ := mem_map.1 hst
    obtain ⟨nss, hnss, hnotes⟩ := hx.notes
    exact notes_within hnss (hnotes ▸ hn) es _

lemma IsFor.within (hx : x.IsFor isMixin site role e) {es st}
    (hst : st ∈ x.statements es isMixin place?) : st.Within [x.object.storage] := by
  obtain rfl | hst := mem_cons.1 hst
  · exact .construct
  · exact (hx.within_rest hst).mono (nil_subset _)

lemma IsFor.within_slots (hx : x.IsFor isMixin site role e) {slots els es st}
    (hslots : x.FillsAll isMixin site els slots)
    (hst : st ∈ x.statementsWith es isMixin place? slots) :
    st.Within ((x :: slots.map (·.2)).map (·.object.storage)) := by
  obtain hst | hst := mem_append.1 hst
  · exact (hx.within hst).mono (by simp)
  · obtain ⟨⟨slot, y⟩, hslot, hst⟩ := mem_flatMap.1 hst
    obtain hst | hst := mem_append.1 hst
    · obtain ⟨c, hfills⟩ := hslots.exists_fills hslot
      obtain ⟨texture, kind, _, _, hy⟩ := hfills.texture
      refine (hy.within hst).mono ?_
      simp only [map_cons, map_map, cons_subset, nil_subset, and_true]
      exact mem_cons_of_mem _ (mem_map.2 ⟨_, hslot, rfl⟩)
    · rw [mem_singleton.1 hst]
      exact .plain rfl fun _ => rfl

/-- The part is a shared object, which is `ensured` by a method of its own or not. -/
structure IsShared (isMixin : Bool) (kind : SharedKind) (e : Element) (ensured : Bool)
    (slots : List (String × Part)) (x : Part) : Prop where
  isFor : ∃ role, kind.role? e.tag = some role ∧
    x.IsFor isMixin (.shared kind e.ownName) role e
  slots : x.FillsAll isMixin (.shared kind e.ownName) (kind.slotElements e) slots
  method : x.method = if ensured then ensureMethod e.ownName else Builtin.init

def sharedTrace (isMixin : Bool) (kind : SharedKind) (name : String) (ensured : Bool)
    (slots : List (String × Part)) (x : Part) : List Effect :=
  blockEffects kind name x.type x.object ensured ensured (x.construction isMixin none)
    (x.rest isMixin (.shared kind name) none ++ slots.flatMap (x.slotTrace isMixin (.shared kind name)))

/-- All that is written for a shared object, between the guard and the answer of its method if it
has one. -/
def sharedStatements (es : List Event) (isMixin ensured : Bool) (slots : List (String × Part))
    (x : Part) : List Statement :=
  (if ensured then [.guard x.object.storage] else []) ++
    (x.statementsWith es isMixin none slots ++
      if ensured then [.give x.object.storage] else [])

lemma uses_shape {s} (hx : x.IsFor isMixin site (.shape s) e) :
    x.uses site = (e.attributesExcept ["name"]).flatMap fun a => (materialUse? site e a).toList := by
  simp only [uses, attributes, refers?, hx.role, hx.element, Role.ownAttributes]

lemma uses_material {kind} (hx : x.IsFor isMixin site (.material kind) e) :
    x.uses site = (e.attributesExcept ["name"]).flatMap fun a => (slotUse? site e kind a).toList := by
  simp only [uses, attributes, refers?, hx.role, hx.element, Role.ownAttributes]

namespace IsShared

variable {kind : SharedKind} {ensured : Bool} {slots : List (String × Part)}
  (h : x.IsShared isMixin kind e ensured slots)
include h

lemma block : Block kind e.ownName (sharedOutline kind e)
    (x.sharedTrace isMixin kind e.ownName ensured slots) := by
  obtain ⟨role, hrole, hx⟩ := h.isFor
  have hrest : Loose (· = .shared kind e.ownName) [] _ _ := hx.rest_loose none rfl (.inl rfl)
  have hparts := hrest.append (h.slots.loose rfl)
  have houtline : sharedOutline kind e = .declaration kind e.ownName :: .object x.type x.object.given ::
      (x.uses (.shared kind e.ownName) ++ (kind.slotElements e).flatMap fun slot =>
        slot.children.map fun texture => .object texture.tag texture.givenName?) := by
    unfold sharedOutline
    rw [hx.given, type, hx.role, hx.element]
    cases kind with
    | material =>
      obtain ⟨kind, hkind, rfl⟩ := Option.map_eq_some_iff.1 hrole
      rw [Role.typeOf, MaterialKind.typeName_eq hkind, uses_material hx]
      simp only [materialParts, hkind, SharedKind.slotElements]
    | texture =>
      obtain ⟨kind, hkind, rfl⟩ := Option.map_eq_some_iff.1 hrole
      rw [Role.typeOf, TextureKind.typeName_eq hkind, hx.uses_eq_nil (by simp) (by simp)]
      rfl
  rw [houtline]
  refine .intro (fun hname => ?_) hparts fun hname => ?_
  · exact ObjectName.eq_of_given (hx.given.trans (e.givenName?_eq.trans (if_neg hname)))
  · exact ObjectName.isGiven_of_given (hx.given.trans (e.givenName?_eq.trans (if_pos hname)))

lemma trace_written (es : List Event) (m : String) :
    (x.sharedTrace isMixin kind e.ownName ensured slots).flatMap (Effect.written es m) =
      if buildMethod es kind e.ownName = m then x.sharedStatements es isMixin ensured slots
      else [] := by
  obtain ⟨role, _, hx⟩ := h.isFor
  have hrest := hx.rest_written none es m
  have hslots := h.slots.written es m
  rw [Site.methodIn] at hrest hslots
  by_cases hm : buildMethod es kind e.ownName = m <;> cases ensured <;>
    simp [sharedTrace, blockEffects, flatMap_cons, hrest, hslots, Effect.written, Site.methodIn, hm,
      sharedStatements, statementsWith, statements]

end IsShared

end Part

namespace Element

/-- The first value of a property. -/
inductive Starts (isMixin : Bool) (e : Element) : List Statement → Prop where
  | unset :
    e.attr? "default" = none →
    Starts isMixin e []
  | value {raw v p?} :
    e.attr? "default" = some raw →
    (viewBinder isMixin).typed e.ownType raw = .ok (v, p?) →
    Starts isMixin e [.initial (storageName e.ownName) v]

/-- What is imported for a property: the comparison that its setter uses, and the type that its
first value constructs. -/
def propertyImports (isMixin : Bool) (e : Element) : List (Origin × String) :=
  (.utility, "isEqual") :: needed ((e.attr? "default").bind fun raw =>
    ((viewBinder isMixin).typed e.ownType raw).toOption.bind (·.2))

def propertyTrace (isMixin : Bool) (e : Element) (first : List Statement) : List Effect :=
  .field e.ownName e.ownType :: (first.map (.emit (.method Builtin.init)) ++
    importing (e.propertyImports isMixin) ++ [.accessor e.ownName e.ownType isMixin])

lemma propertyTrace_loose {isMixin} {e : Element} {first} (h : e.Starts isMixin first) :
    Loose Site.IsTree [] [.property e.ownName] (e.propertyTrace isMixin first) := by
  refine Loose.property ?_
  cases h with
  | unset => exact loose_importing _
  | value =>
    exact (Part.loose_emit (.method (.inl rfl)) rfl rfl fun _ _ => rfl).append (loose_importing _)

lemma propertyTrace_written (isMixin : Bool) (e : Element) (first : List Statement)
    (es : List Event) (m : String) :
    (e.propertyTrace isMixin first).flatMap (Effect.written es m) =
      if Builtin.init = m then first else [] := by
  rw [propertyTrace, flatMap_cons, flatMap_append, flatMap_append, written_emit,
    flatMap_importing _ fun _ _ => rfl, append_nil]
  exact append_nil _

end Element

end SceneView
