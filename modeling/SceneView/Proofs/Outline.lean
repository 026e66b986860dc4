import Mathlib.Data.List.Basic
import SceneView.Compile.View
import SceneView.Proofs.Naming

/-!
# Outlines

The outline of a document lists what its elements declare and which shared objects they refer to, in
the order in which the sections are compiled. It is read off the document alone, so that statements
about the generated class can be made in terms of the document.

A shared object that is referred to before it is declared is *used first* (`usedFirst`). Whether it
is decides where the object is built and how every reference reaches it.
-/

open List

namespace SceneView

open Compile

/-- Where an element has its statements written: in a method of the node tree, or wherever the
shared object that holds it is built. -/
inductive Site where
  | method (name : String)
  | shared (kind : SharedKind) (name : String)
deriving DecidableEq, Repr

/-- A reference to a shared object by a literal name. -/
structure Use where
  kind : SharedKind
  name : String
  site : Site
  /-- The slot that the object is put into, for a texture. -/
  slot? : Option String
  /-- The name that the author gave to the object that refers. -/
  owner? : Option String
deriving DecidableEq, Repr

def Use.isOf (u : Use) (kind : SharedKind) (name : String) : Bool :=
  u.kind == kind && u.name == name

/-- The statement of a reference that is reached in the given way. -/
def Use.statement (u : Use) (owner : String) (reference : SharedReference) : Statement :=
  match u.slot? with
  | some slot => .slotTexture owner slot reference
  | none => .nodeMaterial owner reference

/-- What an element brings into a view. -/
inductive Event where
  | use (use : Use)
  | declaration (kind : SharedKind) (name : String)
  | object (type : String) (given? : Option String)
  | property (name : String)
  | group (name : String)
deriving DecidableEq, Repr

namespace Element

/-- The name that the author gave to the object of an element, if it is not blank. -/
def givenName? (e : Element) : Option String :=
  (ObjectName.given? (e.attr? "name")).map (·.name)

def ownName (e : Element) : String :=
  Text.trim ((e.attr? "name").getD "")

def ownType (e : Element) : String :=
  Text.trim ((e.attr? "type").getD "")

end Element

def isLiteral (raw : String) : Bool :=
  (Value.body? (Text.trim raw)).isNone

/-- The reference of an attribute of a material: a literal in a slot names a texture. -/
def slotUse? (site : Site) (e : Element) (kind : MaterialKind) (a : Attribute) : Option Event :=
  if kind.hasSlot a.name && isLiteral a.value then
    some <| .use
      { kind := .texture
        name := Text.trim a.value
        site
        slot? := some a.name
        owner? := e.givenName? }
  else none

/-- What the attributes and the slot elements of a material bring. -/
def materialParts (site : Site) (e : Element) : List Event :=
  match MaterialKind.ofTag? e.tag with
  | none => []
  | some kind =>
    (e.attributesExcept ["name"]).flatMap (fun a => (slotUse? site e kind a).toList) ++
      e.children.flatMap fun slot =>
        slot.children.map fun texture => .object texture.tag texture.givenName?

def sharedOutline (kind : SharedKind) (e : Element) : List Event :=
  .declaration kind e.ownName :: .object e.tag e.givenName? ::
    match kind with
    | .material => materialParts (.shared .material e.ownName) e
    | .texture => []

/-- The reference of an attribute of a shape: a literal material names a shared one. -/
def materialUse? (site : Site) (e : Element) (a : Attribute) : Option Event :=
  if a.name == "material" && isLiteral a.value then
    some <| .use
      { kind := .material
        name := Text.trim a.value
        site
        slot? := none
        owner? := e.givenName? }
  else none

def shapeUses (method : String) (e : Element) : List Event :=
  (e.attributesExcept ["name"]).flatMap fun a => (materialUse? (.method method) e a).toList

mutual

/-- What a node and everything below it brings; `method` builds the node. -/
def nodeOutline (method : String) : Element → List Event
  | ⟨tag, attributes, children, text, line⟩ =>
    let e : Element := ⟨tag, attributes, children, text, line⟩
    match NodeKind.ofTag? tag with
    | some .transform | some .model => .object tag e.givenName? :: nodesOutline method children
    | some .custom => .object e.ownType e.givenName? :: nodesOutline method children
    | some (.shape _) =>
      .object tag e.givenName? :: shapeUses method e ++ nodesOutline method children
    | some .deferredGroup =>
      .group e.ownName :: nodesOutline (Compile.groupMethod e.ownName) children
    | some .material =>
      children.flatMap fun material =>
        .object material.tag material.givenName? :: materialParts (.method method) material
    | none => []

def nodesOutline (method : String) : List Element → List Event
  | [] => []
  | e :: es => nodeOutline method e ++ nodesOutline method es

end

mutual

def controlOutline : Element → List Event
  | ⟨tag, attributes, children, text, line⟩ =>
    .object tag (Element.givenName? ⟨tag, attributes, children, text, line⟩) ::
      controlsOutline children

def controlsOutline : List Element → List Event
  | [] => []
  | e :: es => controlOutline e ++ controlsOutline es

end

def guiOutline (e : Element) : List Event :=
  .object Compile.guiType e.givenName? :: controlsOutline e.children

def sectionOutline (e : Element) : List Event :=
  match SectionKind.ofTag? e.tag with
  | some .properties => e.children.map fun p => .property p.ownName
  | some .nodes => nodesOutline Builtin.init e.children
  | some .materials => e.children.flatMap (sharedOutline .material)
  | some .textures => e.children.flatMap (sharedOutline .texture)
  | some .guis => e.children.flatMap guiOutline
  | some .imports | none => []

def Document.outline (d : Document) : List Event :=
  d.sections.flatMap sectionOutline

/-- Whether the first event about a shared object is a reference to it. -/
def usedFirst (kind : SharedKind) (name : String) : List Event → Bool
  | [] => false
  | .use u :: es => u.isOf kind name || usedFirst kind name es
  | .declaration k n :: es => !(k == kind && n == name) && usedFirst kind name es
  | .object _ _ :: es | .property _ :: es | .group _ :: es => usedFirst kind name es

def buildMethod (outline : List Event) (kind : SharedKind) (name : String) : String :=
  if usedFirst kind name outline then ensureMethod name else Builtin.init

/-- How the references to a shared object reach it. -/
def referenceTo (outline : List Event) (kind : SharedKind) (name : String) : SharedReference :=
  if usedFirst kind name outline then .ensure (ensureMethod name) else .member (storageName name)

def Site.methodIn (outline : List Event) : Site → String
  | .method m => m
  | .shared kind name => buildMethod outline kind name

def usesOf (kind : SharedKind) (name : String) (outline : List Event) : List Use :=
  outline.filterMap fun
    | .use u => if u.isOf kind name then some u else none
    | _ => none

/-- Nothing that comes later changes whether the object is used first: it has been used or
declared. -/
def Settled (kind : SharedKind) (name : String) (outline : List Event) : Prop :=
  usedFirst kind name outline = true ∨ .declaration kind name ∈ outline

lemma buildMethod_of_usedFirst {kind name outline} (h : usedFirst kind name outline = true) :
    buildMethod outline kind name = ensureMethod name :=
  if_pos h

lemma buildMethod_of_not_usedFirst {kind name outline} (h : usedFirst kind name outline = false) :
    buildMethod outline kind name = Builtin.init :=
  if_neg (Bool.eq_false_iff.1 h)

lemma referenceTo_of_usedFirst {kind name outline} (h : usedFirst kind name outline = true) :
    referenceTo outline kind name = .ensure (ensureMethod name) :=
  if_pos h

lemma referenceTo_of_not_usedFirst {kind name outline} (h : usedFirst kind name outline = false) :
    referenceTo outline kind name = .member (storageName name) :=
  if_neg (Bool.eq_false_iff.1 h)

lemma Use.isOf_iff {u : Use} {kind name} :
    u.isOf kind name = true ↔ u.kind = kind ∧ u.name = name := by
  simp [Use.isOf]

lemma mem_usesOf {kind n outline u} :
    u ∈ usesOf kind n outline ↔ .use u ∈ outline ∧ u.kind = kind ∧ u.name = n := by
  simp only [usesOf, mem_filterMap]
  constructor
  · rintro ⟨e, he, hu⟩
    split at hu
    · split at hu
      · next h =>
        cases hu
        exact ⟨he, Use.isOf_iff.1 h⟩
      · cases hu
    · cases hu
  · rintro ⟨he, hu⟩
    exact ⟨_, he, by simp [Use.isOf_iff.2 hu]⟩

lemma usedFirst_append (kind : SharedKind) (name : String) (xs ys : List Event) :
    usedFirst kind name (xs ++ ys) =
      (usedFirst kind name xs ||
        !decide (.declaration kind name ∈ xs) && usedFirst kind name ys) := by
  induction xs with
  | nil => simp [usedFirst]
  | cons x xs ih =>
    cases x with
    | use u => simp [usedFirst, ih, Bool.or_assoc]
    | declaration k n =>
      by_cases h : k = kind ∧ n = name
      · obtain ⟨rfl, rfl⟩ := h
        simp [usedFirst]
      · have h' : ¬ (kind = k ∧ name = n) := fun ⟨e1, e2⟩ => h ⟨e1.symm, e2.symm⟩
        have hb : (k == kind && n == name) = false := by simpa using h
        simp [usedFirst, ih, hb, h']
    | object | property | group => simp [usedFirst, ih]

lemma usedFirst_concat (kind : SharedKind) (name : String) (xs : List Event) (e : Event) :
    usedFirst kind name (xs ++ [e]) =
      match e with
      | .use u =>
        usedFirst kind name xs || !decide (.declaration kind name ∈ xs) && u.isOf kind name
      | _ => usedFirst kind name xs := by
  rw [usedFirst_append]
  cases e <;> simp [usedFirst]

lemma Settled.usedFirst_append {kind name xs} (h : Settled kind name xs) (ys : List Event) :
    usedFirst kind name (xs ++ ys) = usedFirst kind name xs := by
  rw [SceneView.usedFirst_append]
  obtain h | h := h <;> simp [h]

lemma settled_of_use {u xs} (h : .use u ∈ xs) : Settled u.kind u.name xs := by
  obtain ⟨ys, zs, rfl⟩ := append_of_mem h
  by_cases hd : .declaration u.kind u.name ∈ ys
  · exact .inr (mem_append_left _ hd)
  · left
    rw [SceneView.usedFirst_append]
    simp [usedFirst, hd, Use.isOf]

/-- A reference made by a shared object is made by a material, and to a texture. -/
def Use.Regular (u : Use) : Prop :=
  ∀ kind n, u.site = .shared kind n → kind = .material ∧ u.kind = .texture

lemma Use.Regular.of_method {u : Use} {m} (h : u.site = .method m) : u.Regular := by
  intro kind n hs
  rw [h] at hs
  cases hs

lemma use_of_mem_materialParts {site e u} (h : .use u ∈ materialParts site e) :
    u.kind = .texture ∧ u.site = site := by
  unfold materialParts at h
  split at h
  · cases h
  · obtain h | h := mem_append.1 h
    · obtain ⟨a, _, ha⟩ := mem_flatMap.1 h
      unfold slotUse? at ha
      split at ha
      · cases mem_singleton.1 ha
        exact ⟨rfl, rfl⟩
      · cases ha
    · obtain ⟨slot, _, hslot⟩ := mem_flatMap.1 h
      obtain ⟨texture, _, htexture⟩ := mem_map.1 hslot
      cases htexture

lemma use_of_mem_shapeUses {method e u} (h : .use u ∈ shapeUses method e) :
    u.site = .method method := by
  obtain ⟨a, _, ha⟩ := mem_flatMap.1 h
  unfold materialUse? at ha
  split at ha
  · cases mem_singleton.1 ha
    rfl
  · cases ha

mutual

lemma regular_of_mem_nodeOutline {u : Use} (method : String) : (e : Element) →
    .use u ∈ nodeOutline method e → u.Regular
  | ⟨_, _, children, _, _⟩ => by
    intro h
    unfold nodeOutline at h
    dsimp only at h
    split at h
    iterate 3 exact regular_of_mem_nodesOutline method children (by simpa using h)
    · simp only [cons_append, mem_cons, reduceCtorEq, mem_append, false_or] at h
      obtain h | h := h
      · exact .of_method (use_of_mem_shapeUses h)
      · exact regular_of_mem_nodesOutline method children h
    · exact regular_of_mem_nodesOutline _ children (by simpa using h)
    · obtain ⟨material, _, h⟩ := mem_flatMap.1 h
      simp only [mem_cons, reduceCtorEq, false_or] at h
      exact .of_method (use_of_mem_materialParts h).2
    · cases h

lemma regular_of_mem_nodesOutline {u} (method : String) : (es : List Element) →
    .use u ∈ nodesOutline method es → u.Regular
  | [] => fun h => by cases h
  | e :: es => by
    intro h
    rw [nodesOutline, mem_append] at h
    obtain h | h := h
    · exact regular_of_mem_nodeOutline method e h
    · exact regular_of_mem_nodesOutline method es h

end

mutual

lemma use_not_mem_controlOutline {u : Use} : (e : Element) → .use u ∉ controlOutline e
  | ⟨_, _, children, _, _⟩ => by
    rw [controlOutline, mem_cons, not_or]
    exact ⟨by simp, use_not_mem_controlsOutline children⟩

lemma use_not_mem_controlsOutline {u : Use} : (es : List Element) → .use u ∉ controlsOutline es
  | [] => not_mem_nil
  | e :: es => by
    rw [controlsOutline, mem_append, not_or]
    exact ⟨use_not_mem_controlOutline e, use_not_mem_controlsOutline es⟩

end

lemma Document.regular (d : Document) {u} (h : .use u ∈ d.outline) : u.Regular := by
  obtain ⟨e, _, h⟩ := mem_flatMap.1 h
  unfold sectionOutline at h
  split at h
  · obtain ⟨p, _, hp⟩ := mem_map.1 h
    cases hp
  · exact regular_of_mem_nodesOutline _ _ h
  · obtain ⟨material, _, h⟩ := mem_flatMap.1 h
    simp only [sharedOutline, mem_cons, reduceCtorEq, false_or] at h
    obtain ⟨hkind, hsite⟩ := use_of_mem_materialParts h
    intro kind n hs
    rw [hsite] at hs
    cases hs
    exact ⟨rfl, hkind⟩
  · obtain ⟨texture, _, h⟩ := mem_flatMap.1 h
    simp [sharedOutline] at h
  · obtain ⟨gui, _, h⟩ := mem_flatMap.1 h
    simp only [guiOutline, mem_cons, reduceCtorEq, false_or] at h
    exact absurd h (use_not_mem_controlsOutline gui.children)
  · cases h
  · cases h

def Event.authorName? : Event → Option String
  | object _ given? => given?
  | property name => some name
  | use .. | declaration .. | group .. => none

def authorNames (es : List Event) : List String :=
  es.filterMap Event.authorName?

def unnamedTypes (es : List Event) : List String :=
  es.filterMap fun
    | .object type none => some type
    | _ => none

lemma unnamedTypes_append (xs ys : List Event) :
    unnamedTypes (xs ++ ys) = unnamedTypes xs ++ unnamedTypes ys :=
  filterMap_append

/-- The names that the elements of a document carry. None of them is made up for another object. -/
def Document.reserved (d : Document) : List String :=
  (d.sections.flatMap fun e => Compile.namesInAll e.children).map Text.trim

def Document.madeUpNames (d : Document) : List String :=
  NamePool.madeUp d.reserved (unnamedTypes d.outline)

namespace Compile

lemma namesInAll_eq (es : List Element) : namesInAll es = es.flatMap namesIn := by
  induction es with
  | nil => rfl
  | cons e es ih => rw [namesInAll, ih, flatMap_cons]

lemma namesIn_eq (e : Element) :
    namesIn e = (e.attr? "name").toList ++ e.children.flatMap namesIn := by
  obtain ⟨tag, attributes, children, text, line⟩ := e
  rw [namesIn, namesInAll_eq]

lemma namesIn_subset {e c} (hc : c ∈ e.children) : namesIn c ⊆ namesIn e := by
  rw [namesIn_eq e]
  exact fun n hn => mem_append_right _ (mem_flatMap.2 ⟨c, hc, hn⟩)

lemma mem_namesIn_of_givenName? {e n} (h : e.givenName? = some n) :
    n ∈ (namesIn e).map Text.trim := by
  rw [namesIn_eq]
  unfold Element.givenName? ObjectName.given? at h
  cases hraw : e.attr? "name" with
  | none => simp [hraw] at h
  | some raw =>
    simp only [hraw, Option.map_some, Option.filter_some] at h
    split at h
    · cases h
      simp
    · cases h

lemma authorName_of_materialParts {site e v n} (h : v ∈ materialParts site e)
    (hn : v.authorName? = some n) : n ∈ (namesIn e).map Text.trim := by
  unfold materialParts at h
  split at h
  · cases h
  · obtain h | h := mem_append.1 h
    · obtain ⟨a, _, ha⟩ := mem_flatMap.1 h
      unfold slotUse? at ha
      split at ha
      · cases mem_singleton.1 ha
        cases hn
      · cases ha
    · obtain ⟨slot, hslot, h⟩ := mem_flatMap.1 h
      obtain ⟨texture, htexture, rfl⟩ := mem_map.1 h
      have hsub := List.Subset.trans (namesIn_subset htexture) (namesIn_subset hslot)
      exact map_subset _ hsub (mem_namesIn_of_givenName? hn)

mutual

lemma authorName_of_nodeOutline {v n} (hn : v.authorName? = some n) (method : String) :
    (e : Element) → v ∈ nodeOutline method e → n ∈ (namesIn e).map Text.trim
  | ⟨tag, attributes, children, text, line⟩ => by
    intro h
    have own : ∀ {type},
        v = .object type (Element.givenName? ⟨tag, attributes, children, text, line⟩) →
        n ∈ (namesIn ⟨tag, attributes, children, text, line⟩).map Text.trim := by
      rintro type rfl
      exact mem_namesIn_of_givenName? hn
    have below : ∀ {method}, v ∈ nodesOutline method children →
        n ∈ (namesIn ⟨tag, attributes, children, text, line⟩).map Text.trim := by
      intro method h
      rw [namesIn, map_append]
      exact mem_append_right _ (authorName_of_nodesOutline hn method children h)
    unfold nodeOutline at h
    dsimp only at h
    split at h
    iterate 3 exact (mem_cons.1 h).elim own below
    · simp only [cons_append, mem_cons, mem_append] at h
      obtain h | h | h := h
      · exact own h
      · obtain ⟨a, _, ha⟩ := mem_flatMap.1 h
        unfold materialUse? at ha
        split at ha
        · cases mem_singleton.1 ha
          cases hn
        · cases ha
      · exact below h
    · obtain rfl | h := mem_cons.1 h
      · cases hn
      · exact below h
    · obtain ⟨material, hmaterial, h⟩ := mem_flatMap.1 h
      refine map_subset _ (namesIn_subset (c := material) hmaterial) ?_
      obtain rfl | h := mem_cons.1 h
      · exact mem_namesIn_of_givenName? hn
      · exact authorName_of_materialParts h hn
    · cases h

lemma authorName_of_nodesOutline {v n} (hn : v.authorName? = some n) (method : String) :
    (es : List Element) → v ∈ nodesOutline method es → n ∈ (namesInAll es).map Text.trim
  | [] => fun h => by cases h
  | e :: es => by
    intro h
    rw [namesInAll, map_append]
    rw [nodesOutline] at h
    obtain h | h := mem_append.1 h
    · exact mem_append_left _ (authorName_of_nodeOutline hn method e h)
    · exact mem_append_right _ (authorName_of_nodesOutline hn method es h)

end

mutual

lemma authorName_of_controlOutline {v n} (hn : v.authorName? = some n) : (e : Element) →
    v ∈ controlOutline e → n ∈ (namesIn e).map Text.trim
  | ⟨_, _, children, _, _⟩ => by
    intro h
    rw [controlOutline] at h
    obtain rfl | h := mem_cons.1 h
    · exact mem_namesIn_of_givenName? hn
    · rw [namesIn, map_append]
      exact mem_append_right _ (authorName_of_controlsOutline hn children h)

lemma authorName_of_controlsOutline {v n} (hn : v.authorName? = some n) : (es : List Element) →
    v ∈ controlsOutline es → n ∈ (namesInAll es).map Text.trim
  | [] => fun h => by cases h
  | e :: es => by
    intro h
    rw [namesInAll, map_append]
    rw [controlsOutline] at h
    obtain h | h := mem_append.1 h
    · exact mem_append_left _ (authorName_of_controlOutline hn e h)
    · exact mem_append_right _ (authorName_of_controlsOutline hn es h)

end

end Compile

lemma Document.mem_reserved (d : Document) {n} (h : n ∈ authorNames d.outline) (hn : n ≠ "") :
    n ∈ d.reserved := by
  obtain ⟨v, hv, hname⟩ := mem_filterMap.1 h
  obtain ⟨e, he, hv⟩ := mem_flatMap.1 hv
  suffices hsection : n ∈ (namesInAll e.children).map Text.trim by
    rw [Document.reserved, map_flatMap]
    exact mem_flatMap.2 ⟨e, he, hsection⟩
  have child : ∀ {c}, c ∈ e.children → n ∈ (namesIn c).map Text.trim →
      n ∈ (namesInAll e.children).map Text.trim := by
    intro c hc hmem
    rw [namesInAll_eq]
    exact map_subset _ (fun m hm => mem_flatMap.2 ⟨c, hc, hm⟩) hmem
  unfold sectionOutline at hv
  split at hv
  · obtain ⟨p, hp, rfl⟩ := mem_map.1 hv
    refine child hp ?_
    obtain rfl : p.ownName = n := Option.some.inj hname
    rw [namesIn_eq]
    unfold Element.ownName at hn ⊢
    cases hraw : p.attr? "name" with
    | none => simp [hraw, Text.trim, Text.trimBy] at hn
    | some raw => simp
  · exact authorName_of_nodesOutline hname _ _ hv
  · obtain ⟨material, hmaterial, hv⟩ := mem_flatMap.1 hv
    refine child hmaterial ?_
    simp only [sharedOutline, mem_cons] at hv
    obtain rfl | rfl | hv := hv
    · cases hname
    · exact mem_namesIn_of_givenName? hname
    · exact authorName_of_materialParts hv hname
  · obtain ⟨texture, htexture, hv⟩ := mem_flatMap.1 hv
    refine child htexture ?_
    simp only [sharedOutline, mem_cons, not_mem_nil, or_false] at hv
    obtain rfl | rfl := hv
    · cases hname
    · exact mem_namesIn_of_givenName? hname
  · obtain ⟨gui, hgui, hv⟩ := mem_flatMap.1 hv
    refine child hgui ?_
    obtain rfl | hv := mem_cons.1 hv
    · exact mem_namesIn_of_givenName? hname
    · have hbelow := authorName_of_controlsOutline hname _ hv
      rw [namesIn_eq, map_append, ← namesInAll_eq]
      exact mem_append_right _ hbelow
  · cases hv
  · cases hv

end SceneView
