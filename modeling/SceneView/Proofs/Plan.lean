import SceneView.Proofs.Branch

/-!
# Plans

The statements of a generated class, method by method, as told by the parts of a document. A *piece*
is a run of statements that go to one method. A section is a *portion* of pieces: those of the
stations of its node tree, those of its user interfaces, those of its shared objects, or those of its
properties. The checks and the callbacks of deferred groups are no part of a piece, since they wait
for all sections.

`Draws` relates the pieces and the groups of a portion to the trace of its section.
-/

open List

namespace SceneView

open Effect

/-- What is declared besides objects: the member and the accessor of a property, or lines of the
author. -/
inductive Aside where
  | member (member : Member)
  | accessor (accessor : Accessor)
  | author (lines : List String)

/-- What concerns the names of objects: one is declared, one is known as a mesh, or a mesh is looked
up; and what is declared besides. -/
inductive Sight where
  | object (type : String) (object : ObjectName) (deferred : Bool)
  | mesh (mesh : Mesh)
  | find (mesh : Mesh)
  | aside (aside : Aside)

def Sight.name? : Sight → Option String
  | object _ o _ => some o.name
  | mesh _ | find _ | aside _ => none

def Note.sights : Note → List Sight
  | link base => [.find base]
  | statement _ | use _ => []

/-- The names that a part brings and looks up, in order. -/
def Part.sights (x : Part) : List Sight :=
  x.base?.toList.map .find ++ .object x.type x.object (isDeferred x.method) ::
    ((if x.role.isMesh && x.object.isGiven then [.mesh x.mesh] else []) ++
      x.notes.flatMap Note.sights)

/-- Statements that go to one method, with the objects that they build and with what is declared
besides. -/
structure Piece where
  method : String
  parts : List Part
  statements : List Statement
  asides : List Aside

namespace Piece

def names (p : Piece) : List String :=
  p.parts.map (·.object.name)

def sights (p : Piece) : List Sight :=
  p.asides.map .aside ++ p.parts.flatMap Part.sights

def writes (method : String) (p : Piece) : List Statement :=
  if p.method = method then p.statements else []

lemma mem_writes {p : Piece} {st method} (hst : st ∈ p.statements) (hm : p.method = method) :
    st ∈ p.writes method := by
  rwa [writes, if_pos hm]

/-- Only objects of the piece are built. -/
def Owned (p : Piece) : Prop :=
  ∀ st ∈ p.statements, ∀ m, st.builds m = true → m ∈ p.names.map storageName

/-- No group is wired. -/
def Unwired (p : Piece) : Prop :=
  ∀ st ∈ p.statements, st.wires = false

lemma within {p : Piece} (h : ∀ st ∈ p.statements, st.Within (p.parts.map (·.object.storage))) :
    p.Owned ∧ p.Unwired := by
  refine ⟨fun st hst m hm => ?_, fun st hst => (h st hst).unwired⟩
  rw [names, map_map]
  exact (h st hst).builds m hm

lemma owned_nil {m statements} (h : ∀ st ∈ statements, ∀ member, st.builds member = false) :
    (⟨m, [], statements, []⟩ : Piece).Owned := by
  intro st hst member hm
  rw [h st hst member] at hm
  cases hm

end Piece

namespace Station

def piece (G : Growth) (es : List Event) (y : Station) : Piece :=
  ⟨G.method y.above, y.entry.parts, y.statements G es, []⟩

/-- The pieces of an element. The method of a deferred group begins with its guard, and what else is
written for the group goes to the method around it. -/
def pieces (G : Growth) (es : List Event) (y : Station) : List Piece :=
  (if y.entry.isGroup then
    [⟨Compile.groupMethod y.entry.name, [],
      [.leaveIf (Compile.groupFlag y.entry.name), .raise (Compile.groupFlag y.entry.name)], []⟩]
  else []) ++ [y.piece G es]

def groups (y : Station) : List Station :=
  if y.entry.isGroup then [y] else []

def checks (method : String) (y : Station) : List Statement :=
  if methodBelow y.above = method then
    y.entry.check?.toList.map (.trigger · (Compile.groupMethod y.entry.name))
  else []

def calls (method : String) (y : Station) : List Statement :=
  if Compile.groupMethod y.entry.name = method then y.entry.call?.toList.map .callback else []

end Station

/-- A shared object with the textures in its slots. -/
structure SharedObject where
  part : Part
  slots : List (String × Part)
  /-- Whether the object has a method of its own. -/
  ensured : Bool

namespace SharedObject

def name (o : SharedObject) : String :=
  o.part.element.ownName

def trace (isMixin : Bool) (kind : SharedKind) (o : SharedObject) : List Effect :=
  o.part.sharedTrace isMixin kind o.name o.ensured o.slots

def piece (isMixin : Bool) (es : List Event) (kind : SharedKind) (o : SharedObject) : Piece :=
  ⟨buildMethod es kind o.name, o.part :: o.slots.map (·.2),
    o.part.sharedStatements es isMixin o.ensured o.slots, []⟩

end SharedObject

/-- What a section brings. The user interfaces come with the methods that build them, the properties
with their first values. -/
inductive Portion where
  | nodes (forest : List Branch)
  | guis (roots : List (String × Branch))
  | shared (kind : SharedKind) (objects : List SharedObject)
  | properties (firsts : List (Element × List Statement))
  | imports (lines : List String)

namespace Portion

def trace (isMixin : Bool) : Portion → List Effect
  | nodes forest => Branch.traceOf (nodeGrowth isMixin) [] forest
  | guis roots =>
    importing [(.gui, Compile.guiType), (.gui, "Control")] ++
      roots.flatMap fun r => r.2.trace (guiGrowth isMixin r.1) []
  | shared kind objects => objects.flatMap (SharedObject.trace isMixin kind)
  | properties firsts => firsts.flatMap fun p => p.1.propertyTrace isMixin p.2
  | imports lines => [.author lines]

def pieces (isMixin : Bool) (es : List Event) : Portion → List Piece
  | nodes forest => (Branch.stationsOf [] forest).flatMap (Station.pieces (nodeGrowth isMixin) es)
  | guis roots =>
    roots.flatMap fun r => (r.2.stations []).map (Station.piece (guiGrowth isMixin r.1) es)
  | shared kind objects => objects.map (SharedObject.piece isMixin es kind)
  | properties firsts => firsts.map fun p =>
      ⟨Builtin.init, [], p.2, [.member (propertyMember p.1.ownName p.1.ownType),
        .accessor (Compile.propertyAccessor p.1.ownName p.1.ownType isMixin)]⟩
  | imports lines => [⟨Builtin.init, [], [], [.author lines]⟩]

def groups : Portion → List Station
  | nodes forest => (Branch.stationsOf [] forest).flatMap Station.groups
  | guis _ | shared .. | properties _ | imports _ => []

end Portion

/-- The portion is that of a section. -/
inductive Portion.IsOf (isMixin : Bool) (e : Element) : Portion → Prop where
  | nodes {forest} :
    SectionKind.ofTag? e.tag = some .nodes →
    forest.map Branch.element = e.children →
    (∀ y ∈ Branch.stationsOf [] forest, y.Fits (nodeGrowth isMixin)) →
    IsOf isMixin e (.nodes forest)
  | guis {roots} :
    SectionKind.ofTag? e.tag = some .guis →
    roots.map (·.2.element) = e.children →
    (∀ r ∈ roots, IsHost r.1 ∧ ∀ y ∈ r.2.stations [], y.Fits (guiGrowth isMixin r.1)) →
    IsOf isMixin e (.guis roots)
  | shared {kind objects} :
    SectionKind.ofTag? e.tag = some kind.home →
    List.Forall₂ (fun c o => o.part.IsShared isMixin kind c o.ensured o.slots) e.children objects →
    IsOf isMixin e (.shared kind objects)
  | properties {firsts} :
    SectionKind.ofTag? e.tag = some .properties →
    firsts.map (·.1) = e.children →
    (∀ p ∈ firsts, p.1.Starts isMixin p.2) →
    IsOf isMixin e (.properties firsts)
  | imports :
    SectionKind.ofTag? e.tag = some .imports →
    IsOf isMixin e (.imports (Text.trimmedLines e.text))

def Effect.checks (method : String) : Effect → List Statement
  | trigger m condition g =>
    if m = method then [.trigger condition (Compile.groupMethod g)] else []
  | _ => []

def Effect.calls (method : String) : Effect → List Statement
  | callback g code => if Compile.groupMethod g = method then [.callback code] else []
  | _ => []

def Effect.sight? : Effect → Option Sight
  | object type o deferred _ => some (.object type o deferred)
  | mesh m => some (.mesh m)
  | find m => some (.find m)
  | field name type => some (.aside (.member (propertyMember name type)))
  | accessor name type isMixin =>
    some (.aside (.accessor (Compile.propertyAccessor name type isMixin)))
  | author lines => some (.aside (.author lines))
  | _ => none

/-- Whether a change is about a deferred group. -/
def Effect.defers : Effect → Bool
  | group _ | trigger .. | callback .. => true
  | _ => false

lemma Effect.sights_map {α : Type} {f : α → Effect} (l : List α) (h : ∀ a, (f a).sight? = none) :
    (l.map f).filterMap sight? = [] := by
  simp [filterMap_map, h]

/-- The pieces and the groups tell what a trace writes and what it puts off. -/
structure Draws (es : List Event) (T : List Effect) (ps : List Piece) (gs : List Station) :
    Prop where
  written : ∀ m, T.flatMap (Effect.written es m) = ps.flatMap (Piece.writes m)
  sights : T.filterMap sight? = ps.flatMap Piece.sights
  groups : groupNames T = gs.map (·.entry.name)
  checks : ∀ m, T.flatMap (Effect.checks m) = gs.flatMap (Station.checks m)
  calls : ∀ m, (T.flatMap (Effect.calls m)).Perm (gs.flatMap (Station.calls m))

namespace Draws

variable {es : List Event} {T T' : List Effect} {ps ps' : List Piece} {gs gs' : List Station}

lemma nil : Draws es [] [] [] :=
  ⟨fun _ => rfl, rfl, rfl, fun _ => rfl, fun _ => .nil⟩

lemma append (h : Draws es T ps gs) (h' : Draws es T' ps' gs') :
    Draws es (T ++ T') (ps ++ ps') (gs ++ gs') := by
  refine ⟨fun m => ?_, ?_, ?_, fun m => ?_, fun m => ?_⟩
  · rw [flatMap_append, flatMap_append, h.written, h'.written]
  · rw [filterMap_append, flatMap_append, h.sights, h'.sights]
  · rw [groupNames, filterMap_append, map_append, ← h.groups, ← h'.groups]
    rfl
  · rw [flatMap_append, flatMap_append, h.checks, h'.checks]
  · rw [flatMap_append, flatMap_append]
    exact (h.calls m).append (h'.calls m)

lemma ungrouped (hwritten : ∀ m, T.flatMap (Effect.written es m) = ps.flatMap (Piece.writes m))
    (hsights : T.filterMap sight? = ps.flatMap Piece.sights) (h : ∀ e ∈ T, e.defers = false) :
    Draws es T ps [] := by
  refine ⟨hwritten, hsights, ?_, fun m => ?_, fun m => ?_⟩
  · refine filterMap_eq_nil_iff.2 fun e he => ?_
    cases e with
    | group => cases h _ he
    | _ => rfl
  · refine flatMap_eq_nil_iff.2 fun e he => ?_
    cases e with
    | trigger => cases h _ he
    | _ => rfl
  · rw [flatMap_eq_nil_iff.2 fun e he => ?_]
    · exact .nil
    · cases e with
      | callback => cases h _ he
      | _ => rfl

lemma single {p : Piece} (hwritten : ∀ m, T.flatMap (Effect.written es m) = p.writes m)
    (hsights : T.filterMap sight? = p.sights) (h : ∀ e ∈ T, e.defers = false) :
    Draws es T [p] [] :=
  ungrouped (fun m => by rw [flatMap_singleton, hwritten]) (by rw [flatMap_singleton, hsights]) h

lemma importing (names : List (Origin × String)) : Draws es (importing names) [] [] := by
  refine ungrouped (fun m => flatMap_importing _ fun _ _ => rfl) (sights_map _ fun _ => rfl) ?_
  intro e he
  obtain ⟨n, _, rfl⟩ := mem_map.1 he
  rfl

lemma flatMap {α : Type} {l : List α} {trace : α → List Effect} {pieces : α → List Piece}
    (h : ∀ a ∈ l, Draws es (trace a) (pieces a) []) :
    Draws es (l.flatMap trace) (l.flatMap pieces) [] := by
  induction l with
  | nil => exact .nil
  | cons a l ih =>
    exact (h a mem_cons_self).append (ih fun b hb => h b (mem_cons_of_mem _ hb))

end Draws

lemma cases_mem_blockEffects {kind name type o deferred ensured v T e}
    (h : e ∈ blockEffects kind name type o deferred ensured v T) :
    e = .declaration kind name ensured ∨ e = .object type o deferred true ∨
      (∃ st, e = .emit (.shared kind name) st ∧
        (st = .guard o.storage ∨ st = .give o.storage ∨ st = .construct o.storage v)) ∨ e ∈ T := by
  cases ensured <;> simp only [blockEffects, Bool.false_eq_true, if_true, if_false, mem_cons,
    mem_append, not_mem_nil, or_false] at h <;> grind

namespace Part

variable {isMixin : Bool} {site : Site} {x : Part} {place? : Option String}

lemma defers_rest {e} (h : e ∈ x.rest isMixin site place?) : e.defers = false := by
  simp only [rest, importing, mem_append, mem_map, mem_flatMap] at h
  obtain ⟨_, _, rfl⟩ | ⟨_, _, rfl⟩ | h | ⟨n, _, h⟩ := h
  · rfl
  · rfl
  · split at h
    · rw [mem_singleton.1 h]
      rfl
    · cases h
  · cases n with
    | statement | use =>
      rw [mem_singleton.1 h]
      rfl
    | link =>
      simp only [Note.effects, mem_cons, not_mem_nil, or_false] at h
      obtain rfl | rfl := h <;> rfl

lemma sights_rest : (x.rest isMixin site place?).filterMap sight? =
    (if x.role.isMesh && x.object.isGiven then [.mesh x.mesh] else []) ++
      x.notes.flatMap Note.sights := by
  have hmesh : (if x.role.isMesh && x.object.isGiven then [Effect.mesh x.mesh] else []).filterMap
      sight? = if x.role.isMesh && x.object.isGiven then [.mesh x.mesh] else [] := by
    split <;> rfl
  have hnotes : (x.notes.flatMap (Note.effects site x.target)).filterMap sight? =
      x.notes.flatMap Note.sights := by
    rw [filterMap_flatMap]
    refine flatMap_congr fun n _ => ?_
    cases n <;> rfl
  rw [rest, importing, filterMap_append, sights_map _ fun _ => rfl, filterMap_append,
    filterMap_append, sights_map _ fun _ => rfl, hmesh, hnotes, nil_append, nil_append]

lemma sights_trace : (x.trace isMixin site place?).filterMap sight? = x.sights := by
  have hfind : (x.base?.toList.map Effect.find).filterMap sight? = x.base?.toList.map .find := by
    cases x.base? <;> rfl
  rw [trace, filterMap_append, hfind, effects, filterMap_cons, filterMap_cons, sights_rest]
  rfl

lemma defers_trace {e} (h : e ∈ x.trace isMixin site place?) : e.defers = false := by
  simp only [trace, effects, mem_append, mem_map, mem_cons] at h
  obtain ⟨_, _, rfl⟩ | rfl | rfl | h := h
  · rfl
  · rfl
  · rfl
  · exact defers_rest h

lemma sights_slotTrace (x : Part) (slots : List (String × Part)) :
    (slots.flatMap (x.slotTrace isMixin site)).filterMap sight? =
      (slots.map (·.2)).flatMap sights := by
  rw [filterMap_flatMap, flatMap_map]
  refine flatMap_congr fun s _ => ?_
  rw [slotTrace, filterMap_append, sights_trace]
  exact append_nil _

lemma defers_slotTrace {slots : List (String × Part)} {e}
    (h : e ∈ slots.flatMap (x.slotTrace isMixin site)) : e.defers = false := by
  obtain ⟨s, _, h⟩ := mem_flatMap.1 h
  obtain h | h := mem_append.1 h
  · exact defers_trace h
  · rw [mem_singleton.1 h]
    rfl

end Part

section

variable {G : Growth} {es : List Event} {isMixin : Bool} {y : Station} {inside : List Effect}
  {ps : List Piece} {gs : List Station}

lemma Station.Fits.draws_object (h : y.Fits G) (hgroup : y.entry.isGroup = false)
    (hinside : Draws es inside ps gs) :
    Draws es (y.entry.opening G.isMixin (G.method y.above) (G.place? y.above) ++
      (inside ++ y.entry.closing)) (y.piece G es :: ps) gs := by
  obtain ⟨⟨⟨e, content⟩, bs⟩, above⟩ := y
  cases content with
  | group => cases hgroup
  | object part slots =>
    obtain ⟨⟨role, e', hpart⟩, els, hslots⟩ := G.built h.entry part slots rfl
    have hopening : Draws es (part.trace G.isMixin (.method (G.method above)) (G.place? above) ++
        slots.flatMap (part.slotTrace G.isMixin (.method (G.method above))))
        [⟨G.method above, part :: slots.map (·.2),
          part.statementsWith es G.isMixin (G.place? above) slots, []⟩] [] := by
      refine .single (fun m => ?_) ?_ fun e he => ?_
      · rw [flatMap_append, hpart.trace_written, hslots.written]
        by_cases hm : G.method above = m <;>
          simp [Site.methodIn, Piece.writes, Part.statementsWith, hm]
      · rw [filterMap_append, Part.sights_trace, Part.sights_slotTrace]
        rfl
      · obtain he | he := mem_append.1 he
        · exact Part.defers_trace he
        · exact Part.defers_slotTrace he
    have hclosing : (⟨e, .object part slots⟩ : Entry).closing = [] := rfl
    change Draws es (Entry.opening _ _ _ ⟨e, .object part slots⟩ ++
      (inside ++ Entry.closing ⟨e, .object part slots⟩)) _ gs
    rw [hclosing, append_nil]
    exact hopening.append hinside

lemma flatMap_checks_trigger {method : String} (conditions : List String) (g m : String) :
    (conditions.map (.trigger method · g)).flatMap (checks m) =
      if method = m then conditions.map (.trigger · (Compile.groupMethod g)) else [] := by
  rw [flatMap_map]
  by_cases hm : method = m <;> simp [checks, hm, map_eq_flatMap]

lemma flatMap_calls_callback (codes : List String) (g m : String) :
    (codes.map (.callback g)).flatMap (calls m) =
      if Compile.groupMethod g = m then codes.map .callback else [] := by
  rw [flatMap_map]
  by_cases hm : Compile.groupMethod g = m <;> simp [calls, hm, map_eq_flatMap]

lemma Station.draws_group (hgroup : y.entry.isGroup = true) (hinside : Draws es inside ps gs) :
    Draws es (y.entry.opening isMixin (methodBelow y.above) (some (parentBelow y.above)) ++
      (inside ++ y.entry.closing)) (y.pieces (nodeGrowth isMixin) es ++ ps) (y :: gs) := by
  have nowhere : ∀ {α β : Type} {f : α → Effect} {g : Effect → List β} (l : List α),
      (∀ a, g (f a) = []) → (l.map f).flatMap g = [] := fun l h => by simp [h]
  rw [Entry.opening_group hgroup es, Entry.closing, pieces, if_pos hgroup]
  refine ⟨fun m => ?_, ?_, ?_, fun m => ?_, fun m => ?_⟩
  · rw [cons_append, flatMap_cons, append_assoc, flatMap_append, flatMap_append, flatMap_append,
      written_emit, nowhere _ fun _ => rfl, nowhere _ fun _ => rfl, hinside.written, append_nil]
    rfl
  · rw [cons_append, filterMap_cons_none rfl, append_assoc, filterMap_append, filterMap_append,
      filterMap_append, sights_map _ fun _ => rfl, sights_map _ fun _ => rfl,
      sights_map _ fun _ => rfl, hinside.sights, append_nil]
    simp [Piece.sights, piece, Entry.parts_group hgroup]
  · simpa [groupNames, Function.comp_def] using hinside.groups
  · rw [cons_append, flatMap_cons, append_assoc, flatMap_append, flatMap_append, flatMap_append,
      flatMap_checks_trigger, nowhere _ fun _ => rfl, nowhere _ fun _ => rfl, hinside.checks,
      append_nil]
    rfl
  · -- The callback is put off after those of the groups inside.
    rw [cons_append, flatMap_cons, append_assoc, flatMap_append, flatMap_append, flatMap_append,
      flatMap_calls_callback, nowhere _ fun _ => rfl, nowhere _ fun _ => rfl]
    have hperm : (inside.flatMap (Effect.calls m) ++ y.calls m).Perm
        (y.calls m ++ gs.flatMap (Station.calls m)) :=
      perm_append_comm.trans ((hinside.calls m).append_left _)
    exact hperm

end

namespace Branch

variable {G : Growth} {es : List Event}

mutual

lemma draws {pieces : Station → List Piece} {groups : Station → List Station}
    (hG : ∀ {y : Station} {inside ps gs}, y.Fits G → Draws es inside ps gs →
      Draws es (y.entry.opening G.isMixin (G.method y.above) (G.place? y.above) ++
        (inside ++ y.entry.closing)) (pieces y ++ ps) (groups y ++ gs)) :
    (b : Branch) → {above : List Entry} → (∀ y ∈ b.stations above, y.Fits G) →
      Draws es (b.trace G above) ((b.stations above).flatMap pieces)
        ((b.stations above).flatMap groups)
  | .mk x bs, above, h =>
    hG (y := ⟨.mk x bs, above⟩) (h _ mem_cons_self)
      (drawsOf hG bs fun y hy => h y (mem_cons_of_mem _ hy))

lemma drawsOf {pieces : Station → List Piece} {groups : Station → List Station}
    (hG : ∀ {y : Station} {inside ps gs}, y.Fits G → Draws es inside ps gs →
      Draws es (y.entry.opening G.isMixin (G.method y.above) (G.place? y.above) ++
        (inside ++ y.entry.closing)) (pieces y ++ ps) (groups y ++ gs)) :
    (bs : List Branch) → {above : List Entry} → (∀ y ∈ stationsOf above bs, y.Fits G) →
      Draws es (traceOf G above bs) ((stationsOf above bs).flatMap pieces)
        ((stationsOf above bs).flatMap groups)
  | [], _, _ => .nil
  | b :: bs, above, h => by
    rw [stationsOf, flatMap_append, flatMap_append]
    exact (draws hG b fun y hy => h y (mem_append_left _ hy)).append
      (drawsOf hG bs fun y hy => h y (mem_append_right _ hy))

end

end Branch

section

variable {isMixin : Bool} {es : List Event} {y : Station} {e : Element} {q : Portion}

lemma NodeEntry.of_group {above x} (h : NodeEntry isMixin above x) (hgroup : x.isGroup = true) :
    x.name = x.element.ownName ∧ x.element.Calls isMixin x.call? ∧
      ∃ path?, x.element.Waits isMixin path? x.check? ∧ ∀ es place?,
        x.statements es isMixin place? = path?.toList.map
          (.bindGroup Builtin.engine · (Compile.groupMethod x.name)) := by
  cases h with
  | object | material => cases hgroup
  | group _ hwaits hcalls => exact ⟨rfl, hcalls, _, hwaits, fun _ _ => rfl⟩

lemma NodeEntry.isGroup_iff {above x} (h : NodeEntry isMixin above x) :
    x.isGroup = true ↔ NodeKind.ofTag? x.element.tag = some .deferredGroup := by
  cases h with
  | object hk hrole =>
    refine iff_of_false Bool.false_ne_true fun htag => ?_
    cases hk.symm.trans htag
    cases hrole
  | material hk => exact iff_of_false Bool.false_ne_true fun htag => nomatch hk.symm.trans htag
  | group hk => exact iff_of_true rfl hk

lemma GuiEntry.isGroup {method above x} (h : GuiEntry isMixin method above x) :
    x.isGroup = false := by
  cases h with
  | fullScreen | onMesh | control => rfl

lemma Station.Fits.within {G : Growth} (h : y.Fits G) (hgroup : y.entry.isGroup = false) :
    (y.piece G es).Owned ∧ (y.piece G es).Unwired := by
  obtain ⟨⟨⟨e, content⟩, bs⟩, above⟩ := y
  cases content with
  | group => cases hgroup
  | object part slots =>
    obtain ⟨⟨role, e', hpart⟩, els, hslots⟩ := G.built h.entry part slots rfl
    exact Piece.within fun st hst => hpart.toIsFor.within_slots hslots hst

lemma Station.Fits.owned (h : y.Fits (nodeGrowth isMixin)) {p}
    (hp : p ∈ y.pieces (nodeGrowth isMixin) es) : p.Owned := by
  rw [pieces] at hp
  cases hgroup : y.entry.isGroup with
  | false =>
    rw [hgroup] at hp
    rw [mem_singleton.1 hp]
    exact (h.within hgroup).1
  | true =>
    rw [hgroup] at hp
    simp only [if_true, cons_append, nil_append, mem_cons, not_mem_nil, or_false] at hp
    obtain rfl | rfl := hp
    · exact Piece.owned_nil (by simp [Statement.builds])
    · obtain ⟨_, _, path?, _, hstatements⟩ := h.entry.of_group hgroup
      rw [piece, Entry.parts_group hgroup]
      refine Piece.owned_nil fun st hst member => ?_
      rw [statements, nodeGrowth, hstatements] at hst
      obtain ⟨path, _, rfl⟩ := mem_map.1 hst
      rfl

end

lemma SharedKind.role?_ne_onMesh {kind : SharedKind} {tag role} (h : kind.role? tag = some role) :
    role ≠ .onMesh := by
  cases kind with
  | material | texture =>
    obtain ⟨_, _, rfl⟩ := Option.map_eq_some_iff.1 h
    exact Role.noConfusion

lemma sights_blockEffects {kind : SharedKind} {name type : String} {o : ObjectName}
    {deferred ensured : Bool} {v : Construction} {T : List Effect} :
    (blockEffects kind name type o deferred ensured v T).filterMap sight? =
      .object type o deferred :: T.filterMap sight? := by
  cases ensured <;> simp [blockEffects, sight?, filterMap_cons]

lemma Part.IsShared.isDeferred_method {isMixin kind c ensured slots} {x : Part}
    (h : x.IsShared isMixin kind c ensured slots) : isDeferred x.method = ensured := by
  rw [h.method]
  cases ensured with
  | true => simp [isDeferred, ensureMethod_ne_init]
  | false => rfl

lemma Part.IsShared.draws {isMixin : Bool} {kind : SharedKind} {c : Element} {o : SharedObject}
    (h : o.part.IsShared isMixin kind c o.ensured o.slots) (es : List Event) :
    Draws es (o.trace isMixin kind) [o.piece isMixin es kind] [] := by
  obtain ⟨role, hrole, hx⟩ := h.isFor
  have hname : o.name = c.ownName := by rw [SharedObject.name, hx.element]
  rw [SharedObject.trace, SharedObject.piece, hname]
  refine .single (fun m => ?_) ?_ fun e he => ?_
  · exact h.trace_written es m
  · have hbase := hx.base (hx.role ▸ SharedKind.role?_ne_onMesh hrole)
    rw [sharedTrace, sights_blockEffects, filterMap_append, sights_rest, sights_slotTrace,
      Piece.sights, flatMap_cons, Part.sights, hbase, h.isDeferred_method]
    simp only [Option.toList_none, map_nil, nil_append, cons_append, append_assoc]
  · obtain rfl | rfl | ⟨st, rfl, _⟩ | he := cases_mem_blockEffects he
    · rfl
    · rfl
    · rfl
    · obtain he | he := mem_append.1 he
      · exact defers_rest he
      · exact defers_slotTrace he

namespace Portion.IsOf

variable {isMixin : Bool} {e : Element} {q : Portion}

lemma assembled (h : q.IsOf isMixin e) : Assembled (sectionOutline e) (q.trace isMixin) := by
  cases h with
  | @nodes forest hkind helements hfits =>
    rw [sectionOutline, hkind, ← helements]
    exact (Branch.loose_nodes forest hfits).assembled
  | @guis roots hkind helements hroots =>
    rw [sectionOutline, hkind, ← helements]
    refine Assembled.loose (loose_importing _) ?_
    clear helements hkind
    induction roots with
    | nil => exact .nil
    | cons r roots ih =>
      obtain ⟨⟨hhost, hfits⟩, hroots⟩ := forall_mem_cons.1 hroots
      have hloose := Branch.loose_gui (M := []) r.2 hfits
      rw [if_pos rfl] at hloose
      exact .loose (hloose.mono (fun _ h => h ▸ .method hhost) fun _ => id) (ih hroots)
  | @shared kind objects hkind hobjects =>
    have houtline : sectionOutline e = e.children.flatMap (sharedOutline kind) := by
      rw [sectionOutline, hkind]
      cases kind <;> rfl
    rw [houtline]
    clear houtline hkind
    generalize e.children = children at hobjects
    induction hobjects with
    | nil => exact .nil
    | @cons c o _ _ ho _ ih =>
      obtain ⟨role, _, hx⟩ := ho.isFor
      have hblock := ho.block
      rw [← hx.element] at hblock
      rw [flatMap_cons, ← hx.element]
      exact .block hblock ih
  | @properties firsts hkind helements hfirsts =>
    rw [sectionOutline, hkind, ← helements]
    dsimp only
    clear helements hkind
    induction firsts with
    | nil => exact .nil
    | cons p firsts ih =>
      obtain ⟨hp, hfirsts⟩ := forall_mem_cons.1 hfirsts
      exact .loose (Element.propertyTrace_loose hp) (ih hfirsts)
  | imports hkind =>
    rw [sectionOutline, hkind]
    exact .loose (Loose.single (e := .author _) trivial (by simp) rfl) .nil

lemma draws (h : q.IsOf isMixin e) (es : List Event) :
    Draws es (q.trace isMixin) (q.pieces isMixin es) q.groups := by
  cases h with
  | @nodes forest _ _ hfits =>
    refine Branch.drawsOf (fun {y inside ps gs} hy hinside => ?_) forest hfits
    rw [Station.groups]
    cases hgroup : y.entry.isGroup with
    | false =>
      rw [Station.pieces, hgroup]
      exact hy.draws_object hgroup hinside
    | true => exact Station.draws_group hgroup hinside
  | @guis roots _ _ hroots =>
    refine (Draws.importing _).append (Draws.flatMap fun r hr => ?_)
    have hdraws : Draws es (r.2.trace (guiGrowth isMixin r.1) [])
        ((r.2.stations []).flatMap fun y => [y.piece (guiGrowth isMixin r.1) es])
        ((r.2.stations []).flatMap fun _ => []) :=
      Branch.draws (fun hy hinside => hy.draws_object (GuiEntry.isGroup hy.entry) hinside) r.2
        (hroots r hr).2
    rwa [← map_eq_flatMap, flatMap_eq_nil_iff.2 fun _ _ => rfl] at hdraws
  | @shared kind objects _ hobjects =>
    generalize e.children = children at hobjects
    induction hobjects with
    | nil => exact .nil
    | cons ho _ ih => exact (ho.draws es).append ih
  | @properties firsts _ _ hfirsts =>
    rw [trace, pieces, map_eq_flatMap]
    refine Draws.flatMap fun p hp => .single (fun m => ?_) ?_ fun e he => ?_
    · exact Element.propertyTrace_written isMixin p.1 p.2 es m
    · rw [Element.propertyTrace, importing, filterMap_cons, filterMap_append,
        filterMap_append, sights_map _ fun _ => rfl, sights_map _ fun _ => rfl]
      rfl
    · simp only [Element.propertyTrace, importing, mem_cons, mem_append, mem_map, not_mem_nil,
        or_false] at he
      obtain rfl | (⟨_, _, rfl⟩ | ⟨_, _, rfl⟩) | rfl := he <;> rfl
  | imports =>
    refine .single (fun m => (ite_self _).symm) rfl fun e he => ?_
    rw [mem_singleton.1 he]
    rfl

end Portion.IsOf

lemma exists_of_forall₂ {α β : Type} {R : α → β → Prop} {l l'} (h : List.Forall₂ R l l') {b}
    (hb : b ∈ l') : ∃ a ∈ l, R a b := by
  induction h with
  | nil => cases hb
  | cons hab _ ih =>
    obtain rfl | hb := mem_cons.1 hb
    · exact ⟨_, mem_cons_self, hab⟩
    · obtain ⟨a, ha, hab⟩ := ih hb
      exact ⟨a, mem_cons_of_mem _ ha, hab⟩

lemma Part.IsShared.within {isMixin : Bool} {es : List Event} {kind : SharedKind} {c : Element}
    {o : SharedObject} (h : o.part.IsShared isMixin kind c o.ensured o.slots) :
    (o.piece isMixin es kind).Owned ∧ (o.piece isMixin es kind).Unwired := by
  obtain ⟨role, _, hx⟩ := h.isFor
  refine Piece.within fun st hst => ?_
  simp only [SharedObject.piece, sharedStatements, mem_append] at hst
  obtain hst | hst | hst := hst
  · split at hst
    · rw [mem_singleton.1 hst]
      exact .plain rfl fun _ => rfl
    · cases hst
  · exact hx.within_slots h.slots hst
  · split at hst
    · rw [mem_singleton.1 hst]
      exact .plain rfl fun _ => rfl
    · cases hst

namespace Portion.IsOf

variable {isMixin : Bool} {es : List Event} {e : Element} {q : Portion}

lemma within (h : q.IsOf isMixin e) (hnodes : ∀ forest, q ≠ .nodes forest) {p}
    (hp : p ∈ q.pieces isMixin es) : p.Owned ∧ p.Unwired := by
  cases h with
  | nodes => exact absurd rfl (hnodes _)
  | guis _ _ hroots =>
    obtain ⟨r, hr, hp⟩ := mem_flatMap.1 hp
    obtain ⟨y, hy, rfl⟩ := mem_map.1 hp
    have hfits := (hroots r hr).2 y hy
    exact hfits.within (GuiEntry.isGroup hfits.entry)
  | shared _ hobjects =>
    obtain ⟨o, ho, rfl⟩ := mem_map.1 hp
    obtain ⟨c, _, ho⟩ := exists_of_forall₂ hobjects ho
    exact ho.within
  | properties _ _ hfirsts =>
    obtain ⟨⟨e, sts⟩, hfirst, rfl⟩ := mem_map.1 hp
    refine Piece.within fun st hst => ?_
    have hstarts : e.Starts isMixin sts := hfirsts _ hfirst
    cases hstarts with
    | unset => cases hst
    | value =>
      rw [mem_singleton.1 hst]
      exact .plain rfl fun _ => rfl
  | imports =>
    rw [mem_singleton.1 hp]
    exact Piece.within fun st hst => nomatch hst

lemma owned (h : q.IsOf isMixin e) {p} (hp : p ∈ q.pieces isMixin es) : p.Owned := by
  cases q with
  | nodes =>
    cases h with
    | nodes _ _ hfits =>
      obtain ⟨y, hy, hp⟩ := mem_flatMap.1 hp
      exact (hfits y hy).owned hp
  | guis | shared | properties | imports => exact (h.within (fun _ => Portion.noConfusion) hp).1

end Portion.IsOf

lemma assembled_of_sections {isMixin sections plan}
    (h : List.Forall₂ (Portion.IsOf isMixin) sections plan) :
    Assembled (sections.flatMap sectionOutline) (plan.flatMap (Portion.trace isMixin)) := by
  induction h with
  | nil => exact .nil
  | cons hq _ ih => exact hq.assembled.append ih

lemma draws_of_sections {isMixin sections plan}
    (h : List.Forall₂ (Portion.IsOf isMixin) sections plan) (es : List Event) :
    Draws es (plan.flatMap (Portion.trace isMixin)) (plan.flatMap (Portion.pieces isMixin es))
      (plan.flatMap Portion.groups) := by
  induction h with
  | nil => exact .nil
  | cons hq _ ih => exact (hq.draws es).append ih

end SceneView
