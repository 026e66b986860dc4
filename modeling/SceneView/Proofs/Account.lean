import SceneView.Proofs.Consistency
import SceneView.Proofs.Layout

/-!
# The account of a generated class

Every statement of the class of an accepted document is accounted for by a plan: the main method
begins with what every view begins with, then each method has its pieces in document order, then
the checks of the groups in it, and at last its callback.
-/

open List

namespace SceneView

open Compile

def Document.pieces (d : Document) (plan : List Portion) : List Piece :=
  plan.flatMap (Portion.pieces d.isMixin d.outline)

def Document.parts (d : Document) (plan : List Portion) : List Part :=
  (d.pieces plan).flatMap Piece.parts

def Part.member (x : Part) : Member :=
  x.object.member x.type (isDeferred x.method)

def Part.accessor (x : Part) : Accessor :=
  x.object.accessor x.type (isDeferred x.method)

def Element.propertyAsides (isMixin : Bool) (e : Element) : List Aside :=
  [.member (propertyMember e.ownName e.ownType),
    .accessor (propertyAccessor e.ownName e.ownType isMixin)]

def sectionProperties (e : Element) : List Element :=
  if SectionKind.ofTag? e.tag = some .properties then e.children else []

def sectionLines (e : Element) : List String :=
  if SectionKind.ofTag? e.tag = some .imports then Text.trimmedLines e.text else []

def sectionAsides (isMixin : Bool) (e : Element) : List Aside :=
  (sectionProperties e).flatMap (Element.propertyAsides isMixin) ++
    if SectionKind.ofTag? e.tag = some .imports then [.author (sectionLines e)] else []

def Document.properties (d : Document) : List Element :=
  d.sections.flatMap sectionProperties

/-- The plan accounts for every member, every accessor and every method of the class of a
document. -/
structure Planned (d : Document) (c : ClassDef) (plan : List Portion) : Prop where
  sections : List.Forall₂ (Portion.IsOf d.isMixin) d.sections plan
  body : ∀ m, c.body m =
    (if m = Builtin.init then Compile.initBody d.isMixin else []) ++
      ((d.pieces plan).flatMap (Piece.writes m) ++
        ((plan.flatMap Portion.groups).flatMap (Station.checks m) ++
          (plan.flatMap Portion.groups).flatMap (Station.calls m)))
  members : ∀ {m}, m ∈ c.members ↔ m ∈ Compile.initMembers d.isMixin ∨
    (∃ x ∈ d.parts plan, m = x.member) ∨
    (∃ g ∈ plan.flatMap Portion.groups, m = groupMember g.entry.name) ∨
    ∃ e ∈ d.properties, m = propertyMember e.ownName e.ownType
  accessors : ∀ {a}, a ∈ c.accessors ↔
    (∃ x ∈ d.parts plan, x.object.isGiven = true ∧ a = x.accessor) ∨
    ∃ e ∈ d.properties, a = propertyAccessor e.ownName e.ownType d.isMixin
  consistent : c.Consistent
  nodup_names : ((d.pieces plan).flatMap Piece.names).Nodup
  known : ∀ {front m back}, (d.pieces plan).flatMap Piece.sights = front ++ .find m :: back →
    .mesh m ∈ front
  ensured : ∀ {kind objects}, .shared kind objects ∈ plan → ∀ o ∈ objects,
    o.ensured = usedFirst kind o.name d.outline
  nodup_groups : ((plan.flatMap Portion.groups).map (·.entry.name)).Nodup
  methods : ∀ g ∈ plan.flatMap Portion.groups,
    c.methodNames.count (Compile.groupMethod g.entry.name) = 1
  guarded : ∀ g ∈ plan.flatMap Portion.groups, ∃ rest,
    c.body (Compile.groupMethod g.entry.name) =
      .leaveIf (Compile.groupFlag g.entry.name) :: .raise (Compile.groupFlag g.entry.name) :: rest

lemma Planned.isOf {d c plan} (h : Planned d c plan) {q} (hq : q ∈ plan) :
    ∃ e, q.IsOf d.isMixin e := by
  obtain ⟨e, _, he⟩ := exists_of_forall₂ h.sections hq
  exact ⟨e, he⟩

lemma Piece.infix_writes {p : Piece} {ps : List Piece} (hp : p ∈ ps) :
    p.statements <:+: ps.flatMap (Piece.writes p.method) := by
  have hwrites := infix_of_mem_flatten (mem_map_of_mem (f := Piece.writes p.method) hp)
  rwa [Piece.writes, if_pos rfl, ← flatMap_def] at hwrites

lemma Planned.infix_body {d c plan} (h : Planned d c plan) {p} (hp : p ∈ d.pieces plan) :
    p.statements <:+: c.body p.method := by
  rw [h.body]
  exact (Piece.infix_writes hp).trans (infix_append' _ _ _)

lemma Compile.groupMethod_injective {g g'} (h : groupMethod g = groupMethod g') : g = g' :=
  (String.append_right_inj _).1 h

lemma flatMap_eq_of_nodup {α : Type} {gs : List Station} {g : Station}
    (h : (gs.map (·.entry.name)).Nodup) (hg : g ∈ gs) {f : Station → List α}
    (hf : ∀ x ∈ gs, x.entry.name ≠ g.entry.name → f x = []) : gs.flatMap f = f g := by
  obtain ⟨gs₁, gs₂, rfl⟩ := append_of_mem hg
  rw [map_append, map_cons, nodup_append, nodup_cons] at h
  obtain ⟨_, ⟨hafter, _⟩, hbefore⟩ := h
  have hnone₁ : gs₁.flatMap f = [] := flatMap_eq_nil_iff.2 fun x hx =>
    hf x (mem_append_left _ hx) (hbefore _ (mem_map_of_mem hx) _ mem_cons_self)
  have hnone₂ : gs₂.flatMap f = [] := flatMap_eq_nil_iff.2 fun x hx =>
    hf x (by simp [hx]) fun heq => hafter (mem_map.2 ⟨x, hx, heq⟩)
  rw [flatMap_append, flatMap_cons, hnone₁, hnone₂, nil_append, append_nil]

lemma flatMap_calls_eq {gs : List Station} {g : Station} (h : (gs.map (·.entry.name)).Nodup)
    (hg : g ∈ gs) : gs.flatMap (Station.calls (groupMethod g.entry.name)) =
      g.entry.call?.toList.map .callback := by
  rw [flatMap_eq_of_nodup h hg]
  · exact if_pos rfl
  · intro x _ hne
    exact if_neg fun heq => hne (groupMethod_injective heq)

lemma length_calls_le {gs : List Station} (h : (gs.map (·.entry.name)).Nodup) (m : String) :
    (gs.flatMap (Station.calls m)).length ≤ 1 := by
  by_cases hm : ∃ g ∈ gs, groupMethod g.entry.name = m
  · obtain ⟨g, hg, rfl⟩ := hm
    rw [flatMap_calls_eq h hg]
    cases g.entry.call? <;> simp
  · push Not at hm
    have hnone : gs.flatMap (Station.calls m) = [] :=
      flatMap_eq_nil_iff.2 fun g hg => if_neg (hm g hg)
    rw [hnone]
    exact Nat.zero_le 1

lemma eq_of_perm_of_length_le_one {α : Type} {l l' : List α} (h : l.Perm l')
    (hl : l'.length ≤ 1) : l = l' := by
  obtain hl | hl := Nat.le_one_iff_eq_zero_or_eq_one.1 hl
  · rw [length_eq_zero_iff] at hl
    rw [hl] at h ⊢
    exact h.eq_nil
  · obtain ⟨a, rfl⟩ := length_eq_one_iff.1 hl
    exact perm_singleton.1 h

lemma Part.filterMap_name_sights (x : Part) : x.sights.filterMap Sight.name? = [x.object.name] := by
  have hbase : (x.base?.toList.map Sight.find).filterMap Sight.name? = [] := by
    cases x.base? <;> rfl
  have hmesh : (if x.role.isMesh && x.object.isGiven then [Sight.mesh x.mesh] else []).filterMap
      Sight.name? = [] := by
    split <;> rfl
  have hnotes : (x.notes.flatMap Note.sights).filterMap Sight.name? = [] := by
    rw [filterMap_flatMap]
    refine flatMap_eq_nil_iff.2 fun n _ => ?_
    cases n <;> rfl
  rw [sights, filterMap_append, hbase, filterMap_cons, filterMap_append, hmesh, hnotes]
  rfl

lemma Piece.filterMap_name_sights (p : Piece) : p.sights.filterMap Sight.name? = p.names := by
  have hasides : (p.asides.map Sight.aside).filterMap Sight.name? = [] := by
    simp [filterMap_map, Sight.name?]
  rw [sights, filterMap_append, hasides, filterMap_flatMap, names,
    flatMap_congr fun x _ => x.filterMap_name_sights]
  exact (map_eq_flatMap ..).symm

lemma Draws.storage {es T ps gs} (h : Draws es T ps gs) :
    T.filterMap Effect.storage? = (ps.flatMap Piece.names).map storageName := by
  have hnames : T.filterMap Effect.storage? =
      ((T.filterMap Effect.sight?).filterMap Sight.name?).map storageName := by
    rw [filterMap_filterMap, map_filterMap]
    refine filterMap_congr fun e _ => ?_
    cases e <;> rfl
  rw [hnames, h.sights, filterMap_flatMap, flatMap_congr fun p _ => p.filterMap_name_sights]

lemma Draws.known {es T ps gs front m back} (h : Draws es T ps gs)
    (hknown : ∀ {T₁ m T₂}, T = T₁ ++ .find m :: T₂ → .mesh m ∈ T₁)
    (heq : ps.flatMap Piece.sights = front ++ .find m :: back) : .mesh m ∈ front := by
  rw [← h.sights] at heq
  obtain ⟨T₁, T', rfl, rfl, hT'⟩ := filterMap_eq_append_iff.1 heq
  obtain ⟨T₂, e, T₃, rfl, hnone, he, _⟩ := filterMap_eq_cons_iff.1 hT'
  have hfind : e = .find m := by
    cases e <;> cases he
    rfl
  subst hfind
  obtain hmesh | hmesh := mem_append.1 (hknown (append_assoc T₁ T₂ _).symm)
  · exact mem_filterMap.2 ⟨_, hmesh, rfl⟩
  · cases hnone _ hmesh

lemma Portion.declaration_mem_trace {isMixin kind objects o} (ho : o ∈ objects) :
    .declaration kind o.name o.ensured ∈ (Portion.shared kind objects).trace isMixin := by
  refine mem_flatMap.2 ⟨o, ho, ?_⟩
  exact mem_cons_self

lemma group_mem_of_mem_groupNames {T g} (h : g ∈ groupNames T) : .group g ∈ T := by
  obtain ⟨e, he, hg⟩ := mem_filterMap.1 h
  split at hg
  · cases hg
    exact he
  · cases hg

lemma Course.guarded {className isMixin visibility T s g}
    (tr : Course className isMixin visibility T s) (h : .group g ∈ T) :
    ∃ rest, s.generated.body (groupMethod g) =
      .leaveIf (groupFlag g) :: .raise (groupFlag g) :: rest := by
  obtain ⟨T₁, T₂, rfl⟩ := append_of_mem h
  obtain ⟨s₁, tr₁, tr₂⟩ := Trace.split tr
  have hbefore : T₁.flatMap (Effect.written (events (T₁ ++ .group g :: T₂))
      (groupMethod g)) = [] := by
    have hevents : events T₁ <+: events (T₁ ++ .group g :: T₂) := by
      rw [events_append]
      exact prefix_append _ _
    have hbody := Course.body tr₁ hevents (groupMethod g)
    cases tr₂ with
    | cons st _ =>
      cases st with
      | group hfree =>
        rw [ClassDef.body_eq_nil hfree, bodyOf] at hbody
        exact (append_eq_nil_iff.1 hbody.symm).2
  rw [tr.body prefix_rfl, bodyOf, if_neg (groupMethod_ne_init g),
    flatMap_append, hbefore, flatMap_cons, Effect.written, if_pos rfl]
  exact ⟨_, rfl⟩

lemma Part.object_mem_sights {x : Part} {type o deferred} :
    .object type o deferred ∈ x.sights ↔
      type = x.type ∧ o = x.object ∧ deferred = isDeferred x.method := by
  have hnotes : .object type o deferred ∉ x.notes.flatMap Note.sights := by
    intro h
    obtain ⟨n, _, h⟩ := mem_flatMap.1 h
    cases n with
    | statement | use => cases h
    | link => cases mem_singleton.1 h
  simp [sights, hnotes]

lemma Part.aside_not_mem_sights {x : Part} {a} : .aside a ∉ x.sights := by
  intro h
  have hnone : ∀ n : Note, .aside a ∉ n.sights := by
    intro n h
    cases n with
    | statement | use => cases h
    | link => cases mem_singleton.1 h
  simp only [sights, mem_append, mem_cons, mem_map, mem_flatMap, hnone, and_false,
    exists_false, or_false, reduceCtorEq, false_or] at h
  split at h <;> simp at h

namespace Draws

variable {es : List Event} {T : List Effect} {ps : List Piece} {gs : List Station}
  (h : Draws es T ps gs)
include h

lemma mem_object {type o deferred} : (∃ shared, .object type o deferred shared ∈ T) ↔
    ∃ x ∈ ps.flatMap Piece.parts, type = x.type ∧ o = x.object ∧ deferred = isDeferred x.method := by
  have hsight : (∃ shared, .object type o deferred shared ∈ T) ↔
      .object type o deferred ∈ T.filterMap Effect.sight? := by
    rw [mem_filterMap]
    constructor
    · rintro ⟨shared, he⟩
      exact ⟨_, he, rfl⟩
    · rintro ⟨e, he, heq⟩
      cases e <;> cases heq
      exact ⟨_, he⟩
  rw [hsight, h.sights]
  simp [Piece.sights, mem_flatMap, Part.object_mem_sights]
  grind

lemma mem_aside {a} : (∃ e ∈ T, e.sight? = some (.aside a)) ↔ a ∈ ps.flatMap Piece.asides := by
  rw [← mem_filterMap, h.sights]
  simp [Piece.sights, mem_flatMap, Part.aside_not_mem_sights]

lemma mem_group {g} : .group g ∈ T ↔ ∃ y ∈ gs, y.entry.name = g := by
  have hnames : .group g ∈ T ↔ g ∈ groupNames T := by
    refine ⟨fun he => ?_, group_mem_of_mem_groupNames⟩
    exact mem_filterMap.2 ⟨.group g, he, rfl⟩
  rw [hnames, h.groups, mem_map]

lemma mem_brings {m} : m ∈ T.filterMap Effect.brings? ↔
    (∃ x ∈ ps.flatMap Piece.parts, m = x.member) ∨ (∃ g ∈ gs, m = groupMember g.entry.name) ∨
      .member m ∈ ps.flatMap Piece.asides := by
  rw [mem_filterMap, ← h.mem_aside]
  constructor
  · rintro ⟨e, he, hm⟩
    cases e with
    | object type o deferred shared =>
      obtain ⟨x, hx, rfl, rfl, rfl⟩ := h.mem_object.1 ⟨shared, he⟩
      exact .inl ⟨x, hx, (Option.some.inj hm).symm⟩
    | group g =>
      obtain ⟨y, hy, rfl⟩ := h.mem_group.1 he
      exact .inr (.inl ⟨y, hy, (Option.some.inj hm).symm⟩)
    | field name type =>
      cases hm
      exact .inr (.inr ⟨_, he, rfl⟩)
    | _ => cases hm
  · rintro (⟨x, hx, rfl⟩ | ⟨g, hg, rfl⟩ | ⟨e, he, ha⟩)
    · obtain ⟨shared, he⟩ := h.mem_object.2 ⟨x, hx, rfl, rfl, rfl⟩
      exact ⟨_, he, rfl⟩
    · exact ⟨_, h.mem_group.2 ⟨g, hg, rfl⟩, rfl⟩
    · cases e with
      | field name type =>
        cases ha
        exact ⟨_, he, rfl⟩
      | _ => cases ha

lemma mem_reads {a} : a ∈ T.filterMap Effect.reads? ↔
    (∃ x ∈ ps.flatMap Piece.parts, x.object.isGiven = true ∧ a = x.accessor) ∨
      .accessor a ∈ ps.flatMap Piece.asides := by
  rw [mem_filterMap, ← h.mem_aside]
  constructor
  · rintro ⟨e, he, ha⟩
    cases e with
    | object type o deferred shared =>
      obtain ⟨x, hx, rfl, rfl, rfl⟩ := h.mem_object.1 ⟨shared, he⟩
      rw [Effect.reads?] at ha
      split at ha
      · next hgiven => exact .inl ⟨x, hx, hgiven, (Option.some.inj ha).symm⟩
      · cases ha
    | accessor =>
      cases ha
      exact .inr ⟨_, he, rfl⟩
    | _ => cases ha
  · rintro (⟨x, hx, hgiven, rfl⟩ | ⟨e, he, ha⟩)
    · obtain ⟨shared, he⟩ := h.mem_object.2 ⟨x, hx, rfl, rfl, rfl⟩
      exact ⟨_, he, if_pos hgiven⟩
    · cases e with
      | accessor =>
        cases ha
        exact ⟨_, he, rfl⟩
      | _ => cases ha

end Draws

lemma Portion.IsOf.asides {isMixin e q} (h : Portion.IsOf isMixin e q) (es : List Event) :
    (q.pieces isMixin es).flatMap Piece.asides = sectionAsides isMixin e := by
  have none : ∀ {ps : List Piece}, (∀ p ∈ ps, p.asides = []) → ps.flatMap Piece.asides = [] :=
    fun h => flatMap_eq_nil_iff.2 h
  unfold sectionAsides sectionProperties sectionLines
  cases h with
  | nodes hkind =>
    rw [hkind]
    refine none fun p hp => ?_
    obtain ⟨y, _, hp⟩ := mem_flatMap.1 hp
    obtain hp | hp := mem_append.1 hp
    · split at hp
      · rw [mem_singleton.1 hp]
      · cases hp
    · rw [mem_singleton.1 hp]
      rfl
  | guis hkind =>
    rw [hkind]
    refine none fun p hp => ?_
    obtain ⟨r, _, hp⟩ := mem_flatMap.1 hp
    obtain ⟨y, _, rfl⟩ := mem_map.1 hp
    rfl
  | @shared kind objects hkind =>
    have hshared : ∀ p ∈ (Portion.shared kind objects).pieces isMixin es, p.asides = [] := by
      intro p hp
      obtain ⟨o, _, rfl⟩ := mem_map.1 hp
      rfl
    rw [hkind, none hshared]
    cases kind <;> rfl
  | properties hkind helements =>
    rw [hkind, ← helements, pieces, flatMap_map, if_pos rfl, flatMap_map]
    exact (append_nil _).symm
  | imports hkind =>
    rw [hkind]
    rfl

lemma asides_of_sections {isMixin sections plan}
    (h : List.Forall₂ (Portion.IsOf isMixin) sections plan) (es : List Event) :
    (plan.flatMap (Portion.pieces isMixin es)).flatMap Piece.asides =
      sections.flatMap (sectionAsides isMixin) := by
  induction h with
  | nil => rfl
  | cons hq _ ih => rw [flatMap_cons, flatMap_append, hq.asides, ih, flatMap_cons]

lemma Document.mem_asides {d : Document} {a : Aside} (ha : ∀ lines, a ≠ .author lines) :
    a ∈ d.sections.flatMap (sectionAsides d.isMixin) ↔
      ∃ e ∈ d.properties, a ∈ e.propertyAsides d.isMixin := by
  simp only [sectionAsides, properties, mem_flatMap, mem_append]
  constructor
  · rintro ⟨e, he, ⟨p, hp, hmem⟩ | hmem⟩
    · exact ⟨p, ⟨e, he, hp⟩, hmem⟩
    · split at hmem
      · exact absurd (mem_singleton.1 hmem) (ha _)
      · cases hmem
  · rintro ⟨p, ⟨e, he, hp⟩, hmem⟩
    exact ⟨e, he, .inl ⟨p, hp, hmem⟩⟩

def Aside.lines : Aside → List String
  | author lines => lines
  | member _ | accessor _ => []

def Sight.lines : Sight → List String
  | aside a => a.lines
  | object .. | mesh _ | find _ => []

lemma Draws.authorLines {es T ps gs} (h : Draws es T ps gs) :
    T.flatMap Effect.authorLines = (ps.flatMap Piece.asides).flatMap Aside.lines := by
  have hpart : ∀ x : Part, x.sights.flatMap Sight.lines = [] := by
    refine fun x => flatMap_eq_nil_iff.2 fun i hi => ?_
    cases i with
    | aside => exact absurd hi Part.aside_not_mem_sights
    | _ => rfl
  have hpiece : ∀ p : Piece, p.sights.flatMap Sight.lines = p.asides.flatMap Aside.lines := by
    intro p
    rw [Piece.sights, flatMap_append, flatMap_map, flatMap_assoc,
      flatMap_eq_nil_iff.2 fun x _ => hpart x, append_nil]
    rfl
  have htrace : T.flatMap Effect.authorLines = (T.filterMap Effect.sight?).flatMap Sight.lines := by
    rw [filterMap_eq_flatMap_toList, flatMap_assoc]
    refine flatMap_congr fun e _ => ?_
    cases e with
    | author => exact (append_nil _).symm
    | _ => rfl
  rw [htrace, h.sights, flatMap_assoc, flatMap_assoc]
  exact flatMap_congr fun p _ => hpiece p

lemma sectionAsides_lines (isMixin : Bool) (e : Element) :
    (sectionAsides isMixin e).flatMap Aside.lines = sectionLines e := by
  have hproperties : ((sectionProperties e).flatMap (Element.propertyAsides isMixin)).flatMap
      Aside.lines = [] := by
    rw [flatMap_assoc]
    exact flatMap_eq_nil_iff.2 fun _ _ => rfl
  rw [sectionAsides, flatMap_append, hproperties, nil_append]
  split
  · exact append_nil _
  · next h => exact (if_neg h).symm

lemma flatMap_whole {α : Type} {f : Effect → List α} {d : Document} {A W : List Effect}
    (hW : ∀ e ∈ W, PutOff e) (hfirst : ∀ {e : Effect}, e.IsFirstLook → f e = [])
    (hrelease : f .release = []) (hemit : ∀ site st, f (.emit site st) = []) :
    (d.names ++ (A ++ .release :: W)).flatMap f = A.flatMap f := by
  have hnames : d.names.flatMap f = [] :=
    flatMap_eq_nil_iff.2 fun e he => hfirst (d.isFirstLook he)
  have hwaiting : W.flatMap f = [] := by
    refine flatMap_eq_nil_iff.2 fun e he => ?_
    cases hW e he
    exact hemit _ _
  rw [flatMap_append, flatMap_append, flatMap_cons, hnames, hrelease, hwaiting]
  exact append_nil _

lemma filterMap_whole {α : Type} {f : Effect → Option α} {d : Document} {A W : List Effect}
    (hW : ∀ e ∈ W, PutOff e) (hfirst : ∀ {e : Effect}, e.IsFirstLook → f e = none)
    (hrelease : f .release = none) (hemit : ∀ site st, f (.emit site st) = none) :
    (d.names ++ (A ++ .release :: W)).filterMap f = A.filterMap f := by
  rw [filterMap_eq_flatMap_toList, filterMap_eq_flatMap_toList]
  refine flatMap_whole hW (fun he => ?_) ?_ fun site st => ?_
  · rw [hfirst he]
    rfl
  · rw [hrelease]
    rfl
  · rw [hemit]
    rfl

lemma Whole.planned {d : Document} {className visibility T s} (hw : Whole d T)
    (tr : Course className d.isMixin visibility T s) :
    ∃ plan, Planned d s.generated plan ∧ plan.flatMap (Portion.trace d.isMixin) ⊆ T ∧
      T.flatMap Effect.authorLines = d.sections.flatMap sectionLines := by
  have hevents := hw.events
  have hstorage := tr.nodup_storage
  have hgroups := tr.nodup_groups
  have hbody := fun m => tr.body (prefix_rfl) m
  have hmembers := tr.members
  have haccessors := tr.accessors
  rw [hevents] at hbody
  cases hw with
  | @intro A W plan _ hW hresumed hplan hA =>
    have hdraws : Draws d.outline A (d.pieces plan) (plan.flatMap Portion.groups) :=
      hA ▸ draws_of_sections hplan d.outline
    have hasides : (d.pieces plan).flatMap Piece.asides =
        d.sections.flatMap (sectionAsides d.isMixin) := asides_of_sections hplan d.outline
    have hmem : ∀ {e}, e ∈ A → e ∈ d.names ++ (A ++ .release :: W) :=
      fun he => mem_append_right _ (mem_append_left _ he)
    have hsub : A.Sublist (d.names ++ (A ++ .release :: W)) :=
      (sublist_append_left _ _).trans (sublist_append_right _ _)
    have hgroups' : ((plan.flatMap Portion.groups).map (·.entry.name)).Nodup :=
      hdraws.groups ▸ hgroups.sublist (hsub.filterMap _)
    have hopen : ∀ g ∈ plan.flatMap Portion.groups, .group g.entry.name ∈ A :=
      fun g hg => hdraws.mem_group.2 ⟨g, hg, rfl⟩
    refine ⟨plan, ⟨hplan, fun m => ?_, fun {m} => ?_, fun {a} => ?_, tr.consistent, ?_,
      fun heq => hdraws.known (fun hT => ?_) heq, fun hq o ho => ?_, hgroups', fun g hg => ?_,
      fun g hg => ?_⟩, hA ▸ hsub.subset, ?_⟩
    · have hcalls := eq_of_perm_of_length_le_one (hdraws.calls m) (length_calls_le hgroups' m)
      rw [hbody, bodyOf, flatMap_append, flatMap_append, flatMap_cons, written_names,
        hresumed m, hdraws.written, hdraws.checks, hcalls]
      rfl
    · rw [hmembers, filterMap_whole hW (fun he => by cases he <;> rfl) rfl fun _ _ => rfl,
        mem_append, hdraws.mem_brings, hasides, Document.mem_asides (by simp)]
      simp [Element.propertyAsides, Document.parts]
    · rw [haccessors, filterMap_whole hW (fun he => by cases he <;> rfl) rfl fun _ _ => rfl,
        hdraws.mem_reads, hasides, Document.mem_asides (by simp)]
      simp [Element.propertyAsides, Document.parts]
    · have hobjects := hstorage.sublist (hsub.filterMap _)
      rw [hdraws.storage] at hobjects
      exact hobjects.of_map _
    · subst hT
      rw [append_assoc, cons_append, ← append_assoc] at tr
      obtain hm | hm := mem_append.1 tr.mesh_before_find
      · cases d.isFirstLook hm
      · exact hm
    · have hdeclared : .declaration _ o.name o.ensured ∈ A :=
        hA ▸ mem_flatMap.2 ⟨_, hq, Portion.declaration_mem_trace ho⟩
      exact hevents ▸ tr.ensured (hmem hdeclared)
    · have hmethod := (Trace.hosts_group tr (hmem (hopen g hg))).1
      have hle := tr.count_methodNames (m := groupMethod g.entry.name) prefix_rfl
        fun heq => absurd heq.symm (ensureMethod_ne_groupMethod _ _)
      rw [ClassDef.hasMethod_iff_mem, ← count_pos_iff] at hmethod
      omega
    · exact tr.guarded (hmem (hopen g hg))
    · rw [flatMap_whole hW (fun he => by cases he <;> rfl) rfl fun _ _ => rfl, hdraws.authorLines,
        hasides, flatMap_assoc]
      exact flatMap_congr fun e _ => sectionAsides_lines _ _

lemma Document.planned {d : Document} {options c} (h : d.generated? options = some c) :
    ∃ plan, Planned d c plan := by
  obtain ⟨className, T, s, tr, hw, rfl⟩ := d.course h
  obtain ⟨plan, hplan, _⟩ := hw.planned tr
  exact ⟨plan, hplan⟩

end SceneView
