import SceneView.Proofs.Growth
import SceneView.Proofs.Plan

/-!
# The trace of a compilation

A compilation first reserves the names of the document and registers the shared objects, then brings
what the outline of the document says, and at last writes what was put off. Since every registered
object has its declaration in the outline, nothing is left to declare at the end.
-/

open List

namespace SceneView

open Effect

/-- The shared objects that the first look at a section registers. -/
def sectionRegisters (e : Element) : List Effect :=
  match SectionKind.ofTag? e.tag with
  | some .materials => e.children.map fun c => .register .material c.ownName
  | some .textures => e.children.map fun c => .register .texture c.ownName
  | some .imports | some .properties | some .nodes | some .guis | none => []

def sectionNames (e : Element) : List Effect :=
  .reserve (Compile.namesInAll e.children) :: sectionRegisters e

def Document.names (d : Document) : List Effect :=
  d.sections.flatMap sectionNames

/-- The first look reserves names and registers shared objects. -/
inductive Effect.IsFirstLook : Effect → Prop where
  | reserve {names} : IsFirstLook (.reserve names)
  | register {kind name} : IsFirstLook (.register kind name)

variable {d : Document}

lemma Document.isFirstLook {x} (h : x ∈ d.names) : x.IsFirstLook := by
  obtain ⟨e, _, h⟩ := mem_flatMap.1 h
  obtain rfl | h := mem_cons.1 h
  · exact .reserve
  · unfold sectionRegisters at h
    split at h
    iterate 2
      · obtain ⟨c, _, rfl⟩ := mem_map.1 h
        exact .register
    all_goals cases h

lemma Document.flatMap_reserved (d : Document) :
    d.names.flatMap Effect.reserved = d.reserved := by
  simp only [names, reserved, flatMap_assoc, map_flatMap]
  refine flatMap_congr fun e _ => ?_
  have hregisters : (sectionRegisters e).flatMap Effect.reserved = [] := by
    unfold sectionRegisters
    split <;> simp [Effect.reserved]
  rw [sectionNames, flatMap_cons, hregisters, append_nil]
  rfl

lemma declared_of_registered {kind name} (h : .register kind name ∈ d.names) :
    .declaration kind name ∈ d.outline := by
  obtain ⟨e, he, h⟩ := mem_flatMap.1 h
  refine mem_flatMap.2 ⟨e, he, ?_⟩
  simp only [sectionNames, mem_cons, reduceCtorEq, false_or] at h
  have each : ∀ k, .register kind name ∈ e.children.map (fun c => register k c.ownName) →
      .declaration kind name ∈ e.children.flatMap (sharedOutline k) := by
    intro k h
    obtain ⟨c, hc, heq⟩ := mem_map.1 h
    cases heq
    exact mem_flatMap.2 ⟨c, hc, by simp [sharedOutline]⟩
  unfold sectionRegisters at h
  unfold sectionOutline
  cases hk : SectionKind.ofTag? e.tag with
  | none => simp [hk] at h
  | some k =>
    rw [hk] at h
    cases k with
    | materials => exact each .material h
    | textures => exact each .texture h
    | _ => cases h

lemma Assembled.not_mem {es T} (h : Assembled es T) {e} (hord : ∀ P, ¬ e.Ordinary P)
    (he : ∀ site st, e ≠ .emit site st) (hd : ∀ kind name b, e ≠ .declaration kind name b)
    (ho : ∀ type o deferred shared, e ≠ .object type o deferred shared) : e ∉ T := by
  induction h with
  | nil => exact not_mem_nil
  | loose hl _ ih =>
    rw [mem_append, not_or]
    exact ⟨fun hmem => hord _ (hl.ordinary e hmem), ih⟩
  | block hb _ ih =>
    rw [mem_append, not_or]
    refine ⟨fun hmem => ?_, ih⟩
    cases hb with
    | intro _ hl =>
      rw [mem_blockEffects he (hd _ _ _) (ho _ _ _ _)] at hmem
      exact hord _ (hl.ordinary e hmem)

lemma Assembled.not_isFirstLook {es T} (h : Assembled es T) {e} (he : e ∈ T) : ¬ e.IsFirstLook := by
  intro hfirst
  cases hfirst with
  | reserve | register => exact h.not_mem (fun _ => id) (by simp) (by simp) (by simp) he

namespace Compile

lemma register_replies (t : SharedTable) (kind : SharedKind) (name method : String) :
    Replies (t.register kind name method) fun t' => t.register kind name method = .ok t' := by
  unfold SharedTable.register
  split
  · exact .error rfl
  · exact .ok rfl

lemma registerShared_yields (s : Session) (kind : SharedKind) (e : Element) :
    Yields (registerShared kind e) s fun _ T => T = [.register kind e.ownName] := by
  unfold registerShared
  refine .quiet (.lift (e.require_answers _)) fun raw s1 _ hraw => ?_
  rw [(sharedName hraw).1]
  refine .quiet (log_quiet _ _) fun _ s2 _ _ => .located (.get ?_)
  refine .lift (register_replies _ _ _ _) fun t ht => ?_
  refine .modify (e := .register kind (Text.trim raw)) (.register ht) ?_ rfl
  exact .still (fun hs => hs.register ht rfl) rfl rfl rfl

variable {isMixin : Bool}

lemma lookAhead_writes (e : Element) :
    Writes isMixin (.method Builtin.init) Builtin.init (lookAhead e) fun _ T => T = sectionNames e := by
  unfold lookAhead
  have each : ∀ kind, Writes isMixin (.method Builtin.init) Builtin.init
      (e.children.forM (registerShared kind))
      fun _ T => T = e.children.map fun c => .register kind c.ownName := by
    intro kind
    refine .forM_of (Q := fun l T => T = l.map fun c => .register kind c.ownName) rfl ?_
      fun c _ s _ => registerShared_yields s kind c
    intro a l T T' hT hT'
    rw [hT, hT']
    rfl
  intro s hs
  have st : Step s.core (.reserve (namesInAll e.children)) _ := .reserve
  refine .modify_bind st rfl (.step rfl rfl) fun s1 hc => ?_
  refine Writes.mono (Φ := fun _ T => T = sectionRegisters e) ?_ (fun _ _ hT => hT ▸ rfl) s1
    (hs.trace (hc ▸ st.trace))
  unfold sectionRegisters
  cases SectionKind.ofTag? e.tag with
  | none => exact .pure rfl
  | some kind =>
    cases kind with
    | materials => exact each .material
    | textures => exact each .texture
    | nodes => exact .of_quiet (.modify (fun _ => rfl) fun _ => .same rfl) fun _ _ => rfl
    | _ => exact .pure rfl

lemma lookAheads_writes (d : Document) :
    Writes isMixin (.method Builtin.init) Builtin.init (d.sections.forM lookAhead) fun _ T => T = d.names :=
  .forM_of (Q := fun l T => T = l.flatMap sectionNames) rfl (fun hT hT' => by rw [hT, hT']; rfl)
    fun e _ => lookAhead_writes e

variable {s : Session}

/-- What holds of a session from section to section. -/
structure Steady (isMixin : Bool) (s : Session) : Prop where
  sound : Sound s.core
  isMixin : s.isMixin = isMixin

lemma Steady.trace {s' T} (h : Steady isMixin s) (tr : Trace s.core T s'.core) :
    Steady isMixin s' :=
  ⟨tr.sound h.sound, tr.isMixin.trans h.isMixin⟩

/-- The trace is that of a section. -/
def Portrays (isMixin : Bool) (e : Element) (T : List Effect) : Prop :=
  ∃ q : Portion, q.IsOf isMixin e ∧ T = q.trace isMixin

lemma shared_yields {e : Element} (kind : SharedKind) {f : Element → Compile Unit}
    (hkind : SectionKind.ofTag? e.tag = some kind.home) (hs : Sound s.core)
    (h : ∀ c s, Sound s.core → Yields (f c) s fun _ T => Shares s.isMixin kind c T) :
    Yields (e.children.forM f) s fun _ T => Portrays s.isMixin e T := by
  refine Yields.mono (Yields.forM_of (I := Steady s.isMixin) .trace
    (R := Shares s.isMixin kind)
    (Q := fun l T => ∃ objects, List.Forall₂ (fun c (o : SharedObject) =>
        o.part.IsShared s.isMixin kind c o.ensured o.slots) l objects ∧
      T = objects.flatMap (SharedObject.trace s.isMixin kind))
    ⟨[], .nil, rfl⟩ ?_ (fun c _ s1 hs1 => hs1.isMixin ▸ h c s1 hs1.sound) ⟨hs, rfl⟩) ?_
  · rintro c l _ _ ⟨ensured, slots, x, hx, rfl⟩ ⟨objects, hobjects, rfl⟩
    obtain ⟨role, _, hfor⟩ := hx.isFor
    refine ⟨⟨x, slots, ensured⟩ :: objects, .cons hx hobjects, ?_⟩
    rw [flatMap_cons, SharedObject.trace, SharedObject.name, hfor.element]
  · rintro _ _ ⟨objects, hobjects, rfl⟩
    exact ⟨.shared kind objects, .shared hkind hobjects, rfl⟩

lemma properties_yields {e : Element} (hkind : SectionKind.ofTag? e.tag = some .properties)
    (hs : Sound s.core) :
    Yields (e.children.forM property) s fun _ T => Portrays s.isMixin e T := by
  refine Yields.mono (Yields.forM_of (I := Steady s.isMixin) .trace
    (R := fun c T => ∃ first, c.Starts s.isMixin first ∧ T = c.propertyTrace s.isMixin first)
    (Q := fun l T => ∃ firsts : List (Element × List Statement), firsts.map (·.1) = l ∧
      (∀ p ∈ firsts, p.1.Starts s.isMixin p.2) ∧
      T = firsts.flatMap fun p => p.1.propertyTrace s.isMixin p.2)
    ⟨[], rfl, by simp, rfl⟩ ?_ (fun c _ s1 hs1 => hs1.isMixin ▸ property_yields hs1.sound c) ⟨hs, rfl⟩) ?_
  · rintro c l _ _ ⟨first, hfirst, rfl⟩ ⟨firsts, rfl, hfirsts, rfl⟩
    exact ⟨(c, first) :: firsts, rfl, forall_mem_cons.2 ⟨hfirst, hfirsts⟩, rfl⟩
  · rintro _ _ ⟨firsts, helements, hfirsts, rfl⟩
    exact ⟨.properties firsts, .properties hkind helements hfirsts, rfl⟩

lemma guis_yields {e : Element} (hkind : SectionKind.ofTag? e.tag = some .guis)
    (hs : Sound s.core) :
    Yields (guis e.children) s fun _ T => Portrays s.isMixin e T := by
  have ready : Ready s.isMixin (.method Builtin.init) Builtin.init s :=
    ⟨hs, .method hs.hosts_init, rfl⟩
  unfold guis
  refine .bind (addImport_writes _ _ s ready) fun _ s1 _ tr1 hT1 => ?_
  refine .bind (addImport_writes _ _ s1 (ready.trace tr1)) fun _ s2 _ tr2 hT2 => ?_
  have hs2 : Steady s.isMixin s2 := .trace (.trace ⟨hs, rfl⟩ tr1) tr2
  rw [hT1, hT2]
  refine Yields.mono (Yields.forM_of (I := Steady s.isMixin) .trace
    (R := fun c T => ∃ method, IsHost method ∧ DrawnIn s.isMixin method c T)
    (Q := fun l T => ∃ roots : List (String × Branch), roots.map (·.2.element) = l ∧
      (∀ r ∈ roots, IsHost r.1 ∧ ∀ y ∈ r.2.stations [], y.Fits (guiGrowth s.isMixin r.1)) ∧
      T = roots.flatMap fun r => r.2.trace (guiGrowth s.isMixin r.1) [])
    ⟨[], rfl, by simp, rfl⟩ ?_ (fun c _ s1 hs1 => hs1.isMixin ▸ gui_yields hs1.sound c) hs2) ?_
  · rintro _ l _ _ ⟨method, hhost, b, rfl, hfits, rfl⟩ ⟨roots, rfl, hroots, rfl⟩
    exact ⟨(method, b) :: roots, rfl, forall_mem_cons.2 ⟨⟨hhost, hfits⟩, hroots⟩, rfl⟩
  · rintro _ _ ⟨roots, helements, hroots, rfl⟩
    exact ⟨.guis roots, .guis hkind helements hroots, rfl⟩

lemma sectionElement_yields (hs : Sound s.core) (rootTag : String) (e : Element) :
    Yields (sectionElement rootTag e) s fun _ T => Portrays s.isMixin e T := by
  unfold sectionElement
  cases hkind : SectionKind.ofTag? e.tag with
  | none => exact .throw rfl
  | some kind =>
    refine .quiet (log_quiet _ _) fun _ s1 hc _ => ?_
    have hs1 : Sound s1.core := hc ▸ hs
    have hmixin : s1.isMixin = s.isMixin := congrArg Core.isMixin hc
    rw [← hmixin]
    cases kind with
    | imports =>
      exact .modify .author (.lines _ _) ⟨.imports _, .imports hkind, rfl⟩
    | properties => exact properties_yields hkind hs1
    | nodes =>
      have ready : Ready s1.isMixin (.method Placement.top.method) Placement.top.method s1 :=
        ⟨hs1, .method hs1.hosts_init, rfl⟩
      have hmethod : Placement.top.method = methodBelow [] := rfl
      refine (nodes_yields e.children hmethod rfl ready).mono ?_
      rintro _ _ ⟨forest, hforest, hfits, rfl⟩
      exact ⟨.nodes forest, .nodes hkind hforest hfits, rfl⟩
    | materials => exact shared_yields .material hkind hs1 fun c s hs => sharedMaterial_yields hs c
    | textures => exact shared_yields .texture hkind hs1 fun c s hs => sharedTexture_yields hs c
    | guis => exact guis_yields hkind hs1

lemma sections_yields (hs : Sound s.core) (d : Document) :
    Yields (d.sections.forM (sectionElement d.root.tag)) s fun _ T =>
      ∃ plan : List Portion, List.Forall₂ (Portion.IsOf s.isMixin) d.sections plan ∧
        T = plan.flatMap (Portion.trace s.isMixin) := by
  refine .forM_of (I := Steady s.isMixin) .trace
    (R := Portrays s.isMixin)
    (Q := fun l T => ∃ plan : List Portion, List.Forall₂ (Portion.IsOf s.isMixin) l plan ∧
      T = plan.flatMap (Portion.trace s.isMixin))
    ⟨[], .nil, rfl⟩ ?_ ?_ ⟨hs, rfl⟩
  · rintro e l _ _ ⟨q, hq, rfl⟩ ⟨plan, hplan, rfl⟩
    exact ⟨q :: plan, .cons hq hplan, rfl⟩
  · intro e _ s1 hs1
    exact hs1.isMixin ▸ sectionElement_yields hs1.sound d.root.tag e

lemma emitWaiting_yields (hs : Sound s.core) {l : List (String × Statement)}
    (hl : ∀ p ∈ l, s.core.Hosts p.1) :
    Yields (l.forM fun (method, statement) => emit method statement) s fun _ T =>
      T = l.map fun p => .emit (.method p.1) p.2 := by
  induction l generalizing s with
  | nil => exact .pure rfl
  | cons p l ih =>
    have hp := hl p mem_cons_self
    have ready : Ready s.isMixin (.method p.1) p.1 s := ⟨hs, .method hp, rfl⟩
    refine .bind (emit_writes p.2 s ready) fun _ s' T tr hT => ?_
    refine (ih (tr.sound hs) fun q hq => tr.hosts (hl q (mem_cons_of_mem _ hq))).mono ?_
    rintro _ T' rfl
    rw [hT]
    rfl

/-- A change that writes a statement that was put off. -/
inductive PutOff : Effect → Prop where
  | intro {m st} : IsHost m → st.IsPutOff → PutOff (.emit (.method m) st)

lemma flush_yields (hs : Sound s.core) :
    Yields flush s fun _ T => ∃ W, T = .release :: W ∧ (∀ e ∈ W, PutOff e) ∧
      W = (s.triggers ++ s.callbacks).map fun p => .emit (.method p.1) p.2 := by
  unfold flush
  have st : Step s.core .release { s with triggers := [], callbacks := [] }.core := .release
  refine .get (.set_bind st (.step rfl rfl) ?_)
  have hl : ∀ p ∈ s.triggers ++ s.callbacks, s.core.Hosts p.1 ∧ p.2.IsPutOff := hs.waiting
  refine (emitWaiting_yields (st.sound hs) fun p hp => st.hosts (hl p hp).1).mono fun _ T hT => ?_
  refine ⟨T, rfl, fun e he => ?_, hT⟩
  rw [hT] at he
  obtain ⟨p, hp, rfl⟩ := mem_map.1 he
  exact .intro (hl p hp).1.2 (hl p hp).2

end Compile

/-- What was put off in the sections is written behind them. -/
def Resumed (es : List Event) (A W : List Effect) : Prop :=
  ∀ m, W.flatMap (Effect.written es m) =
    A.flatMap (Effect.checks m) ++ A.flatMap (Effect.calls m)

/-- The trace of a whole compilation. -/
inductive Whole (d : Document) : List Effect → Prop where
  | intro {A W plan} :
    Assembled d.outline A →
    (∀ e ∈ W, Compile.PutOff e) →
    Resumed d.outline A W →
    List.Forall₂ (Portion.IsOf d.isMixin) d.sections plan →
    A = plan.flatMap (Portion.trace d.isMixin) →
    Whole d (d.names ++ (A ++ .release :: W))

lemma events_names (d : Document) : events d.names = [] := by
  refine filterMap_eq_nil_iff.2 fun x hx => ?_
  cases d.isFirstLook hx <;> rfl

lemma madeUp_names (d : Document) : d.names.filterMap madeUp? = [] := by
  refine filterMap_eq_nil_iff.2 fun x hx => ?_
  cases d.isFirstLook hx <;> rfl

lemma events_putOff {W} (h : ∀ e ∈ W, Compile.PutOff e) : events W = [] := by
  refine filterMap_eq_nil_iff.2 fun x hx => ?_
  cases h x hx
  rfl

namespace Whole

variable {d : Document} {T : List Effect}

lemma events (h : Whole d T) : events T = d.outline := by
  cases h with
  | intro hA hW =>
    simp [events_names, hA.events, events_putOff hW, event?]

lemma declared (h : Whole d T) {kind name} (hr : .register kind name ∈ T) :
    .declaration kind name ∈ d.outline := by
  cases h with
  | intro hA hW =>
    simp only [mem_append, mem_cons, reduceCtorEq, false_or] at hr
    obtain hr | hr | hr := hr
    · exact declared_of_registered hr
    · exact absurd .register (hA.not_isFirstLook hr)
    · cases hW _ hr

lemma fields (h : Whole d T) {n type} (hf : .field n type ∈ T) : .property n ∈ d.outline := by
  cases h with
  | intro hA hW =>
    simp only [mem_append, mem_cons, reduceCtorEq, false_or] at hf
    obtain hf | hf | hf := hf
    · cases d.isFirstLook hf
    · exact hA.fields hf
    · cases hW _ hf

lemma event_mem (h : Whole d T) {e v} (he : e ∈ T) (hv : e.event? = some v) : v ∈ d.outline :=
  h.events ▸ mem_events he hv

lemma authored (h : Whole d T) {e n} (he : e ∈ T) (hn : n ≠ "")
    (hm : e.member? = some (storageName n)) : e.madeUp? = some n ∨ n ∈ d.reserved := by
  cases e with
  | object type o deferred shared =>
    obtain rfl : o.name = n := storageName_injective (Option.some.inj hm)
    cases hgiven : o.isGiven with
    | false => exact .inl (by simp [madeUp?, hgiven])
    | true =>
      have hv : .object type (some o.name) ∈ d.outline :=
        h.event_mem he (by simp [event?, hgiven])
      exact .inr (d.mem_reserved (mem_filterMap.2 ⟨_, hv, rfl⟩) hn)
  | field name type =>
    obtain rfl : name = n := storageName_injective (Option.some.inj hm)
    exact .inr (d.mem_reserved (mem_filterMap.2 ⟨_, h.fields he, rfl⟩) hn)
  | group g => exact absurd (Option.some.inj hm) (Compile.groupFlag_ne_storageName g n)
  | _ => cases hm

lemma madeUp (h : Whole d T) {className visibility s}
    (tr : Course className d.isMixin visibility T s) :
    T.filterMap Effect.madeUp? = d.madeUpNames := by
  have authored := fun e he n => h.authored (e := e) (n := n) he
  have hevents := h.events
  have hreserved := d.flatMap_reserved
  cases h with
  | @intro A W _ hA hW _ _ _ =>
    have hprepared : Prepared d.names (A ++ .release :: W) := by
      refine ⟨fun e he => ?_, fun e he => ?_, fun e he n hn hm => ?_⟩
      · cases d.isFirstLook he <;> rfl
      · obtain he | he := mem_append.1 he
        · cases e with
          | reserve => exact absurd .reserve (hA.not_isFirstLook he)
          | _ => rfl
        · obtain rfl | he := mem_cons.1 he
          · rfl
          · cases hW e he
            rfl
      · rw [hreserved]
        exact authored e (mem_append_right _ he) n hn hm
    rw [events_append, events_names, nil_append] at hevents
    rw [filterMap_append, madeUp_names, nil_append, hprepared.madeUp_eq tr, hevents, hreserved]
    rfl

end Whole

lemma flatMap_written_waiting {es m} {waiting? : Effect → Option (String × _)} (T : List Effect)
    (found) (h : ∀ e, ((waiting? e).toList.map fun p => .emit (.method p.1) p.2).flatMap
      (written es m) = found e) :
    ((T.filterMap waiting?).map fun p => .emit (.method p.1) p.2).flatMap (written es m) =
      T.flatMap found := by
  rw [filterMap_eq_flatMap_toList, map_flatMap, flatMap_assoc]
  exact flatMap_congr fun e _ => h e

lemma resumed_of_course {className visibility A s} (hA : Assembled d.outline A)
    (tr : Course className d.isMixin visibility (d.names ++ A) s) :
    Resumed d.outline A ((s.triggers ++ s.callbacks).map fun p => .emit (.method p.1) p.2) := by
  have hrelease : .release ∉ d.names ++ A := by
    rw [mem_append, not_or]
    refine ⟨fun hmem => ?_, hA.not_mem (fun _ => id) (by simp) (by simp) (by simp)⟩
    cases d.isFirstLook hmem
  obtain ⟨htriggers, hcallbacks⟩ := tr.waiting hrelease
  have hnames : d.names.filterMap trigger? = [] ∧ d.names.filterMap callback? = [] := by
    constructor <;> refine filterMap_eq_nil_iff.2 fun x hx => ?_ <;>
      cases d.isFirstLook hx <;> rfl
  rw [filterMap_append, hnames.1, nil_append] at htriggers
  rw [filterMap_append, hnames.2, nil_append] at hcallbacks
  intro m
  rw [htriggers, hcallbacks, map_append, flatMap_append,
    flatMap_written_waiting A (checks m) fun e => ?_,
    flatMap_written_waiting A (calls m) fun e => ?_]
  all_goals cases e <;> first | rfl | exact append_nil _

namespace Compile

lemma document_yields {s} (d : Document) {className visibility}
    (hs : s.core = (start className d.isMixin visibility).core) :
    Yields (document d) s fun _ T => Whole d T := by
  have sound : Sound s.core := hs ▸ sound_start className d.isMixin visibility
  have ready : Ready d.isMixin (.method Builtin.init) Builtin.init s :=
    ⟨sound, .method sound.hosts_init, congrArg Core.isMixin hs⟩
  unfold document
  refine .bind (lookAheads_writes d s ready) fun _ s1 R tr1 hR => ?_
  refine .bind (sections_yields (tr1.sound sound) d) fun _ s2 A tr2 hA => ?_
  refine .bind (flush_yields (tr2.sound (tr1.sound sound))) fun _ s3 F tr3 hF => .get ?_
  obtain ⟨W, rfl, hW, hwaiting⟩ := hF
  obtain ⟨plan, hplan, htrace⟩ := hA
  have hmixin : s1.isMixin = d.isMixin := tr1.isMixin.trans (congrArg Core.isMixin hs)
  rw [hmixin] at hplan htrace
  have hA : Assembled d.outline A := htrace ▸ assembled_of_sections hplan
  have hresumed : Resumed d.outline A W := by
    have hcourse := tr1.append tr2
    rw [hs, hR] at hcourse
    exact hwaiting ▸ resumed_of_course hA hcourse
  have tr := tr1.append (tr2.append tr3)
  have whole : Whole d (R ++ (A ++ .release :: W)) := hR ▸ .intro hA hW hresumed hplan htrace
  have undeclared : s3.shared.undeclared = [] := by
    refine (tr.sound sound).keyed.undeclared_eq_nil fun kind name e he => ?_
    have table : TableOf _ s3.core :=
      Course.table (hs ▸ tr : Course className d.isMixin visibility _ _)
    have he' := table.entry he
    rw [table.find?] at he
    split at he
    · next hmem => simp [he', entryAfter, whole.events, whole.declared hmem]
    · cases he
  rw [undeclared]
  exact .pure (by simpa using whole)

def view (d : Document) (className : String) : Compile Unit := do
  log .debug ("translating view '" ++ className ++ "' (mixin: " ++
    (if d.isMixin then "true" else "false") ++ ")")
  document d

lemma view_yields (d : Document) (className : String) (visibility : ClassVisibility) :
    Yields (view d className) (start className d.isMixin visibility) fun _ T => Whole d T :=
  .quiet (log_quiet _ _) fun _ _ hc _ => document_yields d hc

end Compile

/-- The state after the compilation of a document, if it is accepted. -/
def Document.session? (d : Document) (options : CompileOptions) : Option Session :=
  match d.className with
  | .error _ => none
  | .ok className =>
    match (Compile.view d className).run.run
        (Compile.start className d.isMixin options.visibility) with
    | (.ok (), s) => some s
    | (.error _, _) => none

/-- The class that a document is compiled to, if it is accepted. -/
def Document.generated? (d : Document) (options : CompileOptions) : Option ClassDef :=
  (d.session? options).map (·.generated)

lemma compileDocument_eq {className} (h : d.className = .ok className) (options : CompileOptions) :
    compileDocument options d =
      match (Compile.view d className).run.run
          (Compile.start className d.isMixin options.visibility) with
      | (.error fault, s) => (.error fault, s.log.reverse)
      | (.ok (), s) =>
        (.ok { className, code := s.moduleText options.libraries }, s.log.reverse) := by
  unfold compileDocument
  rw [h]
  rfl

lemma Document.session?_of_compile {options v} (h : (compileDocument options d).1 = .ok v) :
    ∃ s, d.session? options = some s ∧ v.code = s.moduleText options.libraries := by
  cases hname : d.className with
  | error fault =>
    rw [compileDocument, hname] at h
    cases h
  | ok className =>
    rw [compileDocument_eq hname] at h
    rw [session?, hname]
    dsimp only
    cases hrun : (Compile.view d className).run.run
        (Compile.start className d.isMixin options.visibility) with
    | mk r s =>
      rw [hrun] at h
      cases r with
      | error fault => cases h
      | ok a =>
        cases h
        exact ⟨s, rfl, rfl⟩

lemma Document.session_course {options s} (h : d.session? options = some s) :
    ∃ className T, Course className d.isMixin options.visibility T s.core ∧ Whole d T ∧
      Gathers (Compile.start className d.isMixin options.visibility) T s := by
  unfold session? at h
  split at h
  · cases h
  · next className _ =>
    obtain ⟨T, tr, hg, ha⟩ := Compile.view_yields d className options.visibility
    split at h
    · next s' hrun =>
      cases h
      rw [hrun] at tr ha hg
      cases ha with
      | ok hw => exact ⟨className, T, tr, hw, hg⟩
    · cases h

lemma Document.course {options c} (h : d.generated? options = some c) :
    ∃ className T s, Course className d.isMixin options.visibility T s ∧ Whole d T ∧
      s.generated = c := by
  obtain ⟨s, hs, rfl⟩ := Option.map_eq_some_iff.1 h
  obtain ⟨className, T, tr, hw, _⟩ := d.session_course hs
  exact ⟨className, T, s.core, tr, hw, rfl⟩

lemma Document.hasMember_of_madeUp {options c} (h : d.generated? options = some c) {n}
    (hn : n ∈ d.madeUpNames) : c.hasMember (storageName n) = true := by
  obtain ⟨className, T, s, tr, hw, rfl⟩ := d.course h
  rw [← hw.madeUp tr] at hn
  obtain ⟨e, he, hmade⟩ := mem_filterMap.1 hn
  exact tr.hasMember he (member?_of_madeUp? hmade)

lemma compileDocument_replies (options : CompileOptions) (d : Document) :
    Replies (compileDocument options d).1 fun _ => True := by
  cases h : d.className with
  | error fault =>
    have hfault : fault.isInternal = false := by
      unfold Document.className at h
      split at h <;> cases h
      rfl
    simpa [compileDocument, h] using Ends.error hfault
  | ok className =>
    rw [compileDocument_eq h]
    obtain ⟨T, _, _, ha⟩ := Compile.view_yields d className options.visibility
    generalize (Compile.view d className).run.run _ = r at ha
    obtain ⟨r, s⟩ := r
    cases ha with
    | ok _ => exact .ok trivial
    | error hf => exact .error hf

/-- A compilation never stops because a method of the class is missing or because a registered
object was not declared. -/
theorem compileDocument_ne_internal (options : CompileOptions) (d : Document) :
    (∀ name, (compileDocument options d).1 ≠ .error (.unknownMethod name)) ∧
      ∀ kind name, (compileDocument options d).1 ≠
        .error (.invalidStructure (.neverTranslated kind name)) := by
  have internal : ∀ fault : Fault, fault.isInternal = true →
      (compileDocument options d).1 ≠ .error fault := by
    intro fault hi heq
    have ha := compileDocument_replies options d
    rw [heq] at ha
    cases ha with
    | error hf =>
      rw [hi] at hf
      cases hf
  exact ⟨fun _ => internal _ rfl, fun _ _ => internal _ rfl⟩

end SceneView
