import SceneView.Proofs.Action

/-!
# The changes of elements

The compilation of a texture, a material or a property leaves the trace that its part tells. Shared
objects leave blocks, and all of it is what the outline of the document says.
-/

open List

namespace SceneView

namespace Compile

variable {isMixin : Bool} {site : Site} {m : String} {x : Part} {a : Attribute}

lemma follow_writes (t : Value.Translated) :
    Writes isMixin site m (follow m t) fun _ T => T = t.bind?.toList.map (.emit site) :=
  .forM_of (Q := fun l T => T = l.map (.emit site)) rfl (fun hT hT' => by rw [hT, hT']; rfl)
    fun st _ => emit_writes st

/-- Names are imported for an attribute, and the notes on it are written to the method. -/
def Attended (isMixin : Bool) (site : Site) (x : Part) (a : Attribute)
    (names : List (Origin × String)) (T : List Effect) : Prop :=
  ∃ ns, x.Attends isMixin site a ns ∧ T = importing names ++ ns.flatMap (Note.effects site x.target)

lemma translate_constructs {target options} (htarget : target = x.object.storage)
    (hoptions : options = x.options a.name) :
    Writes isMixin site m (translate a target options) fun t T =>
      x.translate isMixin a = .ok t ∧ T = importing (x.constructs isMixin a) := by
  rw [htarget, hoptions]
  refine (translate_writes _ _ _).mono ?_
  rintro t _ ⟨ht, rfl⟩
  have htranslate : x.translate isMixin a = .ok t := ht
  exact ⟨ht, by rw [Part.constructs, htranslate]; rfl⟩

section

variable {t : Value.Translated} (hrefers : x.refers? site a = none) (hlink : x.isLink a = false)
include hrefers hlink

lemma follow_attended (ht : x.translate isMixin a = .ok t) (hpass : x.role.passes a.name = true) :
    Writes isMixin site m (follow m t) fun _ T => Attended isMixin site x a [] T := by
  refine (follow_writes t).mono fun _ T hT => ⟨_, .value hrefers hlink ht, ?_⟩
  rw [hT, if_pos hpass, nil_append, flatMap_map, map_eq_flatMap]
  rfl

lemma apply_attended (ht : x.translate isMixin a = .ok t) (hpass : x.role.passes a.name = false) :
    Writes isMixin site m (apply m t) fun _ T => Attended isMixin site x a [] T := by
  refine emit_then ((follow_writes t).mono fun _ T hT => ⟨_, .value hrefers hlink ht, ?_⟩)
  rw [hT, hpass, flatMap_append, flatMap_map, map_eq_flatMap]
  rfl

lemma translate_then {target options} {f : Value.Translated → Compile PUnit}
    (htarget : target = x.object.storage) (hoptions : options = x.options a.name)
    (hf : ∀ t, x.translate isMixin a = .ok t →
      Writes isMixin site m (f t) fun _ T => Attended isMixin site x a [] T) :
    Writes isMixin site m (translate a target options >>= f) fun _ T =>
      Attended isMixin site x a (x.needs isMixin site a) T := by
  have hneeds : x.needs isMixin site a = x.constructs isMixin a := by
    simp [Part.needs, hrefers, hlink]
  rw [hneeds]
  refine (translate_constructs htarget hoptions).bind ?_
  rintro t T ⟨ht, hT⟩
  refine (hf t ht).mono ?_
  rintro _ _ ⟨ns, hns, rfl⟩
  exact ⟨ns, hns, by rw [hT, importing_nil, nil_append]⟩

end

lemma needs_subset (isMixin : Bool) (site : Site) (x : Part) (as : List Attribute) :
    importing (as.flatMap (x.needs isMixin site)) ⊆ importing (as.flatMap (x.constructs isMixin)) := by
  refine map_subset _ fun n hn => ?_
  obtain ⟨a, ha, hn⟩ := mem_flatMap.1 hn
  refine mem_flatMap.2 ⟨a, ha, ?_⟩
  unfold Part.needs at hn
  split at hn
  · exact hn
  · cases hn

lemma needs_eq_nil (h : (x.refers? site a).isSome = true) : x.needs isMixin site a = [] := by
  rw [Part.needs, Option.isNone_eq_false_iff.2 h]
  rfl

lemma reference_attended {u : Use} {st : SharedReference → Statement}
    (hu : x.refers? u.site a = some (.use u)) (hst : ∀ r, st r = u.statement x.object.storage r) :
    Writes isMixin u.site m (do let r ← sharedReference u.kind u.name; emit m (st r)) fun _ T =>
      Attended isMixin u.site x a [] T :=
  (reference_writes hst).mono fun _ _ hT => ⟨_, .use hu, hT⟩

lemma attended_writes {β : Type} {R : Attribute → β → Prop} {as : List Attribute} {bs : List β}
    {f : β → Compile PUnit} (names : Attribute → List (Origin × String))
    (hbs : List.Forall₂ R as bs)
    (h : ∀ a b, R a b → Writes isMixin site m (f b) fun _ T =>
      Attended isMixin site x a (names a) T) :
    Writes isMixin site m (bs.forM f) fun _ T =>
      ∃ nss, List.Forall₂ (x.Attends isMixin site) as nss ∧
        T = importing (as.flatMap names) ++ nss.flatten.flatMap (Note.effects site x.target) := by
  induction hbs with
  | nil => exact .pure ⟨[], .nil, rfl⟩
  | @cons a b as bs hab _ ih =>
    refine .arrange ((h a b hab).bind ?_)
    rintro _ _ ⟨ns, hns, rfl⟩
    refine ih.mono ?_
    rintro _ _ ⟨nss, hnss, rfl⟩
    refine ⟨_, ⟨ns :: nss, .cons hns hnss, rfl⟩, ?_, fun {origin name} hn => ?_⟩
    · simp
    · have hmem : (origin, name) ∈ names a ∨ (origin, name) ∈ as.flatMap names := by
        rw [← mem_append, ← flatMap_cons, ← mem_importing]
        exact (mem_append.1 hn).resolve_right (not_imports_of_plain (plain_notes ..))
      obtain hmem | hmem := hmem
      · exact mem_append_left _ (mem_append_left _ (mem_importing.2 hmem))
      · exact mem_append_right _ (mem_append_left _ (mem_importing.2 hmem))

lemma translated_writes {β : Type} {R : Attribute → β → Prop} {as : List Attribute} {bs : List β}
    {f : β → Compile PUnit} (hbs : List.Forall₂ R as bs)
    (h : ∀ a b, R a b → Writes isMixin site m (f b) fun _ T => Attended isMixin site x a [] T) :
    Writes isMixin site m (bs.forM f) fun _ T =>
      ∃ nss, List.Forall₂ (x.Attends isMixin site) as nss ∧
        T = nss.flatten.flatMap (Note.effects site x.target) := by
  refine (attended_writes (fun _ => []) hbs h).mono ?_
  rintro _ _ ⟨nss, hnss, rfl⟩
  have hnone : as.flatMap (fun _ => []) = ([] : List (Origin × String)) :=
    flatMap_eq_nil_iff.2 fun _ _ => rfl
  exact ⟨nss, hnss, by rw [hnone, importing_nil, nil_append]⟩

lemma attributes_writes {as : List Attribute} {f : Attribute → Compile PUnit}
    (h : ∀ a, Writes isMixin site m (f a) fun _ T =>
      Attended isMixin site x a (x.needs isMixin site a) T) :
    Writes isMixin site m (as.forM f) fun _ T =>
      ∃ nss, List.Forall₂ (x.Attends isMixin site) as nss ∧
        T = importing (as.flatMap (x.needs isMixin site)) ++
          nss.flatten.flatMap (Note.effects site x.target) :=
  attended_writes (R := Eq) _ (forall₂_same.2 fun _ _ => rfl) fun a _ hab => hab ▸ h a

lemma map_fst_of_forall₂ {as} {ps : List (Attribute × Value.Translated)}
    (h : List.Forall₂ (fun a p => p.1 = a) as ps) : ps.map (·.1) = as := by
  induction h with
  | nil => rfl
  | cons h _ ih => rw [List.map_cons, h, ih]

variable {e : Element} {s : Session}

lemma textureKind_answers (e : Element) (place : String) :
    Answers (textureKind e place) fun kind => TextureKind.ofTag? e.tag = some kind := by
  unfold textureKind
  split
  · next h => exact .ok h
  · exact .error rfl

lemma buildTexture_writes (kind : TextureKind) {o : ObjectName} (ho : o.given = e.givenName?) :
    Writes isMixin site m (buildTexture e kind o m) fun _ T => ∃ x : Part,
      x.object = o ∧ x.method = m ∧ x.IsFor isMixin site (.texture kind) e ∧
        T = x.effects isMixin site none := by
  let x : Part := { role := .texture kind, element := e, object := o, method := m }
  unfold buildTexture
  refine .arrange (.bind (addImport_writes _ _) ?_)
  rintro _ _ rfl
  refine .quiet (.lift (e.require_answers _)) fun raw hraw => ?_
  refine .look (argument_writes raw true) fun source hsource => emit_then (emit_then ?_)
  refine (attributes_writes (x := x) fun a => ?_).mono ?_
  · unfold textureAttribute
    dsimp only
    split
    · next hname =>
      refine translate_then rfl rfl rfl ?_ fun t ht => follow_attended rfl rfl ht hname
      simp [Part.options, x, hname]
    · next hname =>
      refine translate_then rfl rfl rfl ?_ fun t ht =>
        apply_attended rfl rfl ht (Bool.eq_false_iff.2 hname)
      simp [Part.options, x, hname]
  · rintro _ _ ⟨nss, hnss, rfl⟩
    refine ⟨_, ⟨_, rfl, rfl, Part.isFor_of_notes hnss ho fun _ => rfl, rfl⟩, .effects ?_ ?_ ?_⟩
    · simp [Part.construction, Part.placing, Part.argument, Part.type,
        Role.typeOf, Role.isMesh, Part.target, Except.toOption, x, hraw, hsource]
    · exact subset_append_left ..
    · exact fun _ h => mem_append_right _ (mem_cons_of_mem _ (mem_cons_of_mem _ (mem_append_left _ h)))

lemma slotTexture_writes (x : Part) (slot : String) :
    Writes isMixin site x.method (slotTexture e x.object.storage slot x.method) fun _ T =>
      ∃ y kind, TextureKind.ofTag? e.tag = some kind ∧ y.IsFor isMixin site (.texture kind) e ∧
        y.method = x.method ∧ T = x.slotTrace isMixin site (slot, y) := by
  unfold slotTexture
  refine .located (.quiet (.lift (textureKind_answers e _)) fun kind hkind => ?_)
  refine declare_writes fun o ho => (buildTexture_writes kind ho).bind ?_
  rintro _ _ ⟨y, rfl, hm, hy, rfl⟩
  refine (emit_writes _).mono fun _ T hT => ⟨y, kind, hkind, hy, hm, ?_⟩
  have htype : y.type = kind.typeName := by rw [Part.type, hy.role, Role.typeOf]
  rw [hT, Part.slotTrace, hy.trace_eq (by simp), htype, hm]
  rfl

lemma materialKind_answers (e : Element) (place : String) :
    Answers (materialKind e place) fun kind => MaterialKind.ofTag? e.tag = some kind := by
  unfold materialKind
  split
  · next h => exact .ok h
  · exact .error rfl

lemma materialAttribute_attended {kind} (hx : x.role = .material kind) (a : Attribute) :
    Writes isMixin site x.method (materialAttribute kind x.object x.method a) fun _ T =>
      Attended isMixin site x a (x.needs isMixin site a) T := by
  have hrefers : x.refers? site a = slotUse? site x.element kind a := by
    rw [Part.refers?, hx]
  have hlink : x.isLink a = false := by simp [Part.isLink, hx]
  have hvalue : slotUse? site x.element kind a = none →
      Writes isMixin site x.method (do
        apply x.method (← translate a x.object.storage { deferred := isDeferred x.method }))
        fun _ T => Attended isMixin site x a (x.needs isMixin site a) T := by
    intro hnone
    refine translate_then (hrefers.trans hnone) hlink rfl (by rw [Part.options, hx]) fun t ht =>
      apply_attended (hrefers.trans hnone) hlink ht ?_
    rw [hx]
    rfl
  unfold materialAttribute
  unfold slotUse? at hrefers hvalue
  dsimp only
  split
  · next hslot =>
    refine .quiet (bound?_quiet a.value) fun e? he => ?_
    rw [hslot, Bool.true_and, ← he] at hrefers hvalue
    cases e? with
    | some _ => exact hvalue rfl
    | none =>
      rw [needs_eq_nil (by rw [hrefers]; rfl)]
      exact reference_attended (u := ⟨.texture, Text.trim a.value, site, some a.name, _⟩) hrefers
        fun _ => rfl
  · next hslot => exact hvalue (by simp [hslot])

lemma materialSlot_writes {kind} (hx : x.role = .material kind) (child : Element) :
    Writes isMixin site x.method (materialSlot x.element kind x.object x.method child) fun _ T =>
      ∃ slot y, x.Fills isMixin site child slot y ∧ T = x.slotTrace isMixin site (slot, y) := by
  unfold materialSlot
  dsimp only
  split
  · next hslot =>
    split
    · exact .throw rfl
    · next hattr =>
      refine .quiet (.lift child.onlyChild_answers) fun texture htexture => ?_
      refine (slotTexture_writes x _).mono ?_
      rintro _ _ ⟨y, tkind, htkind, hy, hm, rfl⟩
      exact ⟨_, y, ⟨rfl, ⟨kind, hx, hslot⟩, by simpa using hattr, ⟨texture, tkind, htexture, htkind, hy⟩,
        hm⟩, rfl⟩
  · exact .throw rfl

/-- What the attributes of a material and the textures in it leave. -/
def Furnishes (isMixin : Bool) (site : Site) (x : Part) (T : List Effect) : Prop :=
  ∃ nss slots, List.Forall₂ (x.Attends isMixin site) x.attributes nss ∧
    x.FillsAll isMixin site x.element.children slots ∧
    T = importing (x.attributes.flatMap (x.needs isMixin site)) ++
      nss.flatten.flatMap (Note.effects site x.target) ++ slots.flatMap (x.slotTrace isMixin site)

lemma materialContent_writes {kind} (hx : x.role = .material kind) :
    Writes isMixin site x.method (do
        x.attributes.forM (materialAttribute kind x.object x.method)
        x.element.children.forM (materialSlot x.element kind x.object x.method))
      fun _ T => Furnishes isMixin site x T := by
  refine (attributes_writes fun a => materialAttribute_attended hx a).bind ?_
  rintro _ _ ⟨nss, hnss, rfl⟩
  have hslots : Writes isMixin site x.method
      (x.element.children.forM (materialSlot x.element kind x.object x.method)) fun _ T =>
        ∃ slots, x.FillsAll isMixin site x.element.children slots ∧
          T = slots.flatMap (x.slotTrace isMixin site) := by
    refine .forM_of (Q := fun es T => ∃ slots, x.FillsAll isMixin site es slots ∧
      T = slots.flatMap (x.slotTrace isMixin site)) ⟨[], .nil, rfl⟩ ?_
      fun child _ => materialSlot_writes hx child
    rintro c cs _ _ ⟨slot, y, hy, rfl⟩ ⟨slots, hslots, rfl⟩
    exact ⟨(slot, y) :: slots, .cons hy hslots, rfl⟩
  refine hslots.mono ?_
  rintro _ _ ⟨slots, hslots, rfl⟩
  exact ⟨nss, slots, hnss, hslots, rfl⟩

lemma buildMaterial_writes (kind : MaterialKind) (node? : Option String) {o : ObjectName}
    (ho : o.given = e.givenName?) :
    Writes isMixin site m (buildMaterial e kind node? o m) fun _ T => ∃ (x : Part) (slots : List (String × Part)),
      x.object = o ∧ x.method = m ∧ x.IsFor isMixin site (.material kind) e ∧
        x.FillsAll isMixin site e.children slots ∧
        T = x.effects isMixin site node? ++ slots.flatMap (x.slotTrace isMixin site) := by
  let x : Part := { role := .material kind, element := e, object := o, method := m }
  unfold buildMaterial
  refine .arrange (.bind (addImport_writes _ _) ?_)
  rintro _ _ rfl
  have hfurnished : ∀ T, Furnishes isMixin site x T →
      ∃ T', (∃ (y : Part) (slots : List (String × Part)),
        y.object = o ∧ y.method = m ∧ y.IsFor isMixin site (.material kind) e ∧
        y.FillsAll isMixin site e.children slots ∧
        T' = y.effects isMixin site node? ++ slots.flatMap (y.slotTrace isMixin site)) ∧
      Covers (importing x.ownImports ++
        .emit site (.construct o.storage (x.construction isMixin node?)) ::
          ((x.placing node?).map (.emit site) ++ T)) T' := by
    rintro _ ⟨nss, slots, hnss, hslots, rfl⟩
    refine ⟨_, ⟨_, slots, rfl, rfl, Part.isFor_of_notes hnss ho fun _ => rfl, hslots.with_notes _,
      rfl⟩, ?_⟩
    rw [← append_assoc, ← cons_append, ← append_assoc]
    refine Covers.append_right (.effects ?_ ?_ fun _ h => ?_) _
    · simp only [plain_append, plain_importing, plain_emit_cons, plain_emit, plain_notes, nil_append]
      rfl
    · exact subset_append_left ..
    · exact mem_append_right _ (mem_cons_of_mem _ (mem_append_right _ (mem_append_left _ h)))
  refine emit_then ?_
  cases node? with
  | none => exact (materialContent_writes (x := x) rfl).mono fun _ => hfurnished
  | some node => exact emit_then ((materialContent_writes (x := x) rfl).mono fun _ => hfurnished)

lemma sharedName {raw} (h : e.attr? "name" = some raw) :
    e.ownName = Text.trim raw ∧
      e.givenName? = (ObjectName.given? (some (Text.trim raw))).map (·.name) := by
  simp [Element.ownName, Element.givenName?, h, ObjectName.given?]

/-- A shared object leaves the trace of its part. -/
def Shares (isMixin : Bool) (kind : SharedKind) (e : Element) (T : List Effect) : Prop :=
  ∃ ensured slots x, Part.IsShared isMixin kind e ensured slots x ∧
    T = x.sharedTrace isMixin kind e.ownName ensured slots

lemma buildShared_shares {kind} {r : Role} {raw : String} {build : ObjectName → String → Compile Unit}
    (hs : Sound s.core) (hrole : kind.role? e.tag = some r) (hraw : e.attr? "name" = some raw)
    (hb : ∀ o m, o.given = e.givenName? →
      Writes s.isMixin (.shared kind e.ownName) m (build o m) fun _ T =>
        ∃ (x : Part) (slots : List (String × Part)), x.object = o ∧ x.method = m ∧
          x.IsFor s.isMixin (.shared kind e.ownName) r e ∧
          x.FillsAll s.isMixin (.shared kind e.ownName) (kind.slotElements e) slots ∧
          T = x.effects s.isMixin (.shared kind e.ownName) none ++
            slots.flatMap (x.slotTrace s.isMixin (.shared kind e.ownName))) :
    Yields (buildShared kind (r.typeOf e) (Text.trim raw) build) s fun _ T =>
      Shares s.isMixin kind e T := by
  obtain ⟨hname, hgiven⟩ := sharedName hraw
  rw [← hname] at hgiven ⊢
  rw [hgiven] at hb
  refine (buildShared_yields hs hb).mono ?_
  rintro _ _ ⟨o, ensured, _, ho, ⟨x, slots, rfl, hm, hx, hslots, rfl⟩, rfl⟩
  refine ⟨ensured, slots, x, ⟨⟨r, hrole, hx⟩, hslots, hm⟩, ?_⟩
  rw [Part.sharedTrace, Part.type, hx.role, hx.element]
  simp [blockEffects, Part.effects]

lemma sharedTexture_yields (hs : Sound s.core) (e : Element) :
    Yields (sharedTexture e) s fun _ T => Shares s.isMixin .texture e T := by
  unfold sharedTexture
  refine .located (.lift (textureKind_answers e _).replies fun kind hkind => ?_)
  refine .lift (e.require_answers _).replies fun raw hraw => ?_
  refine buildShared_shares (r := .texture kind) hs (by simp [SharedKind.role?, hkind]) hraw
    fun o m ho => (buildTexture_writes kind ho).mono ?_
  rintro _ _ ⟨x, hobject, hm, hx, rfl⟩
  exact ⟨x, [], hobject, hm, hx, .nil, by simp⟩

lemma sharedMaterial_yields (hs : Sound s.core) (e : Element) :
    Yields (sharedMaterial e) s fun _ T => Shares s.isMixin .material e T := by
  unfold sharedMaterial
  refine .located (.lift (materialKind_answers e _).replies fun kind hkind => ?_)
  refine .lift (e.require_answers _).replies fun raw hraw => ?_
  exact buildShared_shares (r := .material kind) hs (by simp [SharedKind.role?, hkind]) hraw
    fun o m ho => buildMaterial_writes kind none ho

lemma nodeMaterial_writes (e : Element) (node : String) :
    Writes isMixin site m (nodeMaterial e node m) fun _ T =>
      ∃ (x : Part) (slots : List (String × Part)) (kind : MaterialKind),
        MaterialKind.ofTag? e.tag = some kind ∧ x.method = m ∧
        x.IsFor isMixin site (.material kind) e ∧ x.FillsAll isMixin site e.children slots ∧
        T = x.trace isMixin site (some node) ++ slots.flatMap (x.slotTrace isMixin site) := by
  unfold nodeMaterial
  refine .located (.quiet (.lift (materialKind_answers e _)) fun kind hkind => ?_)
  refine declare_writes fun o ho => (buildMaterial_writes kind (some node) ho).mono ?_
  rintro _ _ ⟨x, slots, rfl, rfl, hx, hslots, rfl⟩
  have htype : x.type = kind.typeName := by rw [Part.type, hx.role, Role.typeOf]
  exact ⟨x, slots, kind, hkind, rfl, hx, hslots, by rw [hx.trace_eq (by simp), htype]; rfl⟩

lemma addAccessor_yields {name} (type : String) (isMixin : Bool)
    (hm : s.core.generated.hasMember (storageName name) = true)
    (ha : s.core.generated.accessor? name = none) :
    Yields (do
        modifyClass (·.addAccessor (propertyAccessor name type isMixin))
        addImport .utility "isEqual")
      s fun _ T => T = .accessor name type isMixin :: importing [(.utility, "isEqual")] := by
  refine .modify_bind (.accessor hm ha) rfl (.step rfl rfl) fun s' _ => ?_
  exact .modify .imports (.add s' _ _) rfl

lemma covers_propertyTrace (isMixin : Bool) {names} (first : List Statement)
    (hnames : e.propertyImports isMixin = (.utility, "isEqual") :: names) :
    Covers (.field e.ownName e.ownType :: (importing names ++
        (first.map (.emit (.method Builtin.init)) ++
          .accessor e.ownName e.ownType isMixin :: importing [(.utility, "isEqual")])))
      (e.propertyTrace isMixin first) where
  plain := by
    rw [Element.propertyTrace, plain_cons rfl, plain_cons rfl]
    simp only [plain_append, plain_importing, plain_emit, append_nil, nil_append,
      plain_cons (e := .accessor e.ownName e.ownType isMixin) rfl]
    rfl
  imports hn := by
    rw [Element.propertyTrace, hnames] at hn
    simp at hn ⊢
    tauto

lemma property_yields (hs : Sound s.core) (e : Element) :
    Yields (property e) s fun _ T => ∃ sts, e.Starts s.isMixin sts ∧
      T = e.propertyTrace s.isMixin sts := by
  unfold property
  refine .located (.arrange ?_)
  refine .lift (e.require_answers _).replies fun raw hraw => ?_
  refine .lift (e.require_answers _).replies fun rawType htype => .get ?_
  have hown : e.ownType = Text.trim rawType := by rw [Element.ownType, htype, Option.getD_some]
  rw [← (sharedName hraw).1, ← hown]
  dsimp only
  split
  · exact .throw_bind rfl
  next hfree =>
  refine .quiet (log_quiet _ _) fun _ s3 hc3 _ => ?_
  obtain ⟨hm, ha⟩ : s3.core.generated.hasMember (storageName e.ownName) = false ∧
      s3.core.generated.accessor? e.ownName = none := by
    rw [hc3]
    change s.generated.hasMember _ = false ∧ s.generated.accessor? _ = none
    simpa using hfree
  have st : Step s3.core (.field e.ownName e.ownType) _ := .field hm ha
  have hsound := st.sound (hc3 ▸ hs)
  refine .modify_bind st rfl (.step rfl rfl) fun s4 hc4 => ?_
  -- The member is there now, and the name of the accessor is still free.
  have hm' : s4.core.generated.hasMember (storageName e.ownName) = true := by
    simp [hc4, ClassDef.hasMember, ClassDef.addMember]
  have ha' : s4.core.generated.accessor? e.ownName = none := by
    rw [hc4]
    exact ha
  cases hdefault : e.attr? "default" with
  | none =>
    refine (addAccessor_yields _ _ hm' ha').mono fun _ T hT => ?_
    refine ⟨_, ⟨[], .unset hdefault, rfl⟩, ?_⟩
    rw [hT]
    have himports : e.propertyImports s.isMixin = [(.utility, "isEqual")] := by
      rw [Element.propertyImports, hdefault]
      rfl
    exact covers_propertyTrace _ [] himports
  | some value =>
    have hs4 : Ready s.isMixin (.method Builtin.init) Builtin.init s4 := by
      rw [← hc4] at hsound
      refine ⟨hsound, .method hsound.hosts_init, ?_⟩
      have hmixin := congrArg Core.isMixin hc4
      have hmixin' := congrArg Core.isMixin hc3
      exact hmixin.trans hmixin'
    refine .bind (typed_writes _ _ s4 hs4) ?_
    rintro v s5 _ tr5 ⟨p?, hv, rfl⟩
    refine .bind (emit_writes _ s5 (hs4.trace tr5)) fun _ s6 T6 tr6 hT6 => ?_
    rw [hT6] at tr6 ⊢
    obtain ⟨hmembers, haccessors⟩ := tr6.emit_frame
    have hc5 : s5.core = s4.core := by
      rw [← trace_plain_iff, plain_importing] at tr5
      exact tr5.eq_of_nil
    refine (addAccessor_yields _ _ ?_ ?_).mono fun _ T hT => ?_
    · rw [ClassDef.hasMember, hmembers, hc5]
      exact hm'
    · rw [ClassDef.accessor?, haccessors, hc5]
      exact ha'
    · refine ⟨_, ⟨_, .value hdefault hv, rfl⟩, ?_⟩
      rw [hT]
      refine covers_propertyTrace _ [_] ?_
      rw [Element.propertyImports, hdefault, Option.bind_some, hv]
      rfl

end Compile

end SceneView
