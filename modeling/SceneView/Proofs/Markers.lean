import SceneView.Proofs.Parts

/-!
# Markers of optional members

The member of an object is marked as optional iff the object is built outside the main method, and
its accessor says so too. Every statement that gives an attribute of the object a value, at once or
when a path changes, reaches the object through its member, with a mark iff the member is optional.
The opacity of a user interface on a mesh is set through the member of the mesh.
-/

namespace SceneView

open Compile

/-- The mark of an access to a member: none unless the member is optional. -/
def ClassDef.mark (c : ClassDef) (member : String) : String :=
  if c.members.any fun m => m.name == member && m.presence? == some .optional then "!" else ""

/-- The member and the accessor of an object tell where it is built. -/
structure ClassDef.Marks (c : ClassDef) (type : String) (o : ObjectName) (method : String) :
    Prop where
  built : ∀ f, (∃ v, .construct o.storage v ∈ c.body f) ↔ f = method
  declared : ∃ m ∈ c.members, m.name = o.storage
  optional : ∀ m ∈ c.members, m.name = o.storage →
    (m.presence? = some .optional ↔ method ≠ Builtin.init)
  memberText : ∀ m ∈ c.members, m.name = o.storage → m.text =
    "  private " ++ o.storage ++ (if method = Builtin.init then "!" else "?") ++ ": " ++ type ++ ";"
  accessor : o.isGiven = true → ∃ a ∈ c.accessors, a.name = o.name
  accessorText : o.isGiven = true → ∀ a ∈ c.accessors, a.name = o.name → a.text =
    "  protected get " ++ o.name ++ "(): " ++ type ++
      (if method = Builtin.init then "" else " | undefined") ++
      " \x7b\n    return this." ++ o.storage ++ ";\n  \x7d"

/-- The text by which an attribute of a part is reached: the member of its object, or for the opacity
of a user interface the material of the mesh that the interface is drawn on. -/
inductive ClassDef.Reaches (c : ClassDef) (xs : List Part) (x : Part) (name : String) :
    String → Prop where
  | own : Reaches c xs x name ("this." ++ x.object.storage ++ c.mark x.object.storage)
  | opacity {y raw} :
    x.role = .onMesh →
    name = "alpha" →
    y ∈ xs →
    y.role.isMesh = true →
    x.element.attr? "mesh" = some raw →
    y.object.given = some (Text.trim raw) →
    Reaches c xs x name ("this." ++ y.object.storage ++ c.mark y.object.storage ++ ".material" ++
      c.mark y.object.storage)

/-- The statement works on what it reaches by the given text, at once or whenever a path changes. -/
def Statement.WorksOn (st : Statement) (access : String) : Prop :=
  ∃ rest, st.text = access ++ "." ++ rest ∨
    ∃ engine path, st.text = "this." ++ engine ++ ".addBinding('" ++ path ++
      "', (value) => \x7b " ++ access ++ "." ++ rest ++ " \x7d);"

def Statement.setter? : Statement → Option Setter
  | apply setter _ | bind _ _ setter => some setter
  | _ => none

lemma Setter.fill_access (s : Setter) (value : String) :
    ∃ rest, s.fill value = s.target.text ++ "." ++ rest := by
  unfold fill
  simp only [String.append_assoc]
  split <;> exact ⟨_, rfl⟩

lemma Statement.worksOn_target {st : Statement} {setter} (h : st.setter? = some setter) :
    st.WorksOn setter.target.text := by
  cases st with
  | apply setter value =>
    cases h
    obtain ⟨rest, hrest⟩ := setter.fill_access value
    exact ⟨rest, .inl hrest⟩
  | bind engine path setter =>
    cases h
    obtain ⟨rest, hrest⟩ := setter.fill_access "value"
    refine ⟨rest, .inr ⟨engine, path, ?_⟩⟩
    rw [Statement.text, observe, hrest]
    simp only [String.append_assoc]
  | _ => cases h

lemma Value.Binder.setter_eq {b : Binder} {name raw target options t}
    (h : b.translate name raw target options = .ok t) :
    t.setter = ⟨⟨options.path?.getD target, options.deferred⟩, name, options.form⟩ := by
  unfold translate at h
  dsimp only at h
  cases hbound : bound? b.host (Text.trim raw) with
  | error fault =>
    rw [hbound] at h
    cases h
  | ok e? =>
    rw [hbound] at h
    cases e? with
    | some e =>
      cases h
      rfl
    | none =>
      dsimp only [bind, Except.bind] at h
      split at h <;> · cases h; rfl

namespace Part

lemma deferred_options (x : Part) (name : String) :
    (x.options name).deferred = isDeferred x.method := by
  unfold options
  cases x.role with
  | texture kind =>
    dsimp only
    split <;> rfl
  | _ => rfl

lemma path_options (x : Part) (name : String) :
    (x.options name).path? = none ∨ x.role = .onMesh ∧ name = "alpha" ∧ ∃ base, x.base? = some base ∧
      (x.options name).path? = some (base.target.part "material") := by
  cases hrole : x.role with
  | onMesh =>
    have hpath : (x.options name).path? =
        if name == "alpha" then x.base?.map (·.target.part "material") else none := by
      rw [options, hrole]
    rw [hpath]
    split
    · next hname =>
      cases hbase : x.base? with
      | none => exact .inl rfl
      | some base => exact .inr ⟨rfl, beq_iff_eq.1 hname, base, rfl, rfl⟩
    · exact .inl rfl
  | texture kind =>
    rw [options, hrole]
    dsimp only
    split <;> exact .inl rfl
  | _ =>
    rw [options, hrole]
    exact .inl rfl

lemma Tells.setter {isMixin site es place?} {x : Part} {st setter}
    (h : x.Tells isMixin site es place? st) (hsetter : st.setter? = some setter) :
    ∃ a ∈ x.attributes, ∃ t, x.translate isMixin a = .ok t ∧ t.setter = setter := by
  cases h with
  | construct | link => cases hsetter
  | placing hplacing => cases isPlacing hplacing <;> cases hsetter
  | apply ha _ _ _ ht => exact ⟨_, ha, _, ht, Option.some.inj hsetter⟩
  | bind ha ht hbind =>
    obtain ⟨_, _, rfl⟩ := Option.map_eq_some_iff.1 hbind
    exact ⟨_, ha, _, ht, Option.some.inj hsetter⟩
  | @use u =>
    rw [Use.statement] at hsetter
    split at hsetter <;> cases hsetter

end Part

lemma ObjectName.member_text (o : ObjectName) (type method : String) :
    (o.member type (isDeferred method)).text = "  private " ++ o.storage ++
      (if method = Builtin.init then "!" else "?") ++ ": " ++ type ++ ";" := by
  by_cases hinit : method = Builtin.init <;>
    simp [member, Member.text, Visibility.keyword, Presence.sign, isDeferred, hinit]

lemma ObjectName.accessor_text (o : ObjectName) (type method : String) :
    (o.accessor type (isDeferred method)).text = "  protected get " ++ o.name ++ "(): " ++
      type ++ (if method = Builtin.init then "" else " | undefined") ++
      " \x7b\n    return this." ++ o.storage ++ ";\n  \x7d" := by
  by_cases hinit : method = Builtin.init <;>
    simp [accessor, Accessor.text, Accessor.hasSetter, blockText, Visibility.keyword,
      Statement.text, isDeferred, hinit, ← String.toList_inj]

lemma isDeferred_iff {m} : isDeferred m = true ↔ m ≠ Builtin.init := by
  simp [isDeferred]

namespace Planned

variable {d : Document} {c : ClassDef} {plan : List Portion} {x : Part} (h : Planned d c plan)
include h

lemma mem_members (hx : x ∈ d.parts plan) : x.member ∈ c.members :=
  h.members.2 (.inr (.inl ⟨x, hx, rfl⟩))

lemma member_eq (hx : x ∈ d.parts plan) {m : Member} (hm : m ∈ c.members)
    (hname : m.name = x.object.storage) : m = x.member :=
  List.inj_on_of_nodup_map h.consistent.members hm (h.mem_members hx) hname

lemma any_optional (hx : x ∈ d.parts plan) :
    (c.members.any fun m => m.name == x.object.storage && m.presence? == some .optional) =
      isDeferred x.method := by
  rw [Bool.eq_iff_iff, List.any_eq_true]
  constructor
  · rintro ⟨m, hm, hmark⟩
    rw [Bool.and_eq_true, beq_iff_eq, beq_iff_eq] at hmark
    cases h.member_eq hx hm hmark.1
    cases hdeferred : isDeferred x.method with
    | true => rfl
    | false =>
      have hpresence := hmark.2
      rw [Part.member, ObjectName.member, hdeferred] at hpresence
      cases hpresence
  · intro hdeferred
    refine ⟨x.member, h.mem_members hx, ?_⟩
    simp [Part.member, ObjectName.member, hdeferred]

lemma mark_eq (hx : x ∈ d.parts plan) : c.mark x.object.storage = bang (isDeferred x.method) := by
  rw [ClassDef.mark, h.any_optional hx]
  rfl

lemma marks (hx : x ∈ d.parts plan) : c.Marks x.type x.object x.method where
  built _ := h.construct_iff hx
  declared := ⟨x.member, h.mem_members hx, rfl⟩
  optional m hm hname := by
    rw [h.member_eq hx hm hname, ← isDeferred_iff]
    cases hdeferred : isDeferred x.method <;> simp [Part.member, ObjectName.member, hdeferred]
  memberText m hm hname := by
    rw [h.member_eq hx hm hname]
    exact x.object.member_text x.type x.method
  accessor hgiven := ⟨x.accessor, h.accessors.2 (.inl ⟨x, hx, hgiven, rfl⟩), rfl⟩
  accessorText hgiven a ha hname := by
    have heq : a = x.accessor := List.inj_on_of_nodup_map h.consistent.accessors ha
      (h.accessors.2 (.inl ⟨x, hx, hgiven, rfl⟩)) hname
    rw [heq]
    exact x.object.accessor_text x.type x.method

lemma reaches (hx : x ∈ d.parts plan) {a t} (ht : x.translate d.isMixin a = .ok t) :
    c.Reaches (d.parts plan) x a.name t.setter.target.text := by
  have htarget : t.setter.target =
      ⟨(x.options a.name).path?.getD x.object.storage, isDeferred x.method⟩ := by
    rw [Value.Binder.setter_eq ht, x.deferred_options]
  obtain hpath | ⟨hrole, hname, base, hbase, hpath⟩ := x.path_options a.name
  · have htext : t.setter.target.text =
        "this." ++ x.object.storage ++ c.mark x.object.storage := by
      rw [htarget, hpath, h.mark_eq hx]
      rfl
    exact htext ▸ .own
  · obtain ⟨_, raw, hbase', hraw, hbaseName, hmethod⟩ := h.onMesh hx hrole
    cases hbase.symm.trans hbase'
    have hfind : .find base ∈ x.sights := by
      rw [Part.sights, hbase]
      exact List.mem_cons_self
    obtain ⟨y, hy, hmesh, hgiven, rfl⟩ := h.exists_mesh hx hfind
    have htext : t.setter.target.text = "this." ++ y.object.storage ++ c.mark y.object.storage ++
        ".material" ++ c.mark y.object.storage := by
      rw [htarget, hpath, h.mark_eq hy, ← hmethod]
      simp [Target.text, Target.part, Mesh.target, Part.mesh, String.append_assoc]
    exact htext ▸ .opacity hrole hname hy hmesh hraw (hbaseName ▸ hgiven)

lemma setter {f} {st : Statement} (hst : st ∈ c.body f) {setter} (hsetter : st.setter? = some setter) :
    ∃ x ∈ d.parts plan, x.method = f ∧ ∃ a ∈ x.attributes, ∃ t,
      x.translate d.isMixin a = .ok t ∧ t.setter = setter := by
  cases h.tells hst with
  | part hx hmethod _ htells => exact ⟨_, hx, hmethod, htells.setter hsetter⟩
  | joint hjoint => cases hjoint <;> cases hsetter
  | line | initial | check | call => cases hsetter

end Planned

/-- The markers of the class of a document agree with where the objects are built, and the text of
every setter in it agrees with the markers. -/
theorem markers_agree {d : Document} {options : CompileOptions} {c : ClassDef}
    (h : d.generated? options = some c) :
    ∃ plan, Planned d c plan ∧ List.Forall₂ Part.IsOf (d.parts plan) d.items ∧
      (∀ x ∈ d.parts plan, c.Marks x.type x.object x.method) ∧
      ∀ f, ∀ st ∈ c.body f, ∀ setter ∈ st.setter?, ∃ x ∈ d.parts plan, x.method = f ∧
        ∃ a ∈ x.attributes, a.name = setter.name ∧
          ∃ access, c.Reaches (d.parts plan) x a.name access ∧ st.WorksOn access := by
  obtain ⟨plan, hplan⟩ := d.planned h
  refine ⟨plan, hplan, hplan.items, fun x hx => hplan.marks hx, ?_⟩
  intro f st hst setter hsetter
  obtain ⟨x, hx, hmethod, a, ha, t, ht, rfl⟩ := hplan.setter hst hsetter
  refine ⟨x, hx, hmethod, a, ha, ?_, _, hplan.reaches hx ht, Statement.worksOn_target hsetter⟩
  rw [Value.Binder.setter_eq ht]

def fadedView : Document where
  root :=
    { tag := "View"
      attributes := [⟨"name", "V"⟩]
      children :=
        [{ tag := "Nodes"
           children :=
             [{ tag := "Box"
                attributes := [⟨"name", "desk"⟩, ⟨"position", "\x7bthis.place\x7d"⟩] },
              { tag := "DeferredGroup"
                attributes := [⟨"name", "stage"⟩, ⟨"initWhen", "\x7bthis.open\x7d"⟩]
                children :=
                  [{ tag := "Box"
                     attributes := [⟨"name", "screen"⟩, ⟨"isVisible", "\x7bthis.lit\x7d"⟩] }] }] },
          { tag := "Guis"
            children :=
              [{ tag := "TextureGui"
                 attributes := [⟨"mesh", "screen"⟩, ⟨"alpha", "0.5"⟩]
                 children := [{ tag := "TextBlock", attributes := [⟨"text", "Hello"⟩] }] }] }] }

theorem fadedView_marked :
    ∃ c, fadedView.generated? {} = some c ∧
      ∃ plan, Planned fadedView c plan ∧
        List.Forall₂ Part.IsOf (fadedView.parts plan) fadedView.items ∧
        (∀ x ∈ fadedView.parts plan, c.Marks x.type x.object x.method) ∧
        ∀ f, ∀ st ∈ c.body f, ∀ setter ∈ st.setter?, ∃ x ∈ fadedView.parts plan, x.method = f ∧
          ∃ a ∈ x.attributes, a.name = setter.name ∧
            ∃ access, c.Reaches (fadedView.parts plan) x a.name access ∧ st.WorksOn access := by
  obtain ⟨c, h⟩ := Option.isSome_iff_exists.1
    (show (fadedView.generated? {}).isSome = true by decide +kernel)
  exact ⟨c, h, markers_agree h⟩

end SceneView
