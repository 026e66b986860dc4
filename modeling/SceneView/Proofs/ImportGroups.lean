import SceneView.Proofs.Parts

/-!
# Imports of a generated module

A generated module imports the type of every object that it builds, the types that translated values
construct, the types that its methods answer with and the comparison that its setters use. Each
library that something is imported from has one import line, with the names in rising order.
-/

open List

namespace SceneView

open Compile

def Construction.values : Construction → List String
  | shape _ _ _ options | factory _ options _ => options.map (·.2)
  | named .. | model .. | texture .. | fullScreen .. | onMesh .. | control .. => []

/-- The translated values in a statement. -/
def Statement.values : Statement → List String
  | construct _ v => v.values
  | initial _ value | apply _ value => [value]
  | _ => []

/-- A value in a statement of a method is what a value of the document is translated to: an attribute
of the element of a part, which its constructor takes or a setter sets, or the default of a property.
The translation may construct a typed value. -/
inductive Document.Translates (d : Document) (xs : List Part) (f : String) (st : Statement)
    (value : String) : Option Value.Primitive → Prop where
  | option {x a t place?} :
    x ∈ xs →
    x.method = f →
    a ∈ x.attributes →
    x.role.passes a.name = true →
    x.translate d.isMixin a = .ok t →
    st = .construct x.object.storage (x.construction d.isMixin place?) →
    value = t.value →
    Translates d xs f st value t.constructs?
  | attribute {x a t} :
    x ∈ xs →
    x.method = f →
    a ∈ x.attributes →
    x.role.passes a.name = false →
    x.translate d.isMixin a = .ok t →
    st = t.apply →
    value = t.value →
    Translates d xs f st value t.constructs?
  | default {e raw p?} :
    e ∈ d.properties →
    f = Builtin.init →
    e.attr? "default" = some raw →
    (viewBinder d.isMixin).typed e.ownType raw = .ok (value, p?) →
    st = .initial (storageName e.ownName) value →
    Translates d xs f st value p?

/-- The import groups have all that the class needs. -/
structure Document.Imports (d : Document) (s : Session) (xs : List Part) : Prop where
  members : ∀ m ∈ s.generated.members, m ∈ initMembers d.isMixin ∨ (∃ x ∈ xs, m = x.member) ∨
    (∃ g, m = groupMember g) ∨ ∃ e ∈ d.properties, m = propertyMember e.ownName e.ownType
  types : ∀ x ∈ xs, x.member ∈ s.generated.members ∧
    ∀ origin ∈ x.role.origin?, x.member.type ∈ s.imports.group origin
  values : ∀ f, ∀ st ∈ s.generated.body f, ∀ value ∈ st.values, ∃ p?,
    d.Translates xs f st value p? ∧ ∀ p ∈ p?, p.typeName ∈ s.imports.group .core
  methods : ∀ m ∈ s.generated.methods, ∀ n, m.name = ensureMethod n →
    m.returnType ∈ s.imports.group .core
  setters : ∀ a ∈ s.generated.accessors, a.hasSetter = true → "isEqual" ∈ s.imports.group .utility

def importLine (library : String) (names : List String) : String :=
  "import \x7b " ++ ", ".intercalate names ++ " \x7d from '" ++ library ++ "';"

def Session.origins (s : Session) : List Origin :=
  Origin.order.filter fun origin => !(s.imports.group origin).isEmpty

namespace Session

variable {s : Session}

lemma importLines_eq (s : Session) (libraries : Libraries) :
    s.importLines libraries = s.authorImports ++ s.origins.map fun origin =>
      importLine (libraries.module origin) (s.imports.group origin) := by
  unfold importLines origins
  congr 1
  generalize Origin.order = order
  induction order with
  | nil => rfl
  | cons origin order ih =>
    rw [filterMap_cons, filter_cons, ih]
    cases hgroup : s.imports.group origin with
    | nil => simp
    | cons name names => simp [hgroup, importLine]

lemma moduleText_of_origins {libraries} (h : s.origins ≠ []) :
    s.moduleText libraries = "\n".intercalate (s.authorImports ++ s.origins.map fun origin =>
      importLine (libraries.module origin) (s.imports.group origin)) ++ "\n\n" ++
        s.generated.text := by
  unfold moduleText
  rw [importLines_eq]
  split
  · next hnil => simp [h] at hnil
  · rfl

end Session

namespace Part

variable {isMixin : Bool} {place? : Option String} {x : Part}

lemma of_mem_values {value} (h : value ∈ (x.construction isMixin place?).values) :
    ∃ a ∈ x.attributes, x.role.passes a.name = true ∧ (∀ site, x.refers? site a = none) ∧
      x.isLink a = false ∧ ∃ t, x.translate isMixin a = .ok t ∧ value = t.value := by
  have hpassed : value ∈ (x.passed isMixin).map (·.2) ∧
      ((∃ s, x.role = .shape s) ∨ x.role = .custom) := by
    unfold construction at h
    cases hrole : x.role with
    | shape s =>
      rw [hrole] at h
      exact ⟨h, .inl ⟨s, rfl⟩⟩
    | custom =>
      rw [hrole] at h
      exact ⟨h, .inr rfl⟩
    | _ =>
      rw [hrole] at h
      cases h
  obtain ⟨hvalue, hrole⟩ := hpassed
  obtain ⟨⟨name, value⟩, hmem, rfl⟩ := mem_map.1 hvalue
  obtain ⟨a, ha, htranslated⟩ := mem_filterMap.1 hmem
  obtain ⟨ha, hpasses⟩ := mem_filter.1 ha
  obtain ⟨t, ht, heq⟩ := Option.map_eq_some_iff.1 htranslated
  cases heq
  refine ⟨a, ha, hpasses, fun site => ?_, ?_, t, ?_, rfl⟩
  · obtain ⟨s, hs⟩ | hcustom := hrole
    · rw [refers?, hs]
      rw [hs] at hpasses
      have hname : a.name ≠ "material" := by
        intro hname
        rw [hname] at hpasses
        revert hpasses
        cases s <;> decide
      simp [materialUse?, hname]
    · rw [refers?, hcustom]
  · obtain ⟨s, hs⟩ | hcustom := hrole
    · rw [isLink, hs]
      rfl
    · rw [isLink, hcustom]
      rfl
  · cases hx : x.translate isMixin a with
    | error fault =>
      rw [hx] at ht
      cases ht
    | ok t' =>
      rw [hx] at ht
      cases ht
      rfl

end Part

lemma Planned.imports_type {d c plan} (h : Planned d c plan) {x} (hx : x ∈ d.parts plan) {origin}
    (ho : origin ∈ x.role.origin?) :
    .imports origin x.type ∈ plan.flatMap (Portion.trace d.isMixin) := by
  have hgui : ∀ role, x.role = role → role = .fullScreen ∨ role = .onMesh →
      .imports .gui guiType ∈ plan.flatMap (Portion.trace d.isMixin) := by
    rintro role hrole hkind
    obtain ⟨q, hq, hlies⟩ := h.lies hx
    refine mem_flatMap.2 ⟨q, hq, ?_⟩
    cases hlies with
    | gui => exact mem_append_left _ (mem_importing.2 mem_cons_self)
    | node _ _ hnode =>
      obtain ⟨kind, _, hkind'⟩ := Option.bind_eq_some_iff.1 hnode
      rw [hrole] at hkind'
      obtain rfl | rfl := hkind <;> cases kind <;> cases hkind'
    | shared hshared =>
      rw [hrole] at hshared
      obtain rfl | rfl := hkind <;> cases hshared
  obtain ⟨site, place?, hposted⟩ := h.posted hx
  have hown : ∀ n ∈ x.ownImports, .imports n.1 n.2 ∈ plan.flatMap (Portion.trace d.isMixin) :=
    fun n hn => hposted.imported (mem_importing.2 (mem_append_left _ hn))
  cases hrole : x.role with
  | fullScreen | onMesh =>
    rw [hrole] at ho
    cases ho
    rw [Part.type, hrole]
    exact hgui _ hrole (by simp)
  | custom =>
    rw [hrole] at ho
    cases ho
  | _ =>
    refine hown (origin, x.type) ?_
    rw [hrole] at ho
    rw [Part.ownImports, hrole]
    cases ho
    exact mem_singleton_self _

/-- A session has imported what the sections of a plan import. -/
structure Gathered (d : Document) (s : Session) (plan : List Portion) : Prop where
  imported : ∀ {origin name}, .imports origin name ∈ plan.flatMap (Portion.trace d.isMixin) →
    name ∈ s.imports.group origin
  start : ∀ origin, (initImports d.isMixin).group origin ⊆ s.imports.group origin
  sorted : s.imports.Sorted
  answered : ∀ m ∈ s.generated.methods, ∀ n, m.name = ensureMethod n →
    m.returnType ∈ s.imports.group .core
  author : s.authorImports = d.sections.flatMap sectionLines

lemma Session.Answered.returnType {s : Session} {className isMixin visibility T} (h : s.Answered)
    (tr : Course className isMixin visibility T s.core) {m} (hm : m ∈ s.generated.methods) {n}
    (hn : m.name = ensureMethod n) : m.returnType ∈ s.imports.group .core := by
  have hsignature := (tr.mem_signatures m.signature).1 (mem_map_of_mem hm)
  obtain ⟨kind, hused, heq⟩ := hsignature.of_ensureMethod hn
  have hregistered := tr.table.registered kind n (.inl hused)
  have hfind := tr.table.find? kind n
  rw [if_pos hregistered] at hfind
  have htype : m.returnType = kind.returnType := congrArg Signature.returnType heq
  rw [htype]
  refine h kind n _ hfind ?_
  rw [entryAfter, hused]
  rfl

lemma Document.gathered {d : Document} {options s} (h : d.session? options = some s) :
    ∃ plan, Planned d s.generated plan ∧ Gathered d s plan := by
  obtain ⟨className, T, tr, hw, hgathers⟩ := d.session_course h
  obtain ⟨plan, hplan, hsub, hlines⟩ := hw.planned tr
  have hanswered : s.Answered := hgathers.answered fun kind name e he => by cases he
  refine ⟨plan, hplan, fun hn => hgathers.gained (hsub hn), hgathers.kept, hgathers.sorted ?_,
    fun m hm n hn => hanswered.returnType tr hm hn, ?_⟩
  · intro origin
    change ((initImports d.isMixin).group origin).Pairwise (· < ·)
    cases origin <;> cases d.isMixin <;> decide
  · rw [hgathers.author, hlines]
    rfl

namespace Gathered

variable {d : Document} {s : Session} {plan : List Portion} (h : Gathered d s plan)
include h

lemma mem_needed {p? : Option Value.Primitive} {names}
    (hnames : importing names ⊆ plan.flatMap (Portion.trace d.isMixin)) (hneeded : needed p? ⊆ names) :
    ∀ p ∈ p?, p.typeName ∈ s.imports.group .core := by
  intro p hp
  refine h.imported (hnames (mem_importing.2 (hneeded ?_)))
  exact mem_map.2 ⟨p, Option.mem_toList.2 hp, rfl⟩

lemma mem_constructs {x : Part} {site place? sts a t}
    (hposted : x.Posted d.isMixin d.outline sts (plan.flatMap (Portion.trace d.isMixin)) site place?)
    (ha : a ∈ x.attributes) (hrefers : x.refers? site a = none) (hlink : x.isLink a = false)
    (ht : x.translate d.isMixin a = .ok t) :
    ∀ p ∈ t.constructs?, p.typeName ∈ s.imports.group .core := by
  refine h.mem_needed hposted.imported fun n hn => ?_
  refine mem_append_right _ (mem_flatMap.2 ⟨a, ha, ?_⟩)
  rw [Part.needs, hrefers, hlink, Part.constructs, ht]
  exact hn

lemma origins_ne_nil : s.origins ≠ [] := by
  have hcore : "Node" ∈ s.imports.group .core := h.start .core (by
    cases d.isMixin <;> decide)
  refine ne_nil_of_mem (a := .core) (mem_filter.2 ⟨by decide, ?_⟩)
  simpa using ne_nil_of_mem hcore

lemma translates (hplan : Planned d s.generated plan) {f : String} {st}
    (hst : st ∈ s.generated.body f) {value} (hvalue : value ∈ st.values) :
    ∃ p?, d.Translates (d.parts plan) f st value p? ∧
      ∀ p ∈ p?, p.typeName ∈ s.imports.group .core := by
  cases hplan.tells hst with
  | part hx hmethod hposted htells =>
    cases htells with
    | construct =>
      obtain ⟨a, ha, hpasses, hrefers, hlink, t, ht, rfl⟩ := Part.of_mem_values hvalue
      refine ⟨_, .option hx hmethod ha hpasses ht rfl rfl, ?_⟩
      exact h.mem_constructs hposted ha (hrefers _) hlink ht
    | placing hplacing => cases Part.isPlacing hplacing <;> cases hvalue
    | apply ha hrefers hlink hpasses ht =>
      refine ⟨_, .attribute hx hmethod ha hpasses ht rfl (mem_singleton.1 hvalue), ?_⟩
      exact h.mem_constructs hposted ha hrefers hlink ht
    | bind _ _ hbind =>
      obtain ⟨_, _, rfl⟩ := Option.map_eq_some_iff.1 hbind
      cases hvalue
    | @use u =>
      rw [Use.statement] at hvalue
      split at hvalue <;> cases hvalue
    | link => cases hvalue
  | joint hjoint => cases hjoint <;> cases hvalue
  | line | check | call => cases hvalue
  | @initial e raw v p? he hinit hdefault htyped =>
    obtain rfl := mem_singleton.1 hvalue
    refine ⟨p?, .default he hinit hdefault htyped rfl, h.mem_needed (hplan.property he) ?_⟩
    rw [Element.propertyImports, hdefault, Option.bind_some, htyped]
    exact subset_cons_self _ _

lemma imports (hplan : Planned d s.generated plan) : d.Imports s (d.parts plan) where
  members m hm := by
    obtain hm | hm | ⟨g, _, hm⟩ | hm := hplan.members.1 hm
    · exact .inl hm
    · exact .inr (.inl hm)
    · exact .inr (.inr (.inl ⟨_, hm⟩))
    · exact .inr (.inr (.inr hm))
  types x hx := ⟨hplan.members.2 (.inr (.inl ⟨x, hx, rfl⟩)), fun origin ho =>
    h.imported (hplan.imports_type hx ho)⟩
  values _ _ hst _ hvalue := h.translates hplan hst hvalue
  methods := h.answered
  setters a ha hsetter := by
    obtain ⟨x, _, _, rfl⟩ | ⟨e, he, rfl⟩ := hplan.accessors.1 ha
    · cases hsetter
    · exact h.imported (hplan.property he (mem_importing.2 mem_cons_self))

end Gathered

lemma code_of_compile {d options v} (h : (compileDocument options d).1 = .ok v) :
    ∃ s, d.session? options = some s ∧
      v.code = "\n".intercalate (d.sections.flatMap sectionLines ++ s.origins.map fun origin =>
        importLine (options.libraries.module origin) (s.imports.group origin)) ++ "\n\n" ++
          s.generated.text := by
  obtain ⟨s, hs, hcode⟩ := Document.session?_of_compile h
  obtain ⟨plan, _, hgathered⟩ := Document.gathered hs
  refine ⟨s, hs, ?_⟩
  rw [hcode, Session.moduleText_of_origins hgathered.origins_ne_nil, hgathered.author]

end SceneView
