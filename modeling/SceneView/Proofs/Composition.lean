import SceneView.Proofs.Elements

/-!
# Actions composed of basic ones

Every action of the compiler is composed of a few basic ones, which log, import, read the session
and change it, name an object or look one up. What is said about each basic action once holds of all
others: `Composed.outcome` tells where a run may stop, and which answer it gives if it does not.
-/

open List

namespace SceneView

open Text

/-- Whether a fault is about an element of the document. -/
def Fault.isPlaced : Fault → Bool
  | reference .. | forwardReference .. | conflict .. | missingAttribute ..
  | unknownElement .. => true
  | invalidExpression .. | invalidStructure .. | markup .. | unknownMethod .. => false

/-- The element has what a conflict is about: the name, or a value for a place that is taken. -/
def Conflict.Concerns (e : Element) : Conflict → Prop
  | object name | property name | sharedObject _ name | deferredGroup name =>
    (e.attr? "name").map Text.trim = some name
  | nodeMaterial _ => NodeKind.ofTag? e.tag = some .material
  | textureSlot _ slot => slotOfTag e.tag = slot
  | outputFile .. | described _ => False

def Fault.Concerns (e : Element) : Fault → Prop
  | reference _ name _ | forwardReference _ name _ =>
    ∃ a ∈ e.attributes, Text.trim a.value = name
  | conflict cause _ => cause.Concerns e
  | missingAttribute tag name _ => e.tag = tag ∧ e.attr? name = none
  | unknownElement tag _ _ => e.tag = tag
  | invalidExpression .. | invalidStructure .. | markup .. | unknownMethod .. => False

def Fault.isLookup : Fault → Bool
  | reference .. | forwardReference .. => true
  | _ => false

def Fault.isMesh : Fault → Bool
  | reference .mesh _ _ | forwardReference .mesh _ _ => true
  | _ => false

/-- A fault that is about no element, or about one of `B` whose line it carries if the element has
one, or about one of `own` and has no line yet. -/
inductive Fault.Told (B own : Element → Prop) : Fault → Prop where
  | nothing {f} :
    f.isPlaced = false →
    Told B own f
  | placed {f e} :
    B e →
    (0 < e.line → f.line? = some e.line) →
    f.Concerns e →
    Told B own f
  | unplaced {f e} :
    own e →
    f.line? = none →
    f.Concerns e →
    Told B own f

namespace Fault

variable {e : Element} {f : Fault}

lemma concerns_atLine (line : Nat) (h : f.Concerns e) :
    (f.atLine line).Concerns e := by
  unfold atLine
  split <;> exact h

lemma isPlaced_atLine (line : Nat) (f : Fault) : (f.atLine line).isPlaced = f.isPlaced := by
  unfold atLine
  split <;> rfl

lemma isPlaced_of_concerns (h : f.Concerns e) : f.isPlaced = true := by
  cases f <;> first | rfl | cases h

lemma atLine_of_line? {l} (line : Nat) (h : f.line? = some l) : f.atLine line = f := by
  unfold atLine
  split <;> first | rfl | cases h

lemma line?_atLine {line} (hline : 0 < line) (hplaced : f.isPlaced = true) (h : f.line? = none) :
    (f.atLine line).line? = some line := by
  have hzero : ∀ {l}, (if l > 0 then some l else none) = (none : Option Nat) → l = 0 := by
    intro l hl
    by_contra hne
    rw [if_pos (Nat.pos_of_ne_zero hne)] at hl
    cases hl
  cases f with
  | reference | forwardReference | conflict | missingAttribute | unknownElement =>
    cases hzero h
    exact if_pos hline
  | _ => cases hplaced

lemma Told.atLine {B own} (h : f.Told B (e = ·)) (he : B e) : (f.atLine e.line).Told B own := by
  cases h with
  | nothing hf => exact .nothing ((isPlaced_atLine e.line f).trans hf)
  | placed hB hl hc =>
    refine .placed hB (fun hline => ?_) (concerns_atLine e.line hc)
    rw [atLine_of_line? e.line (hl hline), hl hline]
  | unplaced how hl hc =>
    cases how
    exact .placed he (fun hline => line?_atLine hline (isPlaced_of_concerns hc) hl)
      (concerns_atLine e.line hc)

lemma isMesh_atLine (line : Nat) (f : Fault) : (f.atLine line).isMesh = f.isMesh := by
  unfold atLine
  split
  iterate 2 next kind _ => cases kind <;> rfl
  all_goals rfl

lemma isMesh_of_isLookup (h : f.isLookup = false) : f.isMesh = false := by
  cases f with
  | reference | forwardReference => cases h
  | _ => rfl

lemma reference_of_atLine {kind n line line'} (h : f.atLine line = .reference kind n line') :
    ∃ l, f = .reference kind n l := by
  unfold atLine at h
  split at h
  · cases h
    exact ⟨0, rfl⟩
  all_goals first | exact ⟨line', h⟩ | cases h

end Fault

lemma SharedKind.referenceKind_injective {k k' : SharedKind}
    (h : k.referenceKind = k'.referenceKind) : k = k' := by
  cases k <;> cases k' <;> first | rfl | cases h

lemma SharedKind.isMesh_reference (kind : SharedKind) (n : String) (line : Nat) :
    (Fault.reference kind.referenceKind n line).isMesh = false := by
  cases kind <;> rfl

namespace Compile

def Used (es : List Event) (kind : SharedKind) (n : String) : Prop :=
  ∃ u, .use u ∈ es ∧ u.kind = kind ∧ u.name = n

lemma Used.mono {es es'} (h : es ⊆ es') {kind n} (hu : Used es kind n) : Used es' kind n := by
  obtain ⟨u, hmem, hkind, hname⟩ := hu
  exact ⟨u, h hmem, hkind, hname⟩

/-- What actions may deal with. -/
structure Scope where
  /-- The elements that a fault may be about. -/
  elements : Element → Prop
  child : ∀ {e c}, elements e → c ∈ e.children → elements c
  uses : SharedKind → String → Prop
  meshes : Prop

def Scope.whole : Scope := ⟨fun _ => True, fun _ _ => trivial, fun _ _ => True, True⟩

def Scope.meshless : Scope := { Scope.whole with meshes := False }

def Scope.Covers (S : Scope) (es : List Event) : Prop :=
  ∀ kind n, Used es kind n → S.uses kind n

lemma Scope.Covers.of_subset {S : Scope} {es es'} (h : S.Covers es') (hsub : es ⊆ es') :
    S.Covers es :=
  fun kind n hused => h kind n (hused.mono hsub)

def Scope.Declares (S : Scope) (e : Element) : Prop :=
  ∀ kind : SharedKind, SectionKind.ofTag? e.tag = some kind.home → ∀ c ∈ e.children,
    S.uses kind c.ownName

/-- A fault that is no failed reference. -/
structure Scope.Says (S : Scope) (own : Element → Prop) (f : Fault) : Prop where
  told : f.Told S.elements own
  isLookup : f.isLookup = false

/-- A fault of a look into the table of shared objects. -/
inductive Scope.Lost (S : Scope) (own : Element → Prop) (t : SharedTable) : Fault → Prop where
  | said {f} :
    S.Says own f →
    Lost S own t f
  | missing {kind e a} :
    own e →
    a ∈ e.attributes →
    S.uses kind (Text.trim a.value) →
    t.find? kind (Text.trim a.value) = none →
    Lost S own t (.reference kind.referenceKind (Text.trim a.value) 0)

/-- An action on behalf of one of the elements `own` that is composed of basic ones, and that
finishes with an answer in `p`. -/
inductive Composed (S : Scope) : (Element → Prop) → {α : Type} → Compile α → (α → Prop) → Prop where
  | pure {own α} {a : α} {p} :
    p a →
    Composed S own (pure a) p
  | bind {own α β} {x : Compile α} {f : α → Compile β} {p q} :
    Composed S own x p →
    (∀ a, p a → Composed S own (f a) q) →
    Composed S own (x >>= f) q
  | throw {own α f} {p : α → Prop} :
    S.Says own f →
    Composed S own (throw f) p
  | lift {own α} {r : Except Fault α} {p} :
    Ends (S.Says own) r p →
    Composed S own (liftM r) p
  | log {own} (level : LogLevel) (text : String) :
    Composed S own (log level text) fun _ => True
  | addImport {own} (origin : Origin) (name : String) :
    Composed S own (addImport origin name) fun _ => True
  /-- The log and the imports are not read. -/
  | read {own β} {f : Session → Compile β} {q} :
    (∀ s imports log, f { s with imports, log } = f s) →
    (∀ s, Composed S own (f s) q) →
    Composed S own (get >>= f) q
  | update {own} {g : Session → Session} :
    (∀ s imports log, g { s with imports, log } = { g s with imports, log }) →
    (¬ S.meshes → ∀ s, (g s).nodeNames = s.nodeNames ∧ (g s).meshes = s.meshes) →
    Composed S own (modify g) fun _ => True
  | named {own e given?} {q : ObjectName → Compile PUnit} (type : String) (deferred : Bool) :
    (∀ o s, ∃ log, (q o).run.run s = (.ok (), { s with log })) →
    own e →
    given?.map Text.trim = (e.attr? "name").map Text.trim →
    Composed S own (do
      let o ← assignName type given?
      q o
      declareNamed type o deferred
      pure o) fun o => o.given = (ObjectName.given? given?).map (·.name)
  | lookup {own α} {r : SharedTable → Except Fault α} {p} :
    (∀ t, Ends (S.Lost own t) (r t) p) →
    Composed S own (get >>= fun s => liftM (r s.shared)) p
  | mesh {own e a} :
    S.meshes →
    own e →
    a ∈ e.attributes →
    Composed S own (mesh (Text.trim a.value)) fun _ => True
  | located {own e α} {x : Compile α} {p} :
    S.elements e →
    Composed S (e = ·) x p →
    Composed S own (located e.line x) p

/-- How a run from `s` ends: with an answer in `p`, or at a fault that is told of an element. A
shared object that is missing is in no table and may be referred to. -/
inductive Outcome (S : Scope) (own : Element → Prop) {α : Type} (p : α → Prop) (s : Session) :
    Except Fault α × Session → Prop where
  | finished {a s'} :
    p a →
    (¬ S.meshes → s'.nodeNames = s.nodeNames ∧ s'.meshes = s.meshes) →
    Outcome S own p s (.ok a, s')
  | stopped {f s'} :
    f.Told S.elements own →
    (∀ (kind : SharedKind) n line, f = .reference kind.referenceKind n line →
      s'.shared.find? kind n = none ∧ S.uses kind n) →
    (¬ S.meshes → f.isMesh = false) →
    Outcome S own p s (.error f, s')

lemma Outcome.of_fault {S own} {α : Type} {p : α → Prop} {s s' f} (h : S.Says own f) :
    Outcome S own p s (.error f, s') := by
  refine .stopped h.told (fun kind n line hf => ?_) fun _ => Fault.isMesh_of_isLookup h.isLookup
  subst hf
  cases h.isLookup

/-- A composed action, whatever it answers. -/
abbrev Composes (S : Scope) (own : Element → Prop) {α : Type} (x : Compile α) : Prop :=
  Composed S own x fun _ => True

namespace Composed

variable {S : Scope} {own : Element → Prop} {α β : Type} {x : Compile α} {f : α → Compile β}
  {p : α → Prop} {q : β → Prop}

lemma outcome (h : Composed S own x p) (s : Session) : Outcome S own p s (x.run.run s) := by
  induction h generalizing s with
  | pure ha => exact .finished ha fun _ => ⟨rfl, rfl⟩
  | @bind own α β x f p q _ _ ih ihf =>
    have hx := ih s
    rw [run_bind]
    generalize x.run.run s = r at hx
    cases hx with
    | stopped htold hmissing hmesh => exact .stopped htold hmissing hmesh
    | @finished a s' ha hkept =>
      have hf := ihf a ha s'
      dsimp only
      generalize (f a).run.run s' = r at hf
      cases hf with
      | stopped htold hmissing hmesh => exact .stopped htold hmissing hmesh
      | finished hb hkept' =>
        refine .finished hb fun hM => ?_
        exact ⟨(hkept' hM).1.trans (hkept hM).1, (hkept' hM).2.trans (hkept hM).2⟩
  | throw hf => exact .of_fault hf
  | lift hr =>
    rw [run_lift]
    cases hr with
    | ok ha => exact .finished ha fun _ => ⟨rfl, rfl⟩
    | error hf => exact .of_fault hf
  | log | addImport => exact .finished trivial fun _ => ⟨rfl, rfl⟩
  | read _ _ ih => exact ih s s
  | update _ hkept => exact .finished trivial fun hM => hkept hM s
  | @named own e given? q type deferred hq he hgiven =>
    cases hname : s.names.assignUnused s.generated type given? with
    | mk o names =>
    obtain ⟨log, hrun⟩ := named_run deferred (f := Pure.pure) hname hq
    rw [hrun]
    cases hdeclare : s.generated.declare type o deferred with
    | ok c => exact .finished (given_of_assignUnused hname) fun _ => ⟨rfl, rfl⟩
    | error fault =>
      rcases NamePool.assignUnused_cases hname with ⟨_, _, ho, rfl, _⟩ | ⟨k, _, rfl, hissues⟩
      · have hconcerns : (e.attr? "name").map trim = some _ :=
          hgiven.symm.trans (ObjectName.trim_of_given? ho)
        unfold ClassDef.declare at hdeclare
        split at hdeclare
        · cases hdeclare
          exact .of_fault ⟨.unplaced he rfl hconcerns, rfl⟩
        · dsimp only at hdeclare
          cases hdeclare
      · obtain ⟨c, hok⟩ := declare_eq_ok_of_issues hissues deferred
        cases hdeclare.symm.trans hok
  | @lookup own α r p hr =>
    have hs := hr s.shared
    rw [run_bind, run_get]
    dsimp only
    rw [run_lift]
    generalize r s.shared = answer at hs
    cases hs with
    | ok ha => exact .finished ha fun _ => ⟨rfl, rfl⟩
    | error hf =>
      cases hf with
      | said hf => exact .of_fault hf
      | @missing kind e a he ha huse hfind =>
        refine .stopped (.unplaced he rfl ⟨a, ha, rfl⟩) ?_ fun _ => kind.isMesh_reference _ _
        rintro kind' n line hf
        simp only [Fault.reference.injEq] at hf
        obtain ⟨hkind, rfl, -⟩ := hf
        cases SharedKind.referenceKind_injective hkind
        exact ⟨hfind, huse⟩
  | @mesh own e a hM he ha =>
    unfold Compile.mesh
    rw [run_bind, run_get]
    dsimp only
    split
    · exact .finished trivial fun h => absurd hM h
    · split
      · exact .stopped (.unplaced he rfl ⟨a, ha, rfl⟩) nofun fun h => absurd hM h
      · refine .stopped (.unplaced he rfl ⟨a, ha, rfl⟩) (fun kind n line hf => ?_)
          fun h => absurd hM h
        cases kind <;> cases hf
  | @located own e α x p he _ ih =>
    have hx := ih s
    change Outcome S own p s ((x.run.run s).1.mapError (Fault.atLine e.line), (x.run.run s).2)
    generalize x.run.run s = r at hx
    cases hx with
    | finished ha hkept => exact .finished ha hkept
    | @stopped f s' htold hmissing hmesh =>
      refine .stopped (htold.atLine he) (fun kind n line hf => ?_) fun hM => ?_
      · obtain ⟨l, hl⟩ := Fault.reference_of_atLine hf
        exact hmissing kind n l hl
      · rw [Fault.isMesh_atLine, hmesh hM]

lemma throw_bind {fault} (h : S.Says own fault) :
    Composed S own ((MonadExcept.throw fault : Compile α) >>= f) q :=
  bind (p := fun _ => False) (throw h) fun _ => False.elim

lemma lookup_bind (r : SharedTable → Except Fault α) (hr : ∀ t, Ends (S.Lost own t) (r t) p)
    (hf : ∀ a, p a → Composed S own (f a) q) :
    Composed S own (get >>= fun s => liftM (r s.shared) >>= f) q := by
  rw [← bind_assoc]
  exact bind (lookup hr) hf

lemma named_bind {e : Element} {given? : Option String} {log : ObjectName → Compile PUnit}
    {f : ObjectName → Compile β} (type : String) (deferred : Bool)
    (hlog : ∀ o s, ∃ entries, (log o).run.run s = (.ok (), { s with log := entries })) (he : own e)
    (hgiven : given?.map trim = (e.attr? "name").map trim) (hf : ∀ o, Composed S own (f o) q) :
    Composed S own (do
      let o ← assignName type given?
      log o
      declareNamed type o deferred
      f o) q := by
  have hnamed := bind (named type deferred hlog he hgiven) fun o _ => hf o
  simpa only [bind_assoc, pure_bind] using hnamed

lemma set {g : Session → Session}
    (h : ∀ s imports log, g { s with imports, log } = { g s with imports, log } := by
      exact fun _ _ _ => rfl)
    (hg : ∀ s, (g s).nodeNames = s.nodeNames ∧ (g s).meshes = s.meshes := by
      exact fun _ => ⟨rfl, rfl⟩) : Composes S own (modify g) :=
  .update h fun _ => hg

lemma forM {f} {l : List α} (h : ∀ a ∈ l, Composes S own (f a)) : Composes S own (l.forM f) := by
  induction l with
  | nil => exact .pure trivial
  | cons a l ih =>
    exact .bind (h a mem_cons_self) fun _ _ => ih fun b hb => h b (mem_cons_of_mem _ hb)

lemma mapM {f : α → Compile β} {r l} (h : ∀ a ∈ l, Composed S own (f a) (r a)) :
    Composed S own (l.mapM f) (List.Forall₂ r l) := by
  induction l with
  | nil => exact .pure .nil
  | cons a l ih =>
    rw [mapM_cons]
    refine .bind (h a mem_cons_self) fun b hb => ?_
    refine .bind (ih fun c hc => h c (mem_cons_of_mem _ hc)) fun bs hbs => ?_
    exact .pure (.cons hb hbs)

end Composed

variable {S : Scope} {own : Element → Prop} {α : Type} {e : Element} {m : String}

lemma modifyClass_composed (g : ClassDef → ClassDef) : Composes S own (modifyClass g) :=
  .set

lemma require_composed (he : S.elements e) (name : String) :
    Composed S own (liftM (e.require name)) fun v => e.attr? name = some v := by
  apply Composed.lift
  unfold Element.require
  split
  · next h => exact .ok h
  · next h => exact .error ⟨.placed he (fun hline => if_pos hline) ⟨rfl, h⟩, rfl⟩

lemma onlyChild_composed (e : Element) :
    Composed S own (liftM e.onlyChild) fun child => e.children = [child] := by
  apply Composed.lift
  unfold Element.onlyChild
  split
  · next h => exact .ok h
  · exact .error ⟨.nothing rfl, rfl⟩

lemma value_composed {r : Except Fault α} {p} (h : Ends (·.isRefusal = true) r p) :
    Composed S own (liftM r) p := by
  refine .lift (h.mono (fun f hf => ?_) fun _ => id)
  cases f with
  | invalidExpression text reason => exact ⟨.nothing rfl, rfl⟩
  | _ => cases hf

lemma bound?_composed (raw : String) :
    Composed S own (bound? raw) fun e? => e?.isNone = isLiteral raw :=
  .read (fun _ _ _ => rfl) fun _ => value_composed (Value.bound?_ends _ raw)

lemma isReference_composed (a : Attribute) (name : String) :
    Composed S own (isReference a name) fun b => b = (a.name == name && isLiteral a.value) := by
  unfold isReference
  split
  · next h =>
    refine .bind (bound?_composed a.value) fun e? he => .pure ?_
    rw [h, he, Bool.true_and]
  · next h => exact .pure (by simp [h])

lemma importPrimitive_composed (p? : Option Value.Primitive) :
    Composes S own (importPrimitive p?) := by
  cases p? with
  | none => exact .pure trivial
  | some p => exact .addImport _ _

lemma translate_composed (a : Attribute) (target : String) (options : Value.Options) :
    Composes S own (translate a target options) :=
  .read (fun _ _ _ => rfl) fun s => .bind (value_composed (s.binder.translate_ends ..)) fun _ _ =>
    .bind (importPrimitive_composed _) fun _ _ => .pure trivial

lemma argument_composed (raw : String) (quoteLiteral : Bool) :
    Composes S own (argument raw quoteLiteral) :=
  .read (fun _ _ _ => rfl) fun s => value_composed (s.binder.argument_ends raw quoteLiteral)

lemma typed_composed (type raw : String) : Composes S own (typed type raw) :=
  .read (fun _ _ _ => rfl) fun s => .bind (value_composed (s.binder.typed_ends type raw)) fun _ _ =>
    .bind (importPrimitive_composed _) fun _ _ => .pure trivial

lemma emit_composed (m : String) (st : Statement) : Composes S own (emit m st) := by
  refine .bind (.log _ _) fun _ _ => .read (fun _ _ _ => rfl) fun s => ?_
  refine .bind (.lift (p := fun _ => True) ?_) fun _ _ => ?_
  · unfold ClassDef.push
    split
    · exact .ok trivial
    · exact .error ⟨.nothing rfl, rfl⟩
  · exact .set

lemma Composed.emit {β : Type} {st q} {f : Unit → Compile β} (hf : ∀ a, Composed S own (f a) q) :
    Composed S own (Compile.emit m st >>= f) q :=
  .bind (emit_composed m st) fun a _ => hf a

lemma follow_composed (m : String) (t : Value.Translated) : Composes S own (follow m t) :=
  .forM fun st _ => emit_composed m st

lemma apply_composed (m : String) (t : Value.Translated) : Composes S own (apply m t) :=
  .bind (emit_composed m _) fun _ _ => follow_composed m t

lemma translate_apply_composed (a : Attribute) (target m : String) (options : Value.Options) :
    Composes S own (translate a target options >>= apply m) :=
  .bind (translate_composed _ _ _) fun t _ => apply_composed m t

lemma declare_composed (he : own e) (type : String) :
    Composed S own (declare type (e.attr? "name") m) fun o => o.given = e.givenName? :=
  .named (q := fun _ => pure PUnit.unit) type (isDeferred m) (fun _ s => ⟨s.log, rfl⟩) he rfl

lemma addMesh_composed (hM : S.meshes) (o : ObjectName) (m : String) :
    Composes S own (addMesh o m) := by
  unfold addMesh
  split
  · exact .update (fun _ _ _ => rfl) fun h => absurd hM h
  · exact .pure trivial

variable {a : Attribute}

lemma sharedReference_composed (he : own e) (ha : a ∈ e.attributes) {kind}
    (hU : S.uses kind (trim a.value)) : Composes S own (sharedReference kind (trim a.value)) := by
  unfold sharedReference
  refine .lookup_bind (p := fun _ => True) (·.access kind (trim a.value)) (fun t => ?_)
    fun r _ => ?_
  · unfold SharedTable.access
    split
    · next hfind => exact .error (.missing he ha hU hfind)
    · split
      · exact .ok trivial
      · split <;> exact .ok trivial
  obtain ⟨access, table⟩ := r
  refine .bind .set fun _ _ => ?_
  cases access with
  | member => exact .pure trivial
  | ensure method created =>
    cases created with
    | false => exact .pure trivial
    | true =>
      refine .bind (.log _ _) fun _ _ => .bind (.addImport _ _) fun _ _ => ?_
      exact .bind (modifyClass_composed _) fun _ _ => .pure trivial

lemma buildShared_composed (he : own e) {raw : String} (hraw : e.attr? "name" = some raw)
    {kind : SharedKind} (hU : S.uses kind e.ownName) (type : String)
    {build : ObjectName → String → Compile Unit} (hb : ∀ o m, Composes S own (build o m)) :
    Composes S own (buildShared kind type (trim raw) build) := by
  have hname : (e.attr? "name").map trim = some (trim raw) :=
    congrArg (Option.map trim) hraw
  rw [(sharedName hraw).1] at hU
  unfold buildShared
  refine .lookup_bind (p := fun _ => True) (·.declare kind (trim raw)) (fun t => ?_)
    fun r _ => ?_
  · unfold SharedTable.declare
    split
    · next hfind =>
      obtain ⟨a, ha, rfl⟩ := Option.map_eq_some_iff.1 hraw
      exact .error (.missing he (mem_of_find?_eq_some ha) hU hfind)
    · split
      · exact .error (.said ⟨.unplaced he rfl hname, rfl⟩)
      · exact .ok trivial
  obtain ⟨site, table⟩ := r
  refine .bind .set fun _ _ => ?_
  refine .named_bind type _ (fun _ s => ⟨_, rfl⟩) he ?_ fun o => ?_
  · rw [hname, Option.map_some, trim_trim]
  · dsimp only
    split
    · refine .emit fun _ => ?_
      exact .bind (hb o _) fun _ _ => emit_composed _ _
    · exact .bind (hb o _) fun _ _ => .pure trivial

lemma mem_attributes {skip} (h : a ∈ e.attributesExcept skip) : a ∈ e.attributes :=
  (mem_filter.1 h).1

lemma buildTexture_composed (he : S.elements e) (kind : TextureKind) (o : ObjectName) (m : String) :
    Composes S own (buildTexture e kind o m) := by
  unfold buildTexture
  refine .bind (.addImport _ _) fun _ _ => .bind (require_composed he _) fun raw _ => ?_
  refine .bind (argument_composed _ _) fun _ _ => .emit fun _ => ?_
  refine .emit fun _ => .forM fun a _ => ?_
  unfold textureAttribute
  dsimp only
  split
  · exact .bind (translate_composed _ _ _) fun t _ => follow_composed _ t
  · exact translate_apply_composed _ _ _ _

lemma textureKind_composed (place : String) : Composes S (e = ·) (liftM (textureKind e place)) := by
  apply Composed.lift
  unfold textureKind
  split
  · exact .ok trivial
  · exact .error ⟨.unplaced rfl rfl rfl, rfl⟩

lemma sharedTexture_composed (he : S.elements e) (hname : S.uses .texture e.ownName) :
    Composes S own (sharedTexture e) := by
  refine .located he (.bind (textureKind_composed _) fun kind _ => ?_)
  refine .bind (require_composed he _) fun raw hraw => ?_
  exact buildShared_composed rfl hraw hname _ fun o m => buildTexture_composed he kind o m

lemma slotTexture_composed (he : S.elements e) (material slot m : String) :
    Composes S own (slotTexture e material slot m) := by
  refine .located he (.bind (textureKind_composed _) fun kind _ => ?_)
  refine .bind (declare_composed rfl _) fun o _ => ?_
  exact .bind (buildTexture_composed he kind o m) fun _ _ => emit_composed _ _

lemma materialAttribute_composed (site : Site) (he : own e) (ha : a ∈ e.attributes) {kind}
    (hU : S.Covers (slotUse? site e kind a).toList) (o : ObjectName) :
    Composes S own (materialAttribute kind o m a) := by
  unfold materialAttribute
  dsimp only
  split
  · next hslot =>
    refine .bind (bound?_composed _) fun bound hbound => ?_
    cases bound with
    | some _ => exact translate_apply_composed _ _ _ _
    | none =>
      have hliteral : isLiteral a.value = true := hbound.symm
      rw [slotUse?, hslot, hliteral] at hU
      refine .bind (sharedReference_composed he ha ?_) fun _ _ => emit_composed _ _
      exact hU _ _ ⟨_, mem_singleton.2 rfl, rfl, rfl⟩
  · exact translate_apply_composed _ _ _ _

lemma materialSlot_composed (he : S.elements e) (kind : MaterialKind) (o : ObjectName) {child}
    (hc : child ∈ e.children) : Composes S own (materialSlot e kind o m child) := by
  have hchild := S.child he hc
  unfold materialSlot
  dsimp only
  split
  · split
    · exact .throw_bind ⟨.placed hchild (fun hline => if_pos hline) rfl, rfl⟩
    · refine .bind (onlyChild_composed child) fun texture htexture => ?_
      exact slotTexture_composed (S.child hchild (by simp [htexture])) _ _ _
  · exact .throw_bind ⟨.placed hchild (fun hline => if_pos hline) rfl, rfl⟩

lemma buildMaterial_composed (site : Site) (he : S.elements e) (hown : own e) {kind : MaterialKind}
    (hkind : MaterialKind.ofTag? e.tag = some kind) (hU : S.Covers (materialParts site e))
    (node? : Option String) (o : ObjectName) (m : String) :
    Composes S own (buildMaterial e kind node? o m) := by
  have hparts : Composes S own (do
      (e.attributesExcept ["name"]).forM (materialAttribute kind o m)
      e.children.forM (materialSlot e kind o m)) := by
    refine .bind (.forM fun a ha => ?_) fun _ _ => ?_
    · refine materialAttribute_composed site hown (mem_attributes ha)
        (hU.of_subset fun v hv => ?_) o
      rw [materialParts, hkind]
      exact mem_append_left _ (mem_flatMap.2 ⟨a, ha, hv⟩)
    · exact .forM fun child hc => materialSlot_composed he kind o hc
  unfold buildMaterial
  refine .bind (.addImport _ _) fun _ _ => .emit fun _ => ?_
  cases node? with
  | some node => exact .emit fun _ => hparts
  | none => exact hparts

lemma materialKind_composed (place : String) :
    Composed S (e = ·) (liftM (materialKind e place)) fun kind =>
      MaterialKind.ofTag? e.tag = some kind := by
  apply Composed.lift
  unfold materialKind
  split
  · next h => exact .ok h
  · exact .error ⟨.unplaced rfl rfl rfl, rfl⟩

lemma sharedMaterial_composed (he : S.elements e) (hname : S.uses .material e.ownName)
    (hU : S.Covers (sharedOutline .material e)) : Composes S own (sharedMaterial e) := by
  refine .located he (.bind (materialKind_composed _) fun kind hkind => ?_)
  refine .bind (require_composed he _) fun raw hraw => ?_
  refine buildShared_composed rfl hraw hname _ fun o m => ?_
  refine buildMaterial_composed (.shared .material e.ownName) he rfl hkind
    (hU.of_subset fun v hv => ?_) none o m
  exact mem_cons_of_mem _ (mem_cons_of_mem _ hv)

lemma nodeMaterial_composed (site : Site) (he : S.elements e) (hU : S.Covers (materialParts site e))
    (node m : String) : Composes S own (nodeMaterial e node m) := by
  refine .located he (.bind (materialKind_composed _) fun kind hkind => ?_)
  refine .bind (declare_composed rfl _) fun o _ => ?_
  exact buildMaterial_composed site he rfl hkind hU _ o m

lemma transformNode_composed (he : own e) (p : Placement) : Composes S own (transformNode e p) := by
  unfold transformNode
  refine .bind (.addImport _ _) fun _ _ => .bind (declare_composed he _) fun o _ => ?_
  refine .emit fun _ => .emit fun _ => ?_
  exact .bind (.forM fun a _ => translate_apply_composed _ _ _ _) fun _ _ => .pure trivial

lemma shapeAttribute_composed (he : own e) (ha : a ∈ e.attributes)
    (hU : S.Covers (materialUse? (.method m) e a).toList) (shape : Shape) (o : ObjectName)
    (t : Value.Translated) : Composes S own (shapeAttribute shape o m (a, t)) := by
  unfold shapeAttribute
  refine .bind (isReference_composed _ _) fun b hb => ?_
  cases b with
  | true =>
    rw [materialUse?, ← hb] at hU
    refine .bind (sharedReference_composed he ha ?_) fun _ _ => emit_composed _ _
    exact hU _ _ ⟨_, mem_singleton.2 rfl, rfl, rfl⟩
  | false =>
    simp only [Bool.false_eq_true, if_false]
    split
    · exact follow_composed _ _
    · exact apply_composed _ _

lemma shapeNode_composed (hM : S.meshes) (he : own e) (shape : Shape) (p : Placement)
    (hU : S.Covers (shapeUses p.method e)) : Composes S own (shapeNode shape e p) := by
  unfold shapeNode
  refine .bind (.addImport _ _) fun _ _ => .bind (declare_composed he _) fun o _ => ?_
  refine .bind (.mapM (r := fun a pair => pair.1 = a) fun a _ => ?_) fun pairs hpairs => ?_
  · exact .bind (translate_composed _ _ _) fun _ _ => .pure rfl
  refine .emit fun _ => .emit fun _ => ?_
  refine .bind (addMesh_composed hM _ _) fun _ _ => .bind (.forM fun pair hpair => ?_) fun _ _ => ?_
  · obtain ⟨a, t⟩ := pair
    have ha := mem_map_of_mem (f := Prod.fst) hpair
    rw [map_fst_of_forall₂ hpairs] at ha
    refine shapeAttribute_composed he (mem_attributes ha) (hU.of_subset fun v hv => ?_) shape o t
    exact mem_flatMap.2 ⟨a, ha, hv⟩
  · exact .pure trivial

lemma modelNode_composed (he : S.elements e) (hown : own e) (p : Placement) :
    Composes S own (modelNode e p) := by
  unfold modelNode
  refine .bind (.addImport _ _) fun _ _ => .bind (require_composed he _) fun raw _ => ?_
  refine .bind (argument_composed _ _) fun _ _ => .bind (declare_composed hown _) fun o _ => ?_
  refine .emit fun _ => .emit fun _ => ?_
  refine .bind (.forM fun a _ => ?_) fun _ _ => .pure trivial
  unfold modelAttribute
  refine .bind (translate_composed _ _ _) fun t _ => ?_
  split
  · exact follow_composed _ t
  · exact apply_composed _ t

lemma customNode_composed (hM : S.meshes) (he : S.elements e) (hown : own e) (p : Placement) :
    Composes S own (customNode e p) := by
  unfold customNode
  refine .bind (require_composed he _) fun type _ => .bind (require_composed he _) fun raw _ => ?_
  refine .bind (argument_composed _ _) fun _ _ => .bind (declare_composed hown _) fun o _ => ?_
  refine .bind (.mapM (r := fun _ _ => True) fun a _ => translate_composed _ _ _)
    fun options _ => ?_
  refine .emit fun _ => .bind (addMesh_composed hM _ _) fun _ _ => ?_
  refine .bind (.forM fun t _ => follow_composed _ t) fun _ _ => ?_
  split <;> exact .pure trivial

lemma groupTrigger_composed (name enclosing raw : String) :
    Composes S own (groupTrigger name enclosing raw) := by
  unfold groupTrigger
  refine .bind (bound?_composed _) fun bound _ => ?_
  cases bound with
  | none => exact .set
  | some expression =>
    dsimp only
    split
    · exact .emit fun _ => .set
    · exact .bind (.log _ _) fun _ _ => .set

lemma openGroup_composed (he : S.elements e) (hown : own e) (p : Placement) :
    Composed S own (openGroup e p) fun name => name = e.ownName := by
  unfold openGroup
  refine .bind (require_composed he _) fun raw hraw => ?_
  have hname : (e.attr? "name").map trim = some (trim raw) :=
    congrArg (Option.map trim) hraw
  have hanswer : trim raw = e.ownName := (sharedName hraw).1.symm
  refine .read (fun _ _ _ => rfl) fun s => ?_
  dsimp only
  split
  · exact .throw_bind ⟨.unplaced hown rfl hname, rfl⟩
  · refine .bind (modifyClass_composed _) fun _ _ => .bind (modifyClass_composed _) fun _ _ => ?_
    split
    · exact .bind (groupTrigger_composed _ _ _) fun _ _ => .pure hanswer
    · exact .pure hanswer

lemma closeGroup_composed (e : Element) (name : String) : Composes S own (closeGroup e name) := by
  unfold closeGroup
  split
  · refine .bind (argument_composed _ _) fun _ _ => ?_
    exact .set
  · exact .pure trivial

lemma materialOfNode_composed (he : S.elements e) (hown : own e)
    (hkind : NodeKind.ofTag? e.tag = some .material) (p : Placement)
    (hU : S.Covers (e.children.flatMap fun material =>
      .object material.tag material.givenName? :: materialParts (.method p.method) material)) :
    Composes S own (materialOfNode e p) := by
  unfold materialOfNode
  split
  · exact .throw ⟨.nothing rfl, rfl⟩
  · split
    · exact .throw_bind ⟨.unplaced hown rfl hkind, rfl⟩
    · refine .bind (onlyChild_composed e) fun child hchild => ?_
      have hmem : child ∈ e.children := by simp [hchild]
      refine nodeMaterial_composed (.method p.method) (S.child he hmem)
        (hU.of_subset fun v hv => ?_) _ _
      exact mem_flatMap.2 ⟨child, hmem, mem_cons_of_mem _ hv⟩

lemma nodeKind_composed (hown : own e) :
    Composed S own (liftM (nodeKind e)) fun kind => NodeKind.ofTag? e.tag = some kind := by
  apply Composed.lift
  unfold nodeKind
  split
  · next h => exact .ok h
  · exact .error ⟨.unplaced hown rfl rfl, rfl⟩

mutual

lemma node_composed (hM : S.meshes) (p : Placement) : (e : Element) → S.elements e →
    S.Covers (nodeOutline p.method e) →
    ∀ {own : Element → Prop}, Composes S own (node p e)
  | ⟨tag, attributes, children, text, line⟩, he, hU, _ => by
    unfold node
    apply Composed.located he
    refine .bind (nodeKind_composed rfl) fun kind hkind => .bind (.log _ _) fun _ _ => ?_
    replace hkind : NodeKind.ofTag? tag = some kind := hkind
    rw [nodeOutline, hkind] at hU
    have hbelow : ∀ p : Placement, S.Covers (nodesOutline p.method children) →
        Composes S (⟨tag, attributes, children, text, line⟩ = ·) (nodes p children) :=
      fun p hU => nodes_composed hM p children (fun c hc => S.child he hc) hU
    cases kind with
    | transform =>
      refine .bind (transformNode_composed rfl p) fun _ _ => hbelow (p.below _ _) ?_
      exact hU.of_subset (subset_cons_self _ _)
    | shape shape =>
      refine .bind (shapeNode_composed hM rfl shape p ?_) fun _ _ => hbelow (p.below _ _) ?_
      · exact hU.of_subset fun v hv => mem_append_left _ (mem_cons_of_mem _ hv)
      · exact hU.of_subset (subset_append_right _ _)
    | model =>
      refine .bind (modelNode_composed he rfl p) fun _ _ => hbelow (p.below _ _) ?_
      exact hU.of_subset (subset_cons_self _ _)
    | custom =>
      refine .bind (customNode_composed hM he rfl p) fun _ _ => hbelow (p.below _ _) ?_
      exact hU.of_subset (subset_cons_self _ _)
    | deferredGroup =>
      refine .bind (openGroup_composed he rfl p) ?_
      rintro _ rfl
      refine .bind (hbelow { p with method := groupMethod _ } ?_) fun _ _ => closeGroup_composed _ _
      exact hU.of_subset (subset_cons_self _ _)
    | material => exact materialOfNode_composed he rfl hkind p hU

lemma nodes_composed (hM : S.meshes) (p : Placement) : (es : List Element) →
    (∀ e ∈ es, S.elements e) → S.Covers (nodesOutline p.method es) →
    ∀ {own : Element → Prop}, Composes S own (nodes p es)
  | [], _, _, _ => .pure trivial
  | e :: es, hes, hU, _ => by
    unfold nodesOutline at hU
    refine .bind (node_composed hM p e (hes e mem_cons_self) ?_) fun _ _ => ?_
    · exact hU.of_subset (subset_append_left _ _)
    · refine nodes_composed hM p es (fun c hc => hes c (mem_cons_of_mem _ hc)) ?_
      exact hU.of_subset (subset_append_right _ _)

end

lemma openControl_composed (hM : S.meshes) (he : own e) (parent m : String) :
    Composes S own (openControl e parent m) := by
  unfold openControl
  refine .bind (.addImport _ _) fun _ _ => .bind (declare_composed he _) fun o _ => ?_
  refine .emit fun _ => .emit fun _ => ?_
  refine .bind (.forM fun a ha => ?_) fun _ _ => .pure trivial
  unfold controlAttribute
  refine .bind (isReference_composed _ _) fun isReference _ => ?_
  split
  · exact .bind (.mesh hM he (mem_attributes ha)) fun _ _ => emit_composed _ _
  · exact translate_apply_composed _ _ _ _

mutual

lemma control_composed (hM : S.meshes) (parent m : String) : (e : Element) → S.elements e →
    ∀ {own : Element → Prop}, Composes S own (control parent m e)
  | ⟨tag, attributes, children, text, line⟩, he, _ => by
    unfold control
    refine .located he (.bind (openControl_composed hM rfl parent m) fun member _ => ?_)
    exact controls_composed hM member m children fun c hc => S.child he hc

lemma controls_composed (hM : S.meshes) (parent m : String) : (es : List Element) →
    (∀ e ∈ es, S.elements e) →
    ∀ {own : Element → Prop}, Composes S own (controls parent m es)
  | [], _, _ => .pure trivial
  | e :: es, hes, _ => by
    unfold controls
    refine .bind (control_composed hM parent m e (hes e mem_cons_self)) fun _ _ => ?_
    exact controls_composed hM parent m es fun c hc => hes c (mem_cons_of_mem _ hc)

end

lemma guiSize_composed (e : Element) (name : String) : Composes S own (guiSize e name) := by
  unfold guiSize
  split
  · exact argument_composed _ _
  · exact .pure trivial

lemma gui_composed (hM : S.meshes) (he : S.elements e) : Composes S own (gui e) := by
  have hchildren : ∀ c ∈ e.children, S.elements c := fun c hc => S.child he hc
  unfold gui
  apply Composed.located he
  split
  · unfold fullScreenGui
    refine .bind (declare_composed rfl _) fun o _ => .bind (.log _ _) fun _ _ => ?_
    refine .emit fun _ => .bind (.forM fun a _ => ?_) fun _ _ => ?_
    · exact translate_apply_composed _ _ _ _
    · exact controls_composed hM _ _ e.children hchildren
  · unfold meshGui
    refine .bind (require_composed he _) fun raw hraw => ?_
    obtain ⟨a, ha, rfl⟩ := Option.map_eq_some_iff.1 hraw
    refine .bind (.mesh hM rfl (mem_of_find?_eq_some ha)) fun base _ => ?_
    refine .bind (guiSize_composed _ _) fun width _ => ?_
    refine .bind (guiSize_composed _ _) fun height _ => ?_
    refine .bind (declare_composed rfl _) fun o _ => .bind (.log _ _) fun _ _ => ?_
    refine .emit fun _ => .bind (.forM fun a _ => ?_) fun _ _ => ?_
    · exact translate_apply_composed _ _ _ _
    · exact controls_composed hM _ _ e.children hchildren
  · exact .throw ⟨.unplaced rfl rfl rfl, rfl⟩

lemma guis_composed (hM : S.meshes) {es : List Element} (hes : ∀ e ∈ es, S.elements e) :
    Composes S own (guis es) :=
  .bind (.addImport _ _) fun _ _ => .bind (.addImport _ _) fun _ _ =>
    .forM fun c hc => gui_composed hM (hes c hc)

lemma property_composed (he : S.elements e) : Composes S own (property e) := by
  have hlast : ∀ accessor, Composes S (e = ·) (do
      modifyClass (·.addAccessor accessor)
      addImport .utility "isEqual") :=
    fun accessor => .bind (modifyClass_composed _) fun _ _ => .addImport _ _
  unfold property
  apply Composed.located he
  refine .bind (require_composed he _) fun raw hraw => ?_
  have hname : (e.attr? "name").map trim = some (trim raw) :=
    congrArg (Option.map trim) hraw
  refine .bind (require_composed he _) fun type _ => .read (fun _ _ _ => rfl) fun s => ?_
  dsimp only
  split
  · exact .throw_bind ⟨.unplaced rfl rfl hname, rfl⟩
  · refine .bind (.log _ _) fun _ _ => .bind (modifyClass_composed _) fun _ _ => ?_
    split
    · refine .bind (typed_composed _ _) fun value _ => ?_
      exact .emit fun _ => hlast _
    · exact hlast _

lemma registerShared_composed (he : S.elements e) (kind : SharedKind) :
    Composes S own (registerShared kind e) := by
  unfold registerShared
  refine .bind (require_composed he _) fun raw hraw => ?_
  have hname : (e.attr? "name").map trim = some (trim raw) :=
    congrArg (Option.map trim) hraw
  refine .bind (.log _ _) fun _ _ => .located he (.read (fun _ _ _ => rfl) fun s => ?_)
  refine .bind (.lift (p := fun _ => True) ?_) fun _ _ => ?_
  · unfold SharedTable.register
    split
    · exact .error ⟨.unplaced rfl rfl hname, rfl⟩
    · exact .ok trivial
  · exact .set

lemma lookAhead_composed (hM : S.meshes) (he : S.elements e) : Composes S own (lookAhead e) := by
  unfold lookAhead
  refine .bind .set fun _ _ => ?_
  split
  iterate 2 exact .forM fun c hc => registerShared_composed (S.child he hc) _
  · exact .update (fun _ _ _ => rfl) fun h => absurd hM h
  · exact .pure trivial

lemma flush_composed : Composes S own flush := by
  have hflush : flush = (do
      let s ← get
      modify fun s => { s with triggers := [], callbacks := [] }
      (s.triggers ++ s.callbacks).forM fun w => emit w.1 w.2) := rfl
  rw [hflush]
  refine .read (fun _ _ _ => rfl) fun s => ?_
  refine .bind .set fun _ _ => ?_
  exact .forM fun w _ => emit_composed w.1 w.2

lemma sectionElement_composed (hM : S.meshes) (he : S.elements e) (rootTag : String)
    (hnames : S.Declares e) (hU : S.Covers (sectionOutline e)) :
    Composes S own (sectionElement rootTag e) := by
  have hchildren : ∀ c ∈ e.children, S.elements c := fun c hc => S.child he hc
  unfold sectionElement
  unfold sectionOutline at hU
  cases hkind : SectionKind.ofTag? e.tag with
  | none => exact .throw ⟨.placed he (fun hline => if_pos hline) rfl, rfl⟩
  | some kind =>
    rw [hkind] at hU
    refine .bind (.log _ _) fun _ _ => ?_
    cases kind with
    | imports => exact .set
    | properties => exact .forM fun c hc => property_composed (hchildren c hc)
    | nodes => exact nodes_composed hM Placement.top e.children hchildren hU
    | materials =>
      refine .forM fun c hc => ?_
      refine sharedMaterial_composed (hchildren c hc) (hnames .material hkind c hc) ?_
      exact hU.of_subset fun v hv => mem_flatMap.2 ⟨c, hc, hv⟩
    | textures =>
      refine .forM fun c hc => ?_
      exact sharedTexture_composed (hchildren c hc) (hnames .texture hkind c hc)
    | guis => exact guis_composed hM hchildren

def finish : Compile Unit := do
  flush
  match (← get).shared.undeclared with
  | (kind, name) :: _ => throw (.invalidStructure (.neverTranslated kind.referenceKind name))
  | [] => pure ()

lemma finish_composed : Composes S own finish := by
  refine .bind flush_composed fun _ _ => .read (fun _ _ _ => rfl) fun s => ?_
  split
  · exact .throw ⟨.nothing rfl, rfl⟩
  · exact .pure trivial

lemma document_composed (hM : S.meshes) {d : Document} (hd : ∀ e ∈ d.sections, S.elements e)
    (hnames : ∀ e ∈ d.sections, S.Declares e) (hU : S.Covers d.outline) :
    Composes S own (document d) := by
  refine .bind (.forM fun e he => lookAhead_composed hM (hd e he)) fun _ _ => ?_
  refine .bind (.forM fun e he => ?_) fun _ _ => finish_composed
  refine sectionElement_composed hM (hd e he) _ (hnames e he) (hU.of_subset fun v hv => ?_)
  exact mem_flatMap.2 ⟨e, he, hv⟩

end Compile

end SceneView
