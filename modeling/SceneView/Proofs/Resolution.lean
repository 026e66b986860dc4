import SceneView.Proofs.Construction

/-!
# References resolve

A reference to a shared object names it by the text of its attribute, while the object is stored
under the name that it was declared with. The two agree for every name but a blank one: an object
with a blank name is stored under a name that is made up, and a reference to it does not know that
name. `reference_resolves_iff` tells which references reach their object.
-/

open List

namespace SceneView

/-- The name under which a shared object is stored: its own, or the one that is made up for it,
after those of the objects that come before it. -/
def Document.objectName (d : Document) (kind : SharedKind) (n : String) : String :=
  if n = "" then
    d.madeUpNames.getD (unnamedTypes (d.outline.takeWhile (· ≠ .declaration kind n))).length ""
  else n

def Document.storageOf (d : Document) (kind : SharedKind) (n : String) : String :=
  storageName (d.objectName kind n)

lemma length_madeUp (T : List Effect) :
    (T.filterMap Effect.madeUp?).length = (unnamedTypes (events T)).length := by
  induction T with
  | nil => rfl
  | cons e T ih =>
    rw [events_cons, unnamedTypes_append, length_append, ← ih]
    cases e with
    | object type o deferred shared =>
      cases hgiven : o.isGiven <;>
        simp [Effect.madeUp?, Effect.event?, unnamedTypes, hgiven, Nat.add_comm]
    | _ => simp [filterMap_cons, Effect.madeUp?, Effect.event?, unnamedTypes]

lemma madeUp_blockEffects {kind name type o deferred ensured v T} (h : o.isGiven = false) :
    (blockEffects kind name type o deferred ensured v T).filterMap Effect.madeUp? =
      o.name :: T.filterMap Effect.madeUp? := by
  cases ensured <;> simp [blockEffects, Effect.madeUp?, filterMap_cons, h]

/-- A way to the shared object that is stored in the given member. The member is read, and the main
method builds it; or a method is called, the only one of its name, which builds the member unless it
is there and answers with it. -/
inductive ClassDef.Resolves (c : ClassDef) (member : String) : SharedReference → Prop where
  | member {v} :
    .construct member v ∈ c.body Builtin.init →
    Resolves c member (.member member)
  | ensure {m v parts} :
    c.methods.filter (·.name == m.name) = [m] →
    m.body = .guard member :: .construct member v :: (parts ++ [.give member]) →
    Resolves c member (.ensure m.name)

namespace Compiled

variable {d : Document} {c : ClassDef} {A W A₁ T A₂ : List Effect} {kind : SharedKind} {n : String}
  {o : ObjectName} {v : Construction}

lemma object_mem (hp : Placed d A kind n o A₁ T A₂ v) :
    ∃ type deferred, .object type o deferred true ∈ A := by
  obtain ⟨type, deferred, rfl⟩ := hp.trace
  exact ⟨type, deferred, by simp [blockEffects]⟩

variable (h : Compiled d c A W) (hp : Placed d A kind n o A₁ T A₂ v)
include h hp

lemma hasMember : c.hasMember o.storage = true := by
  obtain ⟨type, deferred, hmem⟩ := object_mem hp
  exact h.stored (mem_filterMap.2 ⟨_, hmem, rfl⟩)

lemma name_eq : o.name = d.objectName kind n := by
  unfold Document.objectName
  split
  · next hn =>
    have hgiven := hp.blank hn
    obtain ⟨_, houtline⟩ := hp.outline
    have hbefore : d.outline.takeWhile (· ≠ .declaration kind n) = events A₁ := by
      rw [houtline, takeWhile_append_of_pos, takeWhile_cons_of_neg (by simp),
        append_nil]
      intro v hv
      simpa using ne_of_mem_of_not_mem hv hp.alone.1
    have hmade := h.madeUp
    obtain ⟨type, deferred, rfl⟩ := hp.trace
    rw [hbefore, ← hmade, filterMap_append, filterMap_append, madeUp_blockEffects hgiven,
      ← length_madeUp, getD_eq_getElem?_getD,
      getElem?_append_right le_rfl, Nat.sub_self]
    rfl
  · next hn => rw [hp.named hn]

lemma storage_eq_storageOf : o.storage = d.storageOf kind n :=
  congrArg storageName (h.name_eq hp)

lemma objectName_ne : d.objectName kind n ≠ "" := by
  obtain ⟨type, deferred, hmem⟩ := object_mem hp
  rw [← h.name_eq hp]
  exact h.named hmem

lemma resolves_ensure (hu : usedFirst kind n d.outline = true)
    (hone : ∀ k, usedFirst k n d.outline = true → k = kind) :
    c.Resolves o.storage (referenceTo d.outline kind n) := by
  have hcount := h.count_ensureMethod fun k k' hk hk' => (hone k hk).trans (hone k' hk').symm
  obtain ⟨m, _, hm, hsig, hbody⟩ := h.exists_ensureMethod_of_count hcount hu
  have hname : m.name = ensureMethod n := congrArg Signature.name hsig
  rw [h.body_ensureMethod_of_one hone hp hu] at hbody
  rw [referenceTo_of_usedFirst hu, ← hname]
  exact .ensure (hname ▸ hm) hbody

lemma resolves_member (hu : usedFirst kind n d.outline = false) (hn : n ≠ "") :
    c.Resolves o.storage (referenceTo d.outline kind n) := by
  obtain ⟨k, hbody⟩ := h.body_init hp hu
  rw [referenceTo_of_not_usedFirst hu, ← hp.storage_eq hn]
  exact .member (v := v) (by simp [hbody])

lemma construct_mem : ∃ v, .construct o.storage v ∈ c.body (buildMethod d.outline kind n) := by
  have hcount := h.countP_builds hp (buildMethod d.outline kind n)
  rw [if_pos rfl] at hcount
  obtain ⟨st, hst, hbuilds⟩ := countP_pos_iff.1 (hcount ▸ Nat.one_pos)
  cases st with
  | construct m v =>
    cases eq_of_beq hbuilds
    exact ⟨v, hst⟩
  | _ => cases hbuilds

omit hp in
lemma statement_mem {u} (hu : .use u ∈ d.outline) :
    ∃ owner, u.statement owner (referenceTo d.outline u.kind u.name) ∈
      c.body (u.site.methodIn d.outline) := by
  obtain ⟨owner, hmem⟩ := use_of_mem_events (h.assembled.events ▸ hu)
  refine ⟨owner, ?_⟩
  rw [h.body]
  exact mem_append_right _ (mem_append_left _ (Effect.mem_written_of_use hmem rfl))

omit hp in
lemma reference_source {method st r} (hst : st ∈ c.body method) (hr : st.reference? = some r) :
    (∃ u owner, .use u ∈ d.outline ∧ u.site.methodIn d.outline = method ∧
        st = u.statement owner (referenceTo d.outline u.kind u.name)) ∨
      ∃ m, r = .member m ∧ c.hasMember m = true ∧
        ∀ kind n, .declaration kind n ∈ d.outline → m ≠ d.storageOf kind n := by
  rw [h.body, mem_append, mem_append] at hst
  obtain hst | hst | hst := hst
  · -- The main method starts with no reference.
    split at hst
    · have hinit : ∀ st ∈ Compile.initBody d.isMixin, st.reference? = none := by
        cases d.isMixin <;> decide
      rw [hinit st hst] at hr
      cases hr
    · cases hst
  · obtain ⟨u, owner, he, hm, rfl⟩ | ⟨site, he, _⟩ | ⟨g, _, _, rfl | rfl⟩ := Effect.mem_written hst
    · exact .inl ⟨u, owner, h.use_mem he, hm, rfl⟩
    · right
      cases r with
      | ensure f => exact absurd hr (h.assembled.not_ensure he f)
      | member m =>
        refine ⟨m, rfl, ?_, fun kind n hd heq => ?_⟩
        · refine h.stored (not_imp_comm.1 (h.assembled.untouched · he) ?_)
          simp [Statement.touches, hr]
        · obtain ⟨o, A₁, T, A₂, v, hp⟩ := h.placed hd
          rw [heq, ← h.storage_eq_storageOf hp] at hr
          exact hp.reference_ne he hr
    · cases hr
    · cases hr
  · obtain ⟨u, owner, he, _⟩ | ⟨site, he, _⟩ | ⟨g, he, _⟩ := Effect.mem_written hst
    · cases h.putOff _ he
    · cases h.putOff _ he with
      | intro _ hoff => cases hoff <;> cases hr
    · cases h.putOff _ he

omit hp in
lemma usedFirst_of_resolves (hp : Placed d A kind "" o A₁ T A₂ v)
    (hres : c.Resolves (d.storageOf kind "") (referenceTo d.outline kind "")) :
    usedFirst kind "" d.outline = true ∧ ∀ k, usedFirst k "" d.outline = true → k = kind := by
  cases hfirst : usedFirst kind "" d.outline with
  | false =>
    rw [referenceTo_of_not_usedFirst hfirst] at hres
    generalize hstorage : d.storageOf kind "" = member at hres
    cases hres with
    | member _ => exact absurd (storageName_injective hstorage) (h.objectName_ne hp)
  | true =>
    refine ⟨rfl, fun k hk => ?_⟩
    rw [referenceTo_of_usedFirst hfirst] at hres
    generalize hname : ensureMethod "" = name at hres
    cases hres with
    | ensure hone _ => exact h.kind_eq_of_filter (hname ▸ hone) hk hfirst

lemma resolves (hblank : n = "" → usedFirst kind "" d.outline = true ∧
      ∀ k, usedFirst k "" d.outline = true → k = kind) :
    c.Resolves o.storage (referenceTo d.outline kind n) := by
  cases hfirst : usedFirst kind n d.outline with
  | false =>
    refine h.resolves_member hp hfirst fun hn => ?_
    rw [hn] at hfirst
    exact Bool.false_ne_true (hfirst.symm.trans (hblank hn).1)
  | true =>
    refine h.resolves_ensure hp hfirst fun k hk => ?_
    by_cases hn : n = ""
    · exact (hblank hn).2 k (hn ▸ hk)
    · exact hp.kind_eq hn (h.declared (.inl hk))

end Compiled

/-- The references of an accepted document are the statements that give shared objects away. The
object of a reference is stored in a member and built there; the reference reaches it iff the name
is not blank, or the object is the only one with a blank name that is used before its
declaration. -/
theorem reference_resolves_iff {d : Document} {options : CompileOptions} {c : ClassDef}
    (h : d.generated? options = some c) :
    (∀ method, ∀ st ∈ c.body method, ∀ r, st.reference? = some r →
        (∃ u owner, .use u ∈ d.outline ∧ u.site.methodIn d.outline = method ∧
            st = u.statement owner (referenceTo d.outline u.kind u.name)) ∨
          ∃ m, r = .member m ∧ c.hasMember m = true ∧
            ∀ kind n, .declaration kind n ∈ d.outline → m ≠ d.storageOf kind n) ∧
      ∀ u, .use u ∈ d.outline →
        (∃ owner, u.statement owner (referenceTo d.outline u.kind u.name) ∈
            c.body (u.site.methodIn d.outline)) ∧
          c.hasMember (d.storageOf u.kind u.name) = true ∧
          (∃ v, .construct (d.storageOf u.kind u.name) v ∈
            c.body (buildMethod d.outline u.kind u.name)) ∧
          (c.Resolves (d.storageOf u.kind u.name) (referenceTo d.outline u.kind u.name) ↔
            (u.name = "" → usedFirst u.kind "" d.outline = true ∧
              ∀ kind, usedFirst kind "" d.outline = true → kind = u.kind)) := by
  obtain ⟨A, W, hc⟩ := d.compiled h
  refine ⟨fun method st hst r hr => hc.reference_source hst hr, fun u hu => ?_⟩
  obtain ⟨o, A₁, T, A₂, v, hp⟩ := hc.placed_of_use hu
  have hstorage := hc.storage_eq_storageOf hp
  refine ⟨hc.statement_mem hu, hstorage ▸ hc.hasMember hp, hstorage ▸ hc.construct_mem hp, ?_, ?_⟩
  · intro hres hblank
    rw [hblank] at hres hp
    exact hc.usedFirst_of_resolves hp hres
  · intro hblank
    exact hstorage ▸ hc.resolves hp hblank

def blankView : Document where
  root :=
    { tag := "View"
      attributes := [⟨"name", "V"⟩]
      children :=
        [{ tag := "Materials"
           children := [{ tag := "StandardMaterial", attributes := [⟨"name", " "⟩] }] },
          { tag := "Nodes"
            children := [{ tag := "Box", attributes := [⟨"name", "a"⟩, ⟨"material", ""⟩] }] }] }

/-- The document is accepted, and its reference does not reach the material. -/
theorem blankView_not_resolved :
    ∃ c, blankView.generated? {} = some c ∧
      ¬ c.Resolves (blankView.storageOf .material "")
        (referenceTo blankView.outline .material "") := by
  obtain ⟨c, h⟩ := Option.isSome_iff_exists.1
    (show (blankView.generated? {}).isSome = true by decide +kernel)
  have hu : .use ⟨.material, "", .method Builtin.init, none, some "a"⟩ ∈ blankView.outline := by
    decide +kernel
  have hlate : usedFirst .material "" blankView.outline = false := by decide +kernel
  refine ⟨c, h, fun hres => Bool.false_ne_true (hlate.symm.trans ?_)⟩
  exact (((reference_resolves_iff h).2 _ hu).2.2.2.1 hres rfl).1

/-- A document is accepted although its box takes the material from a member that is not there. -/
theorem blankView_reads_unknown :
    blankView.storageOf .material "" = storageName "StandardMaterial1" ∧
      ((blankView.generated? {}).map fun c => ((c.body Builtin.init).contains
            (.nodeMaterial (storageName "a") (.member (storageName ""))),
          c.hasMember (storageName ""), c.hasMember (storageName "StandardMaterial1"))) =
        some (true, false, true) := by
  decide +kernel

end SceneView
