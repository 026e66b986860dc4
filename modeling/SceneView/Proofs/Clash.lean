import SceneView.Proofs.Compilation

/-!
# Names that are used twice

The accessors of a class carry the names that the author gives, while its members and methods carry
names that are made of them or are fixed. Nothing keeps the two apart: `accessor_clash_iff` tells
for every accepted document when an accessor has the name of a member or a method.
-/

namespace SceneView

/-- The names of the members and the methods in the class of a document, read off the document. -/
inductive Taken (d : Document) : String → Prop where
  /-- A member of every class. -/
  | builtin {m} :
    m ∈ (Compile.initMembers d.isMixin).map (·.name) →
    Taken d m
  | init : Taken d Builtin.init
  /-- The flag of a deferred group. -/
  | flag {g} :
    .group g ∈ d.outline →
    Taken d (Compile.groupFlag g)
  /-- The method of a deferred group. -/
  | group {g} :
    .group g ∈ d.outline →
    Taken d (Compile.groupMethod g)
  /-- The method of a shared object that is used before it is declared. -/
  | ensure {kind n} :
    usedFirst kind n d.outline = true →
    Taken d (ensureMethod n)
  /-- The member of an object or a property that the author names. -/
  | storage {n} :
    n ∈ authorNames d.outline →
    Taken d (storageName n)
  /-- The member of an object that the author does not name. -/
  | madeUp {n} :
    n ∈ d.madeUpNames →
    Taken d (storageName n)

section

variable {className : String} {isMixin : Bool} {visibility : ClassVisibility} {T : List Effect}
  {s : Core}

lemma Course.hasMember_accessor (tr : Course className isMixin visibility T s) {n type mixin}
    (h : .accessor n type mixin ∈ T) : s.generated.hasMember (storageName n) = true := by
  obtain ⟨T1, T2, rfl⟩ := List.append_of_mem h
  obtain ⟨s1, tr1, tr2⟩ := Trace.split tr
  cases tr2 with
  | cons st _ =>
    cases st with
    | accessor hm _ =>
      rw [ClassDef.hasMember_iff, Course.memberNames tr1] at hm
      rw [ClassDef.hasMember_iff, tr.memberNames, List.filterMap_append, ← List.append_assoc]
      exact List.mem_append_left _ hm

end

variable {d : Document} {options : CompileOptions} {c : ClassDef}

lemma Taken.of_member {T s className visibility} (tr : Course className d.isMixin visibility T s)
    (hw : Whole d T) {e m} (he : e ∈ T) (hm : e.member? = some m) : Taken d m := by
  cases e with
  | object type o deferred shared =>
    cases hm
    cases hgiven : o.isGiven with
    | true =>
      have hv := hw.event_mem he (v := .object type (some o.name)) (by simp [Effect.event?, hgiven])
      exact .storage (List.mem_filterMap.2 ⟨_, hv, rfl⟩)
    | false =>
      refine .madeUp ?_
      rw [← hw.madeUp tr]
      exact List.mem_filterMap.2 ⟨_, he, by simp [Effect.madeUp?, hgiven]⟩
  | field n type =>
    cases hm
    exact .storage (List.mem_filterMap.2 ⟨.property n, hw.fields he, rfl⟩)
  | group g =>
    cases hm
    exact .flag (hw.event_mem he rfl)
  | _ => cases hm

lemma hasMember_of_authorName {T s className isMixin visibility}
    (tr : Course className isMixin visibility T s) {e v n} (he : e ∈ T) (hv : e.event? = some v)
    (hn : v.authorName? = some n) : s.generated.hasMember (storageName n) = true := by
  cases e with
  | object type o deferred shared =>
    refine tr.hasMember he ?_
    cases hv
    rw [Event.authorName?] at hn
    split at hn
    · cases hn
      rfl
    · cases hn
  | accessor name type mixin =>
    cases hv
    cases hn
    exact tr.hasMember_accessor he
  | _ => cases hv <;> cases hn

lemma taken_iff (h : d.generated? options = some c) (a : String) :
    c.hasMember a = true ∨ c.hasMethod a = true ↔ Taken d a := by
  obtain ⟨className, T, s, tr, hw, rfl⟩ := d.course h
  constructor
  · rintro (hm | hm)
    · rw [ClassDef.hasMember_iff, tr.memberNames] at hm
      obtain hm | hm := List.mem_append.1 hm
      · exact .builtin hm
      · obtain ⟨e, he, hm⟩ := List.mem_filterMap.1 hm
        exact .of_member tr hw he hm
    · obtain ⟨sig, hsig, rfl⟩ := tr.hasMethod_iff.1 hm
      rw [hw.events] at hsig
      cases hsig with
      | init => exact .init
      | group hg => exact .group hg
      | ensure hu => exact .ensure hu
  · intro ht
    cases ht with
    | builtin hm =>
      left
      rw [ClassDef.hasMember_iff, tr.memberNames]
      exact List.mem_append_left _ hm
    | init => exact .inr (tr.hasMethod_iff.2 ⟨_, .init, rfl⟩)
    | flag hg =>
      rw [← hw.events] at hg
      obtain ⟨e, he, hv⟩ := List.mem_filterMap.1 hg
      refine .inl (tr.hasMember he ?_)
      cases e <;> cases hv
      rfl
    | group hg => exact .inr (tr.hasMethod_iff.2 ⟨_, .group (hw.events ▸ hg), rfl⟩)
    | ensure hu => exact .inr (tr.hasMethod_iff.2 ⟨_, .ensure (hw.events ▸ hu), rfl⟩)
    | storage hn =>
      obtain ⟨v, hv, hn⟩ := List.mem_filterMap.1 hn
      rw [← hw.events] at hv
      obtain ⟨e, he, hv⟩ := List.mem_filterMap.1 hv
      exact .inl (hasMember_of_authorName tr he hv hn)
    | madeUp hn =>
      rw [← hw.madeUp tr] at hn
      obtain ⟨e, he, hn⟩ := List.mem_filterMap.1 hn
      exact .inl (tr.hasMember he (Effect.member?_of_madeUp? hn))

lemma accessor?_isSome_iff (h : d.generated? options = some c) (a : String) :
    (c.accessor? a).isSome = true ↔ a ∈ authorNames d.outline := by
  obtain ⟨className, T, s, tr, hw, rfl⟩ := d.course h
  rw [authorNames, ← hw.events, ← tr.accessorNames]
  simp [ClassDef.accessor?]

/-- An accessor of a class has the name of one of its members or methods iff the author gives a
taken name. -/
theorem accessor_clash_iff (h : d.generated? options = some c) (a : String) :
    (c.accessor? a).isSome = true ∧ (c.hasMember a = true ∨ c.hasMethod a = true) ↔
      a ∈ authorNames d.outline ∧ Taken d a := by
  rw [accessor?_isSome_iff h, taken_iff h]

def rootNamedView : Document where
  root :=
    { tag := "View"
      attributes := [⟨"name", "V"⟩]
      children :=
        [{ tag := "Nodes"
           children := [{ tag := "TransformNode", attributes := [⟨"name", Builtin.root⟩] }] }] }

/-- The document is accepted, and the author gives a name that is taken. -/
theorem accessor_clash_rootNamedView :
    ∃ c, rootNamedView.generated? {} = some c ∧ (c.accessor? Builtin.root).isSome = true ∧
      (c.hasMember Builtin.root = true ∨ c.hasMethod Builtin.root = true) := by
  obtain ⟨c, h⟩ := Option.isSome_iff_exists.1
    (show (rootNamedView.generated? {}).isSome = true by decide +kernel)
  have hauthor : Builtin.root ∈ authorNames rootNamedView.outline := by decide +kernel
  have htaken : Taken rootNamedView Builtin.root := .builtin (by decide +kernel)
  exact ⟨c, h, (accessor_clash_iff h _).2 ⟨hauthor, htaken⟩⟩

/-- A document is accepted although an accessor and a member have the same name. -/
theorem rootNamedView_clash :
    ((rootNamedView.generated? {}).map fun c =>
      ((c.accessor? Builtin.root).isSome, c.hasMember Builtin.root)) = some (true, true) := by
  decide +kernel

end SceneView
