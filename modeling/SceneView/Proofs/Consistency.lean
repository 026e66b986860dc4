import SceneView.Proofs.Compilation

/-!
# The tables of the class agree

No two members of a class have the same name, no two of its accessors do, and every accessor answers
with the member that stores its object. This holds after every change of a compilation, also of one
that a fault stops later.

An object is declared with a look at the members alone, and the flag of a deferred group with a look
at the methods alone. That neither brings a name twice is because every accessor has its member and
every flag has its method; the invariant says both.
-/

open List

namespace SceneView

open ClassDef

namespace ClassDef

/-- The members and the accessors of a class agree. -/
structure Consistent (c : ClassDef) : Prop where
  members : (c.members.map (·.name)).Nodup
  accessors : (c.accessors.map (·.name)).Nodup
  getters : ∀ a ∈ c.accessors, a.getter = ["return this." ++ storageName a.name ++ ";"] ∧
    c.hasMember (storageName a.name) = true

/-- Every flag of a deferred group comes with the method of the group. -/
def Flagged (c : ClassDef) : Prop :=
  ∀ g, c.hasMember (Compile.groupFlag g) = true → c.hasMethod (Compile.groupMethod g) = true

lemma Consistent.of_frame {c c' : ClassDef} (h : c.Consistent) (hm : c'.members = c.members)
    (ha : c'.accessors = c.accessors) : c'.Consistent := by
  obtain ⟨members, accessors, getters⟩ := h
  refine ⟨hm ▸ members, ha ▸ accessors, ?_⟩
  simp only [hasMember, hm, ha]
  exact getters

lemma Consistent.addMember {c : ClassDef} (h : c.Consistent) {m}
    (hfree : c.hasMember m.name = false) : (c.addMember m).Consistent := by
  refine ⟨?_, h.accessors, fun a ha => ⟨(h.getters a ha).1, ?_⟩⟩
  · rw [← Bool.not_eq_true, hasMember_iff] at hfree
    rw [ClassDef.addMember, map_append, map_singleton, ← concat_eq_append]
    exact h.members.concat hfree
  · rw [hasMember_addMember, (h.getters a ha).2, Bool.true_or]

lemma Consistent.addAccessor {c : ClassDef} (h : c.Consistent) {a}
    (hnew : c.accessor? a.name = none)
    (hgetter : a.getter = ["return this." ++ storageName a.name ++ ";"])
    (hmember : c.hasMember (storageName a.name) = true) : (c.addAccessor a).Consistent := by
  refine ⟨h.members, ?_, fun b hb => ?_⟩
  · rw [accessor?_eq_none_iff] at hnew
    rw [ClassDef.addAccessor, map_append, map_singleton, ← concat_eq_append]
    exact h.accessors.concat hnew
  · obtain hb | hb := mem_append.1 hb
    · exact h.getters b hb
    · cases mem_singleton.1 hb
      exact ⟨hgetter, hmember⟩

lemma Consistent.accessor?_eq_none {c : ClassDef} (h : c.Consistent) {name}
    (hfree : c.hasMember (storageName name) = false) : c.accessor? name = none := by
  rw [accessor?_eq_none_iff]
  intro hmem
  obtain ⟨a, ha, rfl⟩ := mem_map.1 hmem
  rw [(h.getters a ha).2] at hfree
  cases hfree

lemma Consistent.declare {c c' : ClassDef} (h : c.Consistent) {type o deferred}
    (hd : c.declare type o deferred = .ok c') : c'.Consistent := by
  unfold ClassDef.declare at hd
  split at hd
  · cases hd
  · next hfree =>
    have hfree : c.hasMember o.storage = false := Bool.eq_false_iff.2 hfree
    cases hgiven : o.isGiven with
    | false =>
      rw [hgiven] at hd
      cases hd
      exact h.addMember hfree
    | true =>
      rw [hgiven] at hd
      cases hd
      refine (h.addMember hfree).addAccessor (h.accessor?_eq_none hfree) rfl ?_
      rw [hasMember_addMember]
      exact Bool.or_eq_true_iff.2 (.inr (beq_self_eq_true _))

end ClassDef

lemma Compile.groupFlag_injective {g g'} (h : groupFlag g = groupFlag g') : g = g' :=
  (String.append_right_inj _).1 ((String.append_left_inj _).1 h)

lemma Compile.groupFlag_not_mem_initMembers (g : String) (isMixin : Bool) :
    groupFlag g ∉ (initMembers isMixin).map (·.name) := by
  intro h
  have := mem_map_of_mem (f := String.toList) h
  cases isMixin <;>
    simp [groupFlag, initMembers, Builtin.root, Builtin.scene, Builtin.host,
      Builtin.hostParameter, Builtin.engine, Builtin.isInitialized, Builtin.propertyChanged] at this

lemma Step.flagged {s e s'} (st : Step s e s') (h : s.generated.Flagged) :
    s'.generated.Flagged := by
  intro g hg
  have before : s.generated.hasMember (Compile.groupFlag g) = true →
      s'.generated.hasMethod (Compile.groupMethod g) = true := fun hm => st.hasMethod (h g hm)
  rw [hasMember_iff] at hg before
  cases st with
  | use _ _ hc =>
    rw [(push_frame hc).1, (withAccess_frame _ _ _).1] at hg
    exact before hg
  | emit _ hc =>
    rw [(push_frame hc).1] at hg
    exact before hg
  | object _ hc =>
    rw [(declare_eq_ok hc).2.1, map_append, mem_append, map_singleton, mem_singleton] at hg
    exact before (hg.resolve_right (Compile.groupFlag_ne_storageName g _))
  | @field name type _ _ =>
    rw [addMember, map_append, mem_append, map_singleton,
      mem_singleton] at hg
    exact before (hg.resolve_right (Compile.groupFlag_ne_storageName g name))
  | @group name _ =>
    change _ ∈ List.map _ (_ ++ [_]) at hg
    rw [map_append, mem_append, map_singleton, mem_singleton] at hg
    obtain hg | hg := hg
    · exact before hg
    · rw [Compile.groupFlag_injective hg]
      simp [withGroup]
  | _ => exact before hg

lemma Step.consistent {s e s'} (st : Step s e s') (hf : s.generated.Flagged)
    (h : s.generated.Consistent) : s'.generated.Consistent := by
  cases st with
  | use _ _ hc =>
    obtain ⟨hm, ha⟩ := withAccess_frame s.generated _ _
    exact h.of_frame ((push_frame hc).1.trans hm) ((push_frame hc).2.trans ha)
  | emit _ hc => exact h.of_frame (push_frame hc).1 (push_frame hc).2
  | object _ hc => exact h.declare hc
  | field hfree _ => exact h.addMember hfree
  | accessor hmember hnew => exact h.addAccessor hnew rfl hmember
  | @group name hfree =>
    have hflag : s.generated.hasMember (Compile.groupFlag name) = false := by
      rw [← Bool.not_eq_true]
      intro hm
      rw [hf name hm] at hfree
      cases hfree
    exact (h.addMember hflag).of_frame rfl rfl
  | _ => exact h

lemma Compile.consistent_initClass (className : String) (isMixin : Bool)
    (visibility : ClassVisibility) :
    (initClass className isMixin visibility).Consistent ∧
      (initClass className isMixin visibility).Flagged := by
  refine ⟨⟨?_, nodup_nil, by simp [initClass]⟩, fun g hg => ?_⟩
  · change ((initMembers isMixin).map (·.name)).Nodup
    cases isMixin <;> decide
  · exact absurd (hasMember_iff.1 hg) (groupFlag_not_mem_initMembers g isMixin)

lemma Course.consistent {className isMixin visibility T s}
    (tr : Course className isMixin visibility T s) : s.generated.Consistent := by
  refine (Trace.preserve (P := fun s => s.generated.Consistent ∧ s.generated.Flagged)
    (fun st h => ⟨st.consistent h.2 h.1, st.flagged h.2⟩) tr ?_).1
  exact Compile.consistent_initClass className isMixin visibility

/-- The compilation of a document, finished or stopped by a fault, is a course of single changes,
and the tables of the class agree after each of them. -/
theorem tables_consistent (d : Document) (className : String) (visibility : ClassVisibility) :
    ∃ T, Course className d.isMixin visibility T ((Compile.view d className).run.run
        (Compile.start className d.isMixin visibility)).2.core ∧
      ∀ T' s, T' <+: T → Course className d.isMixin visibility T' s →
        s.generated.Consistent := by
  obtain ⟨T, tr, _⟩ := Compile.view_yields d className visibility
  exact ⟨T, tr, fun _ _ _ tr' => tr'.consistent⟩

end SceneView
