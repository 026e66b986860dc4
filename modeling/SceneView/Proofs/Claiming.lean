import SceneView.Proofs.Action

/-!
# Names that are taken

Rules to show that an action stops at no conflict about names. Every name of the author's is taken
at most once by what is still to come, so it stays open until its turn. `Takes` says which names an
action takes, and `F` at which other faults it may stop. The names of two actions in a row must be
distinct, and otherwise the rules follow the way in which actions are put together.
-/

open List

namespace SceneView

open ClassDef

def Conflict.isNaming : Conflict → Bool
  | object _ | property _ | sharedObject _ _ | deferredGroup _ => true
  | nodeMaterial _ | textureSlot _ _ | outputFile _ _ _ | described _ => false

def Fault.isNaming : Fault → Bool
  | conflict cause _ => cause.isNaming
  | _ => false

@[simp]
lemma Fault.isNaming_atLine (line : Nat) (f : Fault) : (f.atLine line).isNaming = f.isNaming := by
  unfold atLine
  split <;> rfl

/-- A set of faults with all those that are no conflicts. The line of a fault does not matter. -/
class Admits (F : Fault → Prop) : Prop where
  other : ∀ f : Fault, f.isConflict = false → F f
  located : ∀ (line : Nat) (f : Fault), F f → F (f.atLine line)

namespace Compile

variable {α β : Type} {O : Core → String → Prop} {F : Fault → Prop} {N M L : List String}

/-- The names are distinct, and all of them are open. -/
structure Fresh (O : Core → String → Prop) (N : List String) (s : Core) : Prop where
  nodup : N.Nodup
  isOpen : ∀ n ∈ N, O s n

lemma Fresh.of_sublist {s} (h : Fresh O M s) (hN : N.Sublist M) : Fresh O N s :=
  ⟨h.nodup.sublist hN, fun n hn => h.isOpen n (hN.subset hn)⟩

lemma Fresh.keep {s s'} (h : Fresh O (N ++ L) s) (hO : ∀ n ∈ L, n ∉ N → O s n → O s' n) :
    Fresh O L s' := by
  have hdisjoint := disjoint_of_nodup_append h.nodup
  refine ⟨h.nodup.of_append_right, fun n hn => hO n hn (fun hmem => hdisjoint hmem hn) ?_⟩
  exact h.isOpen n (mem_append_right N hn)

def Granted (F : Fault → Prop) (P : Prop) (r : Except Fault α) (Q : Prop) : Prop :=
  Ends (fun f => F f ∨ f.isNaming = true ∧ ¬ P) r fun _ => P → Q

lemma Granted.imp {P P' Q} {r : Except Fault α} (h : Granted F P r Q) (hP : P' → P) :
    Granted F P' r Q := by
  refine Ends.mono h ?_ fun _ hQ hP' => hQ (hP hP')
  rintro f (hf | ⟨hnaming, hnot⟩)
  · exact .inl hf
  · exact .inr ⟨hnaming, fun hP' => hnot (hP hP')⟩

def Takes (O : Core → String → Prop) (F : Fault → Prop) (N : List String) (x : Compile α) : Prop :=
  ∀ L s, Granted F (Fresh O (N ++ L) s.core) (x.run.run s).1 (Fresh O L (x.run.run s).2.core)

namespace Takes

variable {x : Compile α} {f : α → Compile β}

lemma mono (h : Takes O F N x) (hN : N.Sublist M) : Takes O F M x :=
  fun L s => (h L s).imp fun hM => hM.of_sublist (hN.append (List.Sublist.refl L))

lemma pure {a : α} : Takes O F [] (pure a) :=
  fun _ _ => .ok id

lemma throw {fault} (h : F fault) : Takes O F N (throw fault : Compile α) :=
  fun _ _ => .error (.inl h)

lemma throw_bind {fault} (h : F fault) :
    Takes O F N ((MonadExcept.throw fault : Compile α) >>= f) :=
  fun _ _ => .error (.inl h)

lemma bind (h : Takes O F N x) (hf : ∀ a, Takes O F M (f a)) : Takes O F (N ++ M) (x >>= f) := by
  intro L s
  have hx := h (M ++ L) s
  rw [run_bind, append_assoc]
  generalize x.run.run s = r at hx
  obtain ⟨r, s'⟩ := r
  cases hx with
  | ok hpost => exact (hf _ L s').imp hpost
  | error hfault => exact .error hfault

lemma andThen (h : Takes O F [] x) (hf : ∀ a, Takes O F N (f a)) : Takes O F N (x >>= f) :=
  h.bind hf

lemma of_others {n : String} (h : Takes (fun s m => O s m ∧ m ≠ n) F [] x) : Takes O F [n] x := by
  intro L s
  refine Ends.mono ((h L s).imp fun hfresh => ?_) (fun _ => id) fun _ hpost hfresh => ?_
  · have hrest : Fresh O L s.core := hfresh.keep fun _ _ _ hopen => hopen
    have hn : n ∉ L := (nodup_cons.1 hfresh.nodup).1
    exact ⟨hrest.nodup, fun m hm => ⟨hrest.isOpen m hm, ne_of_mem_of_not_mem hm hn⟩⟩
  · have hleft := hpost hfresh
    exact ⟨hleft.nodup, fun m hm => (hleft.isOpen m hm).1⟩

variable [Admits F]

lemma quiet {p} (h : Quiet x p) (hf : ∀ a, p a → Takes O F N (f a)) : Takes O F N (x >>= f) := by
  intro L s
  obtain ⟨hs, _, ha⟩ := h s
  rw [run_bind]
  generalize x.run.run s = r at hs ha
  obtain ⟨r, s'⟩ := r
  cases ha with
  | ok ha => exact hs ▸ hf _ ha L s'
  | error he => exact .error (.inl (Admits.other _ (Fault.isConflict_of_isPlain he)))

omit [Admits F] in
lemma modify {g : Session → Session} (h : ∀ s, (g s).core = s.core) : Takes O F [] (modify g) := by
  intro L s
  exact .ok fun hfresh => h s ▸ hfresh

lemma of_quiet {p} (h : Quiet x p) : Takes O F [] x := by
  rw [← bind_pure x]
  exact quiet h fun _ _ => .pure

lemma located {line} (h : Takes O F N x) : Takes O F N (located line x) := by
  intro L s
  refine Ends.atLine (h L s) ?_
  rintro f (hf | ⟨hnaming, hfresh⟩)
  · exact .inl (Admits.located line f hf)
  · exact .inr ⟨(f.isNaming_atLine line).trans hnaming, hfresh⟩

omit [Admits F] in
lemma forM {f names} {l : List α} (h : ∀ a ∈ l, Takes O F (names a) (f a)) :
    Takes O F (l.flatMap names) (l.forM f) := by
  induction l with
  | nil => exact .pure
  | cons a l ih =>
    refine (h a mem_cons_self).bind fun _ => ?_
    exact ih fun b hb => h b (mem_cons_of_mem _ hb)

omit [Admits F] in
lemma forM_nil {f : α → Compile PUnit} {l : List α} (h : ∀ a ∈ l, Takes O F [] (f a)) :
    Takes O F [] (l.forM f) := by
  have hnil : l.flatMap (fun _ => ([] : List String)) = [] := by simp
  exact hnil ▸ forM h

end Takes

end Compile

/-- Nothing of the author's name has been declared yet, and no name is made up that is equal to
it. -/
structure Core.Open (s : Core) (n : String) : Prop where
  reserved : n ∈ s.names.reserved
  member : s.generated.hasMember (storageName n) = false
  accessor : s.generated.accessor? n = none
  group : s.generated.hasMethod (Compile.groupMethod n) = false
  shared : ∀ kind e, s.shared.find? kind n = some e → e.declared = false

namespace Core.Open

variable {s : Core} {n : String}

lemma of_waiting {s' : Core} (h : s.Open n) (hg : s'.generated = s.generated)
    (hs : s'.shared = s.shared) (hn : s'.names = s.names) : s'.Open n := by
  refine ⟨hn ▸ h.reserved, hg ▸ h.member, hg ▸ h.accessor, hg ▸ h.group, hs ▸ h.shared⟩

lemma push {m st c} (h : s.Open n) (hpush : s.generated.push m st = .ok c) :
    Core.Open { s with generated := c } n := by
  obtain ⟨hmembers, haccessors⟩ := push_frame hpush
  refine ⟨h.reserved, ?_, ?_, ?_, h.shared⟩
  · rw [hasMember, hmembers]
    exact h.member
  · rw [accessor?, haccessors]
    exact h.accessor
  · rw [hasMethod_push hpush]
    exact h.group

lemma declare {type given? o names deferred c} (h : s.Open n)
    (hname : s.names.assignUnused s.generated type given? = (o, names))
    (hd : s.generated.declare type o deferred = .ok c) (hn : o ≠ ⟨n, true⟩) :
    Core.Open { s with generated := c, names } n := by
  obtain ⟨_, hmembers, haccessors, hmethods⟩ := declare_eq_ok hd
  obtain ⟨hreserved, hne⟩ : names.reserved = s.names.reserved ∧ o.name ≠ n := by
    obtain ⟨name, _, _, rfl, rfl⟩ | ⟨k, _, rfl, hissues⟩ := NamePool.assignUnused_cases hname
    · exact ⟨rfl, fun heq => hn (heq ▸ rfl)⟩
    · refine ⟨hissues.reserved, ?_⟩
      rintro rfl
      exact hissues.least.1.2.1 h.reserved
  refine ⟨hreserved ▸ h.reserved, ?_, ?_, ?_, h.shared⟩
  · have hmember := h.member
    rw [← Bool.not_eq_true, hasMember_iff] at hmember ⊢
    rw [hmembers, map_append, mem_append, map_singleton, mem_singleton]
    rintro (hmem | heq)
    · exact hmember hmem
    · exact hne (storageName_injective heq).symm
  · have haccessor := h.accessor
    rw [accessor?_eq_none_iff] at haccessor ⊢
    rw [haccessors, map_append, mem_append]
    rintro (hmem | hmem)
    · exact haccessor hmem
    · split at hmem
      · exact hne (mem_singleton.1 hmem).symm
      · cases hmem
  · rw [hasMethod, method?, hmethods]
    exact h.group

lemma access {kind name a t} (h : s.Open n) (ha : s.shared.access kind name = .ok (a, t)) :
    Core.Open { s with shared := t, generated := s.generated.withAccess kind a } n := by
  obtain ⟨hmembers, haccessors⟩ := s.generated.withAccess_frame kind a
  obtain ⟨e, he, _, hcases⟩ := SharedTable.access_eq_ok ha
  refine ⟨h.reserved, ?_, ?_, ?_, ?_⟩
  · rw [hasMember, hmembers]
    exact h.member
  · rw [accessor?, haccessors]
    exact h.accessor
  · obtain ⟨_, _, rfl, _⟩ | ⟨_, _, _, rfl, _⟩ | ⟨_, _, _, rfl, _⟩ := hcases
    · exact h.group
    · exact h.group
    · rw [withAccess, hasMethod_addMethod, h.group, Bool.false_or]
      exact beq_false_of_ne (Compile.ensureMethod_ne_groupMethod _ _)
  · obtain ⟨_, _, _, rfl⟩ | ⟨_, _, _, _, rfl⟩ | ⟨_, _, _, _, hfind⟩ := hcases
    · exact h.shared
    · exact h.shared
    · intro k e' he'
      rw [hfind] at he'
      split at he'
      · next heq =>
        obtain ⟨rfl, rfl⟩ := heq
        cases he'
        exact h.shared kind e he
      · exact h.shared k e' he'

lemma sharedDeclare {kind name site t} (h : s.Open n)
    (hd : s.shared.declare kind name = .ok (site, t)) (hn : n ≠ name) :
    Core.Open { s with shared := t } n := by
  obtain ⟨e, _, _, _, _, hfind⟩ := SharedTable.declare_eq_ok hd
  refine ⟨h.reserved, h.member, h.accessor, h.group, fun k e' he' => ?_⟩
  rw [hfind, if_neg fun heq => hn heq.2.symm] at he'
  exact h.shared k e' he'

lemma withGroup {name} (h : s.Open n) (hn : n ≠ name) :
    Core.Open { s with generated := s.generated.withGroup name } n := by
  refine ⟨h.reserved, ?_, h.accessor, ?_, h.shared⟩
  · change (s.generated.addMember _).hasMember _ = false
    rw [hasMember_addMember, h.member, Bool.false_or]
    exact beq_false_of_ne (Compile.groupFlag_ne_storageName name n)
  · change ((s.generated.addMember _).addMethod _).hasMethod _ = false
    rw [hasMethod_addMethod]
    change (s.generated.hasMethod _ || _) = false
    rw [h.group, Bool.false_or]
    exact beq_false_of_ne fun heq => hn ((String.append_right_inj _).1 heq).symm

lemma addMember {name m} (h : s.Open n) (hm : m.name = storageName name) (hn : n ≠ name) :
    Core.Open { s with generated := s.generated.addMember m } n := by
  refine ⟨h.reserved, ?_, h.accessor, h.group, h.shared⟩
  rw [hasMember_addMember, h.member, hm, Bool.false_or]
  exact beq_false_of_ne fun heq => hn (storageName_injective heq).symm

lemma addAccessor {a} (h : s.Open n) (hn : n ≠ a.name) :
    Core.Open { s with generated := s.generated.addAccessor a } n := by
  refine ⟨h.reserved, h.member, ?_, h.group, h.shared⟩
  have haccessor := h.accessor
  rw [accessor?_eq_none_iff] at haccessor ⊢
  simpa [ClassDef.addAccessor] using ⟨by simpa using haccessor, hn⟩

end Core.Open

namespace Compile

open Core (Open)

variable {β : Type} {F : Fault → Prop} [Admits F] {N : List String}

lemma emit_takes_of {O}
    (hO : ∀ {s n m st c}, O s n → s.generated.push m st = .ok c → O { s with generated := c } n)
    (m : String) (st : Statement) : Takes O F [] (emit m st) := by
  intro L s
  cases hpush : s.generated.push m st with
  | ok c =>
    obtain ⟨s', hr, hc, _⟩ := emit_run hpush
    rw [hr, hc]
    exact .ok fun hfresh => hfresh.keep fun n _ _ hopen => hO hopen hpush
  | error fault =>
    have hrun : ((emit m st).run.run s).1 = .error fault := by
      unfold emit log
      simp only [run_bind, run_get, run_lift, run_modify, hpush]
    have hfault : fault.isConflict = false := by
      unfold push at hpush
      split at hpush <;> cases hpush
      rfl
    rw [hrun]
    exact .error (.inl (Admits.other fault hfault))

lemma emit_takes (m : String) (st : Statement) : Takes Open F [] (emit m st) :=
  emit_takes_of (O := Open) (fun h hpush => h.push hpush) m st

lemma Takes.emit {m st} {f : PUnit → Compile β} (hf : ∀ a, Takes Open F N (f a)) :
    Takes Open F N (Compile.emit m st >>= f) :=
  .andThen (emit_takes m st) hf

lemma follow_takes (m : String) (t : Value.Translated) : Takes Open F [] (follow m t) :=
  .forM_nil fun st _ => emit_takes m st

lemma apply_takes (m : String) (t : Value.Translated) : Takes Open F [] (apply m t) :=
  .andThen (emit_takes m _) fun _ => follow_takes m t

lemma translate_apply_takes {m a object options} :
    Takes Open F [] (translate a object options >>= apply m) :=
  .quiet (translate_quiet _ _ _) fun t _ => apply_takes m t

/-- The name of an object is none of those to come, and its member is not there yet. -/
structure Vacant (given? : Option String) (N : List String) (s : Core) : Prop where
  fresh : Fresh Open N s
  own : ∀ o, ObjectName.given? given? = some o →
    o.name ∉ N ∧ s.generated.hasMember o.storage = false

omit [Admits F] in
lemma named_granted {s : Session} {type given? deferred} {q : ObjectName → Compile PUnit}
    {f : ObjectName → Compile β}
    (hq : ∀ o s, ∃ log, (q o).run.run s = (.ok (), { s with log }))
    (hf : ∀ o, Takes Open F N (f o)) (L : List String) :
    let x : Compile β := do
      let o ← assignName type given?
      q o
      declareNamed type o deferred
      f o
    Granted F (Vacant given? (N ++ L) s.core) (x.run.run s).1
      (Fresh Open L (x.run.run s).2.core) := by
  intro x
  cases hname : s.names.assignUnused s.generated type given? with
  | mk o names =>
  obtain ⟨log, hrun⟩ := named_run deferred (f := f) hname hq
  rw [show x.run.run s = _ from hrun]
  have hcases := NamePool.assignUnused_cases hname
  cases hd : s.generated.declare type o deferred with
  | error fault =>
    obtain ⟨_, _, hgiven, rfl, rfl⟩ | ⟨k, _, rfl, hissues⟩ := hcases
    · unfold ClassDef.declare at hd
      split at hd
      · next hmember =>
        cases hd
        refine .error (.inr ⟨rfl, fun hvacant => ?_⟩)
        exact Bool.false_ne_true ((hvacant.own _ hgiven).2.symm.trans hmember)
      · dsimp only at hd
        cases hd
    · obtain ⟨c, hok⟩ := declare_eq_ok_of_issues hissues deferred
      cases hd.symm.trans hok
  | ok c =>
    dsimp only
    have fresh : Vacant given? (N ++ L) s.core →
        Fresh Open (N ++ L) ({ s with names, log, generated := c } : Session).core := by
      intro hvacant
      refine ⟨hvacant.fresh.nodup, fun n hn => ?_⟩
      refine (hvacant.fresh.isOpen n hn).declare hname hd ?_
      rintro rfl
      obtain ⟨_, _, hgiven, _⟩ | ⟨_, _, hmade, _⟩ := hcases
      · exact (hvacant.own _ hgiven).1 hn
      · cases hmade
    exact (hf o L { s with names, log, generated := c }).imp fresh

omit [Admits F] in
lemma declare_takes {type given? method} {f : ObjectName → Compile β}
    (hf : ∀ o, Takes Open F N (f o)) :
    Takes Open F ((given?.map Text.trim).toList ++ N) (declare type given? method >>= f) := by
  intro L s
  rw [declare_bind]
  have vacant : Fresh Open ((given?.map Text.trim).toList ++ N ++ L) s.core →
      Vacant given? (N ++ L) s.core := by
    intro hfresh
    rw [append_assoc] at hfresh
    refine ⟨hfresh.of_sublist (sublist_append_right _ _), fun o ho => ?_⟩
    rw [ObjectName.trim_of_given? ho] at hfresh
    obtain ⟨hnodup, hopen⟩ := hfresh
    exact ⟨(nodup_cons.1 hnodup).1, (hopen o.name mem_cons_self).member⟩
  have hq : ∀ (o : ObjectName) (s : Session), ∃ log,
      (pure PUnit.unit : Compile PUnit).run.run s = (.ok (), { s with log }) :=
    fun _ s => ⟨s.log, rfl⟩
  exact (named_granted hq hf L).imp vacant

lemma sharedReference_takes (kind : SharedKind) (name : String) :
    Takes Open F [] (sharedReference kind name) := by
  intro L s
  cases ha : s.shared.access kind name with
  | ok r =>
    obtain ⟨a, t⟩ := r
    obtain ⟨s', hr, hc, _⟩ := sharedReference_run ha
    rw [hr, hc]
    exact .ok fun hfresh => hfresh.keep fun n _ _ hopen => hopen.access ha
  | error fault =>
    have hrun : ((sharedReference kind name).run.run s).1 = .error fault := by
      unfold sharedReference
      simp only [run_bind, run_get, run_lift, ha]
    have hplain := access_answers s.shared kind name
    rw [ha] at hplain
    rw [hrun]
    cases hplain with
    | error hf => exact .error (.inl (Admits.other fault (Fault.isConflict_of_isPlain hf)))

lemma buildShared_takes {kind type name} {build : ObjectName → String → Compile Unit}
    (hn : Text.trim name = name) (hb : ∀ o m, Takes Open F N (build o m)) :
    Takes Open F (name :: N) (buildShared kind type name build) := by
  intro L s
  unfold buildShared
  rw [run_bind, run_get]
  dsimp only
  rw [run_bind, run_lift]
  cases hd : s.shared.declare kind name with
  | error fault =>
    unfold SharedTable.declare at hd
    split at hd
    · cases hd
      exact .error (.inl (Admits.other _ rfl))
    · next e he =>
      split at hd
      · next hdeclared =>
        cases hd
        refine .error (.inr ⟨rfl, fun hfresh => ?_⟩)
        have hnot := (hfresh.isOpen name mem_cons_self).shared kind e he
        exact Bool.false_ne_true (hnot.symm.trans hdeclared)
      · cases hd
  | ok r =>
    obtain ⟨site, t⟩ := r
    dsimp only
    rw [run_bind, run_modify]
    dsimp only
    have vacant : Fresh Open (name :: N ++ L) s.core →
        Vacant (some name) (N ++ L) ({ s with shared := t } : Session).core := by
      rintro ⟨hnodup, hopen⟩
      obtain ⟨hname, hrest⟩ := nodup_cons.1 hnodup
      refine ⟨⟨hrest, fun n hmem => ?_⟩, fun o ho => ?_⟩
      · refine (hopen n (mem_cons_of_mem _ hmem)).sharedDeclare hd ?_
        rintro rfl
        exact hname hmem
      · have heq : name = o.name := hn.symm.trans (Option.some.inj (ObjectName.trim_of_given? ho))
        have hfree := (hopen name mem_cons_self).member
        rw [ObjectName.storage, ← heq]
        exact ⟨hname, hfree⟩
    refine Granted.imp ?_ vacant
    refine named_granted (s := { s with shared := t }) (fun _ s => ⟨_, rfl⟩) (fun o => ?_) L
    rw [← append_nil N]
    cases site.isEnsured with
    | false =>
      simp only [Bool.false_eq_true, if_false]
      exact (hb o site.method).bind fun _ => .pure
    | true =>
      simp only [if_true]
      refine .andThen (emit_takes _ _) fun _ => ?_
      exact (hb o site.method).bind fun _ => emit_takes _ _

lemma mesh_takes {name} {f : Mesh → Compile β} (hf : ∀ base, Takes Open F N (f base)) :
    Takes Open F N (mesh name >>= f) := by
  intro L s
  unfold mesh
  simp only [bind_assoc]
  rw [run_bind, run_get]
  dsimp only
  cases s.meshes.find? (·.name == name) with
  | some base => exact hf base L s
  | none =>
    dsimp only
    split <;> exact .error (.inl (Admits.other _ rfl))

omit [Admits F] in
lemma modify_takes {O g} (hg : ∀ s n, O s.core n → O (g s).core n) : Takes O F [] (modify g) := by
  intro L s
  rw [run_modify]
  exact .ok fun hfresh => hfresh.keep fun n _ _ hopen => hg s n hopen

omit [Admits F] in
lemma addMesh_takes (o : ObjectName) (m : String) : Takes Open F [] (addMesh o m) := by
  unfold addMesh
  split
  · exact modify_takes fun s n h => h.of_waiting rfl rfl rfl
  · exact .pure

end Compile

end SceneView
