import Mathlib.Data.List.Forall2
import SceneView.Proofs.Layout

/-!
# Shared objects are built once

A shared object that nothing refers to before its declaration is built in the main method, and every
reference reads its member. A shared object that is referred to before is built by a method of its
own, on the first call, and every reference calls that method. Both hold of every accepted document
in which the shared objects have names.
-/

open List

namespace SceneView

open Statement

/-- Whether a statement gives away the shared object of a name, in one way or the other. -/
def Statement.reaches (n : String) (st : Statement) : Bool :=
  st.reference? == some (.member (storageName n)) ||
    st.reference? == some (.ensure (ensureMethod n))

namespace ClassDef

/-- The statements that give away a shared object are those of the references to it, in order, and
all of them reach it in the same way, by the same text. -/
def ReachedBy (c : ClassDef) (outline : List Event) (kind : SharedKind) (n : String)
    (reference : SharedReference) (text : String) : Prop :=
  ∀ method, List.Forall₂
    (fun st u => ∃ owner, st = u.statement owner reference ∧
      st.text = "this." ++ owner ++ "." ++ u.slot?.getD "material" ++ " = " ++ text ++ ";" ∧
      ∀ name, u.owner? = some name → owner = "x_" ++ name)
    ((c.body method).filter (·.reaches n))
    ((usesOf kind n outline).filter fun u => u.site.methodIn outline == method)

lemma filter_eq_singleton_of_count {ms : List Method} {m} (hm : m ∈ ms)
    (h : (ms.map (·.name)).count m.name ≤ 1) : ms.filter (·.name == m.name) = [m] := by
  have hmem : m ∈ ms.filter (·.name == m.name) := mem_filter.2 ⟨hm, beq_self_eq_true _⟩
  have hlength : (ms.filter (·.name == m.name)).length ≤ 1 := by
    rw [← countP_eq_length_filter]
    rw [List.count, countP_map] at h
    exact h
  generalize ms.filter (·.name == m.name) = l at hmem hlength
  match l with
  | [a] => rw [mem_singleton.1 hmem]
  | _ :: _ :: _ => simp at hlength

end ClassDef

lemma Use.not_builds (u : Use) (owner : String) (r : SharedReference) (member : String) :
    (u.statement owner r).builds member = false := by
  unfold Use.statement
  split <;> rfl

lemma not_builds_of_untouched {T : List Effect} {member es method}
    (h : ∀ site st, .emit site st ∈ T → st.touches member = false) :
    (T.flatMap (Effect.written es method)).countP (·.builds member) = 0 := by
  rw [countP_eq_zero]
  intro st hst
  rw [Bool.not_eq_true]
  obtain ⟨u, owner, _, _, rfl⟩ | ⟨site, he, _⟩ | ⟨g, _, _, rfl | rfl⟩ := Effect.mem_written hst
  · exact u.not_builds owner _ member
  · have ht := h site st he
    rw [touches, Bool.or_eq_false_iff] at ht
    exact ht.1
  · rfl
  · rfl

lemma Compile.PutOff.untouched {site st} (h : PutOff (.emit site st)) (member : String) :
    st.touches member = false := by
  cases h with
  | intro _ hst => cases hst <;> rfl

variable {d : Document} {c : ClassDef} {A W A₁ T A₂ : List Effect} {kind : SharedKind} {n : String}
  {o : ObjectName} {v : Construction} (h : Compiled d c A W) (hp : Placed d A kind n o A₁ T A₂ v)

namespace Compiled

include h hp

lemma countP_builds (method : String) :
    (c.body method).countP (·.builds o.storage) =
      if buildMethod d.outline kind n = method then 1 else 0 := by
  obtain ⟨type, deferred, rfl⟩ := hp.trace
  have hinit : (if method = Builtin.init then Compile.initBody d.isMixin else []).countP
      (·.builds o.storage) = 0 := by
    split
    · exact initBody_not_builds _ _
    · rfl
  have hT : (T.flatMap (Effect.written d.outline method)).countP (·.builds o.storage) = 0 :=
    not_builds_of_untouched fun _ _ he => hp.parts.untouched hp.not_parts he
  rw [h.body]
  simp only [flatMap_append, countP_append, written_blockEffects hp.parts, hinit,
    not_builds_of_untouched fun site st he => hp.before.untouched hp.not_before he,
    not_builds_of_untouched fun site st he => hp.after.untouched hp.not_after he,
    not_builds_of_untouched fun site st he => (h.putOff _ he).untouched _]
  split
  · cases usedFirst kind n d.outline <;>
      simp only [countP_append, countP_cons, hT] <;> simp
  · rfl

lemma not_builds {f} (hf : buildMethod d.outline kind n ≠ f) {st} (hst : st ∈ c.body f) :
    st.builds o.storage = false := by
  have hcount := h.countP_builds hp f
  rw [if_neg hf, countP_eq_zero] at hcount
  exact Bool.eq_false_iff.2 (hcount st hst)

omit hp in
lemma not_builds_blank (f : String) : ∀ st ∈ c.body f, st.builds (storageName "") = false := by
  have hblank : storageName "" ∉ A.filterMap Effect.storage? := by
    intro hmem
    obtain ⟨e, he, hstorage⟩ := mem_filterMap.1 hmem
    cases e with
    | object type o deferred shared =>
      exact h.named he (storageName_injective (Option.some.inj hstorage))
    | _ => cases hstorage
  have hcount : (c.body f).countP (·.builds (storageName "")) = 0 := by
    rw [h.body, countP_append, countP_append,
      not_builds_of_untouched fun _ _ he => h.assembled.untouched hblank he,
      not_builds_of_untouched fun _ _ he => (h.putOff _ he).untouched _]
    split
    · exact initBody_not_builds _ _
    · rfl
  exact fun st hst => Bool.eq_false_iff.2 (countP_eq_zero.1 hcount st hst)

end Compiled

@[simp]
lemma Use.reference?_statement (u : Use) (owner : String) (r : SharedReference) :
    (u.statement owner r).reference? = some r := by
  unfold Use.statement
  split <;> rfl

lemma Use.text_statement (u : Use) (owner : String) (r : SharedReference) :
    (u.statement owner r).text =
      "this." ++ owner ++ "." ++ u.slot?.getD "material" ++ " = " ++ r.text ++ ";" := by
  obtain ⟨kind, name, site, slot?, owner?⟩ := u
  cases slot? with
  | some slot => rfl
  | none => simp [Use.statement, Statement.text, ← String.toList_inj]

lemma reaches_referenceTo (es : List Event) (kind : SharedKind) (m n : String) {st : Statement}
    (h : st.reference? = some (referenceTo es kind m)) : st.reaches n = decide (m = n) := by
  have hs : storageName m = storageName n ↔ m = n := ⟨storageName_injective, congrArg _⟩
  have he : ensureMethod m = ensureMethod n ↔ m = n := ⟨ensureMethod_injective, congrArg _⟩
  rw [Bool.eq_iff_iff, decide_eq_true_iff, reaches, h, referenceTo, Bool.or_eq_true,
    beq_iff_eq, beq_iff_eq]
  split <;> simp [hs, he]

lemma usesOf_append (kind : SharedKind) (n : String) (xs ys : List Event) :
    usesOf kind n (xs ++ ys) = usesOf kind n xs ++ usesOf kind n ys :=
  filterMap_append

lemma forall₂_reaches {T : List Effect} {kind n es method}
    (hemit : ∀ site st, .emit site st ∈ T → st.reaches n = false)
    (huse : ∀ u owner, .use u owner ∈ T → (u.name = n → u.kind = kind) ∧
      ∀ name, u.owner? = some name → owner = storageName name) :
    List.Forall₂
      (fun st u => ∃ owner, st = Use.statement u owner (referenceTo es kind n) ∧
        ∀ name, u.owner? = some name → owner = storageName name)
      ((T.flatMap (Effect.written es method)).filter (·.reaches n))
      ((usesOf kind n (events T)).filter fun u => u.site.methodIn es == method) := by
  induction T with
  | nil => exact .nil
  | cons e T ih =>
    have ih := ih (fun site st he => hemit site st (mem_cons_of_mem _ he))
      fun u owner he => huse u owner (mem_cons_of_mem _ he)
    rw [flatMap_cons, filter_append, events_cons, usesOf_append, filter_append]
    refine rel_append ?_ ih
    cases e with
    | use u owner =>
      obtain ⟨hkind, howner⟩ := huse u owner mem_cons_self
      have hr := reaches_referenceTo es u.kind u.name n (u.reference?_statement owner _)
      rw [Effect.written, Effect.event?, Option.toList_some]
      by_cases hn : u.name = n
      · obtain rfl := hn
        obtain rfl := hkind rfl
        have hself : u.isOf u.kind u.name = true := Use.isOf_iff.2 ⟨rfl, rfl⟩
        by_cases hm : u.site.methodIn es = method
        · simpa [hm, usesOf, hself, hr] using ⟨owner, rfl, howner⟩
        · simp [hm, usesOf, hself]
      · have hother : u.isOf kind n = false :=
          Bool.eq_false_iff.2 fun hu => hn (Use.isOf_iff.1 hu).2
        rw [decide_eq_false hn] at hr
        split <;> simp [usesOf, hother, hr]
    | emit site st =>
      have := hemit site st mem_cons_self
      simp only [Effect.written]
      split <;> simp [this, Effect.event?, usesOf]
    | group g =>
      simp only [Effect.written]
      split <;> simp [Effect.event?, usesOf, reaches, reference?]
    | _ => simp [Effect.written, Effect.event?, usesOf]

lemma Assembled.not_ensure {es A} (h : Assembled es A) {site st} (he : .emit site st ∈ A)
    (f : String) : st.reference? ≠ some (.ensure f) := by
  have hloose : ∀ {P members es T}, Loose P members es T → .emit site st ∈ T →
      st.reference? ≠ some (.ensure f) := by
    intro P members es T hl he hr
    have hst := (hl.ordinary _ he).2
    cases st <;> simp only [reference?, reduceCtorEq, Option.some.injEq] at hr
    all_goals
      subst hr
      cases hst
  induction h with
  | nil => cases he
  | loose hl _ ih => exact (mem_append.1 he).elim (hloose hl) ih
  | block hb _ ih =>
    refine (mem_append.1 he).elim (fun he => ?_) ih
    cases hb with
    | intro _ hl =>
      obtain ⟨_, (⟨_, rfl | rfl⟩ | rfl)⟩ | he := emit_mem_blockEffects.1 he
      iterate 3 simp [reference?]
      · exact hloose hl he

lemma Assembled.owner {es A} (h : Assembled es A) {u owner} (he : .use u owner ∈ A) {name}
    (hn : u.owner? = some name) : owner = storageName name := by
  induction h with
  | nil => cases he
  | loose hl _ ih =>
    exact (mem_append.1 he).elim (fun he => (hl.ordinary _ he).2 name hn) ih
  | block hb _ ih =>
    refine (mem_append.1 he).elim (fun he => ?_) ih
    cases hb with
    | intro _ hl =>
      rw [mem_blockEffects (by simp) (by simp) (by simp)] at he
      exact (hl.ordinary _ he).2 name hn

include hp in
lemma Placed.reference_ne {site st} (he : .emit site st ∈ A) : st.reference? ≠ some
    (.member o.storage) := by
  have hun : st.touches o.storage = false → st.reference? ≠ some (.member o.storage) := by
    intro ht hr
    simp [touches, hr] at ht
  obtain ⟨type, deferred, rfl⟩ := hp.trace
  obtain he | he := mem_append.1 he
  · exact hun (hp.before.untouched hp.not_before he)
  obtain he | he := mem_append.1 he
  · obtain ⟨_, (⟨_, rfl | rfl⟩ | rfl)⟩ | he := emit_mem_blockEffects.1 he
    iterate 3 simp [reference?]
    · exact hun (hp.parts.untouched hp.not_parts he)
  · exact hun (hp.after.untouched hp.not_after he)

include hp in
lemma Placed.not_reaches (hn : n ≠ "") (hA : Assembled d.outline A) {site st}
    (he : .emit site st ∈ A) :
    st.reaches n = false := by
  rw [reaches, Bool.or_eq_false_iff, beq_eq_false_iff_ne, beq_eq_false_iff_ne,
    ← hp.storage_eq hn]
  exact ⟨hp.reference_ne he, hA.not_ensure he _⟩

include h hp in
lemma Compiled.reachedBy (hn : n ≠ "") :
    c.ReachedBy d.outline kind n (referenceTo d.outline kind n)
      (referenceTo d.outline kind n).text := by
  intro method
  have hinit : (if method = Builtin.init then Compile.initBody d.isMixin else []).filter
      (·.reaches n) = [] := by
    split
    · cases d.isMixin <;> rfl
    · rfl
  have hW : (W.flatMap (Effect.written d.outline method)).filter (·.reaches n) = [] := by
    rw [filter_eq_nil_iff]
    intro st hst
    obtain ⟨u, owner, he, _⟩ | ⟨site, he, _⟩ | ⟨g, he, _⟩ := Effect.mem_written hst
    · cases h.putOff _ he
    · cases h.putOff _ he with
      | intro _ hoff => cases hoff <;> exact Bool.false_ne_true
    · cases h.putOff _ he
  rw [h.body, filter_append, filter_append, hinit, hW, nil_append, append_nil]
  rw [← h.assembled.events]
  refine (forall₂_reaches (fun site st he => hp.not_reaches hn h.assembled he) ?_).imp ?_
  · intro u owner he
    refine ⟨fun hu => ?_, fun name hname => h.assembled.owner he hname⟩
    exact hp.kind_eq hn (hu ▸ h.declared (settled_of_use (h.use_mem he)))
  · rintro st u ⟨owner, rfl, howner⟩
    exact ⟨owner, rfl, u.text_statement owner _, howner⟩

lemma ClassDef.ReachedBy.reference? {c : ClassDef} {outline kind n r text}
    (h : c.ReachedBy outline kind n r text) {method st} (hst : st ∈ c.body method)
    (hn : st.reaches n = true) : st.reference? = some r := by
  have hmem := mem_filter.2 ⟨hst, hn⟩
  have hall := h method
  generalize (c.body method).filter (·.reaches n) = sts at hmem hall
  generalize (usesOf kind n outline).filter _ = us at hall
  induction hall with
  | nil => cases hmem
  | @cons st' u _ _ hu _ ih =>
    obtain rfl | hmem := mem_cons.1 hmem
    · obtain ⟨owner, rfl, _, _⟩ := hu
      exact u.reference?_statement owner r
    · exact ih hmem

namespace Compiled

include h hp

omit hp

lemma exists_ensureMethod_of_count (hcount : c.methodNames.count (ensureMethod n) ≤ 1)
    (hu : usedFirst kind n d.outline = true) :
    ∃ m ∈ c.methods, c.methods.filter (·.name == ensureMethod n) = [m] ∧
      m.signature = ⟨ensureMethod n, kind.returnType, .isPrivate⟩ ∧
      m.body = c.body (ensureMethod n) := by
  obtain ⟨m, hm, hsig⟩ := mem_map.1 ((h.signatures _).2 (.ensure hu))
  have hname : m.name = ensureMethod n := congrArg Signature.name hsig
  have hone : c.methods.filter (·.name == ensureMethod n) = [m] := by
    rw [← hname] at hcount ⊢
    exact ClassDef.filter_eq_singleton_of_count hm hcount
  refine ⟨m, hm, hone, hsig, ?_⟩
  rw [ClassDef.body, ClassDef.named, hone]
  rfl

lemma exists_ensureMethod (hnodup : c.methodNames.Nodup) (hu : usedFirst kind n d.outline = true) :
    ∃ m ∈ c.methods, c.methods.filter (·.name == ensureMethod n) = [m] ∧
      m.signature = ⟨ensureMethod n, kind.returnType, .isPrivate⟩ ∧
      m.body = c.body (ensureMethod n) :=
  h.exists_ensureMethod_of_count (nodup_iff_count_le_one.1 hnodup _) hu

lemma kind_eq_of_filter {m k k'} (hone : c.methods.filter (·.name == ensureMethod n) = [m])
    (hk : usedFirst k n d.outline = true) (hk' : usedFirst k' n d.outline = true) : k = k' := by
  have only : ∀ {k : SharedKind}, usedFirst k n d.outline = true →
      m.signature = ⟨ensureMethod n, k.returnType, .isPrivate⟩ := by
    intro k hk
    obtain ⟨m', hm', hsig⟩ := mem_map.1 ((h.signatures _).2 (.ensure hk))
    have hname : m'.name = ensureMethod n := congrArg Signature.name hsig
    have hmem : m' ∈ c.methods.filter (·.name == ensureMethod n) :=
      mem_filter.2 ⟨hm', by simp [hname]⟩
    rw [hone, mem_singleton] at hmem
    exact hmem ▸ hsig
  have htype : k.returnType = k'.returnType :=
    congrArg Signature.returnType ((only hk).symm.trans (only hk'))
  revert htype
  cases k <;> cases k' <;> decide

lemma distinct_of_nodup (hc : c.methodNames.Nodup) : Distinct d.outline := by
  intro n k k' hk hk'
  obtain ⟨m, _, hone, _⟩ := h.exists_ensureMethod hc hk
  exact h.kind_eq_of_filter hone hk hk'

end Compiled

def sharedView : Document where
  root :=
    { tag := "View"
      attributes := [⟨"name", "V"⟩]
      children :=
        [{ tag := "Nodes"
           children := [{ tag := "Box", attributes := [⟨"name", "a"⟩, ⟨"material", "m"⟩] }] },
          { tag := "Textures"
            children := [{ tag := "Texture", attributes := [⟨"name", "t"⟩, ⟨"url", "t.png"⟩] }] },
          { tag := "Materials"
            children :=
              [{ tag := "StandardMaterial"
                 attributes := [⟨"name", "m"⟩, ⟨"diffuseTexture", "t"⟩] }] }] }

lemma sharedView_generated : ∃ c, sharedView.generated? {} = some c :=
  Option.isSome_iff_exists.1 (by decide +kernel)

end SceneView
