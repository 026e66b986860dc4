import SceneView.Proofs.Construction
import SceneView.Proofs.Execution

/-!
# The order in which shared objects are built and read

When the main method runs, a shared object that has a name is built before any statement gives it
away, with one exception. A material that is referred to before its declaration is built at the
first reference. If the main method makes that reference before it builds a texture, and the texture
is put into a slot of the material, then the slot is given a texture that does not exist yet
(`BuiltLate`).

The proof that there is no other way follows the methods that may be called before the texture is
built (`CalledBefore`). The proof that there is this way runs the main method up to the first call
of the method of the material.
-/

open List

namespace SceneView

open Builtin

/-- The materials that the main method refers to before the declaration of a texture. -/
def materialsBefore (t : String) (outline : List Event) : List String :=
  (outline.takeWhile (· ≠ .declaration .texture t)).filterMap fun
    | .use u => if u.kind = .material ∧ u.site = .method Builtin.init then some u.name else none
    | _ => none

/-- The texture is built in the main method, after a material that it is put into. -/
def BuiltLate (outline : List Event) (t : String) : Prop :=
  usedFirst .texture t outline = false ∧
    ∃ m ∈ materialsBefore t outline, ∃ u ∈ usesOf .texture t outline, u.site = .shared .material m

instance (outline : List Event) (t : String) : Decidable (BuiltLate outline t) :=
  inferInstanceAs (Decidable (_ ∧ _))

lemma Placed.mem_materialsBefore {d A n o A₁ T A₂ v} (hp : Placed d A .texture n o A₁ T A₂ v) {m} :
    m ∈ materialsBefore n d.outline ↔ ∃ u, .use u ∈ events A₁ ∧ u.kind = .material ∧
      u.site = .method init ∧ u.name = m := by
  have hbefore : d.outline.takeWhile (· ≠ .declaration .texture n) = events A₁ := by
    obtain ⟨type, houtline⟩ := hp.outline
    rw [houtline, takeWhile_append_of_pos, takeWhile_cons_of_neg, append_nil]
    · simp
    · intro e he
      rw [decide_eq_true_iff]
      rintro rfl
      exact hp.alone.1 he
  rw [materialsBefore, hbefore, mem_filterMap]
  constructor
  · rintro ⟨e, he, hm⟩
    split at hm
    · next u =>
      split at hm
      · next h => exact ⟨u, he, h.1, h.2, Option.some.inj hm⟩
      · cases hm
    · cases hm
  · rintro ⟨u, he, hkind, hsite, hname⟩
    exact ⟨_, he, by simp [hkind, hsite, hname]⟩

/-- A statement that a trace adds to a method and that does not leave it: an ordinary one, or that
of a reference. -/
inductive Flows (es : List Event) (T : List Effect) (method : String) : Statement → Prop where
  | emit {site st} :
    .emit site st ∈ T →
    st.isOrdinary = true →
    Flows es T method st
  | use {u : Use} {owner} :
    .use u owner ∈ T →
    u.site.methodIn es = method →
    Flows es T method (u.statement owner (referenceTo es u.kind u.name))

lemma Loose.flows {kind n members esT T es method st}
    (h : Loose (· = .shared kind n) members esT T)
    (hst : st ∈ T.flatMap (Effect.written es method)) : Flows es T method st := by
  obtain ⟨u, owner, he, hm, rfl⟩ | ⟨site, he, _⟩ | ⟨g, he, _⟩ := Effect.mem_written hst
  · exact .use he hm
  · exact .emit he (h.ordinary _ he).2
  · cases h.ordinary _ he

lemma Assembled.isOrdinary_of_init {esA A es} (h : Assembled esA A)
    (hens : ∀ {kind name b}, .declaration kind name b ∈ A → b = usedFirst kind name es) {site st}
    (he : .emit site st ∈ A) (hm : site.methodIn es = init) : st.isOrdinary = true := by
  induction h with
  | nil => cases he
  | loose hl _ ih =>
    obtain he | he := mem_append.1 he
    · exact (hl.ordinary _ he).2
    · exact ih (fun hd => hens (mem_append_right _ hd)) he
  | @block kind name _ _ _ _ hb _ ih =>
    obtain he | he := mem_append.1 he
    · cases hb with
      | @intro _ _ _ ensured _ _ _ _ hl =>
        obtain ⟨rfl, (⟨rfl, _⟩ | rfl)⟩ | he := emit_mem_blockEffects.1 he
        · have hu : true = usedFirst kind name es := hens (by simp [blockEffects])
          rw [Site.methodIn, buildMethod, if_pos hu.symm] at hm
          exact absurd hm (ensureMethod_ne_init name)
        · rfl
        · exact (hl.ordinary _ he).2
    · exact ih (fun hd => hens (mem_append_right _ hd)) he

lemma Assembled.flows_init {esA A es st} (h : Assembled esA A)
    (hens : ∀ {kind name b}, .declaration kind name b ∈ A → b = usedFirst kind name es)
    (hst : st ∈ A.flatMap (Effect.written es init)) : Flows es A init st := by
  obtain ⟨u, owner, he, hm, rfl⟩ | ⟨site, he, hm⟩ | ⟨g, _, hg, _⟩ := Effect.mem_written hst
  · exact .use he hm
  · exact .emit he (h.isOrdinary_of_init hens he hm)
  · exact absurd hg (Compile.groupMethod_ne_init g)

lemma Use.calls?_of_usedFirst {u : Use} {es} (hu : usedFirst u.kind u.name es = true)
    (owner : String) :
    (u.statement owner (referenceTo es u.kind u.name)).calls? = some (ensureMethod u.name) := by
  refine Statement.calls?_of_reference ?_
  rw [Use.reference?_statement, referenceTo_of_usedFirst hu]

lemma Use.isPlain_of_not_usedFirst {u : Use} {es} (hu : usedFirst u.kind u.name es = false)
    (owner : String) : (u.statement owner (referenceTo es u.kind u.name)).isPlain = true := by
  rw [referenceTo_of_not_usedFirst hu]
  exact Statement.isPlain_of_reference (Use.reference?_statement _ _ _)

section

variable {es : List Event} {T : List Effect} {method : String} {st : Statement}

lemma Flows.waits {F member} (h : Flows es T method st)
    (hread : st.reference? ≠ some (.member member))
    (hcall : ∀ u owner, .use u owner ∈ T → u.site.methodIn es = method →
      usedFirst u.kind u.name es = true → F (ensureMethod u.name)) : st.Waits F member := by
  refine ⟨hread, fun f hf => ?_⟩
  cases h with
  | emit _ ho =>
    obtain hp | ⟨m, v, rfl⟩ := Statement.plain_or_construct ho
    · rw [Statement.calls?_eq_none hp] at hf
      cases hf
    · cases hf
  | @use u owner he hm =>
    cases hu : usedFirst u.kind u.name es with
    | true =>
      rw [Use.calls?_of_usedFirst hu] at hf
      cases hf
      exact hcall u owner he hm hu
    | false =>
      rw [Statement.calls?_eq_none (Use.isPlain_of_not_usedFirst hu owner)] at hf
      cases hf

lemma Flows.passes {c : ClassDef} {avoid : String → Prop} (h : Flows es T method st)
    (hbuild : ∀ m, avoid m → st.builds m = false)
    (hcall : ∀ u owner, .use u owner ∈ T → u.site.methodIn es = method →
      usedFirst u.kind u.name es = true → st.calls? = some (ensureMethod u.name) →
      c.Returns avoid (ensureMethod u.name)) : c.Passes avoid st := by
  cases h with
  | emit _ ho =>
    obtain hp | ⟨m, v, rfl⟩ := Statement.plain_or_construct ho
    · exact .plain hp
    · refine .construct fun hm => ?_
      simpa using hbuild m hm
  | @use u owner he hm =>
    cases hu : usedFirst u.kind u.name es with
    | true =>
      have hc := Use.calls?_of_usedFirst hu owner
      exact .call hc (hcall u owner he hm hu hc)
    | false => exact .plain (Use.isPlain_of_not_usedFirst hu owner)

end

variable {d : Document} {c : ClassDef} {A W A₁ T A₂ : List Effect} {kind : SharedKind} {n : String}
  {o : ObjectName} {v : Construction} (h : Compiled d c A W) (hp : Placed d A kind n o A₁ T A₂ v)

include hp in
lemma Placed.use_of_read (hn : n ≠ "") (hA : Assembled d.outline A) {T' method st} (hsub : T' ⊆ A)
    (h : Flows d.outline T' method st) (hr : st.reference? = some (.member (storageName n))) :
    ∃ u owner, .use u owner ∈ T' ∧ u.site.methodIn d.outline = method ∧ u.name = n := by
  have hreaches : st.reaches n = true := by simp [Statement.reaches, hr]
  cases h with
  | emit he _ =>
    rw [hp.not_reaches hn hA (hsub he)] at hreaches
    cases hreaches
  | @use u owner he hm =>
    rw [reaches_referenceTo d.outline u.kind u.name n (u.reference?_statement owner _),
      decide_eq_true_iff] at hreaches
    exact ⟨u, owner, he, hm, hreaches⟩

lemma Compile.initBody_eq (isMixin : Bool) :
    ∃ lines : List String, initBody isMixin =
      .leaveIf isInitialized :: .raise isInitialized :: lines.map .line := by
  cases isMixin with
  | false => exact ⟨[_, _, _, _, _, _, _, _, _, _], rfl⟩
  | true => exact ⟨[_, _, _, _, _, _, _, _, _, _, _, _], rfl⟩

/-- The methods that a run may have called before the main method is past the trace `A₁`. Apart from
the main method they belong to textures, or to materials that the main method refers to by then. -/
inductive CalledBefore (es : List Event) (A₁ : List Effect) : String → Prop where
  | init : CalledBefore es A₁ Builtin.init
  | ensure {u : Use} :
    .use u ∈ es →
    usedFirst u.kind u.name es = true →
    u.kind = .texture ∨ .use u ∈ events A₁ ∧ u.site = .method Builtin.init →
    CalledBefore es A₁ (ensureMethod u.name)

namespace Compiled

include h hp

lemma waits_init (hn : n ≠ "") (hu : usedFirst kind n d.outline = false) :
    Waits (CalledBefore d.outline A₁) (storageName n) (c.body init) := by
  obtain ⟨k, hbody⟩ := h.body_init hp hu
  rw [hbody, hp.storage_eq hn]
  refine .append ?_ (.append ?_ (.construct v k))
  · intro st hst
    obtain ⟨lines, hlines⟩ := Compile.initBody_eq d.isMixin
    simp only [hlines, mem_cons, mem_map] at hst
    obtain rfl | rfl | ⟨text, _, rfl⟩ := hst <;> exact .of_none rfl rfl
  · intro st hst
    have hflow := hp.before.flows_init (fun hd => h.ensured (hp.before_subset hd)) hst
    refine hflow.waits ?_ ?_
    · intro hr
      obtain ⟨u, owner, he, _, hname⟩ := hp.use_of_read hn h.assembled hp.before_subset hflow hr
      have hout := h.use_mem (hp.before_subset he)
      have hkind := hp.kind_eq hn (hname ▸ h.declared (settled_of_use hout))
      exact hp.not_used_before hu (mem_events he rfl) hkind hname
    · intro u owner he hm hfirst
      have hout := h.use_mem (hp.before_subset he)
      refine .ensure hout hfirst ?_
      cases hsite : u.site with
      | method m =>
        rw [hsite] at hm
        exact .inr ⟨mem_events he rfl, congrArg Site.method hm⟩
      | shared k m => exact .inl (d.regular hout k m hsite).2

lemma waits_ensure (hdistinct : Distinct d.outline) (hn : n ≠ "")
    (hu : usedFirst kind n d.outline = false)
    (hlate : ¬ (kind = .texture ∧ BuiltLate d.outline n)) {u} (he : .use u ∈ d.outline)
    (hfirst : usedFirst u.kind u.name d.outline = true)
    (hbefore : u.kind = .texture ∨ .use u ∈ events A₁ ∧ u.site = .method init) :
    Waits (CalledBefore d.outline A₁) (storageName n) (c.body (ensureMethod u.name)) := by
  obtain ⟨o', B₁, T', B₂, w, hp'⟩ := h.placed_of_use he
  rw [h.body_ensureMethod hdistinct hp' hfirst]
  refine .of_forall fun st hst => ?_
  simp only [mem_cons, mem_append, not_mem_nil, or_false] at hst
  obtain rfl | rfl | hst | rfl := hst
  · exact .of_none rfl rfl
  · exact .of_none rfl rfl
  · have hflow := hp'.parts.flows hst
    refine hflow.waits (fun hr => hlate ?_) ?_
    · obtain ⟨u', owner, he', _, hname⟩ := hp.use_of_read hn h.assembled hp'.parts_subset hflow hr
      have hout := h.use_mem (hp'.parts_subset he')
      have hsite : u'.site = .shared u.kind u.name := (hp'.parts.ordinary _ he').1
      obtain ⟨hmaterial, htexture⟩ := d.regular hout _ _ hsite
      have hkind := hp.kind_eq hn (hname ▸ h.declared (settled_of_use hout))
      rw [htexture] at hkind
      subst hkind
      obtain ⟨hmem, hinit⟩ := hbefore.resolve_left (by simp [hmaterial])
      refine ⟨rfl, hu, u.name, ?_, u', mem_usesOf.2 ⟨hout, htexture, hname⟩, hmaterial ▸ hsite⟩
      exact hp.mem_materialsBefore.2 ⟨u, hmem, hmaterial, hinit, rfl⟩
    · intro u' owner he' _ hfirst'
      have hout := h.use_mem (hp'.parts_subset he')
      exact .ensure hout hfirst' (.inl (d.regular hout _ _ (hp'.parts.ordinary _ he').1).2)
  · exact .of_none rfl rfl

omit hp

lemma not_readsEarly (hdistinct : Distinct d.outline) (hp : Placed d A kind n o A₁ T A₂ v)
    (hn : n ≠ "") (hlate : ¬ (kind = .texture ∧ BuiltLate d.outline n)) :
    ¬ c.ReadsEarly (storageName n) := by
  cases hu : usedFirst kind n d.outline with
  | true =>
    refine ClassDef.not_readsEarly (F := fun _ => True) trivial fun f _ => .of_forall ?_
    refine fun st hst => ⟨fun hr => ?_, fun _ _ => trivial⟩
    have href := (h.reachedBy hp hn).reference? hst (by simp [Statement.reaches, hr])
    rw [hr, referenceTo_of_usedFirst hu] at href
    cases href
  | false =>
    refine ClassDef.not_readsEarly (F := CalledBefore d.outline A₁) .init fun f hf => ?_
    cases hf with
    | init => exact h.waits_init hp hn hu
    | ensure he hfirst hbefore => exact h.waits_ensure hp hdistinct hn hu hlate he hfirst hbefore

end Compiled

lemma exists_first_call {es} {T : List Effect} {method u owner} (he : .use u owner ∈ T)
    (hm : u.site.methodIn es = method) (hu : usedFirst u.kind u.name es = true) :
    ∃ K₁ st K₂, T.flatMap (Effect.written es method) = K₁ ++ st :: K₂ ∧
      st.calls? = some (ensureMethod u.name) ∧
      ∀ st' ∈ K₁, st'.calls? ≠ some (ensureMethod u.name) := by
  have hc := Use.calls?_of_usedFirst hu owner
  have hsome : ((T.flatMap (Effect.written es method)).find?
      (·.calls? == some (ensureMethod u.name))).isSome = true :=
    List.find?_isSome.2 ⟨_, Effect.mem_written_of_use he hm, beq_iff_eq.2 hc⟩
  obtain ⟨st, hst⟩ := Option.isSome_iff_exists.1 hsome
  obtain ⟨hcall, K₁, K₂, hK, hnot⟩ := List.find?_eq_some_iff_append.1 hst
  refine ⟨K₁, st, K₂, hK, beq_iff_eq.1 hcall, fun st' hst' heq => ?_⟩
  simpa [heq] using hnot st' hst'

namespace Compiled

include h

lemma usedFirst_of_late (hp : Placed d A .texture n o A₁ T A₂ v)
    (hu : usedFirst .texture n d.outline = false) {u u'} (hkind : u.kind = .material)
    (hbefore : .use u ∈ events A₁) (he' : .use u' ∈ d.outline)
    (hsite' : u'.site = .shared .material u.name) (hkind' : u'.kind = .texture)
    (hname' : u'.name = n) : usedFirst u.kind u.name d.outline = true := by
  have hset := settled_of_use hbefore
  obtain ⟨type, houtline⟩ := hp.outline
  rw [houtline, hset.usedFirst_append]
  refine hset.resolve_right fun hdeclared => ?_
  rw [houtline] at he'
  simp only [mem_append, mem_cons, reduceCtorEq, false_or] at he'
  obtain he' | he' | he' := he'
  · exact hp.not_used_before hu he' hkind' hname'
  · obtain ⟨owner, he'⟩ := use_of_mem_events he'
    cases hsite'.symm.trans (hp.parts.ordinary _ he').1
  · rw [hkind] at hdeclared
    exact h.not_declared_after hp hdeclared (hp.after.declaration_of_use he' hsite')

lemma returns_of_parts (hdistinct : Distinct d.outline) {avoid : String → Prop} {u}
    (he : .use u ∈ d.outline) (hfirst : usedFirst u.kind u.name d.outline = true)
    (hspared : c.Spares avoid (ensureMethod u.name))
    (hparts : ∀ u', .use u' ∈ d.outline → u'.site = .shared u.kind u.name →
      usedFirst u'.kind u'.name d.outline = true → c.Returns avoid (ensureMethod u'.name)) :
    c.Returns avoid (ensureMethod u.name) := by
  obtain ⟨o, B₁, T, B₂, w, hp⟩ := h.placed_of_use he
  have hbody := h.body_ensureMethod hdistinct hp hfirst
  rw [ClassDef.Spares, hbody] at hspared
  refine .of_body hbody (fun hx => ?_) fun st hst => ?_
  · simpa using hspared (.construct o.storage w) (by simp) _ hx
  · refine (hp.parts.flows hst).passes ?_ ?_
    · exact hspared st (by simp [hst])
    · intro u' owner he' _ hfirst' _
      exact hparts u' (h.use_mem (hp.parts_subset he')) (hp.parts.ordinary _ he').1 hfirst'

lemma returns (hdistinct : Distinct d.outline) {avoid}
    (htextures : ∀ n, usedFirst .texture n d.outline = true → c.Spares avoid (ensureMethod n)) {u}
    (he : .use u ∈ d.outline) (hfirst : usedFirst u.kind u.name d.outline = true)
    (hspared : c.Spares avoid (ensureMethod u.name)) : c.Returns avoid (ensureMethod u.name) := by
  refine h.returns_of_parts hdistinct he hfirst hspared fun u' he' hsite' hfirst' => ?_
  have htexture := (d.regular he' _ _ hsite').2
  have hspared' := htextures u'.name (htexture ▸ hfirst')
  refine h.returns_of_parts hdistinct he' hfirst' hspared' fun u'' he'' hsite'' _ => ?_
  have hmaterial := (d.regular he'' _ _ hsite'').1
  rw [htexture] at hmaterial
  cases hmaterial

include hp in
lemma spares_direct (hu : usedFirst kind n d.outline = false) (m : String) :
    c.Spares (· = o.storage) (ensureMethod m) := by
  rintro st hst _ rfl
  refine h.not_builds hp ?_ hst
  rw [buildMethod_of_not_usedFirst hu]
  exact (ensureMethod_ne_init m).symm

include hp in
lemma spares_ensured (hu : usedFirst kind n d.outline = true) {f} (hf : ensureMethod n ≠ f) :
    c.Spares (· = o.storage) f := by
  rintro st hst _ rfl
  refine h.not_builds hp ?_ hst
  rwa [buildMethod_of_usedFirst hu]

lemma passes_parts (hdistinct : Distinct d.outline) (hp : Placed d A .texture n o A₁ T A₂ v)
    (hu : usedFirst .texture n d.outline = false) {m o' B₁ T' B₂ w}
    (hpm : Placed d A kind m o' B₁ T' B₂ w) (hfirst : usedFirst kind m d.outline = true) {st}
    (hst : st ∈ T'.flatMap (Effect.written d.outline (ensureMethod m))) :
    c.Passes (· = o.storage) st := by
  have hspared := h.spares_direct hp hu
  refine (hpm.parts.flows hst).passes ?_ fun u owner he _ hfirst' _ => ?_
  · refine hspared m st ?_
    rw [h.body_ensureMethod hdistinct hpm hfirst]
    simp only [mem_cons, mem_append]
    exact .inr (.inr (.inl hst))
  · have hout := h.use_mem (hpm.parts_subset he)
    exact h.returns hdistinct (fun n _ => hspared n) hout hfirst' (hspared u.name)

lemma passes_before (hdistinct : Distinct d.outline) (hp : Placed d A .texture n o A₁ T A₂ v)
    (hu : usedFirst .texture n d.outline = false) {m o' B₁ T' B₂ w}
    (hpm : Placed d A .material m o' B₁ T' B₂ w) (hfirst : usedFirst .material m d.outline = true)
    {st} (hst : st ∈ A₁.flatMap (Effect.written d.outline init))
    (hcall : st.calls? ≠ some (ensureMethod m)) :
    c.Passes (fun x => x = o'.storage ∨ x = o.storage) st := by
  have hspared : ∀ m', m' ≠ m →
      c.Spares (fun x => x = o'.storage ∨ x = o.storage) (ensureMethod m') := by
    rintro m' hne st hst x (hx | hx)
    · have hf : ensureMethod m ≠ ensureMethod m' := fun heq => hne (ensureMethod_injective heq).symm
      exact h.spares_ensured hpm hfirst hf st hst x hx
    · exact h.spares_direct hp hu m' st hst x hx
  have hflow := hp.before.flows_init (fun hd => h.ensured (hp.before_subset hd)) hst
  refine hflow.passes ?_ fun u owner he _ hfirst' hcall' => ?_
  · rintro x (hx | rfl)
    · refine h.spares_ensured hpm hfirst (ensureMethod_ne_init m) st ?_ x hx
      obtain ⟨k, hbody⟩ := h.body_init hp hu
      rw [hbody]
      simp only [mem_append]
      exact .inr (.inl hst)
    · have hcount : (A₁.flatMap (Effect.written d.outline init)).countP
          (·.builds o.storage) = 0 :=
        not_builds_of_untouched fun _ _ he => hp.before.untouched hp.not_before he
      exact Bool.eq_false_iff.2 (countP_eq_zero.1 hcount st hst)
  · have hne : u.name ≠ m := by
      rintro rfl
      exact hcall hcall'
    refine h.returns hdistinct (fun n' hfirst'' => hspared n' ?_) (h.use_mem (hp.before_subset he))
      hfirst' (hspared u.name hne)
    rintro rfl
    cases hdistinct _ _ _ hfirst'' hfirst

lemma readsEarly (hdistinct : Distinct d.outline) (hp : Placed d A .texture n o A₁ T A₂ v)
    (hn : n ≠ "") (hlate : BuiltLate d.outline n) : c.ReadsEarly (storageName n) := by
  obtain ⟨hu, m, hm, u', hu', hsite'⟩ := hlate
  obtain ⟨u, hbefore, hkind, hsite, rfl⟩ := hp.mem_materialsBefore.1 hm
  obtain ⟨hout', hkind', hname'⟩ := mem_usesOf.1 hu'
  have hout : .use u ∈ d.outline := by
    obtain ⟨type, houtline⟩ := hp.outline
    rw [houtline]
    exact mem_append_left _ hbefore
  have hfirst := h.usedFirst_of_late hp hu hkind hbefore hout' hsite' hkind' hname'
  obtain ⟨o', B₁, T', B₂, w, hpm⟩ := h.placed_of_use hout
  rw [hkind] at hfirst hpm
  obtain ⟨lines, hlines⟩ := Compile.initBody_eq d.isMixin
  obtain ⟨k, hinit⟩ := h.body_init hp hu
  obtain ⟨owner, he⟩ := use_of_mem_events hbefore
  have hsite : u.site.methodIn d.outline = init := by rw [hsite, Site.methodIn]
  obtain ⟨K₁, st, K₂, hK, hcall, hnot⟩ := exists_first_call he hsite (hkind ▸ hfirst)
  rw [hlines, hK] at hinit
  obtain ⟨owner', he'⟩ := hpm.use_mem_parts hout' hsite'
  have hsite' : u'.site.methodIn d.outline = ensureMethod u.name := by
    rw [hsite', Site.methodIn, buildMethod_of_usedFirst hfirst]
  obtain ⟨L₁, L₂, hL⟩ := append_of_mem (Effect.mem_written_of_use he' hsite')
  have hbody := h.body_ensureMethod hdistinct hpm hfirst
  rw [hL, append_assoc, cons_append] at hbody
  have hinit : c.body init = .leaveIf isInitialized ::
      .raise isInitialized :: ((lines.map .line ++ K₁) ++
        st :: (K₂ ++ .construct o.storage v :: k)) := by simpa using hinit
  rw [← hp.storage_eq hn]
  refine ClassDef.readsEarly_of_call hinit ?_ hcall hbody ?_ ?_ ?_
  · intro st' hst'
    obtain hst' | hst' := mem_append.1 hst'
    · obtain ⟨text, _, rfl⟩ := mem_map.1 hst'
      exact .plain rfl
    · refine h.passes_before hdistinct hp hu hpm hfirst ?_ (hnot st' hst')
      rw [hK]
      exact mem_append_left _ hst'
  · -- The texture is built in the main method and the material is not.
    intro heq
    have hmem : .construct o.storage v ∈ c.body init := by simp [hinit]
    simpa [heq] using h.spares_ensured hpm hfirst (ensureMethod_ne_init u.name) _ hmem _ rfl
  · intro st' hst'
    refine h.passes_parts hdistinct hp hu hpm hfirst ?_
    rw [hL]
    exact mem_append_left _ hst'
  · rw [Use.reference?_statement, hkind', hname', referenceTo_of_not_usedFirst hu, hp.storage_eq hn]

end Compiled

/-- When the main method reads a shared object before it is built, in a class without two methods of
one name. A blank reference reads a member that is never built. Otherwise there is one way: the
object is a texture, and it is put into a material that is built before it. -/
theorem reads_early_iff {d : Document} {options : CompileOptions} {c : ClassDef}
    (h : d.generated? options = some c) (hc : c.methodNames.Nodup) {kind : SharedKind} {n : String}
    (hd : .declaration kind n ∈ d.outline) :
    c.ReadsEarly (storageName n) ↔
      if n = "" then c.Reads (storageName n) else kind = .texture ∧ BuiltLate d.outline n := by
  obtain ⟨A, W, hw⟩ := d.compiled h
  have hdistinct := hw.distinct_of_nodup hc
  obtain ⟨o, A₁, T, A₂, v, hp⟩ := hw.placed hd
  split
  · next hn =>
    rw [hn]
    exact ClassDef.readsEarly_iff_reads hw.not_builds_blank
  · next hn =>
    constructor
    · intro hearly
      by_contra hlate
      exact hw.not_readsEarly hdistinct hp hn hlate hearly
    · rintro ⟨rfl, hlate⟩
      exact hw.readsEarly hdistinct hp hn hlate

/-- The texture between a node and its material is read early, and the material is not. -/
theorem reads_early_sharedView :
    ∃ c, sharedView.generated? {} = some c ∧ c.ReadsEarly (storageName "t") ∧
      ¬ c.ReadsEarly (storageName "m") := by
  obtain ⟨c, h⟩ := sharedView_generated
  have hnames : c.methodNames.Nodup := by
    have hall : ∀ c ∈ sharedView.generated? {}, c.methodNames.Nodup := by decide +kernel
    exact hall c h
  have ht : .declaration .texture "t" ∈ sharedView.outline := by decide +kernel
  have hm : .declaration .material "m" ∈ sharedView.outline := by decide +kernel
  have hlate : BuiltLate sharedView.outline "t" := by decide +kernel
  refine ⟨c, h, (reads_early_iff h hnames ht).2 ⟨rfl, hlate⟩, fun hearly => ?_⟩
  cases ((reads_early_iff h hnames hm).1 hearly).1

/-- The texture is read before it is built. -/
theorem sharedView_reads_early :
    ∃ c, sharedView.generated? {} = some c ∧ c.ReadsEarly (storageName "t") := by
  obtain ⟨c, h⟩ := sharedView_generated
  obtain ⟨A, W, hw⟩ := sharedView.compiled h
  have hdistinct : Distinct sharedView.outline := by
    refine hw.distinct fun kind => ?_
    cases kind <;> decide +kernel
  have ht : .declaration .texture "t" ∈ sharedView.outline := by decide +kernel
  obtain ⟨o, A₁, T, A₂, v, hp⟩ := hw.placed ht
  exact ⟨c, h, hw.readsEarly hdistinct hp (by decide) (by decide +kernel)⟩

end SceneView
