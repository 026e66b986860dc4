import SceneView.Proofs.Compilation

/-!
# The layout of the generated class

Where the statements of the generated class come from. The trace of an accepted document consists of
loose parts and of one block for each shared object; `Compiled` collects what the class takes from
it. From this the body of every method can be read off, block by block.
-/

open List

namespace SceneView

open Effect

/-- No name stands for two objects that have methods of their own. -/
def Distinct (es : List Event) : Prop :=
  ∀ n k k', usedFirst k n es = true → usedFirst k' n es = true → k = k'

/-- What the class of an accepted document takes from the trace of its sections, `A`, and from the
statements that were put off, `W`. -/
structure Compiled (d : Document) (c : ClassDef) (A W : List Effect) : Prop where
  assembled : Assembled d.outline A
  putOff : ∀ e ∈ W, Compile.PutOff e
  body : ∀ method, c.body method =
    (if method = Builtin.init then Compile.initBody d.isMixin else []) ++
      (A.flatMap (Effect.written d.outline method) ++ W.flatMap (Effect.written d.outline method))
  nodup_storage : (A.filterMap Effect.storage?).Nodup
  ensured : ∀ {kind name b}, .declaration kind name b ∈ A → b = usedFirst kind name d.outline
  declared : ∀ {kind name}, Settled kind name d.outline → .declaration kind name ∈ d.outline
  declared_once : ∀ kind name, d.outline.count (.declaration kind name) ≤ 1
  named : ∀ {type o deferred shared}, .object type o deferred shared ∈ A → o.name ≠ ""
  signatures : ∀ sig, sig ∈ c.methods.map Method.signature ↔ MethodOf d.outline sig
  nodup_methodNames : Distinct d.outline → c.methodNames.Nodup
  count_ensureMethod : ∀ {n}, (∀ k k', usedFirst k n d.outline = true →
    usedFirst k' n d.outline = true → k = k') → c.methodNames.count (ensureMethod n) ≤ 1
  madeUp : A.filterMap Effect.madeUp? = d.madeUpNames
  stored : ∀ {m}, m ∈ A.filterMap Effect.storage? → c.hasMember m = true

lemma Course.ensured {className isMixin visibility T s kind name b}
    (tr : Course className isMixin visibility T s) (h : .declaration kind name b ∈ T) :
    b = usedFirst kind name (events T) := by
  obtain ⟨T1, T2, rfl⟩ := append_of_mem h
  obtain ⟨s1, tr1, tr2⟩ := Trace.split tr
  cases tr2 with
  | cons st _ =>
    cases st with
    | declaration hd =>
      obtain ⟨e, he, _, rfl, _, _⟩ := SharedTable.declare_eq_ok hd
      have hset : Settled kind name (events T1 ++ [.declaration kind name]) := .inr (by simp)
      have happend : events (T1 ++ .declaration kind name e.site.isEnsured :: T2) =
          (events T1 ++ [.declaration kind name]) ++ events T2 := by
        simp [event?]
      rw [happend, hset.usedFirst_append, usedFirst_concat, (Course.table tr1).entry he, entryAfter]
      cases usedFirst kind name (events T1) <;> rfl

lemma written_names (d : Document) (es : List Event) (method : String) :
    d.names.flatMap (written es method) = [] := by
  refine flatMap_eq_nil_iff.2 fun x hx => ?_
  cases d.isFirstLook hx <;> rfl

lemma madeUp_putOff {W : List Effect} (h : ∀ e ∈ W, Compile.PutOff e) :
    W.filterMap madeUp? = [] := by
  refine filterMap_eq_nil_iff.2 fun x hx => ?_
  cases h x hx
  rfl

lemma Document.compiled {d : Document} {options c} (h : d.generated? options = some c) :
    ∃ A W, Compiled d c A W := by
  obtain ⟨className, T, s, tr, hw, rfl⟩ := d.course h
  have hevents := hw.events
  have hbody := fun method => tr.body (prefix_rfl) method
  have hstorage := tr.nodup_storage
  have hset : ∀ {kind name}, Settled kind name d.outline → .declaration kind name ∈ d.outline := by
    intro kind name hs
    exact hw.declared (tr.table.registered kind name (hevents ▸ hs))
  have hsig := tr.mem_signatures
  have hnodup := fun hone => tr.nodup_methodNames (prefix_rfl) hone
  have hens : ∀ {kind name b}, .declaration kind name b ∈ T → b = usedFirst kind name d.outline :=
    fun hmem => hevents ▸ tr.ensured hmem
  have honce := tr.count_declaration
  have hmade := hw.madeUp tr
  have hstored : ∀ {m}, m ∈ T.filterMap storage? → s.generated.hasMember m = true := by
    intro m hm
    obtain ⟨e, he, hstorage⟩ := mem_filterMap.1 hm
    exact tr.hasMember he (member?_of_storage? hstorage)
  have hcount : ∀ {n}, (∀ k k', usedFirst k n d.outline = true → usedFirst k' n d.outline = true →
      k = k') → s.generated.methodNames.count (ensureMethod n) ≤ 1 := by
    intro n hone
    rw [← hevents] at hone
    refine tr.count_methodNames prefix_rfl fun heq hk hk' => ?_
    cases ensureMethod_injective heq
    exact hone _ _ hk hk'
  have hnamed : ∀ {type o deferred shared}, .object type o deferred shared ∈ T → o.name ≠ "" :=
    fun hmem => Trace.name_ne tr hmem
  rw [hevents] at hbody hsig hnodup honce
  cases hw with
  | @intro A W _ hA hW _ _ _ =>
    have hmem : ∀ {e}, e ∈ A → e ∈ d.names ++ (A ++ .release :: W) :=
      fun he => mem_append_right _ (mem_append_left _ he)
    refine ⟨A, W, hA, hW, fun method => ?_, ?_, fun he => hens (hmem he), hset, honce,
      fun he => hnamed (hmem he), hsig,
      fun hdistinct => hnodup fun hk hk' => hdistinct _ _ _ hk hk', hcount, ?_, fun hm => ?_⟩
    · rw [hbody, bodyOf]
      simp only [flatMap_append, flatMap_cons, written_names, nil_append]
      rfl
    · rw [filterMap_append, filterMap_append] at hstorage
      exact (nodup_append.1 (nodup_append.1 hstorage).2.1).1
    · rw [← hmade, filterMap_append, filterMap_append, madeUp_names, nil_append,
        filterMap_cons, madeUp_putOff hW]
      exact (append_nil _).symm
    · obtain ⟨e, he, hstorage⟩ := mem_filterMap.1 hm
      exact hstored (mem_filterMap.2 ⟨e, hmem he, hstorage⟩)

lemma initBody_not_builds (isMixin : Bool) (member : String) :
    (Compile.initBody isMixin).countP (·.builds member) = 0 := by
  cases isMixin <;> rfl

lemma Loose.not_declaration {P members es T} (h : Loose P members es T) (kind : SharedKind)
    (name : String) : .declaration kind name ∉ es := by
  intro hmem
  rw [← h.events] at hmem
  obtain ⟨e, he, hv⟩ := mem_filterMap.1 hmem
  have := h.ordinary e he
  cases e with
  | declaration => exact this
  | _ => cases hv

lemma Assembled.exists_block {es A kind name} (h : Assembled es A)
    (hd : .declaration kind name ∈ es) :
    ∃ A₁ B A₂ es₁ esB es₂, A = A₁ ++ (B ++ A₂) ∧ es = es₁ ++ (esB ++ es₂) ∧
      Assembled es₁ A₁ ∧ Block kind name esB B ∧ Assembled es₂ A₂ := by
  induction h with
  | nil => cases hd
  | @loose es T es' T' hl _ ih =>
    obtain hd | hd := mem_append.1 hd
    · exact absurd hd (hl.not_declaration kind name)
    · obtain ⟨A₁, B, A₂, es₁, esB, es₂, rfl, rfl, h₁, hB, h₂⟩ := ih hd
      exact ⟨T ++ A₁, B, A₂, es ++ es₁, esB, es₂, by simp, by simp, .loose hl h₁, hB, h₂⟩
  | @block k n es T es' T' hb ha ih =>
    obtain hd | hd := mem_append.1 hd
    · cases hb with
      | intro hname hl hblank =>
        simp only [mem_cons, Event.declaration.injEq, reduceCtorEq, false_or] at hd
        obtain ⟨rfl, rfl⟩ | hd := hd
        · exact ⟨[], _, T', [], _, es', rfl, rfl, .nil, .intro hname hl hblank, ha⟩
        · exact absurd hd (hl.not_declaration kind name)
    · obtain ⟨A₁, B, A₂, es₁, esB, es₂, rfl, rfl, h₁, hB, h₂⟩ := ih hd
      exact ⟨T ++ A₁, B, A₂, es ++ es₁, esB, es₂, by simp, by simp, .block hb h₁, hB, h₂⟩

lemma Assembled.declaration_of_use {es A} (h : Assembled es A) {u kind n} (he : .use u ∈ es)
    (hsite : u.site = .shared kind n) : .declaration kind n ∈ es := by
  induction h with
  | nil => cases he
  | loose hl _ ih =>
    obtain he | he := mem_append.1 he
    · obtain ⟨owner, he⟩ := use_of_mem_events (hl.events.symm ▸ he)
      have htree := (hl.ordinary _ he).1
      rw [hsite] at htree
      cases htree
    · exact mem_append_right _ (ih he)
  | block hb _ ih =>
    obtain he | he := mem_append.1 he
    · cases hb with
      | intro _ hl =>
        simp only [mem_cons, reduceCtorEq, false_or] at he
        obtain ⟨owner, he⟩ := use_of_mem_events (hl.events.symm ▸ he)
        cases hsite.symm.trans (hl.ordinary _ he).1
        exact mem_append_left _ mem_cons_self
    · exact mem_append_right _ (ih he)

lemma storage_blockEffects {kind name type o deferred ensured v T} :
    (blockEffects kind name type o deferred ensured v T).filterMap storage? =
      o.storage :: T.filterMap storage? := by
  cases ensured <;> simp [blockEffects, storage?, filterMap_cons]

lemma Assembled.storage_of_declaration {es A kind name} (h : Assembled es A)
    (hd : .declaration kind name ∈ es) (hn : name ≠ "") :
    storageName name ∈ A.filterMap storage? := by
  obtain ⟨A₁, B, A₂, _, _, _, rfl, _, _, hB, _⟩ := h.exists_block hd
  cases hB with
  | intro hname hl =>
    cases hname hn
    rw [filterMap_append, filterMap_append, storage_blockEffects]
    simp [ObjectName.storage]

lemma mem_storage_of_mem_ownMembers {T m} (h : m ∈ ownMembers T) : m ∈ T.filterMap storage? := by
  obtain ⟨e, he, hm⟩ := mem_filterMap.1 h
  refine mem_filterMap.2 ⟨e, he, ?_⟩
  split at hm
  · exact hm
  · cases hm

lemma Loose.untouched {P es T member} (h : Loose P [] es T) (hm : member ∉ T.filterMap storage?)
    {site st} (he : .emit site st ∈ T) : st.touches member = false := by
  by_contra hne
  have := h.owned site st he member (by simpa using hne)
  exact hm (mem_storage_of_mem_ownMembers (by simpa using this))

lemma Statement.touches_construct {m member v} (h : m ≠ member) :
    (construct m v).touches member = false := by
  simpa [touches, builds, reference?] using h

lemma Assembled.untouched {es A member} (h : Assembled es A) (hm : member ∉ A.filterMap storage?)
    {site st} (he : .emit site st ∈ A) : st.touches member = false := by
  induction h with
  | nil => cases he
  | loose hl _ ih =>
    rw [filterMap_append, mem_append, not_or] at hm
    obtain he | he := mem_append.1 he
    · exact hl.untouched hm.1 he
    · exact ih hm.2 he
  | block hb _ ih =>
    rw [filterMap_append, mem_append, not_or] at hm
    obtain he | he := mem_append.1 he
    · cases hb with
      | intro _ hl =>
        rw [storage_blockEffects, mem_cons, not_or] at hm
        obtain ⟨_, (⟨_, rfl | rfl⟩ | rfl)⟩ | he := emit_mem_blockEffects.1 he
        · rfl
        · rfl
        · exact Statement.touches_construct (Ne.symm hm.1.1)
        · exact hl.untouched hm.1.2 he
    · exact ih hm.2 he

section

variable {es : List Event} {method : String}

lemma Loose.written_shared {kind name members esT T}
    (h : Loose (· = .shared kind name) members esT T) (hm : buildMethod es kind name ≠ method) :
    T.flatMap (written es method) = [] := by
  rw [flatMap_eq_nil_iff]
  intro e he
  have := h.ordinary e he
  cases e with
  | use | emit => rw [written, this.1, Site.methodIn, if_neg hm]
  | group g => cases this
  | _ => rfl

lemma written_blockEffects {kind name type o deferred ensured v esT T}
    (h : Loose (· = .shared kind name) [] esT T) :
    (blockEffects kind name type o deferred ensured v T).flatMap (written es method) =
      if buildMethod es kind name = method then
        (if ensured then [.guard o.storage] else []) ++
          (.construct o.storage v :: T.flatMap (written es method)) ++
          (if ensured then [.give o.storage] else [])
      else [] := by
  split
  · next hm => cases ensured <;> simp [blockEffects, written, Site.methodIn, hm]
  · next hm =>
    cases ensured <;>
      simp [blockEffects, written, Site.methodIn, hm, h.written_shared hm]

lemma Loose.written_ensureMethod {members esT T} (h : Loose Site.IsTree members esT T)
    (n : String) :
    T.flatMap (written es (ensureMethod n)) = [] := by
  rw [flatMap_eq_nil_iff]
  intro e he
  have := h.ordinary e he
  cases e with
  | use u owner =>
    obtain ⟨k, name, site, slot, owner⟩ := u
    cases this.1 with
    | method hm => rw [written, Site.methodIn, if_neg (hm.ne_ensureMethod n)]
  | emit site st =>
    cases this.1 with
    | method hm => rw [written, Site.methodIn, if_neg (hm.ne_ensureMethod n)]
  | group g => rw [written, if_neg (Compile.ensureMethod_ne_groupMethod n g).symm]
  | _ => rfl

lemma Assembled.written_ensureMethod {esA A n} (h : Assembled esA A)
    (hn : ∀ kind, .declaration kind n ∈ esA → usedFirst kind n es = false) :
    A.flatMap (written es (ensureMethod n)) = [] := by
  induction h with
  | nil => rfl
  | loose hl _ ih =>
    rw [flatMap_append, hl.written_ensureMethod, nil_append]
    exact ih fun kind hd => hn kind (mem_append_right _ hd)
  | @block kind name _ _ _ _ hb _ ih =>
    have hne : buildMethod es kind name ≠ ensureMethod n := by
      unfold buildMethod
      split
      · next hu =>
        intro heq
        rw [← ensureMethod_injective heq] at hn
        cases hb
        rw [hn kind (by simp)] at hu
        cases hu
      · exact (ensureMethod_ne_init n).symm
    have htail := ih fun kind hd => hn kind (mem_append_right _ hd)
    rw [flatMap_append, htail, append_nil]
    cases hb with
    | intro _ hl => rw [written_blockEffects hl, if_neg hne]

lemma written_putOff {W : List Effect} (h : ∀ e ∈ W, Compile.PutOff e) (n : String) :
    W.flatMap (written es (ensureMethod n)) = [] := by
  rw [flatMap_eq_nil_iff]
  intro e he
  cases h e he with
  | intro hm _ => rw [written, Site.methodIn, if_neg (hm.ne_ensureMethod n)]

end

/-- The block of a shared object in the trace of an accepted document. -/
structure Placed (d : Document) (A : List Effect) (kind : SharedKind) (n : String) (o : ObjectName)
    (A₁ T A₂ : List Effect) (v : Construction) : Prop where
  named : n ≠ "" → o = ⟨n, true⟩
  trace : ∃ type deferred, A = A₁ ++
    (blockEffects kind n type o deferred (usedFirst kind n d.outline) v T ++ A₂)
  outline : ∃ type, d.outline = events A₁ ++
    (.declaration kind n :: .object type o.given :: (events T ++ events A₂))
  before : Assembled (events A₁) A₁
  parts : Loose (· = .shared kind n) [] (events T) T
  after : Assembled (events A₂) A₂
  alone : .declaration kind n ∉ events A₁ ∧ .declaration kind n ∉ events A₂
  not_before : o.storage ∉ A₁.filterMap Effect.storage?
  not_parts : o.storage ∉ T.filterMap Effect.storage?
  not_after : o.storage ∉ A₂.filterMap Effect.storage?
  blank : n = "" → o.isGiven = false

namespace Placed

variable {d : Document} {A A₁ T A₂ : List Effect} {kind : SharedKind} {n : String} {o : ObjectName}
  {v : Construction}

variable (hp : Placed d A kind n o A₁ T A₂ v)
include hp

lemma storage_eq (hn : n ≠ "") : o.storage = storageName n := by
  rw [hp.named hn]
  rfl

lemma not_declaration (hn : n ≠ "") (k : SharedKind) :
    .declaration k n ∉ events A₁ ∧ .declaration k n ∉ events A₂ := by
  constructor
  · intro hd
    exact hp.not_before (hp.storage_eq hn ▸ hp.before.storage_of_declaration hd hn)
  · intro hd
    exact hp.not_after (hp.storage_eq hn ▸ hp.after.storage_of_declaration hd hn)

lemma kind_eq (hn : n ≠ "") {k} (hd : .declaration k n ∈ d.outline) : k = kind := by
  obtain ⟨h₁, h₂⟩ := hp.not_declaration hn k
  obtain ⟨type, houtline⟩ := hp.outline
  rw [houtline] at hd
  simp only [mem_append, mem_cons, Event.declaration.injEq, reduceCtorEq, false_or] at hd
  obtain hd | ⟨rfl, _⟩ | hd | hd := hd
  · exact absurd hd h₁
  · rfl
  · exact absurd hd (hp.parts.not_declaration k n)
  · exact absurd hd h₂

lemma not_used_before (hu : usedFirst kind n d.outline = false) {u} (he : .use u ∈ events A₁)
    (hk : u.kind = kind) : u.name ≠ n := by
  rintro rfl
  subst hk
  have hset := settled_of_use he
  obtain ⟨type, houtline⟩ := hp.outline
  have hfirst : usedFirst u.kind u.name (events A₁) = false := by
    rw [← hu, houtline, hset.usedFirst_append]
  obtain h | h := hset
  · rw [hfirst] at h
    cases h
  · exact hp.alone.1 h

lemma before_subset : A₁ ⊆ A := by
  obtain ⟨type, deferred, rfl⟩ := hp.trace
  exact subset_append_left _ _

lemma parts_subset : T ⊆ A := by
  obtain ⟨type, deferred, rfl⟩ := hp.trace
  intro e he
  simp [blockEffects, he]

lemma use_mem_parts {u} (he : .use u ∈ d.outline) (hsite : u.site = .shared kind n) :
    ∃ owner, .use u owner ∈ T := by
  obtain ⟨type, houtline⟩ := hp.outline
  rw [houtline] at he
  simp only [mem_append, mem_cons, reduceCtorEq, false_or] at he
  obtain he | he | he := he
  · exact absurd (hp.before.declaration_of_use he hsite) hp.alone.1
  · exact use_of_mem_events he
  · exact absurd (hp.after.declaration_of_use he hsite) hp.alone.2

end Placed

namespace Compiled

variable {d : Document} {c : ClassDef} {A W : List Effect} {kind : SharedKind} {n : String}

variable (h : Compiled d c A W)
include h

lemma placed (hd : .declaration kind n ∈ d.outline) :
    ∃ o A₁ T A₂ v, Placed d A kind n o A₁ T A₂ v := by
  have honce := h.declared_once kind n
  obtain ⟨A₁, B, A₂, es₁, esB, es₂, rfl, hes, h₁, hB, h₂⟩ := h.assembled.exists_block hd
  cases hB with
  | @intro type o deferred ensured v es T hname hl hblank =>
    have hens : ensured = usedFirst kind n d.outline := by
      refine h.ensured ?_
      simp [blockEffects]
    have hnodup := h.nodup_storage
    rw [filterMap_append, filterMap_append, storage_blockEffects] at hnodup
    rw [hes] at honce
    cases h₁.events
    cases h₂.events
    cases hl.events
    refine ⟨o, A₁, T, A₂, v, hname, ⟨type, deferred, by rw [hens]⟩, ⟨type, by simpa using hes⟩,
      h₁, hl, h₂, ?_, ?_, ?_, ?_, hblank⟩
    · rw [← count_eq_zero, ← count_eq_zero]
      simp only [cons_append, count_append, count_cons, beq_iff_eq, reduceCtorEq,
        if_true, if_false] at honce
      omega
    all_goals
      intro hmem
      simp only [cons_append, nodup_append, nodup_cons, mem_append,
        mem_cons] at hnodup
      grind

lemma kind_unique (hnames : ∀ kind, .declaration kind "" ∉ d.outline) {k k'}
    (hd : .declaration k n ∈ d.outline) (hd' : .declaration k' n ∈ d.outline) : k = k' := by
  have hn : n ≠ "" := fun heq => hnames k (heq ▸ hd)
  obtain ⟨o, A₁, T, A₂, v, hp⟩ := h.placed hd'
  exact hp.kind_eq hn hd

lemma distinct (hnames : ∀ kind, .declaration kind "" ∉ d.outline) : Distinct d.outline := by
  intro n k k' hk hk'
  exact h.kind_unique hnames (h.declared (.inl hk)) (h.declared (.inl hk'))

lemma placed_of_use {u} (he : .use u ∈ d.outline) :
    ∃ o A₁ T A₂ v, Placed d A u.kind u.name o A₁ T A₂ v :=
  h.placed (h.declared (settled_of_use he))

lemma use_mem {u owner} (he : .use u owner ∈ A) : .use u ∈ d.outline :=
  h.assembled.events ▸ mem_events he rfl

lemma not_declared_after (hp : Placed d A kind n o A₁ T A₂ v) {k m}
    (h₁ : .declaration k m ∈ events A₁) : .declaration k m ∉ events A₂ := by
  intro h₂
  have honce := h.declared_once k m
  obtain ⟨type, houtline⟩ := hp.outline
  rw [houtline] at honce
  simp only [count_append, count_cons] at honce
  have hcount₁ := count_pos_iff.2 h₁
  have hcount₂ := count_pos_iff.2 h₂
  omega

lemma body_init (hp : Placed d A kind n o A₁ T A₂ v) (hu : usedFirst kind n d.outline = false) :
    ∃ k, c.body Builtin.init = Compile.initBody d.isMixin ++
      (A₁.flatMap (written d.outline Builtin.init) ++ .construct o.storage v :: k) := by
  obtain ⟨type, deferred, rfl⟩ := hp.trace
  have hb : buildMethod d.outline kind n = Builtin.init := by simp [buildMethod, hu]
  refine ⟨T.flatMap (written d.outline Builtin.init) ++
    (A₂.flatMap (written d.outline Builtin.init) ++
      W.flatMap (written d.outline Builtin.init)), ?_⟩
  rw [h.body, if_pos rfl]
  simp only [flatMap_append, written_blockEffects hp.parts, hb, hu, if_true]
  simp

lemma body_ensureMethod_of_one (hone : ∀ k, usedFirst k n d.outline = true → k = kind) {o A₁ T A₂ v}
    (hp : Placed d A kind n o A₁ T A₂ v) (hu : usedFirst kind n d.outline = true) :
    c.body (ensureMethod n) = .guard o.storage :: .construct o.storage v ::
      (T.flatMap (written d.outline (ensureMethod n)) ++ [.give o.storage]) := by
  obtain ⟨type, deferred, rfl⟩ := hp.trace
  have hb : buildMethod d.outline kind n = ensureMethod n := by rw [buildMethod, if_pos hu]
  have hother : ∀ {es : List Event}, .declaration kind n ∉ es → ∀ k, .declaration k n ∈ es →
      usedFirst k n d.outline = false := by
    intro es halone k hd
    rw [← Bool.not_eq_true]
    intro hk
    exact halone (hone k hk ▸ hd)
  rw [h.body, if_neg (ensureMethod_ne_init n), written_putOff h.putOff]
  simp only [flatMap_append, written_blockEffects hp.parts, hb, hu, if_true,
    hp.before.written_ensureMethod (hother hp.alone.1),
    hp.after.written_ensureMethod (hother hp.alone.2)]
  simp

lemma body_ensureMethod (hdistinct : Distinct d.outline) {o A₁ T A₂ v}
    (hp : Placed d A kind n o A₁ T A₂ v) (hu : usedFirst kind n d.outline = true) :
    c.body (ensureMethod n) = .guard o.storage :: .construct o.storage v ::
      (T.flatMap (written d.outline (ensureMethod n)) ++ [.give o.storage]) :=
  h.body_ensureMethod_of_one (fun k hk => hdistinct n k kind hk hu) hp hu

lemma hasMethod_iff {m} : c.hasMethod m = true ↔ ∃ sig, MethodOf d.outline sig ∧ sig.name = m :=
  ClassDef.hasMethod_iff_signature h.signatures

end Compiled

end SceneView
