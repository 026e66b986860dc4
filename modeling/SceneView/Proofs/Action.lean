import SceneView.Proofs.Run

/-!
# The changes of single actions

What the actions do that the compilation of every element is made of: reading values, writing
statements, declaring objects, referring to shared objects and building them.
-/

namespace SceneView

def Fault.isRefusal : Fault → Bool
  | invalidExpression _ _ => true
  | _ => false

lemma Fault.isPlain_of_isRefusal {f : Fault} (h : f.isRefusal = true) : f.isPlain = true := by
  cases f <;> first | rfl | cases h

lemma Value.bound?_ends (host raw : String) :
    Ends (·.isRefusal = true) (Value.bound? host raw) fun e? => e?.isNone = isLiteral raw := by
  unfold Value.bound? isLiteral
  dsimp only
  split
  · next h => exact .ok (by simp [h])
  · next h =>
    split
    · exact .error rfl
    · split
      · exact .ok (by simp [h])
      · exact .error rfl

namespace Value.Binder

lemma translate_ends (b : Binder) (name raw target : String) (options : Options) :
    Ends (·.isRefusal = true) (b.translate name raw target options) fun _ => True := by
  unfold translate
  dsimp only
  refine (Value.bound?_ends _ _).bind fun e? _ => ?_
  cases e? with
  | some e => exact .ok trivial
  | none =>
    dsimp only
    split <;> exact .ok trivial

lemma argument_ends (b : Binder) (raw : String) (quoteLiteral : Bool) :
    Ends (·.isRefusal = true) (b.argument raw quoteLiteral) fun _ => True := by
  unfold argument
  dsimp only
  refine (Value.bound?_ends _ _).bind fun e? _ => ?_
  cases e? <;> exact .ok trivial

lemma typed_ends (b : Binder) (type raw : String) :
    Ends (·.isRefusal = true) (b.typed type raw) fun _ => True := by
  unfold typed
  dsimp only
  refine (Value.bound?_ends _ _).bind fun e? _ => ?_
  cases e? with
  | some e => exact .ok trivial
  | none =>
    dsimp only
    split <;> exact .ok trivial

end Value.Binder

lemma Answers.of_ends {α : Type} {r : Except Fault α} {p} (h : Ends (·.isRefusal = true) r p) :
    Answers r p :=
  h.mono (fun _ => Fault.isPlain_of_isRefusal) fun _ => id

lemma Element.require_answers (e : Element) (name : String) :
    Answers (e.require name) fun v => e.attr? name = some v := by
  unfold require
  split
  · next h => exact .ok h
  · exact .error rfl

lemma Element.onlyChild_answers (e : Element) :
    Answers e.onlyChild fun child => e.children = [child] := by
  unfold onlyChild
  split
  · next h => exact .ok h
  · exact .error rfl

namespace Compile

variable {α β : Type} {isMixin : Bool} {site : Site} {m : String}

lemma log_quiet (level : LogLevel) (text : String) : Quiet (log level text) fun _ => True :=
  .modify (fun _ => rfl) fun _ => .same rfl

lemma log_run (level : LogLevel) (text : String) (s : Session) :
    ∃ s', (log level text).run.run s = (.ok (), s') ∧ s'.core = s.core :=
  ⟨_, rfl, rfl⟩

lemma addImport_quiet (origin : Origin) (name : String) :
    Quiet (addImport origin name) fun _ => True :=
  .modify (fun _ => rfl) fun s => (Gathers.add s origin name).forget

lemma addImport_writes (origin : Origin) (name : String) :
    Writes isMixin site m (addImport origin name) fun _ T => T = importing [(origin, name)] :=
  fun s _ => .modify .imports (.add s origin name) rfl

lemma importPrimitive_quiet (p? : Option Value.Primitive) :
    Quiet (importPrimitive p?) fun _ => True := by
  cases p? with
  | none => exact .pure trivial
  | some p => exact addImport_quiet _ _

lemma importPrimitive_writes (p? : Option Value.Primitive) :
    Writes isMixin site m (importPrimitive p?) fun _ T => T = importing (needed p?) := by
  cases p? with
  | none => exact .pure rfl
  | some p => exact addImport_writes _ _

lemma bound?_quiet (raw : String) : Quiet (bound? raw) fun e? => e?.isNone = isLiteral raw :=
  .ask fun _ => .of_ends (Value.bound?_ends _ raw)

lemma isReference_quiet (a : Attribute) (name : String) :
    Quiet (isReference a name) fun b => b = (a.name == name && isLiteral a.value) := by
  unfold isReference
  split
  · next h =>
    refine (bound?_quiet a.value).bind fun e? he => .pure ?_
    rw [h, he, Bool.true_and]
  · next h => exact .pure (by simp [h])

lemma translate_quiet (a : Attribute) (target : String) (options : Value.Options) :
    Quiet (translate a target options) fun _ => True := by
  unfold translate
  refine .ask_bind (fun s => .of_ends (s.binder.translate_ends ..)) fun t _ => ?_
  exact (importPrimitive_quiet _).bind fun _ _ => .pure trivial

lemma argument_quiet (raw : String) (quoteLiteral : Bool) :
    Quiet (argument raw quoteLiteral) fun _ => True :=
  .ask fun s => .of_ends (s.binder.argument_ends raw quoteLiteral)

lemma translate_writes (a : Attribute) (target : String) (options : Value.Options) :
    Writes isMixin site m (translate a target options) fun t T =>
      (viewBinder isMixin).translate a.name a.value target options = .ok t ∧
        T = importing (needed t.constructs?) := by
  intro s hs
  unfold translate
  have hends := (s.binder.translate_ends a.name a.value target options).self
  refine .get (.lift (Answers.of_ends hends).replies fun t ht => ?_)
  rw [hs.binder] at ht
  refine .bind (importPrimitive_writes _ s hs) fun _ s' T tr hT => .pure ⟨ht, ?_⟩
  rw [hT, List.append_nil]

lemma argument_writes (raw : String) (quoteLiteral : Bool) :
    Writes isMixin site m (argument raw quoteLiteral) fun code T =>
      (viewBinder isMixin).argument raw quoteLiteral = .ok code ∧ T = [] := by
  intro s hs
  rw [← hs.binder]
  have hends := (s.binder.argument_ends raw quoteLiteral).self
  exact ⟨[], .nil, .refl s, ((Answers.of_ends hends).replies).mono (fun _ => id) fun _ h => ⟨h, rfl⟩⟩

lemma typed_writes (type raw : String) :
    Writes isMixin site m (typed type raw) fun value T => ∃ p?,
      (viewBinder isMixin).typed type raw = .ok (value, p?) ∧ T = importing (needed p?) := by
  intro s hs
  unfold typed
  have hends := (s.binder.typed_ends type raw).self
  refine .get (.lift (Answers.of_ends hends).replies fun t ht => ?_)
  rw [hs.binder] at ht
  refine .bind (importPrimitive_writes _ s hs) fun _ s' T tr hT => .pure ⟨_, ht, ?_⟩
  rw [hT, List.append_nil]

lemma typed_quiet (type raw : String) : Quiet (typed type raw) fun _ => True := by
  unfold typed
  refine .ask_bind (fun s => .of_ends (s.binder.typed_ends type raw)) fun t _ => ?_
  exact (importPrimitive_quiet _).bind fun _ _ => .pure trivial

variable {s : Session} {f : ObjectName → Compile β}

lemma emit_run {st c} (h : s.generated.push m st = .ok c) :
    ∃ s', (emit m st).run.run s = (.ok (), s') ∧ s'.core = { s.core with generated := c } ∧
      s'.library = s.library := by
  unfold emit log
  simp only [run_bind, run_get, run_lift, h, run_modify]
  exact ⟨_, rfl, rfl, rfl⟩

lemma emit_writes (st : Statement) : Writes isMixin site m (emit m st) fun _ T => T = [.emit site st] := by
  intro s hs
  obtain ⟨c, hpush⟩ : ∃ c, s.generated.push m st = .ok c :=
    ⟨_, ClassDef.push_eq_ok hs.leads.hasMethod⟩
  obtain ⟨s', hr, hc, hlibrary⟩ := emit_run hpush
  unfold Yields
  rw [hr, hc]
  exact ⟨_, (Step.emit hs.leads hpush).trace, .step hlibrary rfl, .ok rfl⟩

lemma emit_then {st} {f : Unit → Compile β} {Ψ}
    (h : Writes isMixin site m (f ()) fun b T => Ψ b (.emit site st :: T)) :
    Writes isMixin site m (emit m st >>= f) Ψ := by
  refine (emit_writes st).bind fun _ T hT => ?_
  rw [hT]
  exact h

lemma declare_replies (c : ClassDef) (type : String) (o : ObjectName) (deferred : Bool) :
    Replies (c.declare type o deferred) fun c' => c.declare type o deferred = .ok c' := by
  unfold ClassDef.declare
  dsimp only
  split
  · exact .error rfl
  · split <;> exact .ok rfl

lemma declare_eq_ok_of_issues {p p' : NamePool} {c type k} (h : p.Issues c type k p')
    (deferred : Bool) :
    ∃ c', c.declare type ⟨NamePool.numbered type k, false⟩ deferred = .ok c' := by
  have hfree : c.hasMember (storageName (NamePool.numbered type k)) = false := h.least.1.2.2
  cases hd : c.declare type ⟨NamePool.numbered type k, false⟩ deferred with
  | ok c' => exact ⟨c', rfl⟩
  | error fault => simp [ClassDef.declare, ObjectName.storage, hfree] at hd

lemma named_run {type given? o names} (deferred : Bool) {q : ObjectName → Compile PUnit}
    (hname : s.names.assignUnused s.generated type given? = (o, names))
    (hq : ∀ o s, ∃ log, (q o).run.run s = (.ok (), { s with log })) :
    ∃ log, (do
        let o ← assignName type given?
        q o
        declareNamed type o deferred
        f o : Compile β).run.run s =
        match s.generated.declare type o deferred with
        | .error fault => (.error fault, { s with names, log })
        | .ok generated => (f o).run.run { s with names, log, generated } := by
  have hassign : (assignName type given?).run.run s = (.ok o, { s with names }) := by
    change (Except.ok (s.names.assignUnused s.generated type given?).1,
      { s with names := (s.names.assignUnused s.generated type given?).2 }) = _
    rw [hname]
  obtain ⟨log, hlog⟩ := hq o { s with names }
  have hdeclare : (declareNamed type o deferred).run.run { s with names, log } =
      match s.generated.declare type o deferred with
      | .error fault => (.error fault, { s with names, log })
      | .ok generated => (.ok (), { s with names, log, generated }) := by
    unfold declareNamed
    rw [run_bind, run_get]
    dsimp only
    rw [run_bind, run_lift]
    cases s.generated.declare type o deferred <;> rfl
  refine ⟨log, ?_⟩
  rw [run_bind, hassign]
  dsimp only
  rw [run_bind, hlog]
  dsimp only
  rw [run_bind, hdeclare]
  cases s.generated.declare type o deferred <;> rfl

lemma given_of_assignUnused {p p' : NamePool} {c type given? o}
    (h : p.assignUnused c type given? = (o, p')) :
    o.given = (ObjectName.given? given?).map (·.name) := by
  obtain ⟨name, _, hgiven, rfl, _⟩ | ⟨k, hnone, rfl, _⟩ := NamePool.assignUnused_cases h
  · rw [hgiven]
    rfl
  · rw [hnone]
    rfl

lemma named_writes (shared : Bool) {type given? deferred} {q : ObjectName → Compile PUnit} {Ψ}
    (hq : ∀ o s, ∃ log, (q o).run.run s = (.ok (), { s with log }))
    (h : ∀ o, o.given = (ObjectName.given? given?).map (·.name) →
      Writes isMixin site m (f o) fun b T => Ψ b (.object type o deferred shared :: T)) :
    Writes isMixin site m (do
      let o ← assignName type given?
      q o
      declareNamed type o deferred
      f o) Ψ := by
  intro s hs
  cases hname : s.names.assignUnused s.generated type given? with
  | mk o names =>
  obtain ⟨log, hrun⟩ := named_run deferred (f := f) hname hq
  unfold Yields
  rw [hrun]
  cases hd : s.generated.declare type o deferred with
  | error fault =>
    obtain ⟨_, _, _, _, rfl⟩ | ⟨k, _, rfl, hissues⟩ := NamePool.assignUnused_cases hname
    · refine ⟨[], .nil, .same rfl, .error ?_⟩
      · have := declare_replies s.generated type o deferred
        rw [hd] at this
        cases this
        assumption
    · obtain ⟨c, hok⟩ := declare_eq_ok_of_issues hissues deferred
      cases hd.symm.trans hok
  | ok c =>
    have st : Step s.core (.object type o deferred shared)
        { s with names, log, generated := c }.core := .object hname hd
    have hstep : Gathers s [.object type o deferred shared] { s with names, log, generated := c } :=
      .step rfl rfl
    obtain ⟨T, tr, hg, ha⟩ := h o (given_of_assignUnused hname) _ (hs.trace st.trace)
    exact ⟨_, .cons st tr, hstep.append hg, ha⟩

lemma declare_bind {type given? method} :
    declare type given? method >>= f = (do
      let o ← assignName type given?
      pure PUnit.unit
      declareNamed type o (isDeferred method)
      f o) := by
  unfold declare
  simp only [bind_assoc, pure_bind]

lemma declare_writes {type given? method Ψ}
    (h : ∀ o, o.given = (ObjectName.given? given?).map (·.name) →
      Writes isMixin site m (f o) fun b T => Ψ b (.object type o (isDeferred method) false :: T)) :
    Writes isMixin site m (declare type given? method >>= f) Ψ := by
  rw [declare_bind]
  exact named_writes false (q := fun _ => pure PUnit.unit) (fun _ s => ⟨s.log, rfl⟩) h

lemma sharedReference_run {kind name a t} (h : s.shared.access kind name = .ok (a, t)) :
    ∃ s', (sharedReference kind name).run.run s = (.ok (a.reference name), s') ∧
      s'.core = { s.core with shared := t, generated := s.generated.withAccess kind a } ∧
      Gathers s [] s' := by
  have hanswered : ∀ {s' : Session}, s'.shared = t → Gathers s [] { s' with shared := s.shared } →
      (∀ method, a = .ensure method true → kind.returnType ∈ s'.imports.group .core) →
      Gathers s [] s' := by
    rintro s' rfl hg hcreated
    exact ⟨hg.kept, hg.gained, hg.sorted, fun hs => hs.access h (hg.kept _) hcreated, hg.author⟩
  unfold sharedReference
  simp only [run_bind, run_get, run_lift, h, run_modify]
  cases a with
  | member => exact ⟨_, rfl, rfl, hanswered rfl (.same rfl) (by simp)⟩
  | ensure method created =>
    cases created with
    | false => exact ⟨_, rfl, rfl, hanswered rfl (.same rfl) (by simp)⟩
    | true =>
      have himported : kind.returnType ∈ (s.imports.add .core kind.returnType).group .core :=
        Imports.mem_group_add.2 (.inr ⟨rfl, rfl⟩)
      refine ⟨_, rfl, rfl, hanswered rfl ?_ fun _ _ => himported⟩
      exact (Gathers.add s .core kind.returnType).forget.append (.same rfl)

lemma access_answers (t : SharedTable) (kind : SharedKind) (name : String) :
    Answers (t.access kind name) fun r => t.access kind name = .ok r := by
  unfold SharedTable.access
  split
  · exact .error rfl
  · split
    · exact .ok rfl
    · split <;> exact .ok rfl

lemma reference_writes {u owner} {st : SharedReference → Statement}
    (hst : ∀ r, st r = u.statement owner r) :
    Writes isMixin u.site m (do let r ← sharedReference u.kind u.name; emit m (st r)) fun _ T =>
      T = [.use u owner] := by
  intro s hs
  cases hr : s.shared.access u.kind u.name with
  | error f =>
    have hf : f.isInternal = false := by
      have := (access_answers s.shared u.kind u.name).replies
      rw [hr] at this
      cases this
      assumption
    have hrun : (sharedReference u.kind u.name).run.run s = (.error f, s) := by
      unfold sharedReference
      simp only [run_bind, run_get, run_lift, hr]
    unfold Yields
    rw [run_bind, hrun]
    exact ⟨[], .nil, .refl s, .error hf⟩
  | ok r =>
    obtain ⟨a, t⟩ := r
    obtain ⟨s1, h1, hc1, hg1⟩ := sharedReference_run hr
    have hg : s1.generated = s.generated.withAccess u.kind a := congrArg Core.generated hc1
    obtain ⟨c, hpush⟩ : ∃ c, (s.generated.withAccess u.kind a).push m
        (u.statement owner (a.reference u.name)) = .ok c :=
      ⟨_, ClassDef.push_eq_ok (ClassDef.hasMethod_withAccess hs.leads.hasMethod _ _)⟩
    obtain ⟨s2, h2, hc2, hlibrary⟩ := emit_run (hg ▸ hpush)
    unfold Yields
    rw [run_bind, h1]
    dsimp only
    rw [hst, h2, hc2, hc1]
    exact ⟨_, (Step.use hr hs.leads hpush).trace, hg1.append (.step hlibrary rfl), .ok rfl⟩

lemma sharedDeclare_replies (t : SharedTable) (kind : SharedKind) (name : String) :
    Replies (t.declare kind name) fun r => t.declare kind name = .ok r := by
  unfold SharedTable.declare
  split
  · exact .error rfl
  · split
    · exact .error rfl
    · exact .ok rfl

lemma buildShared_yields {kind type name} {build : ObjectName → String → Compile Unit}
    {Ψ : ObjectName → String → List Effect → Prop} (hs : Sound s.core)
    (hb : ∀ o m, o.given = (ObjectName.given? (some name)).map (·.name) →
      Writes s.isMixin (.shared kind name) m (build o m) fun _ T => Ψ o m T) :
    Yields (buildShared kind type name build) s fun _ T => ∃ o ensured T',
      o.given = (ObjectName.given? (some name)).map (·.name) ∧
      Ψ o (if ensured then ensureMethod name else Builtin.init) T' ∧
      T = .declaration kind name ensured :: .object type o ensured true ::
        ((if ensured then [.emit (.shared kind name) (.guard o.storage)] else []) ++ T' ++
          if ensured then [.emit (.shared kind name) (.give o.storage)] else []) := by
  unfold buildShared
  refine .get (.lift (sharedDeclare_replies _ _ _) fun r hr => ?_)
  obtain ⟨site, t⟩ := r
  dsimp only
  have st : Step s.core (.declaration kind name site.isEnsured) { s.core with shared := t } :=
    .declaration hr
  obtain ⟨e, hold, _, rfl, _, hfind⟩ := SharedTable.declare_eq_ok hr
  have hf : t.find? kind name = some { e with declared := true } :=
    (hfind kind name).trans (if_pos ⟨rfl, rfl⟩)
  refine .modify_bind st rfl (.still (fun hs => hs.declare hr rfl) rfl rfl rfl) fun s2 hc2 => ?_
  have ready : Ready s.isMixin (.shared kind name) e.site.method s2 := by
    have sound := st.sound hs
    have leads := Site.LeadsTo.shared (e := { e with declared := true }) hf rfl
      (sound.hasMethod_site hf)
    exact ⟨hc2 ▸ sound, hc2 ▸ leads, congrArg Core.isMixin hc2⟩
  obtain ⟨hmethod, hdeferred⟩ : e.site.method =
        (if e.site.isEnsured then ensureMethod name else Builtin.init) ∧
      (e.site.isEnsured || isDeferred e.site.method) = e.site.isEnsured := by
    obtain hsite | ⟨hsite, _⟩ := hs.builds hold <;> rw [hsite] <;> exact ⟨rfl, rfl⟩
  rw [hdeferred]
  refine (?_ : Writes s.isMixin (.shared kind name) e.site.method _ _) _ ready
  refine named_writes true (fun _ s => ⟨_, rfl⟩) fun o ho => ?_
  have hbuild := hb o e.site.method ho
  rw [hmethod] at hbuild ⊢
  cases h : e.site.isEnsured with
  | false =>
    rw [h] at hbuild
    simp only [Bool.false_eq_true, if_false] at hbuild ⊢
    refine hbuild.bind fun _ T' hT' => .pure ?_
    exact ⟨o, false, T', ho, hT', by simp⟩
  | true =>
    rw [h] at hbuild
    simp only [if_true] at hbuild ⊢
    refine emit_then (hbuild.bind fun _ T' hT' => (emit_writes _).mono fun _ T₂ hT₂ => ?_)
    exact ⟨o, true, T', ho, hT', by simp [hT₂]⟩

lemma mesh_yields (hs : Sound s.core) {name} {f : Mesh → Compile β} {Ψ}
    (h : ∀ base, base.name = name → s.core.Hosts base.method →
      Yields (f base) s fun b T => Ψ b (.find base :: T)) :
    Yields (mesh name >>= f) s Ψ := by
  unfold mesh
  simp only [bind_assoc]
  refine .get ?_
  cases hfind : s.meshes.find? (·.name == name) with
  | some base =>
    have hmem := List.mem_of_find?_eq_some hfind
    obtain ⟨T, tr, hg, hT⟩ := h base (by simpa using List.find?_some hfind) (hs.meshes base hmem)
    have hstep : Gathers s [.find base] s := .step rfl rfl
    exact ⟨_, .cons (.find hmem) tr, hstep.append hg, hT⟩
  | none =>
    dsimp only
    split <;> exact .throw_bind rfl

lemma addMesh_writes (o : ObjectName) :
    Writes isMixin (.method m) m (addMesh o m) fun _ T =>
      T = if o.isGiven then [.mesh ⟨o.name, o.storage, m⟩] else [] := by
  intro s hs
  unfold addMesh
  split
  · refine .modify (e := .mesh ⟨o.name, o.storage, m⟩) ?_ (.step rfl rfl) rfl
    cases hs.leads with
    | method hm => exact .mesh hm
  · exact .pure rfl

end Compile

end SceneView
