import SceneView.Proofs.Trace

/-!
# Ledgers

What a trace from the start leaves in the tables of the session and of the class, read off the trace
alone.
-/

open List

namespace SceneView

open Compile Effect ClassDef

variable {className : String} {isMixin : Bool} {visibility : ClassVisibility} {T : List Effect}
  {s : Core}

/-- A trace from the state before any section. -/
def Course (className : String) (isMixin : Bool) (visibility : ClassVisibility) (T : List Effect)
    (s : Core) : Prop :=
  Trace (Compile.start className isMixin visibility).core T s

variable (tr : Course className isMixin visibility T s)

lemma Compile.sound_start (className : String) (isMixin : Bool) (visibility : ClassVisibility) :
    Sound (start className isMixin visibility).core where
  init := rfl
  keyed := by
    intro e he
    cases he
  builds h := by cases h
  meshes := by
    intro m hm
    cases hm
  waiting := by
    intro p hp
    cases hp
  numbers type k hpos hk := absurd hk (not_le.2 hpos)

include tr in
lemma Course.sound : Sound s :=
  Trace.sound tr (sound_start className isMixin visibility)

lemma Trace.name_ne {s0 type o deferred shared} (tr : Trace s0 T s)
    (h : .object type o deferred shared ∈ T) : o.name ≠ "" := by
  obtain ⟨T1, T2, rfl⟩ := append_of_mem h
  obtain ⟨s1, _, tr2⟩ := tr.split
  cases tr2 with
  | cons st _ =>
    cases st with
    | object hname _ =>
      obtain ⟨name, hne, _, rfl, _⟩ | ⟨k, _, rfl, _⟩ := NamePool.assignUnused_cases hname
      · exact hne
      · exact NamePool.numbered_ne_empty type k

def entryAfter (es : List Event) (kind : SharedKind) (name : String) : SharedEntry :=
  { kind
    name
    site := if usedFirst kind name es then .ensured (ensureMethod name) else .direct Builtin.init
    declared := decide (.declaration kind name ∈ es) }

def Access.created? : Access → Option String
  | ensure method true => some method
  | ensure _ false | member => none

lemma events_concat (T : List Effect) (e : Effect) :
    events (T ++ [e]) = events T ++ e.event?.toList := by
  simp

lemma entryAfter_concat {T e} (hu : ∀ u, e.event? ≠ some (.use u))
    (hd : ∀ k n, e.event? ≠ some (.declaration k n)) (kind : SharedKind) (name : String) :
    entryAfter (events (T ++ [e])) kind name = entryAfter (events T) kind name := by
  rw [events_concat]
  cases he : e.event? with
  | none => simp
  | some v =>
    cases v with
    | use u => exact absurd he (hu u)
    | declaration k n => exact absurd he (hd k n)
    | _ => simp [entryAfter, usedFirst_concat]

/-- The table holds what was registered, and only registered objects are used or declared. -/
structure TableOf (T : List Effect) (s : Core) : Prop where
  find? : ∀ kind name, s.shared.find? kind name =
    if .register kind name ∈ T then some (entryAfter (events T) kind name) else none
  registered : ∀ kind name, Settled kind name (events T) → .register kind name ∈ T

namespace TableOf

lemma other {s s' e} (h : TableOf T s) (hs : s'.shared = s.shared) (hr : ∀ k n, e ≠ .register k n)
    (hu : ∀ u, e.event? ≠ some (.use u)) (hd : ∀ k n, e.event? ≠ some (.declaration k n)) :
    TableOf (T ++ [e]) s' := by
  refine ⟨fun kind name => ?_, fun kind name hset => ?_⟩
  · rw [hs, h.find?, entryAfter_concat hu hd]
    simp [(hr kind name).symm]
  · have := entryAfter_concat (T := T) hu hd kind name
    simp only [entryAfter, SharedEntry.mk.injEq, decide_eq_decide, true_and] at this
    refine mem_append_left _ (h.registered kind name ?_)
    obtain hset | hset := hset
    · left
      by_contra hne
      rw [hset, if_pos rfl, if_neg hne] at this
      cases this.1
    · exact .inr (this.2.1 hset)

lemma register {s kind name t} (h : TableOf T s)
    (hr : s.shared.register kind name Builtin.init = .ok t) :
    TableOf (T ++ [.register kind name]) { s with shared := t } := by
  obtain ⟨hnone, _, hfind⟩ := SharedTable.register_eq_ok hr
  have hnew : .register kind name ∉ T := by
    intro hmem
    rw [h.find?, if_pos hmem] at hnone
    cases hnone
  have hset : ¬ Settled kind name (events T) := fun hs => hnew (h.registered kind name hs)
  simp only [Settled, not_or, Bool.not_eq_true] at hset
  refine ⟨fun k n => ?_, fun k n hs => ?_⟩
  · change t.find? k n = _
    rw [hfind, h.find?, events_concat]
    by_cases hkn : kind = k ∧ name = n
    · obtain ⟨rfl, rfl⟩ := hkn
      simp [entryAfter, hset.1, hset.2, event?]
    · have : ¬ (k = kind ∧ n = name) := fun ⟨h1, h2⟩ => hkn ⟨h1.symm, h2.symm⟩
      simp [hkn, this, event?]
  · rw [events_concat] at hs
    simp only [event?, Option.toList_none, append_nil] at hs
    exact mem_append_left _ (h.registered k n hs)

lemma declaration {s kind name build t} (h : TableOf T s)
    (hd : s.shared.declare kind name = .ok (build, t)) :
    TableOf (T ++ [.declaration kind name build.isEnsured]) { s with shared := t } := by
  obtain ⟨e, he, _, _, _, hfind⟩ := SharedTable.declare_eq_ok hd
  have hmem : .register kind name ∈ T := by
    by_contra hne
    rw [h.find?, if_neg hne] at he
    cases he
  rw [h.find?, if_pos hmem] at he
  cases he
  have hevents : events (T ++ [.declaration kind name build.isEnsured]) =
      events T ++ [.declaration kind name] := events_concat _ _
  refine ⟨fun k n => ?_, fun k n hs => ?_⟩
  · change t.find? k n = _
    rw [hfind, h.find?, hevents]
    by_cases hkn : kind = k ∧ name = n
    · obtain ⟨rfl, rfl⟩ := hkn
      simp [hmem, entryAfter, usedFirst_concat]
    · have : ¬ (k = kind ∧ n = name) := fun ⟨h1, h2⟩ => hkn ⟨h1.symm, h2.symm⟩
      simp [hkn, this, entryAfter, usedFirst_concat]
  · rw [hevents, Settled, usedFirst_concat, mem_append, mem_singleton] at hs
    refine mem_append_left _ ?_
    obtain hs | hs | hs := hs
    · exact h.registered k n (.inl hs)
    · exact h.registered k n (.inr hs)
    · cases hs
      exact hmem

lemma use {s u owner a t c} (h : TableOf T s) (ha : s.shared.access u.kind u.name = .ok (a, t)) :
    TableOf (T ++ [.use u owner]) { s with shared := t, generated := c } := by
  obtain ⟨e, he, _, hcase⟩ := SharedTable.access_eq_ok ha
  have hmem : .register u.kind u.name ∈ T := by
    by_contra hne
    rw [h.find?, if_neg hne] at he
    cases he
  rw [h.find?, if_pos hmem] at he
  cases he
  have hevents : events (T ++ [.use u owner]) = events T ++ [.use u] := events_concat _ _
  have hother : ∀ {k n}, ¬ (u.kind = k ∧ u.name = n) →
      entryAfter (events T ++ [.use u]) k n = entryAfter (events T) k n := by
    intro k n hkn
    have : u.isOf k n = false := Bool.eq_false_iff.2 fun hu => hkn (Use.isOf_iff.1 hu)
    simp [entryAfter, usedFirst_concat, this]
  have hself : u.isOf u.kind u.name = true := Use.isOf_iff.2 ⟨rfl, rfl⟩
  refine ⟨fun k n => ?_, fun k n hs => ?_⟩
  · change t.find? k n = _
    rw [hevents]
    by_cases hkn : u.kind = k ∧ u.name = n
    · obtain ⟨rfl, rfl⟩ := hkn
      rw [if_pos (mem_append_left _ hmem)]
      cases hf : usedFirst u.kind u.name (events T) <;>
        by_cases hd : .declaration u.kind u.name ∈ events T <;>
        simp_all [entryAfter, usedFirst_concat, h.find?]
    · have hsame : t.find? k n = s.shared.find? k n := by
        obtain ⟨_, _, _, rfl⟩ | ⟨_, _, _, _, rfl⟩ | ⟨_, _, _, _, hfind⟩ := hcase
        · rfl
        · rfl
        · rw [hfind, if_neg hkn]
      rw [hsame, h.find?, hother hkn]
      simp
  · rw [hevents, Settled, usedFirst_concat, mem_append, mem_singleton] at hs
    refine mem_append_left _ ?_
    by_cases hkn : u.isOf k n = true
    · obtain ⟨rfl, rfl⟩ := Use.isOf_iff.1 hkn
      exact hmem
    · refine h.registered k n ?_
      simpa [hkn, Settled] using hs

lemma entry {s kind name e} (h : TableOf T s) (hf : s.shared.find? kind name = some e) :
    e = entryAfter (events T) kind name := by
  rw [h.find?] at hf
  split at hf
  · cases hf
    rfl
  · cases hf

lemma methodIn {s} {site : Site} {m es} (h : TableOf T s) (hl : site.LeadsTo s m)
    (hes : events T <+: es) : site.methodIn es = m := by
  cases hl with
  | method _ => rfl
  | @shared kind name e hf hd _ =>
    obtain ⟨rest, rfl⟩ := hes
    cases h.entry hf
    have hset : Settled kind name (events T) := .inr (by simpa [entryAfter] using hd)
    simp only [Site.methodIn, buildMethod, hset.usedFirst_append, entryAfter]
    split <;> rfl

lemma reference {s u a t es} (h : TableOf T s) (ha : s.shared.access u.kind u.name = .ok (a, t))
    (hes : events T ++ [.use u] <+: es) : a.reference u.name = referenceTo es u.kind u.name := by
  obtain ⟨rest, rfl⟩ := hes
  have hset : Settled u.kind u.name (events T ++ [.use u]) := settled_of_use (by simp)
  have hself : u.isOf u.kind u.name = true := Use.isOf_iff.2 ⟨rfl, rfl⟩
  obtain ⟨e, he, _, hcase⟩ := SharedTable.access_eq_ok ha
  cases h.entry he
  rw [referenceTo, hset.usedFirst_append, usedFirst_concat]
  cases hf : usedFirst u.kind u.name (events T) <;>
    by_cases hd : .declaration u.kind u.name ∈ events T <;>
    simp_all [entryAfter, Access.reference]

lemma created {s u a t} (h : TableOf T s) (ha : s.shared.access u.kind u.name = .ok (a, t))
    (kind : SharedKind) (name : String) :
    usedFirst kind name (events T ++ [.use u]) =
      (usedFirst kind name (events T) || u.isOf kind name && a.created?.isSome) ∧
    (∀ m ∈ a.created?, m = ensureMethod u.name ∧ usedFirst u.kind u.name (events T) = false) := by
  obtain ⟨e, he, _, hcase⟩ := SharedTable.access_eq_ok ha
  cases h.entry he
  by_cases hkn : u.isOf kind name = true
  · obtain ⟨rfl, rfl⟩ := Use.isOf_iff.1 hkn
    cases hf : usedFirst u.kind u.name (events T) <;>
      by_cases hd : .declaration u.kind u.name ∈ events T <;>
      simp_all [entryAfter, usedFirst_concat, Access.created?]
  · cases hf : usedFirst u.kind u.name (events T) <;>
      by_cases hd : .declaration u.kind u.name ∈ events T <;>
      simp_all [entryAfter, usedFirst_concat, Access.created?]

end TableOf

include tr in
lemma Course.table : TableOf T s := by
  refine Trace.carry ?_ ?_ tr
  · exact ⟨fun _ _ => rfl, fun _ _ h => by cases h <;> contradiction⟩
  · intro T s e s' _ st h
    cases st with
    | register hr => exact h.register hr
    | declaration hd => exact h.declaration hd
    | use ha _ _ => exact h.use ha
    | _ => exact h.other rfl (by simp) (by simp [event?]) (by simp [event?])

include tr in
lemma Course.count_declaration (kind : SharedKind) (name : String) :
    (events T).count (.declaration kind name) ≤ 1 := by
  refine Trace.carry (P := fun T _ => (events T).count (.declaration kind name) ≤ 1) ?_ ?_ tr
  · exact Nat.zero_le 1
  · intro T s e s' tr st ih
    rw [events_concat, count_append]
    by_cases he : e.event? = some (.declaration kind name)
    · cases st with
      | declaration hd =>
        cases he
        obtain ⟨entry, hf, hnew, _⟩ := SharedTable.declare_eq_ok hd
        rw [(Course.table tr).entry hf] at hnew
        have hmem : .declaration kind name ∉ events T := by simpa [entryAfter] using hnew
        simp [count_eq_zero.2 hmem, event?]
      | _ => cases he
    · have hnone : e.event?.toList.count (.declaration kind name) = 0 := by
        rw [count_eq_zero, Option.mem_toList]
        exact he
      omega

def Effect.written (es : List Event) (method : String) : Effect → List Statement
  | use u owner =>
    if u.site.methodIn es = method then [u.statement owner (referenceTo es u.kind u.name)] else []
  | emit site st => if site.methodIn es = method then [st] else []
  | group name =>
    if Compile.groupMethod name = method then
      [.leaveIf (Compile.groupFlag name), .raise (Compile.groupFlag name)]
    else []
  | reserve .. | register .. | declaration .. | object .. | field .. | accessor .. | mesh ..
  | find .. | trigger .. | callback .. | release | imports .. | author _ => []

lemma Effect.mem_written {es method} {T : List Effect} {st}
    (h : st ∈ T.flatMap (written es method)) :
    (∃ u owner, .use u owner ∈ T ∧ u.site.methodIn es = method ∧
      st = u.statement owner (referenceTo es u.kind u.name)) ∨
    (∃ site, .emit site st ∈ T ∧ site.methodIn es = method) ∨
    ∃ g, .group g ∈ T ∧ groupMethod g = method ∧
      (st = .leaveIf (groupFlag g) ∨ st = .raise (groupFlag g)) := by
  obtain ⟨e, he, hst⟩ := mem_flatMap.1 h
  cases e with
  | use u owner =>
    rw [written] at hst
    split at hst
    · next hm => exact .inl ⟨u, owner, he, hm, mem_singleton.1 hst⟩
    · cases hst
  | emit site st' =>
    rw [written] at hst
    split at hst
    · next hm =>
      obtain rfl := mem_singleton.1 hst
      exact .inr (.inl ⟨site, he, hm⟩)
    · cases hst
  | group g =>
    rw [written] at hst
    split at hst
    · next hm => exact .inr (.inr ⟨g, he, hm, by simpa using hst⟩)
    · cases hst
  | _ => cases hst

lemma Effect.mem_written_of_use {es method} {T : List Effect} {u owner} (he : .use u owner ∈ T)
    (hm : u.site.methodIn es = method) :
    u.statement owner (referenceTo es u.kind u.name) ∈ T.flatMap (written es method) := by
  refine mem_flatMap.2 ⟨_, he, ?_⟩
  rw [written, if_pos hm]
  exact mem_singleton_self _

def bodyOf (es : List Event) (isMixin : Bool) (T : List Effect) (method : String) :
    List Statement :=
  (if method = Builtin.init then Compile.initBody isMixin else []) ++
    T.flatMap (Effect.written es method)

lemma ClassDef.body_withAccess (c : ClassDef) (kind : SharedKind) (a : Access) (method : String) :
    (c.withAccess kind a).body method = c.body method := by
  unfold withAccess
  split
  · rw [body_addMethod]
    split
    · next h => rw [body_eq_nil h.1]
    · rfl
  · rfl
  · rfl

lemma ClassDef.body_withGroup {c : ClassDef} {name} (h : c.hasMethod (groupMethod name) = false)
    (method : String) :
    (c.withGroup name).body method = c.body method ++ (group name).written [] method := by
  rw [withGroup, body_addMethod, written]
  split
  · next hm =>
    rw [if_pos hm.2, body_eq_nil (show c.hasMethod method = false from hm.1)]
    rfl
  · next hm =>
    have hne : groupMethod name ≠ method := fun heq => hm ⟨heq ▸ h, heq⟩
    rw [if_neg hne, append_nil]
    rfl

include tr in
lemma Course.body {es} (hes : events T <+: es) (method : String) :
    s.generated.body method = bodyOf es isMixin T method := by
  have key : ∀ {T s}, Course className isMixin visibility T s →
      (events T <+: es → s.generated.body method = bodyOf es isMixin T method) := by
    intro T s tr
    refine Trace.carry (P := fun T s => events T <+: es →
      s.generated.body method = bodyOf es isMixin T method) ?_ ?_ tr
    · intro _
      by_cases hm : method = Builtin.init
      · subst hm
        simp [bodyOf, ClassDef.body, ClassDef.named, start, Session.core,
          initClass, initMethod]
      · simp [bodyOf, ClassDef.body, ClassDef.named, start, Session.core,
          initClass, initMethod, hm, Ne.symm hm]
    · intro T s e s' tr st ih hes
      have htable := Course.table tr
      have hT : events T <+: es := (prefix_append _ _).trans (events_append .. ▸ hes)
      have hbody : bodyOf es isMixin (T ++ [e]) method =
          s.generated.body method ++ e.written es method := by
        rw [ih hT]
        simp [bodyOf]
      rw [hbody]
      cases st with
      | use ha hl hc =>
        rw [ClassDef.body_push hc, ClassDef.body_withAccess, written,
          htable.methodIn hl hT, htable.reference ha (events_concat .. ▸ hes)]
      | emit hl hc => rw [ClassDef.body_push hc, written, htable.methodIn hl hT]
      | object _ hc =>
        rw [ClassDef.body, ClassDef.named, (ClassDef.declare_eq_ok hc).2.2.2]
        exact (append_nil _).symm
      | group hfree => exact ClassDef.body_withGroup hfree method
      | _ => exact (append_nil _).symm
  exact key tr hes

structure Signature where
  name : String
  returnType : String
  visibility : Visibility

def Method.signature (m : Method) : Signature :=
  { name := m.name, returnType := m.returnType, visibility := m.visibility }

/-- The methods that a compilation brings into being. -/
inductive MethodOf (es : List Event) : Signature → Prop where
  | init : MethodOf es ⟨Builtin.init, "void", .isProtected⟩
  | group {name} :
    .group name ∈ es →
    MethodOf es ⟨Compile.groupMethod name, "void", .isProtected⟩
  | ensure {kind name} :
    usedFirst kind name es = true →
    MethodOf es ⟨ensureMethod name, kind.returnType, .isPrivate⟩

namespace MethodOf

variable {es : List Event} {sig : Signature}

lemma append (h : MethodOf es sig) (more : List Event) : MethodOf (es ++ more) sig := by
  cases h with
  | init => exact .init
  | group h => exact .group (mem_append_left _ h)
  | ensure h => exact .ensure (by rw [Settled.usedFirst_append (.inl h), h])

lemma concat_iff {e} (hu : ∀ u, e ≠ .use u) (hg : ∀ g, e ≠ .group g) :
    MethodOf (es ++ [e]) sig ↔ MethodOf es sig := by
  refine ⟨fun h => ?_, fun h => h.append _⟩
  cases h with
  | init => exact .init
  | group h => exact .group (by simpa [(hg _).symm] using h)
  | ensure h =>
    rw [usedFirst_concat] at h
    cases e with
    | use u => exact absurd rfl (hu u)
    | _ => exact .ensure h

lemma group_iff {g} :
    MethodOf (es ++ [.group g]) sig ↔
      MethodOf es sig ∨ sig = ⟨groupMethod g, "void", .isProtected⟩ := by
  constructor
  · intro h
    cases h with
    | init => exact .inl .init
    | @group g' h =>
      simp only [mem_append, mem_singleton, Event.group.injEq] at h
      obtain h | rfl := h
      · exact .inl (.group h)
      · exact .inr rfl
    | ensure h =>
      rw [usedFirst_concat] at h
      exact .inl (.ensure h)
  · rintro (h | rfl)
    · exact h.append _
    · exact .group (by simp)

lemma use_iff {s u a t} (h : TableOf T s) (ha : s.shared.access u.kind u.name = .ok (a, t)) :
    MethodOf (events T ++ [.use u]) sig ↔
      MethodOf (events T) sig ∨ ∃ m ∈ a.created?, sig = ⟨m, u.kind.returnType, .isPrivate⟩ := by
  constructor
  · intro hm
    cases hm with
    | init => exact .inl .init
    | group h => exact .inl (.group (by simpa using h))
    | @ensure k n hm =>
      rw [(h.created ha k n).1, Bool.or_eq_true, Bool.and_eq_true] at hm
      obtain hm | ⟨hu, hm⟩ := hm
      · exact .inl (.ensure hm)
      · obtain ⟨rfl, rfl⟩ := Use.isOf_iff.1 hu
        obtain ⟨m, hm⟩ := Option.isSome_iff_exists.1 hm
        refine .inr ⟨m, hm, ?_⟩
        rw [((h.created ha u.kind u.name).2 m hm).1]
  · rintro (hm | ⟨m, hm, rfl⟩)
    · exact hm.append _
    · rw [((h.created ha u.kind u.name).2 m hm).1]
      refine .ensure ?_
      rw [(h.created ha u.kind u.name).1, Option.mem_def.1 hm]
      simp [Use.isOf]

lemma of_ensureMethod {n} (h : MethodOf es sig) (hn : sig.name = ensureMethod n) :
    ∃ kind : SharedKind, usedFirst kind n es = true ∧
      sig = ⟨ensureMethod n, kind.returnType, .isPrivate⟩ := by
  cases h with
  | init => exact absurd hn.symm (ensureMethod_ne_init n)
  | group _ => exact absurd hn.symm (ensureMethod_ne_groupMethod n _)
  | ensure h =>
    cases ensureMethod_injective hn
    exact ⟨_, h, rfl⟩

end MethodOf

lemma ClassDef.map_withAccess {α : Type} (f : Method → α) (c : ClassDef) (kind : SharedKind)
    (a : Access) : (c.withAccess kind a).methods.map f = c.methods.map f ++ a.created?.toList.map
      fun m => f { name := m, returnType := kind.returnType, visibility := .isPrivate } := by
  unfold withAccess Access.created?
  split <;> simp [addMethod]

include tr in
lemma Course.mem_signatures (sig : Signature) :
    sig ∈ s.generated.methods.map Method.signature ↔ MethodOf (events T) sig := by
  refine Trace.carry
    (P := fun T s => sig ∈ s.generated.methods.map Method.signature ↔ MethodOf (events T) sig)
    ?_ ?_ tr
  · constructor
    · intro h
      cases mem_singleton.1 h
      exact .init
    · intro h
      cases h with
      | init => exact mem_singleton.2 rfl
      | group h | ensure h => cases h
  · intro T s e s' tr st ih
    rw [events_concat]
    cases st with
    | use ha _ hc =>
      rw [map_push (fun _ => rfl) hc, map_withAccess, mem_append, ih]
      refine Iff.trans ?_ (MethodOf.use_iff (Course.table tr) ha).symm
      simp [Method.signature, eq_comm]
    | group _ =>
      refine Iff.trans ?_ MethodOf.group_iff.symm
      rw [← ih]
      simp [withGroup, addMethod, addMember, Method.signature]
    | emit _ hc =>
      rw [map_push (fun _ => rfl) hc, ih]
      simp [event?]
    | object _ hc =>
      rw [(declare_eq_ok hc).2.2.2]
      exact ih.trans (MethodOf.concat_iff (by simp) (by simp)).symm
    | declaration | accessor => exact ih.trans (MethodOf.concat_iff (by simp) (by simp)).symm
    | _ => exact ih.trans (by simp [event?])

lemma ClassDef.hasMethod_iff_signature {c : ClassDef} {es m}
    (h : ∀ sig, sig ∈ c.methods.map Method.signature ↔ MethodOf es sig) :
    c.hasMethod m = true ↔ ∃ sig, MethodOf es sig ∧ sig.name = m := by
  rw [hasMethod_iff_mem, methodNames]
  constructor
  · intro hm
    obtain ⟨method, hmem, rfl⟩ := mem_map.1 hm
    exact ⟨method.signature, (h _).1 (mem_map_of_mem hmem), rfl⟩
  · rintro ⟨sig, hsig, rfl⟩
    obtain ⟨method, hmem, rfl⟩ := mem_map.1 ((h sig).2 hsig)
    exact mem_map_of_mem hmem

include tr in
lemma Course.hasMethod_iff {m : String} :
    s.generated.hasMethod m = true ↔ ∃ sig, MethodOf (events T) sig ∧ sig.name = m :=
  hasMethod_iff_signature tr.mem_signatures

include tr in
lemma Course.count_methodNames {es} (hes : events T <+: es) {m : String}
    (hone : ∀ {n k k'}, m = ensureMethod n → usedFirst k n es = true → usedFirst k' n es = true →
      k = k') : s.generated.methodNames.count m ≤ 1 := by
  refine Trace.carry (P := fun T s => events T <+: es → s.generated.methodNames.count m ≤ 1)
    ?_ ?_ tr hes
  · exact fun _ => nodup_iff_count_le_one.1 (nodup_singleton _) m
  · intro T s e s' tr st ih hes
    have ih := ih ((prefix_append _ _).trans (events_append .. ▸ hes))
    unfold methodNames at ih ⊢
    have one : ∀ name, (m = name → s.generated.hasMethod m = false) →
        (s.generated.methods.map (·.name) ++ [name]).count m ≤ 1 := by
      intro name hnew
      rw [count_append]
      by_cases heq : m = name
      · have hfree := hnew heq
        rw [← Bool.not_eq_true, hasMethod_iff_mem, ← count_eq_zero] at hfree
        have hlast : [name].count m ≤ 1 := nodup_iff_count_le_one.1 (nodup_singleton _) m
        unfold methodNames at hfree
        omega
      · rw [count_singleton, if_neg (by simpa using Ne.symm heq), Nat.add_zero]
        exact ih
    cases st with
    | @use u owner a t _ c ha _ hc =>
      rw [map_push (fun _ => rfl) hc, map_withAccess]
      cases hcr : a.created? with
      | none => simpa using ih
      | some name =>
        obtain ⟨hevents, hm⟩ := (Course.table tr).created ha u.kind u.name
        obtain ⟨rfl, hfresh⟩ := hm name hcr
        refine one _ fun heq => ?_
        rw [← Bool.not_eq_true]
        intro hname
        obtain ⟨sig, hsig, hsame⟩ := (Course.hasMethod_iff tr).1 hname
        obtain ⟨k, hk, _⟩ := hsig.of_ensureMethod (hsame.trans heq)
        have hu : usedFirst u.kind u.name es = true := by
          rw [events_concat] at hes
          obtain ⟨more, rfl⟩ := hes
          refine (Settled.usedFirst_append (.inl ?_) more).trans ?_ <;>
          · rw [event?, Option.toList_some, hevents, hcr]
            simp [Use.isOf]
        have hk' : usedFirst k u.name es = true := by
          obtain ⟨more, rfl⟩ := (prefix_append _ _).trans (events_append .. ▸ hes)
          rw [Settled.usedFirst_append (.inl hk), hk]
        rw [hone heq hk' hu, hfresh] at hk
        cases hk
    | group hfree =>
      simp only [withGroup, addMethod, addMember, map_append,
        map_singleton]
      exact one _ fun heq => heq ▸ hfree
    | emit _ hc =>
      rw [map_push (fun _ => rfl) hc]
      exact ih
    | object _ hc =>
      rw [(declare_eq_ok hc).2.2.2]
      exact ih
    | _ => exact ih

include tr in
lemma Course.nodup_methodNames {es} (hes : events T <+: es)
    (hone : ∀ {n k k'}, usedFirst k n es = true → usedFirst k' n es = true → k = k') :
    s.generated.methodNames.Nodup :=
  nodup_iff_count_le_one.2 fun _ => tr.count_methodNames hes fun _ hk hk' => hone hk hk'

def propertyMember (name type : String) : Member :=
  { name := storageName name, type, presence? := some .definite }

def groupMember (g : String) : Member :=
  { name := Compile.groupFlag g, type := "boolean", default? := some "false" }

def Effect.brings? : Effect → Option Member
  | object type o deferred _ => some (o.member type deferred)
  | field name type => some (propertyMember name type)
  | group name => some (groupMember name)
  | reserve .. | register .. | declaration .. | use .. | accessor .. | emit .. | mesh ..
  | find .. | trigger .. | callback .. | release | imports .. | author _ => none

def Effect.member? (e : Effect) : Option String :=
  e.brings?.map (·.name)

def Effect.reads? : Effect → Option Accessor
  | object type o deferred _ => if o.isGiven then some (o.accessor type deferred) else none
  | accessor name type isMixin => some (Compile.propertyAccessor name type isMixin)
  | reserve .. | register .. | declaration .. | use .. | field .. | group _ | emit .. | mesh ..
  | find .. | trigger .. | callback .. | release | imports .. | author _ => none

def Effect.storage? : Effect → Option String
  | object _ o _ _ => some o.storage
  | _ => none

lemma Effect.member?_of_storage? {e : Effect} {m} (h : e.storage? = some m) :
    e.member? = some m := by
  cases e with
  | object => exact h
  | _ => cases h

include tr in
lemma Course.members :
    s.generated.members = initMembers isMixin ++ T.filterMap brings? := by
  refine Trace.carry (P := fun T s => s.generated.members = initMembers isMixin ++
    T.filterMap brings?) ?_ ?_ tr
  · exact (append_nil _).symm
  · intro T s e s' _ st ih
    rw [filterMap_append, ← append_assoc, ← ih]
    cases st with
    | use _ _ hc =>
      rw [(push_frame hc).1, (withAccess_frame _ _ _).1]
      exact (append_nil _).symm
    | emit _ hc =>
      rw [(push_frame hc).1]
      exact (append_nil _).symm
    | object _ hc => exact (declare_eq_ok hc).2.1
    | field | group => rfl
    | _ => exact (append_nil _).symm

include tr in
lemma Course.memberNames :
    s.generated.members.map (·.name) =
      (initMembers isMixin).map (·.name) ++ T.filterMap member? := by
  rw [tr.members, map_append, map_filterMap]
  rfl

include tr in
lemma Course.hasMember {e m} (he : e ∈ T) (hm : e.member? = some m) :
    s.generated.hasMember m = true := by
  rw [hasMember_iff, tr.memberNames]
  exact mem_append_right _ (mem_filterMap.2 ⟨e, he, hm⟩)

include tr in
lemma Course.accessors : s.generated.accessors = T.filterMap reads? := by
  refine Trace.carry (P := fun T s => s.generated.accessors = T.filterMap reads?) rfl ?_ tr
  intro T s e s' _ st ih
  rw [filterMap_append, ← ih]
  cases st with
  | use _ _ hc =>
    rw [(push_frame hc).2, (withAccess_frame _ _ _).2]
    exact (append_nil _).symm
  | emit _ hc =>
    rw [(push_frame hc).2]
    exact (append_nil _).symm
  | @object type _ o _ deferred shared c _ hc =>
    rw [(declare_eq_ok hc).2.2.1]
    cases h : o.isGiven <;> simp [reads?, h]
  | accessor _ _ => rfl
  | _ => exact (append_nil _).symm

include tr in
lemma Course.accessorNames :
    s.generated.accessors.map (·.name) = (events T).filterMap Event.authorName? := by
  rw [tr.accessors, map_filterMap, events, filterMap_filterMap]
  refine filterMap_congr fun e _ => ?_
  cases e with
  | object type o deferred shared => cases h : o.isGiven <;> simp [reads?, event?, h] <;> rfl
  | _ => rfl

include tr in
lemma Course.mem_meshes : ∀ m ∈ s.meshes, .mesh m ∈ T := by
  refine Trace.carry (P := fun T s => ∀ m ∈ s.meshes, .mesh m ∈ T)
    (fun _ h => absurd h not_mem_nil) ?_ tr
  intro T s e s' _ st ih m hm
  cases st with
  | mesh =>
    obtain rfl | hm := mem_cons.1 hm
    · exact mem_append_right _ mem_cons_self
    · exact mem_append_left _ (ih m hm)
  | _ => exact mem_append_left _ (ih m hm)

lemma Course.mesh_before_find {T₁ m T₂}
    (tr : Course className isMixin visibility (T₁ ++ .find m :: T₂) s) : .mesh m ∈ T₁ := by
  obtain ⟨s₁, tr₁, tr₂⟩ := Trace.split tr
  cases tr₂ with
  | cons st _ =>
    cases st with
    | find hm => exact Course.mem_meshes tr₁ m hm

include tr in
lemma Course.nodup_storage : (T.filterMap storage?).Nodup := by
  refine Trace.carry (P := fun T _ => (T.filterMap storage?).Nodup) nodup_nil ?_ tr
  intro T s e s' tr st ih
  rw [filterMap_append]
  cases st with
  | @object type _ o _ deferred shared c _ hc =>
    refine nodup_append.2 ⟨ih, by simp [storage?], ?_⟩
    rintro m hm _ hm' rfl
    cases mem_singleton.1 (show m ∈ [o.storage] from hm')
    have hfree := (declare_eq_ok hc).1
    rw [← Bool.not_eq_true, hasMember_iff, Course.memberNames tr] at hfree
    refine hfree (mem_append_right _ ?_)
    obtain ⟨e, he, heq⟩ := mem_filterMap.1 hm
    exact mem_filterMap.2 ⟨e, he, member?_of_storage? heq⟩
  | _ =>
    change (T.filterMap storage? ++ []).Nodup
    rw [append_nil]
    exact ih

def groupNames (T : List Effect) : List String :=
  T.filterMap fun
    | .group name => some name
    | _ => none

def Effect.trigger? : Effect → Option (String × Statement)
  | trigger method condition g => some (method, .trigger condition (Compile.groupMethod g))
  | _ => none

def Effect.callback? : Effect → Option (String × Statement)
  | callback g code => some (Compile.groupMethod g, .callback code)
  | _ => none

include tr in
lemma Course.waiting (h : .release ∉ T) :
    s.triggers = T.filterMap trigger? ∧ s.callbacks = T.filterMap callback? := by
  refine Trace.carry (P := fun T s => .release ∉ T →
    s.triggers = T.filterMap trigger? ∧ s.callbacks = T.filterMap callback?)
    (fun _ => ⟨rfl, rfl⟩) ?_ tr h
  intro T s e s' _ st ih hrelease
  simp only [mem_append, mem_singleton, not_or] at hrelease
  obtain ⟨htriggers, hcallbacks⟩ := ih hrelease.1
  rw [filterMap_append, filterMap_append, ← htriggers, ← hcallbacks]
  cases st with
  | trigger => exact ⟨rfl, (append_nil _).symm⟩
  | callback => exact ⟨(append_nil _).symm, rfl⟩
  | release => exact absurd rfl hrelease.2
  | _ => exact ⟨(append_nil _).symm, (append_nil _).symm⟩

include tr in
lemma Course.nodup_groups : (groupNames T).Nodup := by
  refine Trace.carry (P := fun T _ => (groupNames T).Nodup) nodup_nil ?_ tr
  intro T s e s' tr st ih
  rw [groupNames, filterMap_append]
  cases st with
  | @group name hfree =>
    refine nodup_append.2 ⟨ih, by simp, ?_⟩
    rintro n hn _ hn' rfl
    obtain rfl : n = name := by simpa using hn'
    obtain ⟨e, he, heq⟩ := mem_filterMap.1 hn
    split at heq
    · cases heq
      rw [(tr.hosts_group he).1] at hfree
      cases hfree
    · cases heq
  | _ =>
    change (groupNames T ++ []).Nodup
    rw [append_nil]
    exact ih

def Effect.reserved : Effect → List String
  | reserve names => names.map Text.trim
  | _ => []

def Effect.madeUp? : Effect → Option String
  | object _ o _ _ => if o.isGiven then none else some o.name
  | _ => none

lemma Effect.member?_of_madeUp? {e : Effect} {n} (h : e.madeUp? = some n) :
    e.member? = some (storageName n) := by
  cases e with
  | object type o deferred shared =>
    rw [madeUp?] at h
    split at h
    · cases h
    · cases h
      rfl
  | _ => cases h

include tr in
lemma Course.mem_reserved {n} : n ∈ s.names.reserved ↔ n ∈ T.flatMap reserved := by
  refine Trace.carry (P := fun T s => n ∈ s.names.reserved ↔ n ∈ T.flatMap reserved)
    Iff.rfl ?_ tr
  intro T s e s' _ st ih
  rw [flatMap_append, mem_append, ← ih]
  cases st with
  | reserve => simp [NamePool.reserved_foldl, reserved, or_comm]
  | object hname _ =>
    obtain ⟨_, _, _, _, rfl⟩ | ⟨k, _, _, hissues⟩ := NamePool.assignUnused_cases hname
    · simp [reserved]
    · simp [hissues.reserved, reserved]
  | _ => simp [reserved]

/-- First all names are reserved, and only then members are added, those of the author under
reserved names. -/
structure Prepared (R T : List Effect) : Prop where
  memberless : ∀ e ∈ R, e.member? = none
  reserved : ∀ e ∈ T, e.reserved = []
  authored : ∀ e ∈ T, ∀ n, n ≠ "" → e.member? = some (storageName n) →
    e.madeUp? = some n ∨ n ∈ R.flatMap Effect.reserved

lemma Prepared.of_prefix {R T T'} (h : Prepared R T) (hT : T' <+: T) : Prepared R T' :=
  ⟨h.memberless, fun e he => h.reserved e (hT.subset he),
    fun e he => h.authored e (hT.subset he)⟩

lemma Prepared.isFree_iff {R : List Effect} (h : Prepared R T)
    (tr : Course className isMixin visibility (R ++ T) s) {n} (hn : n ≠ "") :
    s.names.IsFree s.generated n ↔
      n ∉ R.flatMap Effect.reserved ++ T.filterMap Effect.madeUp? := by
  have hreserved : n ∈ s.names.reserved ↔ n ∈ R.flatMap Effect.reserved := by
    rw [tr.mem_reserved, flatMap_append, flatMap_eq_nil_iff.2 h.reserved, append_nil]
  have hmember : s.generated.hasMember (storageName n) = true ↔
      ∃ e ∈ T, e.member? = some (storageName n) := by
    rw [hasMember_iff, tr.memberNames, filterMap_append,
      filterMap_eq_nil_iff.2 h.memberless, nil_append, mem_append,
      mem_filterMap]
    exact or_iff_right (storageName_not_mem_initMembers n isMixin)
  rw [NamePool.IsFree, hreserved, ← Bool.not_eq_true, hmember, mem_append, not_or,
    mem_filterMap]
  refine and_congr_right fun hnot => not_congr ⟨?_, ?_⟩
  · rintro ⟨e, he, hm⟩
    exact ⟨e, he, (h.authored e he n hn hm).resolve_right hnot⟩
  · rintro ⟨e, he, hm⟩
    exact ⟨e, he, member?_of_madeUp? hm⟩

lemma Prepared.madeUp_eq {R} (h : Prepared R T)
    (tr : Course className isMixin visibility (R ++ T) s) :
    T.filterMap Effect.madeUp? =
      NamePool.madeUp (R.flatMap Effect.reserved) (unnamedTypes (events T)) := by
  obtain ⟨s1, tr1, tr2⟩ := Trace.split tr
  refine Trace.carry (P := fun T' _ => T' <+: T → T'.filterMap Effect.madeUp? =
    NamePool.madeUp (R.flatMap Effect.reserved) (unnamedTypes (events T'))) ?_ ?_ tr2
      prefix_rfl
  · exact fun _ => rfl
  · intro T' s' e s'' tr' st ih hT
    have hT' := (prefix_append _ _).trans hT
    have tr' : Course className isMixin visibility (R ++ T') s' := tr1.append tr'
    rw [filterMap_append, events_append, unnamedTypes_append, ih hT']
    cases st with
    | @object type _ o _ deferred shared c hname hc =>
      obtain ⟨name, _, _, rfl, _⟩ | ⟨k, _, rfl, hissues⟩ := NamePool.assignUnused_cases hname
      · simp [Effect.madeUp?, Effect.event?, unnamedTypes]
      · have hfree : ∀ j, s'.names.IsFree s'.generated (NamePool.numbered type j) ↔
            NamePool.numbered type j ∉ R.flatMap Effect.reserved ++ T'.filterMap Effect.madeUp? :=
          fun j => (h.of_prefix hT').isFree_iff tr' (NamePool.numbered_ne_empty type j)
        have hleast := hissues.isLeast (tr'.sound.numbers type)
        simp only [hfree, ih hT'] at hleast
        have htype : unnamedTypes (events
            [.object type ⟨NamePool.numbered type k, false⟩ deferred shared]) = [type] := rfl
        rw [htype, NamePool.madeUp_concat, NamePool.freeName_eq hleast]
        rfl
    | _ => simp [Effect.madeUp?, Effect.event?, unnamedTypes]

end SceneView
