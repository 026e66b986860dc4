import SceneView.Proofs.Naming
import SceneView.Proofs.Outline

/-!
# Traces of compilations

A compilation is a sequence of small changes to its session. `Step` lists every change that there
is, each with the condition under which it is made; the log is left out, and imports, which no other
change looks at, leave the core alone. What holds
before and after every step holds along a whole trace, so that invariants are proved here once,
without another look at the compiler.
-/

open List

namespace SceneView

open ClassDef

/-- The part of a session that decides about the generated class. -/
structure Core where
  generated : ClassDef
  shared : SharedTable
  names : NamePool
  meshes : List Mesh
  triggers : List (String × Statement)
  callbacks : List (String × Statement)
  isMixin : Bool

/-- The part of a session that decides about the generated class. -/
def Session.core (s : Session) : Core :=
  { generated := s.generated
    shared := s.shared
    names := s.names
    meshes := s.meshes
    triggers := s.triggers
    callbacks := s.callbacks
    isMixin := s.isMixin }

/-- A change of a session. -/
inductive Effect where
  /-- The names that the author gives in a section are kept from being made up. -/
  | reserve (names : List String)
  | register (kind : SharedKind) (name : String)
  /-- The declaration of a shared object is reached; it is `ensured` by a method of its own or
  not. -/
  | declaration (kind : SharedKind) (name : String) (ensured : Bool)
  /-- A reference is resolved and written; `owner` is the member of the object that refers. -/
  | use (use : Use) (owner : String)
  /-- An object gets its member; it is a shared object or not. -/
  | object (type : String) (object : ObjectName) (deferred shared : Bool)
  | field (name type : String)
  | accessor (name type : String) (isMixin : Bool)
  | group (name : String)
  /-- A statement other than a reference is written. -/
  | emit (site : Site) (statement : Statement)
  | mesh (mesh : Mesh)
  | find (mesh : Mesh)
  | trigger (method condition group : String)
  | callback (group code : String)
  /-- What was put off is taken up. -/
  | release
  | imports (origin : Origin) (name : String)
  /-- Import lines of the author are taken over. -/
  | author (lines : List String)
deriving DecidableEq

def Effect.event? : Effect → Option Event
  | declaration kind name _ => some (.declaration kind name)
  | use u _ => some (.use u)
  | object type o _ _ => some (.object type (if o.isGiven then some o.name else none))
  | accessor name _ _ => some (.property name)
  | group name => some (.group name)
  | reserve .. | register .. | field .. | emit .. | mesh .. | find .. | trigger .. | callback ..
  | release | imports .. | author _ => none

def events (effects : List Effect) : List Event :=
  effects.filterMap Effect.event?

@[simp]
lemma events_nil : events [] = [] := rfl

@[simp]
lemma events_append (xs ys : List Effect) : events (xs ++ ys) = events xs ++ events ys :=
  filterMap_append

@[simp]
lemma events_cons (x : Effect) (xs : List Effect) :
    events (x :: xs) = x.event?.toList ++ events xs := by
  cases h : x.event? <;> simp [events, h]

lemma mem_events {x e xs} (hx : x ∈ xs) (he : x.event? = some e) : e ∈ events xs :=
  mem_filterMap.2 ⟨x, hx, he⟩

lemma use_of_mem_events {T u} (h : .use u ∈ events T) : ∃ owner, .use u owner ∈ T := by
  obtain ⟨e, he, hu⟩ := mem_filterMap.1 h
  cases e with
  | use u' owner =>
    cases hu
    exact ⟨owner, he⟩
  | _ => cases hu

def Access.reference (name : String) : Access → SharedReference
  | member => .member (storageName name)
  | ensure method _ => .ensure method

def ClassDef.withAccess (c : ClassDef) (kind : SharedKind) : Access → ClassDef
  | .ensure method true =>
    c.addMethod { name := method, returnType := kind.returnType, visibility := .isPrivate }
  | .ensure _ false | .member => c

def ClassDef.withGroup (c : ClassDef) (name : String) : ClassDef :=
  (c.addMember
    { name := Compile.groupFlag name, type := "boolean", default? := some "false" }).addMethod
    { name := Compile.groupMethod name
      returnType := "void"
      visibility := .isProtected
      body := [.leaveIf (Compile.groupFlag name), .raise (Compile.groupFlag name)] }

/-- Objects of the node tree and of user interfaces may be built in the method. -/
def Core.Hosts (s : Core) (method : String) : Prop :=
  s.generated.hasMethod method = true ∧ IsHost method

/-- The statements of a site go to the method. -/
inductive Site.LeadsTo (s : Core) : Site → String → Prop where
  | method {m} :
    s.Hosts m →
    LeadsTo s (.method m) m
  | shared {kind name e} :
    s.shared.find? kind name = some e →
    e.declared = true →
    s.generated.hasMethod e.site.method = true →
    LeadsTo s (.shared kind name) e.site.method

/-- A change that a compilation makes, with what holds before it. -/
inductive Step : Core → Effect → Core → Prop where
  | reserve {s names} :
    Step s (.reserve names) { s with names := names.foldl NamePool.reserve s.names }
  | register {s kind name t} :
    s.shared.register kind name Builtin.init = .ok t →
    Step s (.register kind name) { s with shared := t }
  | declaration {s kind name build t} :
    s.shared.declare kind name = .ok (build, t) →
    Step s (.declaration kind name build.isEnsured) { s with shared := t }
  | use {s u owner access t m c} :
    s.shared.access u.kind u.name = .ok (access, t) →
    u.site.LeadsTo s m →
    (s.generated.withAccess u.kind access).push m (u.statement owner (access.reference u.name)) =
      .ok c →
    Step s (.use u owner) { s with shared := t, generated := c }
  | object {s type given? o names deferred shared c} :
    s.names.assignUnused s.generated type given? = (o, names) →
    s.generated.declare type o deferred = .ok c →
    Step s (.object type o deferred shared) { s with generated := c, names }
  | field {s name type} :
    s.generated.hasMember (storageName name) = false →
    s.generated.accessor? name = none →
    Step s (.field name type)
      { s with generated := s.generated.addMember
                { name := storageName name, type, presence? := some .definite } }
  | accessor {s name type isMixin} :
    s.generated.hasMember (storageName name) = true →
    s.generated.accessor? name = none →
    Step s (.accessor name type isMixin)
      { s with generated := s.generated.addAccessor (Compile.propertyAccessor name type isMixin) }
  | group {s name} :
    s.generated.hasMethod (Compile.groupMethod name) = false →
    Step s (.group name) { s with generated := s.generated.withGroup name }
  | emit {s site m st c} :
    site.LeadsTo s m →
    s.generated.push m st = .ok c →
    Step s (.emit site st) { s with generated := c }
  | mesh {s m} :
    s.Hosts m.method →
    Step s (.mesh m) { s with meshes := m :: s.meshes }
  | find {s m} :
    m ∈ s.meshes →
    Step s (.find m) s
  | trigger {s method condition group} :
    s.Hosts method →
    s.generated.hasMethod (Compile.groupMethod group) = true →
    Step s (.trigger method condition group)
      { s with triggers :=
          s.triggers ++ [(method, .trigger condition (Compile.groupMethod group))] }
  | callback {s group code} :
    s.generated.hasMethod (Compile.groupMethod group) = true →
    Step s (.callback group code)
      { s with callbacks := s.callbacks ++ [(Compile.groupMethod group, .callback code)] }
  | release {s} :
    Step s .release { s with triggers := [], callbacks := [] }
  | imports {s origin name} :
    Step s (.imports origin name) s
  | author {s lines} :
    Step s (.author lines) s

/-- The changes of a compilation from one state to another, in order. -/
inductive Trace : Core → List Effect → Core → Prop where
  | nil {s} :
    Trace s [] s
  | cons {s e s' T s''} :
    Step s e s' →
    Trace s' T s'' →
    Trace s (e :: T) s''

lemma Step.trace {s e s'} (h : Step s e s') : Trace s [e] s' :=
  .cons h .nil

lemma Trace.eq_of_nil {s s'} (h : Trace s [] s') : s' = s := by
  cases h
  rfl

lemma Trace.append {s T s' T' s''} (h : Trace s T s') (h' : Trace s' T' s'') :
    Trace s (T ++ T') s'' := by
  induction h with
  | nil => exact h'
  | cons st _ ih => exact .cons st (ih h')

lemma Trace.split {s T T' s''} (h : Trace s (T ++ T') s'') :
    ∃ s', Trace s T s' ∧ Trace s' T' s'' := by
  induction T generalizing s with
  | nil => exact ⟨s, .nil, h⟩
  | cons e T ih =>
    cases h with
    | cons st h =>
      obtain ⟨s', h1, h2⟩ := ih h
      exact ⟨s', .cons st h1, h2⟩

lemma Trace.carry {s0} {P : List Effect → Core → Prop} (start : P [] s0)
    (step : ∀ {T s e s'}, Trace s0 T s → Step s e s' → P T s → P (T ++ [e]) s') {T s}
    (tr : Trace s0 T s) : P T s := by
  induction T using reverseRecOn generalizing s with
  | nil =>
    cases tr
    exact start
  | append_singleton T e ih =>
    obtain ⟨s1, tr1, tr2⟩ := tr.split
    cases tr2 with
    | cons st tr2 =>
      cases tr2
      exact step tr1 st (ih tr1)

lemma Trace.preserve {P : Core → Prop} (step : ∀ {s e s'}, Step s e s' → P s → P s') {s T s'}
    (h : Trace s T s') (hs : P s) : P s' := by
  induction h with
  | nil => exact hs
  | cons st _ ih => exact ih (step st hs)

lemma ClassDef.hasMethod_withAccess {c : ClassDef} {m} (h : c.hasMethod m = true)
    (kind : SharedKind) (a : Access) : (c.withAccess kind a).hasMethod m = true := by
  unfold withAccess
  split
  · simp [h]
  · exact h
  · exact h

lemma Step.hasMethod {s e s' m} (st : Step s e s') (h : s.generated.hasMethod m = true) :
    s'.generated.hasMethod m = true := by
  cases st with
  | use _ _ hc => rw [hasMethod_push hc]; exact hasMethod_withAccess h _ _
  | object _ hc =>
    rw [ClassDef.hasMethod, ClassDef.method?, (ClassDef.declare_eq_ok hc).2.2.2]
    exact h
  | group _ => simp [withGroup, hasMethod_addMethod, show
      (s.generated.addMember _).hasMethod m = true from h]
  | emit _ hc => rw [hasMethod_push hc]; exact h
  | _ => exact h

lemma ClassDef.withAccess_frame (c : ClassDef) (kind : SharedKind) (a : Access) :
    (c.withAccess kind a).members = c.members ∧ (c.withAccess kind a).accessors = c.accessors := by
  unfold withAccess
  split <;> exact ⟨rfl, rfl⟩

lemma Step.hasMember {s e s' m} (st : Step s e s') (h : s.generated.hasMember m = true) :
    s'.generated.hasMember m = true := by
  rw [hasMember_iff] at h ⊢
  cases st with
  | use _ _ hc =>
    rw [(push_frame hc).1, (withAccess_frame _ _ _).1]
    exact h
  | emit _ hc =>
    rw [(push_frame hc).1]
    exact h
  | object _ hc =>
    rw [(declare_eq_ok hc).2.1, map_append]
    exact mem_append_left _ h
  | field | group => exact map_append ▸ mem_append_left _ h
  | _ => exact h

lemma Step.hosts {s e s' m} (st : Step s e s') (h : s.Hosts m) : s'.Hosts m :=
  ⟨st.hasMethod h.1, h.2⟩

lemma Step.find? {s e s' kind name entry} (st : Step s e s')
    (h : s.shared.find? kind name = some entry) :
    ∃ entry', s'.shared.find? kind name = some entry' ∧
      (entry.declared = true → entry' = entry) := by
  cases st with
  | register hr =>
    obtain ⟨hnone, _, hfind⟩ := SharedTable.register_eq_ok hr
    refine ⟨entry, ?_, fun _ => rfl⟩
    rw [hfind, if_neg]
    · exact h
    · rintro ⟨rfl, rfl⟩
      rw [hnone] at h
      cases h
  | @declaration k n build t hd =>
    obtain ⟨old, hold, hnot, _, _, hfind⟩ := SharedTable.declare_eq_ok hd
    by_cases hkn : k = kind ∧ n = name
    · obtain ⟨rfl, rfl⟩ := hkn
      rw [hold] at h
      cases h
      exact ⟨_, (hfind _ _).trans (if_pos ⟨rfl, rfl⟩), by simp [hnot]⟩
    · exact ⟨entry, by rw [hfind, if_neg hkn]; exact h, fun _ => rfl⟩
  | @use u owner a t m c ha _ _ =>
    obtain ⟨old, hold, _, hcase⟩ := SharedTable.access_eq_ok ha
    obtain ⟨_, _, _, rfl⟩ | ⟨_, _, _, _, rfl⟩ | ⟨_, _, hnot, _, hfind⟩ := hcase
    iterate 2 exact ⟨entry, h, fun _ => rfl⟩
    · by_cases hkn : u.kind = kind ∧ u.name = name
      · obtain ⟨rfl, rfl⟩ := hkn
        rw [hold] at h
        cases h
        exact ⟨_, (hfind _ _).trans (if_pos ⟨rfl, rfl⟩), by simp [hnot]⟩
      · exact ⟨entry, by rw [hfind, if_neg hkn]; exact h, fun _ => rfl⟩
  | _ => exact ⟨entry, h, fun _ => rfl⟩

lemma Step.leadsTo {s e s' m} {site : Site} (st : Step s e s') (h : site.LeadsTo s m) :
    site.LeadsTo s' m := by
  cases h with
  | method h => exact .method (st.hosts h)
  | shared hf hd hm =>
    obtain ⟨entry, hf', heq⟩ := st.find? hf
    cases heq hd
    exact .shared hf' hd (st.hasMethod hm)

lemma Trace.isMixin {s T s'} (tr : Trace s T s') : s'.isMixin = s.isMixin := by
  induction tr with
  | nil => rfl
  | cons st _ ih =>
    rw [ih]
    cases st <;> rfl

lemma Trace.hasMethod {s T s' m} (tr : Trace s T s') (h : s.generated.hasMethod m = true) :
    s'.generated.hasMethod m = true :=
  tr.preserve (P := (·.generated.hasMethod m = true)) Step.hasMethod h

lemma Trace.emit_frame {s s' site st} (tr : Trace s [.emit site st] s') :
    s'.generated.members = s.generated.members ∧
      s'.generated.accessors = s.generated.accessors := by
  cases tr with
  | cons h tr =>
    cases tr
    cases h with
    | emit _ hc => exact push_frame hc

lemma Trace.hosts_group {s T s' name} (tr : Trace s T s') (h : .group name ∈ T) :
    s'.Hosts (Compile.groupMethod name) := by
  obtain ⟨T1, T2, rfl⟩ := append_of_mem h
  obtain ⟨s1, _, tr2⟩ := tr.split
  cases tr2 with
  | cons st tr2 =>
    refine ⟨tr2.hasMethod ?_, .inr ⟨name, rfl⟩⟩
    cases st with
    | group _ => simp [withGroup]

lemma Trace.hosts {s T s' m} (tr : Trace s T s') (h : s.Hosts m) : s'.Hosts m :=
  tr.preserve (P := (·.Hosts m)) Step.hosts h

lemma Trace.leadsTo {s T s' m} {site : Site} (tr : Trace s T s') (h : site.LeadsTo s m) :
    site.LeadsTo s' m :=
  tr.preserve (P := (site.LeadsTo · m)) Step.leadsTo h

/-- A statement that waits until all sections are compiled. -/
inductive Statement.IsPutOff : Statement → Prop where
  | trigger {condition group} : IsPutOff (.trigger condition (Compile.groupMethod group))
  | callback {code} : IsPutOff (.callback code)

/-- A session in which everything that is to be written has a method to go to, and in which the
counters of names are right. -/
structure Sound (s : Core) : Prop where
  init : s.generated.hasMethod Builtin.init = true
  keyed : s.shared.Keyed
  builds : ∀ {kind name e}, s.shared.find? kind name = some e →
    e.site = .direct Builtin.init ∨
      e.site = .ensured (ensureMethod name) ∧ s.generated.hasMethod (ensureMethod name) = true
  meshes : ∀ m ∈ s.meshes, s.Hosts m.method
  waiting : ∀ p ∈ s.triggers ++ s.callbacks, s.Hosts p.1 ∧ p.2.IsPutOff
  /-- No name up to the last one that was made up is left over. -/
  numbers : ∀ type k, 0 < k → k ≤ s.names.last type →
    ¬ s.names.IsFree s.generated (NamePool.numbered type k)

lemma Sound.hasMethod_site {s kind name e} (h : Sound s) (hf : s.shared.find? kind name = some e) :
    s.generated.hasMethod e.site.method = true := by
  obtain hs | ⟨hs, hm⟩ := h.builds hf
  · rw [hs]
    exact h.init
  · rw [hs]
    exact hm

lemma Sound.hosts_init {s} (h : Sound s) : s.Hosts Builtin.init :=
  ⟨h.init, .inl rfl⟩

lemma Step.keyed {s e s'} (st : Step s e s') (h : s.shared.Keyed) : s'.shared.Keyed := by
  cases st with
  | register hr => exact (SharedTable.register_eq_ok hr).2.1 h
  | declaration hd =>
    obtain ⟨_, _, _, _, hk, _⟩ := SharedTable.declare_eq_ok hd
    exact hk h
  | use ha _ _ =>
    obtain ⟨_, _, hk, _⟩ := SharedTable.access_eq_ok ha
    exact hk h
  | _ => exact h

lemma Step.builds {s e s'} (st : Step s e s') (h : Sound s) {kind name entry}
    (hf : s'.shared.find? kind name = some entry) :
    entry.site = .direct Builtin.init ∨ entry.site = .ensured (ensureMethod name) ∧
      s'.generated.hasMethod (ensureMethod name) = true := by
  have before : ∀ {entry}, s.shared.find? kind name = some entry →
      entry.site = .direct Builtin.init ∨ entry.site = .ensured (ensureMethod name) ∧
        s'.generated.hasMethod (ensureMethod name) = true := by
    intro entry hb
    obtain hs | ⟨hs, hm⟩ := h.builds hb
    · exact .inl hs
    · exact .inr ⟨hs, st.hasMethod hm⟩
  cases st with
  | register hr =>
    obtain ⟨_, _, hfind⟩ := SharedTable.register_eq_ok hr
    rw [hfind] at hf
    split at hf
    · cases hf
      exact .inl rfl
    · exact before hf
  | declaration hd =>
    obtain ⟨old, hold, _, _, _, hfind⟩ := SharedTable.declare_eq_ok hd
    rw [hfind] at hf
    split at hf
    · rename_i hkn
      obtain ⟨rfl, rfl⟩ := hkn
      cases hf
      have hsite := before hold
      exact hsite
    · exact before hf
  | @use u owner a t m c ha _ hc =>
    obtain ⟨old, hold, _, hcase⟩ := SharedTable.access_eq_ok ha
    obtain ⟨_, _, _, rfl⟩ | ⟨_, _, _, _, rfl⟩ | ⟨_, _, _, rfl, hfind⟩ := hcase
    · exact before hf
    · exact before hf
    · rw [hfind] at hf
      split at hf
      · rename_i hkn
        obtain ⟨rfl, rfl⟩ := hkn
        cases hf
        refine .inr ⟨rfl, ?_⟩
        change c.hasMethod (ensureMethod u.name) = true
        rw [hasMethod_push hc]
        simp [withAccess]
      · exact before hf
  | _ => exact before hf

lemma Step.numbers {s e s'} (st : Step s e s') (h : Sound s) (type : String) (k : Nat)
    (hpos : 0 < k) (hk : k ≤ s'.names.last type) :
    ¬ s'.names.IsFree s'.generated (NamePool.numbered type k) := by
  intro hfree
  have member := fun m => st.hasMember (m := m)
  cases st with
  | reserve =>
    rw [NamePool.last_foldl] at hk
    refine h.numbers type k hpos hk (hfree.anti ?_ (member _))
    rw [NamePool.reserved_foldl]
    exact subset_append_right _ _
  | @object type' _ o names _ _ c hname hc =>
    obtain ⟨_, _, _, rfl, rfl⟩ | ⟨n, _, rfl, hissues⟩ := NamePool.assignUnused_cases hname
    · exact h.numbers type k hpos hk (hfree.anti (List.Subset.refl _) (member _))
    · have hold : s.names.IsFree s.generated (NamePool.numbered type k) :=
        hfree.anti (hissues.reserved ▸ List.Subset.refl _) (member _)
      change k ≤ names.last type at hk
      rw [hissues.last] at hk
      by_cases htype : type = type'
      · subst htype
        rw [Function.update_self] at hk
        have hleast := (hissues.isLeast (h.numbers type)).2 ⟨hpos, hold⟩
        obtain rfl := le_antisymm hk hleast
        have hstored : c.hasMember (storageName (NamePool.numbered type k)) = true := by
          rw [hasMember_iff, (declare_eq_ok hc).2.1, map_append]
          exact mem_append_right _ (mem_singleton.2 rfl)
        exact Bool.false_ne_true (hfree.2.symm.trans hstored)
      · rw [Function.update_of_ne htype] at hk
        exact h.numbers type k hpos hk hold
  | _ => exact h.numbers type k hpos hk (hfree.anti (List.Subset.refl _) (member _))

lemma Step.sound {s e s'} (st : Step s e s') (h : Sound s) : Sound s' := by
  have hosts : ∀ {m}, s.Hosts m → s'.Hosts m := st.hosts
  refine ⟨st.hasMethod h.init, st.keyed h.keyed, st.builds h, ?_, ?_, st.numbers h⟩
  · cases st with
    | mesh hm =>
      intro m' hm'
      obtain rfl | hm' := mem_cons.1 hm'
      · exact hm
      · exact h.meshes m' hm'
    | _ => exact fun m hm => hosts (h.meshes m hm)
  · cases st with
    | trigger hm _ =>
      intro p hp
      simp only [append_assoc, mem_append, mem_singleton] at hp
      obtain hp | rfl | hp := hp
      · exact h.waiting p (mem_append_left _ hp)
      · exact ⟨hm, .trigger⟩
      · exact h.waiting p (mem_append_right _ hp)
    | callback hm =>
      intro p hp
      simp only [mem_append, mem_singleton] at hp
      obtain hp | hp | rfl := hp
      · exact h.waiting p (mem_append_left _ hp)
      · exact h.waiting p (mem_append_right _ hp)
      · exact ⟨⟨hm, .inr ⟨_, rfl⟩⟩, .callback⟩
    | release => simp
    | _ => exact fun p hp => ⟨hosts (h.waiting p hp).1, (h.waiting p hp).2⟩

lemma Trace.sound {s T s'} (tr : Trace s T s') (h : Sound s) : Sound s' :=
  tr.preserve Step.sound h

lemma Site.LeadsTo.hasMethod {s m} {site : Site} (h : site.LeadsTo s m) :
    s.generated.hasMethod m = true := by
  cases h with
  | method h => exact h.1
  | shared _ _ hm => exact hm

end SceneView
