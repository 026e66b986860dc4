import SceneView.Proofs.Trace

/-!
# The shape of traces

A compilation that succeeds leaves a trace of a regular shape. Outside the declarations of shared
objects it is *loose*: ordinary statements, each about objects that the same piece of the trace
declares. The declaration of a shared object is a *block*: the statements that build the object
stand together, between the guard and the answer of its method if it has one.
-/

open List

namespace SceneView

namespace Statement

def reference? : Statement → Option SharedReference
  | nodeMaterial _ r | slotTexture _ _ r => some r
  | _ => none

/-- Whether a statement neither leaves its method nor calls another one. -/
def isOrdinary : Statement → Bool
  | guard _ | give _ | leaveIf _ | raise _ | trigger _ _ | callback _ => false
  | nodeMaterial _ (.ensure _) | slotTexture _ _ (.ensure _) => false
  | _ => true

def builds (member : String) : Statement → Bool
  | construct m _ => m == member
  | _ => false

@[simp]
lemma builds_construct (m : String) (v : Construction) (member : String) :
    (construct m v).builds member = (m == member) :=
  rfl

@[simp]
lemma builds_guard (m member : String) : (guard m).builds member = false :=
  rfl

@[simp]
lemma builds_give (m member : String) : (give m).builds member = false :=
  rfl

def bindsGroup : Statement → Bool
  | bindGroup .. => true
  | _ => false

/-- Whether a statement has to do with the wiring of a deferred group. -/
def wires : Statement → Bool
  | bindGroup .. | trigger .. | callback .. => true
  | _ => false

def touches (member : String) (st : Statement) : Bool :=
  st.builds member || st.reference? == some (.member member)

/-- A statement that builds no objects but those of the members and wires no group. -/
structure Within (members : List String) (st : Statement) : Prop where
  builds : ∀ m, st.builds m = true → m ∈ members
  unwired : st.wires = false

namespace Within

variable {members others : List String} {st : Statement}

lemma plain (hw : st.wires = false) (hb : ∀ m, st.builds m = false) : st.Within members := by
  refine ⟨fun m hm => ?_, hw⟩
  rw [hb m] at hm
  cases hm

lemma construct {m v} : (construct m v).Within [m] :=
  ⟨fun _ hm => mem_singleton.2 (beq_iff_eq.1 hm).symm, rfl⟩

lemma mono (h : st.Within members) (hm : members ⊆ others) : st.Within others :=
  ⟨fun m hb => hm (h.builds m hb), h.unwired⟩

end Within

end Statement

def ObjectName.given (o : ObjectName) : Option String :=
  if o.isGiven then some o.name else none

lemma ObjectName.eq_of_given {o : ObjectName} {name} (h : o.given = some name) :
    o = ⟨name, true⟩ := by
  obtain ⟨n, given⟩ := o
  cases given with
  | false => cases h
  | true =>
    cases h
    rfl

lemma ObjectName.isGiven_of_given {o : ObjectName} (h : o.given = none) : o.isGiven = false := by
  cases hgiven : o.isGiven with
  | false => rfl
  | true =>
    rw [given, hgiven, if_pos rfl] at h
    cases h

/-- A change that is not about the declaration of a shared object, made in one of the sites. -/
def Effect.Ordinary (P : Site → Prop) : Effect → Prop
  | emit site st => P site ∧ st.isOrdinary = true
  | use u owner => P u.site ∧ ∀ n, u.owner? = some n → owner = storageName n
  | object _ _ _ shared => shared = false
  | group name => P (.method (Compile.groupMethod name))
  | reserve .. | register .. | declaration .. | release => False
  | field .. | accessor .. | mesh .. | find .. | trigger .. | callback .. | imports .. => True
  | author _ => True

/-- Whether a change wires a deferred group to the rest of the class. -/
def Effect.wires : Effect → Bool
  | emit _ st => st.bindsGroup
  | trigger .. | callback .. => true
  | _ => false

def ownMembers (T : List Effect) : List String :=
  T.filterMap fun
    | .object _ o _ false => some o.storage
    | _ => none

@[simp]
lemma ownMembers_append (xs ys : List Effect) :
    ownMembers (xs ++ ys) = ownMembers xs ++ ownMembers ys :=
  filterMap_append

/-- A trace of ordinary changes with the given events. What its statements build or give away is
declared in it or belongs to the given members, a property that has its member is one of the events,
and only groups are wired. -/
structure Loose (P : Site → Prop) (members : List String) (es : List Event) (T : List Effect) :
    Prop where
  events : events T = es
  ordinary : ∀ e ∈ T, e.Ordinary P
  owned : ∀ site st, .emit site st ∈ T → ∀ m, st.touches m = true → m ∈ members ++ ownMembers T
  fields : ∀ n type, .field n type ∈ T → .property n ∈ es
  unwired : (∀ g, .group g ∉ es) → ∀ e ∈ T, e.wires = false

namespace Loose

variable {P Q : Site → Prop} {members others : List String} {es es' : List Event}
  {T T' : List Effect}

lemma nil : Loose P members [] [] :=
  ⟨rfl, by simp, by simp, by simp, by simp⟩

lemma append (h : Loose P members es T) (h' : Loose P members es' T') :
    Loose P members (es ++ es') (T ++ T') := by
  refine ⟨by rw [events_append, h.events, h'.events], ?_, ?_, ?_, ?_⟩
  · intro e he
    obtain he | he := mem_append.1 he
    · exact h.ordinary e he
    · exact h'.ordinary e he
  · intro site st he m hm
    rw [ownMembers_append]
    obtain he | he := mem_append.1 he
    · have := h.owned site st he m hm
      grind
    · have := h'.owned site st he m hm
      grind
  · intro n type hf
    obtain hf | hf := mem_append.1 hf
    · exact mem_append_left _ (h.fields n type hf)
    · exact mem_append_right _ (h'.fields n type hf)
  · intro hg e he
    obtain he | he := mem_append.1 he
    · exact h.unwired (fun g hmem => hg g (mem_append_left _ hmem)) e he
    · exact h'.unwired (fun g hmem => hg g (mem_append_right _ hmem)) e he

lemma mono (h : Loose P members es T) (hPQ : ∀ site, P site → Q site)
    (hm : ∀ m ∈ members, m ∈ others) : Loose Q others es T := by
  refine ⟨h.events, ?_, ?_, h.fields, h.unwired⟩
  · intro e he
    have := h.ordinary e he
    cases e with
    | emit | use => exact ⟨hPQ _ this.1, this.2⟩
    | group name => exact hPQ _ this
    | _ => exact this
  · intro site st he m ht
    have := h.owned site st he m ht
    grind

lemma single {e} (he : e.Ordinary P)
    (hplain : ∀ site st n type, e ≠ .emit site st ∧ e ≠ .field n type) (hw : e.wires = false) :
    Loose P members e.event?.toList [e] := by
  refine ⟨by simp, by simpa using he, ?_, ?_, fun _ => by simpa using hw⟩
  · intro site st h
    exact absurd (mem_singleton.1 h).symm (hplain site st "" "").1
  · intro n type h
    exact absurd (mem_singleton.1 h).symm (hplain (.method "") (.line "") n type).2

lemma emit {site st} (hP : P site) (ho : st.isOrdinary = true) (hw : st.bindsGroup = false)
    (ht : ∀ m, st.touches m = true → m ∈ members) : Loose P members [] [.emit site st] := by
  refine ⟨rfl, by simpa [Effect.Ordinary] using ⟨hP, ho⟩, ?_, by simp,
    fun _ => by simpa [Effect.wires] using hw⟩
  intro site' st' h m hm
  cases mem_singleton.1 h
  exact mem_append_left _ (ht m hm)

lemma construct {site member v} (hP : P site) (h : Loose P members es T) :
    Loose P (member :: members) es (.emit site (.construct member v) :: T) := by
  have hc : Loose P (member :: members) [] [.emit site (.construct member v)] := by
    refine .emit hP rfl rfl fun m hm => ?_
    simp only [Statement.touches, Statement.builds, Statement.reference?, Bool.or_eq_true,
      beq_iff_eq, reduceCtorEq, or_false] at hm
    exact hm ▸ mem_cons_self
  exact hc.append (h.mono (fun _ => id) fun _ => mem_cons_of_mem _)

lemma object {type o deferred} (h : Loose P (o.storage :: members) es T) :
    Loose P members (.object type o.given :: es) (.object type o deferred false :: T) := by
  refine ⟨?_, ?_, ?_, ?_, ?_⟩
  · simp [h.events, Effect.event?, ObjectName.given]
  · intro e he
    obtain rfl | he := mem_cons.1 he
    · rfl
    · exact h.ordinary e he
  · intro site st he m hm
    have := h.owned site st (by simpa using he) m hm
    simp only [ownMembers, filterMap_cons] at this ⊢
    grind
  · intro n type hf
    exact mem_cons_of_mem _ (h.fields n type (by simpa using hf))
  · intro hg e he
    obtain rfl | he := mem_cons.1 he
    · rfl
    · exact h.unwired (fun g hmem => hg g (mem_cons_of_mem _ hmem)) e he

lemma property {name type isMixin} (h : Loose P members [] T) :
    Loose P members [.property name]
      (.field name type :: (T ++ [.accessor name type isMixin])) := by
  refine ⟨?_, ?_, ?_, ?_, ?_⟩
  · simp [h.events, Effect.event?]
  · intro e he
    simp only [mem_cons, mem_append, not_mem_nil, or_false] at he
    obtain rfl | he | rfl := he
    · trivial
    · exact h.ordinary e he
    · trivial
  · intro site st he m hm
    have := h.owned site st (by simpa using he) m hm
    simpa [ownMembers] using this
  · intro n type' hf
    simp only [mem_cons, mem_append, not_mem_nil, or_false, Effect.field.injEq,
      reduceCtorEq] at hf
    obtain ⟨rfl, _⟩ | hf := hf
    · exact mem_cons_self
    · cases h.fields n type' hf
  · intro _ e he
    simp only [mem_cons, mem_append, not_mem_nil, or_false] at he
    obtain rfl | he | rfl := he
    · rfl
    · exact h.unwired (by simp) e he
    · rfl

lemma wire {W g} (h : Loose P members es T) (hg : .group g ∈ es)
    (hW : ∀ e ∈ W, e.Ordinary P ∧ e.wires = true) : Loose P members es (T ++ W) := by
  refine ⟨?_, ?_, ?_, ?_, fun hnone => absurd hg (hnone g)⟩
  · have hnone : SceneView.events W = [] := by
      refine filterMap_eq_nil_iff.2 fun e he => ?_
      have hwires := (hW e he).2
      cases e with
      | emit | trigger | callback => rfl
      | _ => cases hwires
    rw [events_append, h.events, hnone, append_nil]
  · intro e he
    obtain he | he := mem_append.1 he
    · exact h.ordinary e he
    · exact (hW e he).1
  · intro site st he m hm
    obtain he | he := mem_append.1 he
    · rw [ownMembers_append, ← append_assoc]
      exact mem_append_left _ (h.owned site st he m hm)
    · have hbinds : st.bindsGroup = true := (hW _ he).2
      cases st with
      | bindGroup => cases hm
      | _ => cases hbinds
  · intro n type hf
    obtain hf | hf := mem_append.1 hf
    · exact h.fields n type hf
    · cases (hW _ hf).2

end Loose

/-- The changes from the declaration of a shared object to the end of its statements. `T` comes
after its construction. -/
def blockEffects (kind : SharedKind) (name type : String) (o : ObjectName) (deferred ensured : Bool)
    (v : Construction) (T : List Effect) : List Effect :=
  .declaration kind name ensured :: .object type o deferred true ::
    ((if ensured then [.emit (.shared kind name) (.guard o.storage)] else []) ++
      (.emit (.shared kind name) (.construct o.storage v) :: T) ++
      (if ensured then [.emit (.shared kind name) (.give o.storage)] else []))

/-- A trace that declares and builds a shared object. -/
inductive Block (kind : SharedKind) (name : String) : List Event → List Effect → Prop where
  | intro {type o deferred ensured v es T} :
    (name ≠ "" → o = ⟨name, true⟩) →
    Loose (· = .shared kind name) [] es T →
    (name = "" → o.isGiven = false) →
    Block kind name (.declaration kind name :: .object type o.given :: es)
      (blockEffects kind name type o deferred ensured v T)

section

variable {kind : SharedKind} {name type : String} {o : ObjectName} {deferred ensured : Bool}
  {v : Construction} {T : List Effect}

lemma emit_mem_blockEffects {site st} :
    .emit site st ∈ blockEffects kind name type o deferred ensured v T ↔
      (site = .shared kind name ∧
        (ensured = true ∧ (st = .guard o.storage ∨ st = .give o.storage) ∨
          st = .construct o.storage v)) ∨ .emit site st ∈ T := by
  cases ensured with
  | false => simp [blockEffects]
  | true =>
    simp only [blockEffects, if_true, mem_cons, mem_append, reduceCtorEq, false_or,
      Effect.emit.injEq, not_mem_nil, or_false]
    grind

lemma mem_blockEffects {e} (he : ∀ site st, e ≠ .emit site st)
    (hd : e ≠ .declaration kind name ensured) (ho : e ≠ .object type o deferred true) :
    e ∈ blockEffects kind name type o deferred ensured v T ↔ e ∈ T := by
  cases ensured <;> simp [blockEffects, he, hd, ho]

end

/-- The methods of the node tree. -/
inductive Site.IsTree : Site → Prop where
  | method {m} : IsHost m → IsTree (.method m)

/-- A trace put together of loose parts, written to the methods of the node tree, and of blocks. -/
inductive Assembled : List Event → List Effect → Prop where
  | nil : Assembled [] []
  | loose {es T es' T'} :
    Loose Site.IsTree [] es T →
    Assembled es' T' →
    Assembled (es ++ es') (T ++ T')
  | block {kind name es T es' T'} :
    Block kind name es T →
    Assembled es' T' →
    Assembled (es ++ es') (T ++ T')

lemma Assembled.append {es T es' T'} (h : Assembled es T) (h' : Assembled es' T') :
    Assembled (es ++ es') (T ++ T') := by
  induction h with
  | nil => exact h'
  | loose hl _ ih =>
    rw [append_assoc, append_assoc]
    exact .loose hl ih
  | block hb _ ih =>
    rw [append_assoc, append_assoc]
    exact .block hb ih

lemma Loose.assembled {es T} (h : Loose Site.IsTree [] es T) : Assembled es T := by
  simpa using Assembled.loose h .nil

lemma Block.assembled {kind name es T} (h : Block kind name es T) : Assembled es T := by
  simpa using Assembled.block h .nil

lemma Block.events {kind name es T} (h : Block kind name es T) : events T = es := by
  cases h with
  | @intro _ _ _ ensured _ _ _ _ hl _ =>
    cases ensured <;> simp [blockEffects, hl.events, Effect.event?, ObjectName.given]

lemma Assembled.events {es T} (h : Assembled es T) : events T = es := by
  induction h with
  | nil => rfl
  | loose hl _ ih | block hl _ ih => rw [events_append, hl.events, ih]

lemma Assembled.fields {es T} (h : Assembled es T) {n type} (hf : .field n type ∈ T) :
    .property n ∈ es := by
  induction h with
  | nil => cases hf
  | loose hl _ ih =>
    obtain hf | hf := mem_append.1 hf
    · exact mem_append_left _ (hl.fields n type hf)
    · exact mem_append_right _ (ih hf)
  | block hb _ ih =>
    obtain hf | hf := mem_append.1 hf
    · refine mem_append_left _ ?_
      cases hb with
      | intro _ hl =>
        rw [mem_blockEffects (by simp) (by simp) (by simp)] at hf
        simpa using hl.fields n type hf
    · exact mem_append_right _ (ih hf)

end SceneView
