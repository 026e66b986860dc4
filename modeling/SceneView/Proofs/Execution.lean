import Mathlib.Logic.Relation
import SceneView.Proofs.Shape

/-!
# Running the generated class

The main method of a generated class runs its statements in order. A statement that calls a method
has the statements of that method run before the next one. The condition of a deferred group is not
known, so that its call may be made or not.

`ClassDef.ReadsEarly` says that some run gives a member away before its object is built. Two rules
settle it. If the methods that are called wait for the object (`Waits`), no run reads it early. If a
method that builds another object on its first use reads the member, and that first use can be
reached, some run does.
-/

open List

namespace SceneView

open Relation

namespace Statement

def calls? : Statement → Option String
  | nodeMaterial _ (.ensure f) | slotTexture _ _ (.ensure f) | trigger _ f => some f
  | _ => none

def isPlain : Statement → Bool
  | construct _ _ | raise _ | leaveIf _ | guard _ | give _ | trigger _ _ => false
  | nodeMaterial _ (.ensure _) | slotTexture _ _ (.ensure _) => false
  | _ => true

lemma calls?_of_reference {st : Statement} {f} (h : st.reference? = some (.ensure f)) :
    st.calls? = some f := by
  cases st <;> cases h <;> rfl

lemma isPlain_of_reference {st : Statement} {m} (h : st.reference? = some (.member m)) :
    st.isPlain = true := by
  cases st <;> cases h <;> rfl

lemma plain_or_construct {st} (h : st.isOrdinary = true) :
    st.isPlain = true ∨ ∃ m v, st = construct m v := by
  cases st with
  | construct m v => exact .inr ⟨m, v, rfl⟩
  | nodeMaterial _ r | slotTexture _ _ r => cases r <;> cases h; exact .inl rfl
  | guard | give | leaveIf | raise | trigger | callback => cases h
  | _ => exact .inl rfl

lemma calls?_eq_none {st : Statement} (h : st.isPlain = true) : st.calls? = none := by
  cases st with
  | nodeMaterial _ r | slotTexture _ _ r => cases r <;> cases h; rfl
  | trigger => cases h
  | _ => rfl

end Statement

/-- A moment in a run of a class. -/
structure Execution where
  frames : List (List Statement)
  built : List String
  raised : List String

namespace ClassDef

/-- One step of a run. -/
inductive Runs (c : ClassDef) : Execution → Execution → Prop where
  | finish {fs B R} :
    Runs c ⟨[] :: fs, B, R⟩ ⟨fs, B, R⟩
  | plain {st k fs B R} :
    st.isPlain = true →
    Runs c ⟨(st :: k) :: fs, B, R⟩ ⟨k :: fs, B, R⟩
  | construct {m v k fs B R} :
    Runs c ⟨(.construct m v :: k) :: fs, B, R⟩ ⟨k :: fs, m :: B, R⟩
  | call {st f k fs B R} :
    st.calls? = some f →
    Runs c ⟨(st :: k) :: fs, B, R⟩ ⟨c.body f :: k :: fs, B, R⟩
  | skip {condition f k fs B R} :
    Runs c ⟨(.trigger condition f :: k) :: fs, B, R⟩ ⟨k :: fs, B, R⟩
  | answer {m k fs B R} :
    m ∈ B →
    Runs c ⟨(.guard m :: k) :: fs, B, R⟩ ⟨fs, B, R⟩
  | build {m k fs B R} :
    m ∉ B →
    Runs c ⟨(.guard m :: k) :: fs, B, R⟩ ⟨k :: fs, B, R⟩
  | give {m k fs B R} :
    Runs c ⟨(.give m :: k) :: fs, B, R⟩ ⟨fs, B, R⟩
  | leave {flag k fs B R} :
    flag ∈ R →
    Runs c ⟨(.leaveIf flag :: k) :: fs, B, R⟩ ⟨fs, B, R⟩
  | stay {flag k fs B R} :
    flag ∉ R →
    Runs c ⟨(.leaveIf flag :: k) :: fs, B, R⟩ ⟨k :: fs, B, R⟩
  | raise {flag k fs B R} :
    Runs c ⟨(.raise flag :: k) :: fs, B, R⟩ ⟨k :: fs, B, flag :: R⟩

def start (c : ClassDef) : Execution :=
  ⟨[c.body Builtin.init], [], []⟩

/-- Some run of the main method comes to a statement that gives the object of a member away. -/
def Reads (c : ClassDef) (member : String) : Prop :=
  ∃ st k fs B R, ReflTransGen c.Runs c.start ⟨(st :: k) :: fs, B, R⟩ ∧
    st.reference? = some (.member member)

/-- Some run of the main method comes to a statement that gives the object of a member away before
that object is built. -/
def ReadsEarly (c : ClassDef) (member : String) : Prop :=
  ∃ st k fs B R, ReflTransGen c.Runs c.start ⟨(st :: k) :: fs, B, R⟩ ∧
    st.reference? = some (.member member) ∧ member ∉ B

end ClassDef

lemma Statement.not_builds_of_isPlain {st : Statement} (h : st.isPlain = true) (m : String) :
    st.builds m = false := by
  cases st with
  | construct => cases h
  | _ => rfl

lemma Statement.not_builds_of_calls {st : Statement} {f} (h : st.calls? = some f) (m : String) :
    st.builds m = false := by
  cases st with
  | construct => cases h
  | _ => rfl

namespace ClassDef.Runs

variable {c : ClassDef} {s s' : Execution}

lemma built_subset (h : c.Runs s s') : s.built ⊆ s'.built := by
  cases h with
  | construct => exact subset_cons_self _ _
  | _ => exact List.Subset.refl _

lemma of_mem_built (h : c.Runs s s') {m} (hm : m ∈ s'.built) :
    m ∈ s.built ∨ ∃ st k, (st :: k) ∈ s.frames ∧ st.builds m = true := by
  cases h with
  | construct =>
    obtain rfl | hm := mem_cons.1 hm
    · exact .inr ⟨_, _, mem_cons_self, by simp⟩
    · exact .inl hm
  | _ => exact .inl hm

lemma frames_eq (h : c.Runs s s') :
    ∃ k fs, s.frames = k :: fs ∧ (s'.frames = fs ∨
      ∃ st k', k = st :: k' ∧ (∀ m, st.builds m = true → m ∈ s'.built) ∧
        (s'.frames = k' :: fs ∨ ∃ f, st.calls? = some f ∧ s'.frames = c.body f :: k' :: fs)) := by
  cases h with
  | finish | answer _ | give | leave _ => exact ⟨_, _, rfl, .inl rfl⟩
  | plain hp =>
    refine ⟨_, _, rfl, .inr ⟨_, _, rfl, fun m hm => ?_, .inl rfl⟩⟩
    rw [Statement.not_builds_of_isPlain hp] at hm
    cases hm
  | construct =>
    refine ⟨_, _, rfl, .inr ⟨_, _, rfl, fun m hm => ?_, .inl rfl⟩⟩
    obtain rfl := beq_iff_eq.1 hm
    exact mem_cons_self
  | skip | build _ | stay _ | raise =>
    exact ⟨_, _, rfl, .inr ⟨_, _, rfl, fun _ hm => absurd hm Bool.false_ne_true, .inl rfl⟩⟩
  | call hf =>
    refine ⟨_, _, rfl, .inr ⟨_, _, rfl, fun m hm => ?_, .inr ⟨_, hf, rfl⟩⟩⟩
    rw [Statement.not_builds_of_calls hf] at hm
    cases hm

end ClassDef.Runs

/-- The statement does not read the member and calls only the given methods. -/
def Statement.Waits (F : String → Prop) (member : String) (st : Statement) : Prop :=
  st.reference? ≠ some (.member member) ∧ ∀ f, st.calls? = some f → F f

def Waits (F : String → Prop) (member : String) : List Statement → Prop
  | [] => True
  | st :: k => st.Waits F member ∧ (st.builds member = true ∨ Waits F member k)

/-- All that is still to be run waits, unless the member is built. -/
def Execution.Waits (F : String → Prop) (member : String) (s : Execution) : Prop :=
  member ∈ s.built ∨ ∀ k ∈ s.frames, SceneView.Waits F member k

section

variable {c : ClassDef} {F : String → Prop} {member : String}

lemma Statement.Waits.of_none {st : Statement} (hr : st.reference? = none) (hc : st.calls? = none) :
    st.Waits F member :=
  ⟨by simp [hr], by simp [hc]⟩

lemma Waits.append {K k} (hK : ∀ st ∈ K, st.Waits F member) (hk : Waits F member k) :
    Waits F member (K ++ k) := by
  induction K with
  | nil => exact hk
  | cons st K ih =>
    refine ⟨hK st mem_cons_self, .inr (ih fun st' hst' => ?_)⟩
    exact hK st' (mem_cons_of_mem _ hst')

lemma Waits.of_forall {K} (hK : ∀ st ∈ K, st.Waits F member) : Waits F member K := by
  simpa using Waits.append hK (k := []) trivial

lemma Waits.construct (v : Construction) (k : List Statement) :
    Waits F member (.construct member v :: k) := by
  exact ⟨.of_none rfl rfl, .inl (by simp)⟩

lemma ClassDef.Runs.waits (hF : ∀ f, F f → Waits F member (c.body f)) {s s'} (h : c.Runs s s')
    (hs : s.Waits F member) : s'.Waits F member := by
  by_cases hb : member ∈ s'.built
  · exact .inl hb
  have hw := hs.resolve_left fun hmem => hb (h.built_subset hmem)
  refine .inr ?_
  obtain ⟨k, fs, hframes, hleft | ⟨st, k', rfl, hbuilds, hnext⟩⟩ := h.frames_eq
  · rw [hleft]
    exact fun k' hk' => hw k' (hframes ▸ mem_cons_of_mem _ hk')
  · rw [hframes] at hw
    obtain ⟨⟨_, hcalls⟩, hrest⟩ := hw _ mem_cons_self
    have hk' : ∀ k ∈ k' :: fs, SceneView.Waits F member k := by
      intro k hk
      obtain rfl | hk := mem_cons.1 hk
      · exact hrest.resolve_left fun hm => hb (hbuilds member hm)
      · exact hw k (mem_cons_of_mem _ hk)
    obtain hnext | ⟨f, hf, hnext⟩ := hnext
    · rw [hnext]
      exact hk'
    · rw [hnext]
      intro k hk
      obtain rfl | hk := mem_cons.1 hk
      · exact hF f (hcalls f hf)
      · exact hk' k hk

lemma ClassDef.waits_of_start (hinit : F Builtin.init) (hF : ∀ f, F f → Waits F member (c.body f))
    {s} (h : ReflTransGen c.Runs c.start s) : s.Waits F member := by
  induction h with
  | refl =>
    refine .inr fun k hk => ?_
    obtain rfl := mem_singleton.1 hk
    exact hF _ hinit
  | tail _ st ih => exact st.waits hF ih

lemma ClassDef.not_readsEarly (hinit : F Builtin.init)
    (hF : ∀ f, F f → Waits F member (c.body f)) : ¬ c.ReadsEarly member := by
  rintro ⟨st, k, fs, B, R, hrun, hread, hB⟩
  obtain hb | hw := ClassDef.waits_of_start hinit hF hrun
  · exact hB hb
  · exact (hw _ mem_cons_self).1.1 hread

end

namespace ClassDef

section

variable {c : ClassDef} {member : String}

lemma Runs.not_built (hbody : ∀ f, ∀ st ∈ c.body f, st.builds member = false) {s s'}
    (h : c.Runs s s') (hs : ∀ k ∈ s.frames, ∀ st ∈ k, st.builds member = false)
    (hb : member ∉ s.built) :
    (∀ k ∈ s'.frames, ∀ st ∈ k, st.builds member = false) ∧ member ∉ s'.built := by
  constructor
  · obtain ⟨k, fs, hframes, hleft | ⟨st, k', rfl, _, hnext⟩⟩ := h.frames_eq
    · rw [hleft]
      exact fun k' hk' => hs k' (hframes ▸ mem_cons_of_mem _ hk')
    · rw [hframes, forall_mem_cons, forall_mem_cons] at hs
      obtain hnext | ⟨f, _, hnext⟩ := hnext
      · rw [hnext, forall_mem_cons]
        exact ⟨hs.1.2, hs.2⟩
      · rw [hnext, forall_mem_cons, forall_mem_cons]
        exact ⟨hbody f, hs.1.2, hs.2⟩
  · intro hmem
    obtain hmem | ⟨st, k, hk, hst⟩ := h.of_mem_built hmem
    · exact hb hmem
    · rw [hs _ hk st mem_cons_self] at hst
      cases hst

lemma not_built_of_start (h : ∀ f, ∀ st ∈ c.body f, st.builds member = false) {s}
    (hrun : ReflTransGen c.Runs c.start s) :
    (∀ k ∈ s.frames, ∀ st ∈ k, st.builds member = false) ∧ member ∉ s.built := by
  induction hrun with
  | refl =>
    refine ⟨fun k hk => ?_, not_mem_nil⟩
    obtain rfl := mem_singleton.1 hk
    exact h _
  | tail _ st ih => exact st.not_built h ih.1 ih.2

lemma readsEarly_iff_reads (h : ∀ f, ∀ st ∈ c.body f, st.builds member = false) :
    c.ReadsEarly member ↔ c.Reads member := by
  constructor
  · rintro ⟨st, k, fs, B, R, hrun, hread, _⟩
    exact ⟨st, k, fs, B, R, hrun, hread⟩
  · rintro ⟨st, k, fs, B, R, hrun, hread⟩
    exact ⟨st, k, fs, B, R, hrun, hread, (not_built_of_start h hrun).2⟩

end

variable {c : ClassDef} {avoid : String → Prop}

/-- The method builds none of the avoided members by itself. -/
def Spares (c : ClassDef) (avoid : String → Prop) (f : String) : Prop :=
  ∀ st ∈ c.body f, ∀ m, avoid m → st.builds m = false

/-- A call of the method comes back with none of the avoided members built. -/
def Returns (c : ClassDef) (avoid : String → Prop) (f : String) : Prop :=
  ∀ fs B R, (∀ m, avoid m → m ∉ B) →
    ∃ B', (∀ m, avoid m → m ∉ B') ∧ ReflTransGen c.Runs ⟨c.body f :: fs, B, R⟩ ⟨fs, B', R⟩

/-- A statement that a run gets past with none of the avoided members built. -/
inductive Passes (c : ClassDef) (avoid : String → Prop) : Statement → Prop where
  | plain {st} :
    st.isPlain = true →
    Passes c avoid st
  | construct {m v} :
    ¬ avoid m →
    Passes c avoid (.construct m v)
  | call {st f} :
    st.calls? = some f →
    c.Returns avoid f →
    Passes c avoid st

lemma Passes.run {K} (hK : ∀ st ∈ K, c.Passes avoid st) (k : List Statement)
    (fs : List (List Statement)) (R : List String) {B} (hB : ∀ m, avoid m → m ∉ B) :
    ∃ B', (∀ m, avoid m → m ∉ B') ∧
      ReflTransGen c.Runs ⟨(K ++ k) :: fs, B, R⟩ ⟨k :: fs, B', R⟩ := by
  induction K generalizing B with
  | nil => exact ⟨B, hB, .refl⟩
  | cons st K ih =>
    have ih := fun {B} => @ih (fun st' hst' => hK st' (mem_cons_of_mem _ hst')) B
    cases hK st mem_cons_self with
    | plain hp =>
      obtain ⟨B', hB', hrun⟩ := ih hB
      exact ⟨B', hB', .head (.plain hp) hrun⟩
    | @construct m v hm =>
      have hmB : ∀ m', avoid m' → m' ∉ m :: B := by
        intro m' hm' hmem
        obtain rfl | hmem := mem_cons.1 hmem
        · exact hm hm'
        · exact hB m' hm' hmem
      obtain ⟨B', hB', hrun⟩ := ih hmB
      exact ⟨B', hB', .head .construct hrun⟩
    | call hc hf =>
      obtain ⟨B₁, hB₁, hcall⟩ := hf ((K ++ k) :: fs) B R hB
      obtain ⟨B', hB', hrun⟩ := ih hB₁
      exact ⟨B', hB', .head (.call hc) (hcall.trans hrun)⟩

lemma Returns.of_body {f x v K} (hbody : c.body f = .guard x :: .construct x v :: (K ++ [.give x]))
    (hx : ¬ avoid x) (hK : ∀ st ∈ K, c.Passes avoid st) : c.Returns avoid f := by
  intro fs B R hB
  rw [hbody]
  by_cases hmem : x ∈ B
  · exact ⟨B, hB, .single (.answer hmem)⟩
  · have hparts : ∀ st ∈ .construct x v :: K, c.Passes avoid st := by
      intro st hst
      obtain rfl | hst := mem_cons.1 hst
      · exact .construct hx
      · exact hK st hst
    obtain ⟨B', hB', hrun⟩ := Passes.run hparts [.give x] fs R hB
    exact ⟨B', hB', .head (.build hmem) (hrun.tail .give)⟩

lemma readsEarly_of_call {member flag f x v K₁ K₂ L₁ L₂ st read}
    (hinit : c.body Builtin.init = .leaveIf flag :: .raise flag :: (K₁ ++ st :: K₂))
    (hK : ∀ st ∈ K₁, c.Passes (fun m => m = x ∨ m = member) st) (hcall : st.calls? = some f)
    (hbody : c.body f = .guard x :: .construct x v :: (L₁ ++ read :: L₂)) (hne : x ≠ member)
    (hL : ∀ st ∈ L₁, c.Passes (· = member) st) (hread : read.reference? = some (.member member)) :
    c.ReadsEarly member := by
  obtain ⟨B, hB, hfirst⟩ := Passes.run hK (st :: K₂) [] [flag] (B := []) (by simp)
  have hx : x ∉ B := hB x (.inl rfl)
  have hB' : ∀ m, m = member → m ∉ x :: B := by
    rintro m rfl hmem
    obtain rfl | hmem := mem_cons.1 hmem
    · exact hne rfl
    · exact hB _ (.inr rfl) hmem
  obtain ⟨B₂, hB₂, hsecond⟩ := Passes.run hL (read :: L₂) [K₂] [flag] hB'
  refine ⟨read, L₂, [K₂], B₂, [flag], ?_, hread, hB₂ _ rfl⟩
  have hstart : ReflTransGen c.Runs c.start ⟨[K₁ ++ st :: K₂], [], [flag]⟩ := by
    rw [start, hinit]
    exact .head (.stay not_mem_nil) (.single .raise)
  have hinto : ReflTransGen c.Runs ⟨[st :: K₂], B, [flag]⟩
      ⟨[L₁ ++ read :: L₂, K₂], x :: B, [flag]⟩ := by
    refine .head (.call hcall) ?_
    rw [hbody]
    exact .head (.build hx) (.single .construct)
  exact hstart.trans (hfirst.trans (hinto.trans hsecond))

end ClassDef

end SceneView
