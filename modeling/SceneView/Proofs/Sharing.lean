import Mathlib.Data.List.Induction
import Mathlib.Data.String.Basic
import SceneView.Proofs.Table

/-!
# Shared objects over whole runs

Calls on the table of shared objects, one after the other from the empty table, with what each of
them is answered. An object is in one of two states, built where it is declared or built on first
use, and what decides is which comes first, its declaration or a reference to it. A call sees and
changes the entry of its own object only (`SharedTable.call_of_isFor`), and the history of the
answers tells what that entry is (`SharedTable.run_life`), so a whole run can be read off its
history.
-/

open List

namespace SceneView

/-- A call on the table of shared objects. -/
inductive SharedCall where
  | register (kind : SharedKind) (name method : String)
  | access (kind : SharedKind) (name : String)
  | declare (kind : SharedKind) (name : String)
deriving DecidableEq, Repr

inductive SharedReply where
  | registered
  | accessed (access : Access)
  | declared (site : BuildSite)
  | refused (fault : Fault)
deriving DecidableEq, Repr

abbrev SharedEvent := SharedCall × SharedReply

def SharedCall.isFor (kind : SharedKind) (name : String) : SharedCall → Bool
  | register k n _ | access k n | declare k n => k == kind && n == name

namespace SharedTable

/-- The answer to a call and the table for the next one; a call that is refused keeps the table. -/
def call (t : SharedTable) : SharedCall → SharedReply × SharedTable
  | .register kind name method =>
    match t.register kind name method with
    | .ok t' => (.registered, t')
    | .error fault => (.refused fault, t)
  | .access kind name =>
    match t.access kind name with
    | .ok (access, t') => (.accessed access, t')
    | .error fault => (.refused fault, t)
  | .declare kind name =>
    match t.declare kind name with
    | .ok (site, t') => (.declared site, t')
    | .error fault => (.refused fault, t)

def run (calls : List SharedCall) : List SharedEvent × SharedTable :=
  calls.foldl (fun (events, t) c => (events ++ [(c, (t.call c).1)], (t.call c).2)) ([], {})

@[simp]
lemma run_snoc (calls : List SharedCall) (c : SharedCall) :
    run (calls ++ [c]) =
      ((run calls).1 ++ [(c, ((run calls).2.call c).1)], ((run calls).2.call c).2) := by
  simp [run, foldl_append]

end SharedTable

namespace SharedCall

/-- What a call does to the entry of its object, and its answer. -/
def act : SharedCall → Option SharedEntry → SharedReply × Option SharedEntry
  | register kind name method, none =>
    (.registered, some { kind, name, site := .direct method, declared := false })
  | register kind name _, some e =>
    (.refused (.conflict (.sharedObject kind.referenceKind name) 0), some e)
  | access kind name, none | declare kind name, none =>
    (.refused (.reference kind.referenceKind name 0), none)
  | access _ name, some e =>
    match e.site with
    | .ensured method => (.accessed (.ensure method false), some e)
    | .direct _ =>
      if e.declared then (.accessed .member, some e)
      else
        (.accessed (.ensure (ensureMethod name) true),
          some { e with site := .ensured (ensureMethod name) })
  | declare kind name, some e =>
    if e.declared then (.refused (.conflict (.sharedObject kind.referenceKind name) 0), some e)
    else (.declared e.site, some { e with declared := true })

variable {entry : Option SharedEntry}

lemma refused_register_iff {kind name method fault} :
    ((register kind name method).act entry).1 = .refused fault ↔
      entry ≠ none ∧ fault = .conflict (.sharedObject kind.referenceKind name) 0 := by
  cases entry <;> simp [act, eq_comm]

lemma refused_access_iff {kind name fault} :
    ((access kind name).act entry).1 = .refused fault ↔
      entry = none ∧ fault = .reference kind.referenceKind name 0 := by
  cases entry with
  | none => simp [act, eq_comm]
  | some e =>
    simp only [act, reduceCtorEq, false_and, iff_false]
    split
    · simp
    · split <;> simp

lemma refused_declare_iff {kind name fault} :
    ((declare kind name).act entry).1 = .refused fault ↔
      (entry = none ∧ fault = .reference kind.referenceKind name 0) ∨
        (∃ e, entry = some e ∧ e.declared = true) ∧
          fault = .conflict (.sharedObject kind.referenceKind name) 0 := by
  cases entry with
  | none => simpa [act] using eq_comm
  | some e =>
    cases hd : e.declared with
    | false => simp [act, hd]
    | true => simpa [act, hd] using eq_comm

end SharedCall

open SharedCall

namespace SharedTable

variable {c : SharedCall}

lemma call_of_isFor {kind name} (hc : c.isFor kind name = true) (t : SharedTable) :
    (t.call c).1 = (c.act (t.find? kind name)).1 ∧
      (t.call c).2.find? kind name = (c.act (t.find? kind name)).2 := by
  cases c with
  | register k n method =>
    obtain ⟨rfl, rfl⟩ : k = kind ∧ n = name := by simpa [isFor] using hc
    cases hf : t.find? k n with
    | some e => simp [call, register, act, hf]
    | none =>
      have hr : t.register k n method =
          .ok { entries := insertEntry ⟨k, n, .direct method, false⟩ t.entries } := by
        simp [register, hf]
      simp [call, hr, (register_eq_ok hr).2.2 k n, act]
  | access k n =>
    obtain ⟨rfl, rfl⟩ : k = kind ∧ n = name := by simpa [isFor] using hc
    cases hr : t.access k n with
    | error fault =>
      cases hf : t.find? k n with
      | none => simp_all [call, SharedTable.access, act]
      | some e => grind [SharedTable.access]
    | ok r =>
      obtain ⟨a, t'⟩ := r
      obtain ⟨e, hf, -, h⟩ := access_eq_ok hr
      simp only [call, hr, hf, act]
      obtain ⟨m, hs, rfl, rfl⟩ | ⟨m, hs, hd, rfl, rfl⟩ | ⟨m, hs, hd, rfl, h⟩ := h
      · simp [hs, hf]
      · simp [hs, hd, hf]
      · simp [hs, hd, h]
  | declare k n =>
    obtain ⟨rfl, rfl⟩ : k = kind ∧ n = name := by simpa [isFor] using hc
    cases hr : t.declare k n with
    | error fault =>
      cases hf : t.find? k n with
      | none => simp_all [call, declare, act]
      | some e => grind [call, declare, act]
    | ok r =>
      obtain ⟨site, t'⟩ := r
      obtain ⟨e, hf, hd, rfl, -, h⟩ := declare_eq_ok hr
      simp [call, hr, hf, act, hd, h]

lemma find?_call_of_not_isFor {kind name} (hc : c.isFor kind name = false) (t : SharedTable) :
    (t.call c).2.find? kind name = t.find? kind name := by
  cases c with
  | register k n method =>
    have hne : ¬ (k = kind ∧ n = name) := by simpa [isFor] using hc
    simp only [call]
    split
    · rename_i t' hr
      exact ((register_eq_ok hr).2.2 kind name).trans (if_neg hne)
    · rfl
  | access k n =>
    have hne : ¬ (k = kind ∧ n = name) := by simpa [isFor] using hc
    simp only [call]
    split
    · rename_i a t' hr
      obtain ⟨e, -, -, h⟩ := access_eq_ok hr
      obtain ⟨m, -, -, rfl⟩ | ⟨m, -, -, -, rfl⟩ | ⟨m, -, -, -, h⟩ := h
      · rfl
      · rfl
      · exact (h kind name).trans (if_neg hne)
    · rfl
  | declare k n =>
    have hne : ¬ (k = kind ∧ n = name) := by simpa [isFor] using hc
    simp only [call]
    split
    · rename_i site t' hr
      obtain ⟨e, -, -, -, -, h⟩ := declare_eq_ok hr
      exact (h kind name).trans (if_neg hne)
    · rfl

lemma call_of_refused {t : SharedTable} {fault} (h : (t.call c).1 = .refused fault) :
    (t.call c).2 = t := by
  cases c with
  | register | access | declare =>
    simp only [call] at h ⊢
    split at h <;> cases h
    rfl

end SharedTable

def SharedReply.isSuccess : SharedReply → Bool
  | refused _ => false
  | _ => true

def SharedEvent.successes (kind : SharedKind) (name : String) (events : List SharedEvent) :
    List SharedEvent :=
  events.filter fun e => e.1.isFor kind name && e.2.isSuccess

open SharedEvent

/-- The lives of the object of a kind and a name, as sequences of calls that succeed with their
answers, and the entry that each of them ends with. A life starts with the registration. If a
reference comes next, the object is ensured for good: this reference alone creates the method that
ensures it, all the others call it, and the declaration is told to write to it. If the declaration
comes next, the object is built in the method it was registered with, and all references read its
member. -/
inductive SharedLife (kind : SharedKind) (name : String) :
    List SharedEvent → Option SharedEntry → Prop where
  | unknown : SharedLife kind name [] none
  | registered {method : String} :
    SharedLife kind name [(.register kind name method, .registered)]
      (some { kind, name, site := .direct method, declared := false })
  | ensured {method : String} {later : List SharedEvent} {declared : Bool} :
    (∀ e ∈ later, e = (.access kind name, .accessed (.ensure (ensureMethod name) false)) ∨
      e = (.declare kind name, .declared (.ensured (ensureMethod name)))) →
    (declared = true ↔ (.declare kind name, .declared (.ensured (ensureMethod name))) ∈ later) →
    SharedLife kind name
      ((.register kind name method, .registered) ::
        (.access kind name, .accessed (.ensure (ensureMethod name) true)) :: later)
      (some { kind, name, site := .ensured (ensureMethod name), declared })
  | built {method : String} {later : List SharedEvent} :
    (∀ e ∈ later, e = (.access kind name, .accessed .member)) →
    SharedLife kind name
      ((.register kind name method, .registered) ::
        (.declare kind name, .declared (.direct method)) :: later)
      (some { kind, name, site := .direct method, declared := true })

namespace SharedLife

variable {kind : SharedKind} {name : String}

lemma act {events : List SharedEvent} {entry : Option SharedEntry}
    (h : SharedLife kind name events entry) {c : SharedCall} (hc : c.isFor kind name = true) :
    SharedLife kind name
      (events ++ if (c.act entry).1.isSuccess then [(c, (c.act entry).1)] else [])
      (c.act entry).2 := by
  cases c with
  | register k n method =>
    obtain ⟨rfl, rfl⟩ : k = kind ∧ n = name := by simpa [isFor] using hc
    cases h with
    | unknown => exact .registered
    | registered => simpa [act, SharedReply.isSuccess] using .registered
    | ensured hl hd => simpa [act, SharedReply.isSuccess] using .ensured hl hd
    | built hl => simpa [act, SharedReply.isSuccess] using .built hl
  | access k n =>
    obtain ⟨rfl, rfl⟩ : k = kind ∧ n = name := by simpa [isFor] using hc
    cases h with
    | unknown => exact .unknown
    | registered => exact .ensured (by simp) (by simp)
    | ensured hl hd =>
      exact .ensured (forall_mem_append.2 ⟨hl, forall_mem_singleton.2 (.inl rfl)⟩)
        (by simpa [act, SharedReply.isSuccess] using hd)
    | built hl => exact .built (forall_mem_append.2 ⟨hl, forall_mem_singleton.2 rfl⟩)
  | declare k n =>
    obtain ⟨rfl, rfl⟩ : k = kind ∧ n = name := by simpa [isFor] using hc
    cases h with
    | unknown => exact .unknown
    | registered => exact .built (by simp)
    | @ensured method later declared hl hd =>
      cases declared with
      | true => simpa [act, SharedReply.isSuccess] using .ensured hl hd
      | false =>
        exact .ensured (forall_mem_append.2 ⟨hl, forall_mem_singleton.2 (.inr rfl)⟩)
          (by simp [act, SharedReply.isSuccess])
    | built hl => simpa [act, SharedReply.isSuccess] using .built hl

end SharedLife

def SharedEvent.Registered (kind : SharedKind) (name : String) (events : List SharedEvent) : Prop :=
  ∃ method, (.register kind name method, .registered) ∈ events

def SharedEvent.Declared (kind : SharedKind) (name : String) (events : List SharedEvent) : Prop :=
  ∃ site, (.declare kind name, .declared site) ∈ events

namespace SharedLife

variable {kind : SharedKind} {name : String} {events : List SharedEvent}
  {entry : Option SharedEntry}

lemma registered_iff (h : SharedLife kind name (successes kind name events) entry) :
    SharedEvent.Registered kind name events ↔ entry ≠ none := by
  have hmem : SharedEvent.Registered kind name events ↔
      ∃ method, (.register kind name method, .registered) ∈
        successes kind name events := by
    simp [SharedEvent.Registered, successes, isFor, SharedReply.isSuccess]
  rw [hmem]
  generalize successes kind name events = own at h
  cases h with
  | unknown => simp
  | registered | ensured | built => simp

lemma declared_iff (h : SharedLife kind name (successes kind name events) entry) :
    SharedEvent.Declared kind name events ↔ ∃ e, entry = some e ∧ e.declared = true := by
  have hmem : SharedEvent.Declared kind name events ↔
      ∃ site, (.declare kind name, .declared site) ∈
        successes kind name events := by
    simp [SharedEvent.Declared, successes, isFor, SharedReply.isSuccess]
  rw [hmem]
  generalize successes kind name events = own at h
  cases h with
  | unknown | registered | built => simp
  | ensured hl hd =>
    simp only [mem_cons, Option.some.injEq, exists_eq_left', hd]
    constructor
    · rintro ⟨site, h | h | h⟩
      · cases h
      · cases h
      · obtain h' | h' := hl _ h
        · cases h'
        · exact h' ▸ h
    · exact fun h => ⟨_, .inr (.inr h)⟩

end SharedLife

namespace SharedTable

lemma run_life (calls : List SharedCall) (kind : SharedKind) (name : String) :
    SharedLife kind name (successes kind name (run calls).1)
      ((run calls).2.find? kind name) := by
  induction calls using reverseRecOn with
  | nil => exact .unknown
  | append_singleton calls c ih =>
    rw [run_snoc]
    simp only [successes, filter_append] at ih ⊢
    cases hc : c.isFor kind name with
    | false => simpa [hc, find?_call_of_not_isFor hc] using ih
    | true =>
      obtain ⟨hreply, hentry⟩ := call_of_isFor hc (run calls).2
      have := ih.act hc
      rw [hentry, hreply]
      simpa [filter_cons, hc] using this

lemma run_filter (calls : List SharedCall) (kind : SharedKind) (name : String) :
    (run calls).1.filter (·.1.isFor kind name) = (run (calls.filter (·.isFor kind name))).1 ∧
      (run calls).2.find? kind name =
        (run (calls.filter (·.isFor kind name))).2.find? kind name := by
  induction calls using reverseRecOn with
  | nil => exact ⟨rfl, rfl⟩
  | append_singleton calls c ih =>
    obtain ⟨hevents, hentry⟩ := ih
    cases hc : c.isFor kind name with
    | false => simp [hc, hevents, find?_call_of_not_isFor hc, hentry]
    | true =>
      have own := call_of_isFor hc (run calls).2
      have alone := call_of_isFor hc (run (calls.filter (·.isFor kind name))).2
      rw [← hentry] at alone
      simp [hc, hevents, own, alone]

end SharedTable

namespace SharedEntry

variable {a b : SharedEntry}

lemma precedes_iff :
    a.precedes b = true ↔ a.kind.rank < b.kind.rank ∨ a.kind = b.kind ∧ a.name < b.name := by
  simp [precedes]

lemma precedes_trans {c} (hab : a.precedes b = true) (hbc : b.precedes c = true) :
    a.precedes c = true := by
  rw [precedes_iff] at hab hbc ⊢
  obtain hab | ⟨kab, nab⟩ := hab
  · obtain hbc | ⟨kbc, -⟩ := hbc
    · exact .inl (hab.trans hbc)
    · exact .inl (kbc ▸ hab)
  · obtain hbc | ⟨kbc, nbc⟩ := hbc
    · exact .inl (kab ▸ hbc)
    · exact .inr ⟨kab.trans kbc, nab.trans nbc⟩

lemma precedes_or_precedes (h : a.isAt b.kind b.name = false) :
    b.precedes a = true ∨ a.precedes b = true := by
  simp only [precedes_iff]
  have hne : a.kind = b.kind → a.name ≠ b.name := by
    intro hk hn
    rw [isAt_iff.2 ⟨hk, hn⟩] at h
    cases h
  by_cases hk : a.kind = b.kind
  · obtain hn | hn := lt_or_gt_of_ne (hne hk)
    · exact .inr (.inr ⟨hk, hn⟩)
    · exact .inl (.inr ⟨hk.symm, hn⟩)
  · cases ha : a.kind <;> cases hb : b.kind <;> simp_all [SharedKind.rank]

end SharedEntry

namespace SharedTable

/-- The entries stand in the order of their kinds and names. -/
def Ordered (t : SharedTable) : Prop :=
  t.entries.Pairwise fun a b => a.precedes b = true

lemma pairwise_insertEntry {e entries} (h : entries.Pairwise fun a b => a.precedes b = true)
    (hf : entries.find? (·.isAt e.kind e.name) = none) :
    (insertEntry e entries).Pairwise fun a b => a.precedes b = true := by
  induction entries with
  | nil => simp [insertEntry]
  | cons a entries ih =>
    obtain ⟨ha, hrest⟩ := pairwise_cons.1 h
    have hne : a.isAt e.kind e.name = false := by
      simpa using List.find?_eq_none.1 hf a mem_cons_self
    simp only [List.find?_cons, hne] at hf
    unfold insertEntry
    split
    · rename_i hea
      refine pairwise_cons.2 ⟨fun b hb => ?_, h⟩
      obtain rfl | hb := mem_cons.1 hb
      · exact hea
      · exact SharedEntry.precedes_trans hea (ha b hb)
    · rename_i hea
      refine pairwise_cons.2 ⟨fun b hb => ?_, ih hrest hf⟩
      obtain rfl | hb := mem_insertEntry.1 hb
      · exact (SharedEntry.precedes_or_precedes hne).resolve_left hea
      · exact ha b hb

lemma Ordered.update {t : SharedTable} (h : t.Ordered) (e : SharedEntry) :
    (t.update e).Ordered := by
  have key : ∀ a : SharedEntry, (if a.isAt e.kind e.name then e else a).kind = a.kind ∧
      (if a.isAt e.kind e.name then e else a).name = a.name := by
    intro a
    split
    · rename_i ha
      obtain ⟨hk, hn⟩ := SharedEntry.isAt_iff.1 ha
      exact ⟨hk.symm, hn.symm⟩
    · exact ⟨rfl, rfl⟩
  refine pairwise_map.2 (h.imp fun {a b} hab => ?_)
  rw [SharedEntry.precedes_iff] at hab ⊢
  rw [(key a).1, (key a).2, (key b).1, (key b).2]
  exact hab

variable {t : SharedTable}

lemma call_ordered (ht : t.Ordered ∧ t.Keyed) (c : SharedCall) :
    (t.call c).2.Ordered ∧ (t.call c).2.Keyed := by
  cases c with
  | register kind name method =>
    simp only [call]
    split
    · rename_i t' hr
      refine ⟨?_, (register_eq_ok hr).2.1 ht.2⟩
      have hf := (register_eq_ok hr).1
      simp only [register, hf, Except.ok.injEq] at hr
      subst hr
      exact pairwise_insertEntry ht.1 hf
    · exact ht
  | access kind name =>
    simp only [call]
    split
    · rename_i a t' hr
      obtain ⟨e, hf, hk, -⟩ := access_eq_ok hr
      refine ⟨?_, hk ht.2⟩
      simp only [SharedTable.access, hf] at hr
      split at hr
      · cases hr
        exact ht.1
      · split at hr
        · cases hr
          exact ht.1
        · cases hr
          exact ht.1.update _
    · exact ht
  | declare kind name =>
    simp only [call]
    split
    · rename_i site t' hr
      obtain ⟨e, hf, hd, rfl, hk, -⟩ := declare_eq_ok hr
      refine ⟨?_, hk ht.2⟩
      simp only [declare, hf, hd, Bool.false_eq_true, if_false, Except.ok.injEq,
        Prod.mk.injEq, true_and] at hr
      subst hr
      exact ht.1.update _
    · exact ht

lemma run_ordered (calls : List SharedCall) : (run calls).2.Ordered ∧ (run calls).2.Keyed := by
  induction calls using reverseRecOn with
  | nil => exact ⟨List.Pairwise.nil, fun _ he => absurd he not_mem_nil⟩
  | append_singleton calls c ih =>
    rw [run_snoc]
    exact call_ordered ih c

lemma Keyed.mem_undeclared_iff (hk : t.Keyed) {kind name} :
    (kind, name) ∈ t.undeclared ↔ ∃ e, t.find? kind name = some e ∧ e.declared = false := by
  simp only [undeclared, mem_map, mem_filter, Bool.not_eq_true', Prod.mk.injEq]
  constructor
  · rintro ⟨e, ⟨he, hd⟩, rfl, rfl⟩
    exact ⟨e, hk e he, hd⟩
  · rintro ⟨e, hf, hd⟩
    exact ⟨e, ⟨mem_of_find?_eq_some hf, hd⟩, find?_isAt hf⟩

lemma Ordered.pairwise_undeclared (h : t.Ordered) :
    t.undeclared.Pairwise fun a b => a.1.rank < b.1.rank ∨ a.1 = b.1 ∧ a.2 < b.2 :=
  pairwise_map.2 ((h.filter _).imp SharedEntry.precedes_iff.1)

/-- Over every run of calls on the table and for every object:

* after the run, a registration of the object is refused if it is registered already, a reference to
  it and a declaration of it are refused if it is not registered, and a declaration also if it is
  declared already; these are the only refusals, and none of them changes the table;
* the calls that succeed are a life of the object: ensured from the first reference on if that comes
  before the declaration, and otherwise built where the declaration stands;
* the answers are those that the calls about the object get if no other call is made;
* what is left to declare are the objects that are registered and not declared, each once, in the
  order of their kinds and names. -/
theorem shared_object_states (calls : List SharedCall) (kind : SharedKind) (name : String) :
    let events := (run calls).1
    let table := (run calls).2
    ((∀ method fault, (table.call (.register kind name method)).1 = .refused fault ↔
        SharedEvent.Registered kind name events ∧
          fault = .conflict (.sharedObject kind.referenceKind name) 0) ∧
      (∀ fault, (table.call (.access kind name)).1 = .refused fault ↔
        ¬ SharedEvent.Registered kind name events ∧
          fault = .reference kind.referenceKind name 0) ∧
      (∀ fault, (table.call (.declare kind name)).1 = .refused fault ↔
        (¬ SharedEvent.Registered kind name events ∧
          fault = .reference kind.referenceKind name 0) ∨
        (SharedEvent.Declared kind name events ∧
          fault = .conflict (.sharedObject kind.referenceKind name) 0)) ∧
      ∀ call fault, (table.call call).1 = .refused fault → (table.call call).2 = table) ∧
    SharedLife kind name (SharedEvent.successes kind name events) (table.find? kind name) ∧
    events.filter (·.1.isFor kind name) = (run (calls.filter (·.isFor kind name))).1 ∧
    ((kind, name) ∈ table.undeclared ↔
      SharedEvent.Registered kind name events ∧ ¬ SharedEvent.Declared kind name events) ∧
    table.undeclared.Pairwise fun a b => a.1.rank < b.1.rank ∨ a.1 = b.1 ∧ a.2 < b.2 := by
  intro events table
  have life : SharedLife kind name (SharedEvent.successes kind name events)
      (table.find? kind name) := run_life calls kind name
  have hreg := life.registered_iff
  have hdecl := life.declared_iff
  have reply : ∀ c : SharedCall, c.isFor kind name = true →
      (table.call c).1 = (c.act (table.find? kind name)).1 :=
    fun c hc => (call_of_isFor hc table).1
  refine ⟨⟨fun method fault => ?_, fun fault => ?_, fun fault => ?_, fun _ _ => call_of_refused⟩,
    life, (run_filter calls kind name).1, ?_, (run_ordered calls).1.pairwise_undeclared⟩
  · rw [reply (.register kind name method) (by simp [SharedCall.isFor]), hreg,
      SharedCall.refused_register_iff]
  · rw [reply (.access kind name) (by simp [SharedCall.isFor]), hreg,
      SharedCall.refused_access_iff, not_not]
  · rw [reply (.declare kind name) (by simp [SharedCall.isFor]), hreg, hdecl,
      SharedCall.refused_declare_iff, not_not]
  · rw [(run_ordered calls).2.mem_undeclared_iff, hreg, hdecl]
    cases table.find? kind name <;> simp

end SharedTable

end SceneView
