import Mathlib.Data.List.Basic
import SceneView.Compile.Session

/-!
# The tables of a session

How the operations of a session change what is found in its two tables: the methods of the class,
looked up by name, and the shared objects, looked up by kind and name. A class may hold several
methods of one name, of which only the first is ever written to; `ClassDef.named` keeps them all.
-/

open List

namespace SceneView

open SharedEntry List

namespace ClassDef

def named (c : ClassDef) (name : String) : List Method :=
  c.methods.filter (·.name == name)

/-- The statements of the first method of a name; none if there is no such method. -/
def body (c : ClassDef) (name : String) : List Statement :=
  ((c.named name).head?.map (·.body)).getD []

lemma method?_eq_head? (c : ClassDef) (name : String) : c.method? name = (c.named name).head? := by
  simp [method?, named]

variable {c c' : ClassDef}

lemma hasMethod_iff {name} : c.hasMethod name = true ↔ c.named name ≠ [] := by
  rw [hasMethod, method?_eq_head?]
  cases c.named name <;> simp

lemma filter_updateFirst_ne {f} (hf : ∀ m, (f m).name = m.name) {name other} (h : other ≠ name)
    (ms : List Method) :
    (updateFirst f name ms).filter (·.name == other) = ms.filter (·.name == other) := by
  induction ms with
  | nil => rfl
  | cons m ms ih =>
    by_cases hm : m.name = name
    · simp [updateFirst, hm, hf, h.symm]
    · simp [updateFirst, hm, filter_cons, ih]

lemma filter_updateFirst {f} (hf : ∀ m, (f m).name = m.name) {name m rest ms}
    (h : ms.filter (·.name == name) = m :: rest) :
    (updateFirst f name ms).filter (·.name == name) = f m :: rest := by
  induction ms with
  | nil => simp at h
  | cons a ms ih =>
    by_cases ha : a.name = name
    · simp only [filter_cons, ha, beq_self_eq_true, if_true, cons.injEq] at h
      obtain ⟨rfl, rfl⟩ := h
      simp [updateFirst, ha, hf]
    · simp only [filter_cons, beq_iff_eq, ha, if_false] at h
      simp [updateFirst, ha, ih h]

lemma push_eq_ok {name st} (h : c.hasMethod name = true) :
    c.push name st = .ok { c with methods := updateFirst (·.push st) name c.methods } := by
  rw [push, if_pos h]

section

variable {name : String} {st : Statement} (h : c.push name st = .ok c')
include h

lemma hasMethod_of_push : c.hasMethod name = true := by
  by_contra hm
  rw [push, if_neg hm] at h
  cases h

lemma push_frame : c'.members = c.members ∧ c'.accessors = c.accessors := by
  rw [push_eq_ok (hasMethod_of_push h)] at h
  cases h
  exact ⟨rfl, rfl⟩

lemma named_push_ne {other} (hne : other ≠ name) : c'.named other = c.named other := by
  rw [push_eq_ok (hasMethod_of_push h)] at h
  cases h
  exact filter_updateFirst_ne (f := (·.push st)) (fun _ => rfl) hne _

lemma named_push {m rest} (hm : c.named name = m :: rest) : c'.named name = m.push st :: rest := by
  rw [push_eq_ok (hasMethod_of_push h)] at h
  cases h
  exact filter_updateFirst (f := (·.push st)) (fun _ => rfl) hm

lemma hasMethod_push (other : String) : c'.hasMethod other = c.hasMethod other := by
  rw [Bool.eq_iff_iff, hasMethod_iff, hasMethod_iff]
  by_cases ho : other = name
  · subst ho
    obtain ⟨m, rest, hm⟩ := exists_cons_of_ne_nil (hasMethod_iff.1 (hasMethod_of_push h))
    simp [named_push h hm, hm]
  · rw [named_push_ne h ho]

end

@[simp]
lemma named_addMethod (c : ClassDef) (m : Method) (name : String) :
    (c.addMethod m).named name = c.named name ++ if m.name = name then [m] else [] := by
  by_cases h : m.name = name <;> simp [named, addMethod, h]

@[simp]
lemma hasMethod_addMethod (c : ClassDef) (m : Method) (name : String) :
    (c.addMethod m).hasMethod name = (c.hasMethod name || m.name == name) := by
  rw [Bool.eq_iff_iff, hasMethod_iff, named_addMethod, Bool.or_eq_true, hasMethod_iff]
  by_cases h : m.name = name <;> simp [h]

lemma body_eq_nil {name} (h : c.hasMethod name = false) : c.body name = [] := by
  have : c.named name = [] := by
    by_contra hne
    rw [hasMethod_iff.2 hne] at h
    cases h
  rw [body, this]
  rfl

lemma body_push {name st} (h : c.push name st = .ok c') (other : String) :
    c'.body other = c.body other ++ if name = other then [st] else [] := by
  by_cases ho : name = other
  · subst ho
    obtain ⟨m, rest, hm⟩ := exists_cons_of_ne_nil (hasMethod_iff.1 (hasMethod_of_push h))
    simp [body, named_push h hm, hm, Method.push]
  · rw [body, named_push_ne h (Ne.symm ho), if_neg ho, append_nil]
    rfl

lemma body_addMethod (c : ClassDef) (m : Method) (name : String) :
    (c.addMethod m).body name =
      if c.hasMethod name = false ∧ m.name = name then m.body else c.body name := by
  have hnil : c.hasMethod name = false ↔ c.named name = [] := by
    rw [← Bool.not_eq_true, hasMethod_iff, not_not]
  rw [body, body, named_addMethod]
  simp only [hnil]
  cases c.named name with
  | nil => by_cases hm : m.name = name <;> simp [hm]
  | cons a rest => simp

def methodNames (c : ClassDef) : List String :=
  c.methods.map (·.name)

lemma hasMethod_iff_mem {name} : c.hasMethod name = true ↔ name ∈ c.methodNames := by
  simp [hasMethod, method?, methodNames]

lemma map_push {α : Type} {f : Method → α} {name st} (hf : ∀ m : Method, f (m.push st) = f m)
    (h : c.push name st = .ok c') :
    c'.methods.map f = c.methods.map f := by
  rw [push_eq_ok (hasMethod_of_push h)] at h
  cases h
  change (updateFirst (·.push st) name c.methods).map f = c.methods.map f
  induction c.methods with
  | nil => rfl
  | cons m ms ih =>
    unfold updateFirst
    split
    · rw [map_cons, hf, map_cons]
    · rw [map_cons, ih, map_cons]

lemma hasMember_iff {name} :
    c.hasMember name = true ↔ name ∈ c.members.map (·.name) := by
  simp [hasMember]

lemma hasMember_addMember (c : ClassDef) (m : Member) (name : String) :
    (c.addMember m).hasMember name = (c.hasMember name || m.name == name) := by
  simp [hasMember, addMember]

lemma accessor?_eq_none_iff {name} :
    c.accessor? name = none ↔ name ∉ c.accessors.map (·.name) := by
  simp [accessor?]

end ClassDef

namespace ObjectName

def member (o : ObjectName) (type : String) (deferred : Bool) : Member :=
  { name := o.storage
    type
    presence? := some (if deferred then .optional else .definite) }

def accessor (o : ObjectName) (type : String) (deferred : Bool) : Accessor :=
  { name := o.name
    type := if deferred then type ++ " | undefined" else type
    visibility := .isProtected
    getter := [(Statement.give o.storage).text] }

end ObjectName

lemma ClassDef.declare_eq_ok {c c' : ClassDef} {type o deferred}
    (h : c.declare type o deferred = .ok c') :
    c.hasMember o.storage = false ∧ c'.members = c.members ++ [o.member type deferred] ∧
      c'.accessors = c.accessors ++ (if o.isGiven then [o.accessor type deferred] else []) ∧
      c'.methods = c.methods := by
  unfold declare at h
  split at h
  · cases h
  · next hfree =>
    refine ⟨Bool.eq_false_iff.2 hfree, ?_⟩
    cases hgiven : o.isGiven with
    | true =>
      rw [hgiven] at h
      cases h
      exact ⟨rfl, rfl, rfl⟩
    | false =>
      rw [hgiven] at h
      cases h
      exact ⟨rfl, (append_nil _).symm, rfl⟩

lemma SharedEntry.isAt_iff {e : SharedEntry} {kind name} :
    e.isAt kind name = true ↔ e.kind = kind ∧ e.name = name := by
  simp [isAt]

lemma SharedEntry.isAt_eq_false {e : SharedEntry} {kind name}
    (h : ¬ (e.kind = kind ∧ e.name = name)) : e.isAt kind name = false :=
  Bool.eq_false_iff.2 fun he => h (isAt_iff.1 he)

lemma SharedEntry.isAt_self (e : SharedEntry) : e.isAt e.kind e.name = true :=
  isAt_iff.2 ⟨rfl, rfl⟩

namespace SharedTable

variable {t t' : SharedTable} {e : SharedEntry}

lemma find?_isAt {kind name e} (h : t.find? kind name = some e) :
    e.kind = kind ∧ e.name = name :=
  isAt_iff.1 (find?_some (p := fun a => isAt a kind name) h)

lemma find?_update {old} (h : t.find? e.kind e.name = some old) :
    (t.update e).find? e.kind e.name = some e := by
  obtain ⟨entries⟩ := t
  simp only [find?, update] at h ⊢
  induction entries with
  | nil => cases h
  | cons a entries ih =>
    by_cases ha : a.isAt e.kind e.name = true
    · simp only [map_cons, ha, if_true, find?_cons, e.isAt_self]
    · have ha := Bool.eq_false_iff.2 ha
      simp only [find?_cons, ha] at h
      simp only [map_cons, ha, Bool.false_eq_true, if_false, find?_cons]
      exact ih h

lemma find?_update_ne {kind name} (h : ¬ (e.kind = kind ∧ e.name = name)) :
    (t.update e).find? kind name = t.find? kind name := by
  have he := isAt_eq_false h
  obtain ⟨entries⟩ := t
  simp only [find?, update]
  induction entries with
  | nil => rfl
  | cons a entries ih =>
    by_cases ha : a.isAt e.kind e.name = true
    · have ha' : a.isAt kind name = false := by
        obtain ⟨hk, hn⟩ := isAt_iff.1 ha
        apply isAt_eq_false
        rw [hk, hn]
        exact h
      simp only [map_cons, ha, if_true, find?_cons, he, ha', ih]
    · have ha := Bool.eq_false_iff.2 ha
      simp only [map_cons, ha, Bool.false_eq_true, if_false, find?_cons, ih]

lemma find?_update_eq {old} (h : t.find? e.kind e.name = some old) (kind : SharedKind)
    (name : String) :
    (t.update e).find? kind name =
      if e.kind = kind ∧ e.name = name then some e else t.find? kind name := by
  split
  · rename_i hkn
    obtain ⟨rfl, rfl⟩ := hkn
    exact find?_update h
  · rename_i hkn
    exact find?_update_ne hkn

lemma find?_insertEntry {entries} (h : entries.find? (·.isAt e.kind e.name) = none) :
    (insertEntry e entries).find? (·.isAt e.kind e.name) = some e := by
  induction entries with
  | nil => simp only [insertEntry, find?_cons, e.isAt_self]
  | cons a entries ih =>
    have ha : a.isAt e.kind e.name = false := by
      simpa using find?_eq_none.1 h a mem_cons_self
    simp only [find?_cons, ha] at h
    unfold insertEntry
    split
    · simp only [find?_cons, e.isAt_self]
    · simp only [find?_cons, ha]
      exact ih h

lemma find?_insertEntry_ne {kind name} (h : ¬ (e.kind = kind ∧ e.name = name))
    (entries : List SharedEntry) :
    (insertEntry e entries).find? (·.isAt kind name) = entries.find? (·.isAt kind name) := by
  have he := isAt_eq_false h
  induction entries with
  | nil => simp only [insertEntry, find?_cons, he]
  | cons a entries ih =>
    unfold insertEntry
    split
    · simp only [find?_cons, he]
    · simp only [find?_cons, ih]

/-- Every entry of a table is the one that is found at its kind and name. -/
def Keyed (t : SharedTable) : Prop :=
  ∀ e ∈ t.entries, t.find? e.kind e.name = some e

lemma Keyed.undeclared_eq_nil (hk : t.Keyed)
    (h : ∀ kind name e, t.find? kind name = some e → e.declared = true) : t.undeclared = [] := by
  simp only [undeclared, map_eq_nil_iff, filter_eq_nil_iff, Bool.not_eq_true',
    Bool.not_eq_false]
  intro e he
  exact h _ _ e (hk e he)

lemma Keyed.update {t : SharedTable} (hk : t.Keyed) {e old} (h : t.find? e.kind e.name = some old) :
    (t.update e).Keyed := by
  intro a ha
  obtain ⟨b, hb, hab⟩ := mem_map.1 ha
  split at hab
  · subst hab
    exact find?_update h
  · rename_i hne
    subst hab
    rw [find?_update_ne]
    · exact hk b hb
    · rintro ⟨e1, e2⟩
      exact hne (isAt_iff.2 ⟨e1.symm, e2.symm⟩)

lemma mem_insertEntry {a entries} : a ∈ insertEntry e entries ↔ a = e ∨ a ∈ entries := by
  induction entries with
  | nil => simp [insertEntry]
  | cons b entries ih =>
    unfold insertEntry
    split
    · simp
    · simp only [mem_cons, ih]
      tauto

lemma Keyed.insertEntry (hk : t.Keyed) (h : t.find? e.kind e.name = none) :
    Keyed { entries := insertEntry e t.entries } := by
  intro a ha
  by_cases hae : e.kind = a.kind ∧ e.name = a.name
  · -- An entry of the same key in the table would have been found.
    obtain rfl | hmem := mem_insertEntry.1 ha
    · exact find?_insertEntry h
    · have hfound := hk a hmem
      rw [← hae.1, ← hae.2, h] at hfound
      cases hfound
  · obtain rfl | hmem := mem_insertEntry.1 ha
    · exact absurd ⟨rfl, rfl⟩ hae
    · exact (find?_insertEntry_ne hae t.entries).trans (hk a hmem)

lemma register_eq_ok {kind name method} (h : t.register kind name method = .ok t') :
    t.find? kind name = none ∧ (t.Keyed → t'.Keyed) ∧
      ∀ k n, t'.find? k n =
        if kind = k ∧ name = n then some { kind, name, site := .direct method, declared := false }
        else t.find? k n := by
  unfold register at h
  split at h
  · cases h
  · rename_i hf
    cases h
    refine ⟨hf, fun hk => hk.insertEntry hf, fun k n => ?_⟩
    split
    · rename_i hkn
      obtain ⟨rfl, rfl⟩ := hkn
      exact find?_insertEntry
        (e := { kind, name, site := .direct method, declared := false }) hf
    · rename_i hkn
      exact find?_insertEntry_ne hkn _

lemma declare_eq_ok {kind name build} (h : t.declare kind name = .ok (build, t')) :
    ∃ e, t.find? kind name = some e ∧ e.declared = false ∧ build = e.site ∧ (t.Keyed → t'.Keyed) ∧
      ∀ k n, t'.find? k n =
        if kind = k ∧ name = n then some { e with declared := true } else t.find? k n := by
  unfold declare at h
  split at h
  · cases h
  · rename_i e hf
    split at h
    · cases h
    · rename_i hd
      cases h
      obtain ⟨rfl, rfl⟩ := find?_isAt hf
      exact ⟨e, hf, by simpa using hd, rfl,
        fun hk => hk.update (e := { e with declared := true }) hf,
        find?_update_eq (e := { e with declared := true }) hf⟩

lemma access_eq_ok {kind name a} (h : t.access kind name = .ok (a, t')) :
    ∃ e, t.find? kind name = some e ∧ (t.Keyed → t'.Keyed) ∧
      ((∃ m, e.site = .ensured m ∧ a = .ensure m false ∧ t' = t) ∨
        (∃ m, e.site = .direct m ∧ e.declared = true ∧ a = .member ∧ t' = t) ∨
        (∃ m, e.site = .direct m ∧ e.declared = false ∧ a = .ensure (ensureMethod name) true ∧
          ∀ k n, t'.find? k n =
            if kind = k ∧ name = n then some { e with site := .ensured (ensureMethod name) }
            else t.find? k n)) := by
  unfold SharedTable.access at h
  split at h
  · cases h
  · rename_i e hf
    split at h
    · rename_i m hs
      cases h
      exact ⟨e, hf, id, .inl ⟨m, hs, rfl, rfl⟩⟩
    · rename_i m hs
      split at h
      · rename_i hd
        cases h
        exact ⟨e, hf, id, .inr (.inl ⟨m, hs, hd, rfl, rfl⟩)⟩
      · rename_i hd
        cases h
        obtain ⟨rfl, rfl⟩ := find?_isAt hf
        rw [hs]
        exact ⟨e, hf,
          fun hk => hk.update (e := { e with site := .ensured (ensureMethod e.name) }) hf,
          .inr (.inr ⟨m, hs, by simpa using hd, rfl,
            find?_update_eq (e := { e with site := .ensured (ensureMethod e.name) }) hf⟩)⟩

end SharedTable

end SceneView
