import Mathlib.Data.List.Nodup
import Mathlib.Data.List.Perm.Subperm
import Mathlib.Logic.Function.Basic
import Mathlib.Order.Bounds.Basic
import SceneView.Proofs.Identifier
import SceneView.Proofs.Table

/-!
# Made-up names

An object without a name is named after its type, with the first number that gives a name that is
free: not reserved by the author, and not stored in the class. The search for it is bounded by the
number of names that may be in its way, and the bound is always enough.
-/

open List

namespace SceneView

namespace NamePool

lemma numbered_injective (type : String) : Function.Injective (numbered type) := by
  intro a b h
  have htext : toString a = toString b := (String.append_right_inj _).1 h
  simpa using congrArg (fun s => Nat.ofDigitChars 10 s.toList 0) htext

lemma numbered_ne_empty (type : String) (n : Nat) : numbered type n ≠ "" := by
  simp [numbered]

variable {type : String} {c : ClassDef} {p p' : NamePool} {k : Nat}

lemma length_le_of_numbered {ns : List Nat} (hns : ns.Nodup) {f : String → String}
    (hf : Function.Injective f) {names : List String} (h : ∀ n ∈ ns, f (numbered type n) ∈ names) :
    ns.length ≤ names.length := by
  have hnodup : (ns.map (f ∘ numbered type)).Nodup :=
    List.Nodup.map (hf.comp (numbered_injective type)) hns
  have hsub : ns.map (f ∘ numbered type) ⊆ names := by
    intro name hname
    obtain ⟨n, hn, rfl⟩ := mem_map.1 hname
    exact h n hn
  simpa using (hnodup.subperm hsub).length_le

lemma firstFree_spec (taken : List String) (type : String) (steps n : Nat) :
    n ≤ firstFree taken type steps n ∧ firstFree taken type steps n ≤ n + steps ∧
      (∀ j, n ≤ j → j < firstFree taken type steps n → numbered type j ∈ taken) ∧
      (firstFree taken type steps n < n + steps →
        numbered type (firstFree taken type steps n) ∉ taken) := by
  induction steps generalizing n with
  | zero =>
    refine ⟨le_rfl, le_rfl, fun j hj hlt => absurd hlt (not_lt.2 hj), fun h => absurd h ?_⟩
    exact lt_irrefl n
  | succ steps ih =>
    rw [firstFree]
    split
    · next htaken =>
      obtain ⟨hle, hbound, hbefore, hfree⟩ := ih (n + 1)
      refine ⟨by omega, by omega, fun j hj hlt => ?_, fun h => hfree (by omega)⟩
      obtain rfl | hj := hj.eq_or_lt
      · simpa using htaken
      · exact hbefore j hj hlt
    · next hfree =>
      refine ⟨le_rfl, by omega, fun j hj hlt => absurd hlt (not_lt.2 hj), fun _ => ?_⟩
      simpa using hfree

lemma firstFree_isLeast (taken : List String) (type : String) (n : Nat) :
    IsLeast {j | n ≤ j ∧ numbered type j ∉ taken} (firstFree taken type taken.length n) := by
  obtain ⟨hle, hbound, hbefore, hfree⟩ := firstFree_spec taken type taken.length n
  generalize firstFree taken type taken.length n = k at *
  refine ⟨⟨hle, fun htaken => ?_⟩, fun j hj => not_lt.1 fun hlt => hj.2 (hbefore j hj.1 hlt)⟩
  have hlast : k = n + taken.length := by
    by_contra hne
    exact hfree (by omega) htaken
  have hall : ∀ j ∈ List.range' n (taken.length + 1), id (numbered type j) ∈ taken := by
    intro j hj
    obtain ⟨hj, hlt⟩ := mem_range'_1.1 hj
    obtain rfl | hlt := (show j ≤ k by omega).eq_or_lt
    · exact htaken
    · exact hbefore j hj hlt
  have hlength := length_le_of_numbered nodup_range' Function.injective_id hall
  rw [length_range'] at hlength
  omega

lemma nextNumber_isLeast (p : NamePool) (type : String) :
    IsLeast {j | p.last type < j ∧ numbered type j ∉ p.reserved} (p.nextNumber type) :=
  firstFree_isLeast p.reserved type (p.last type + 1)

lemma lookup_filter_ne {t} (ht : t ≠ type) (cs : List (String × Nat)) :
    (cs.filter (·.1 != type)).lookup t = cs.lookup t := by
  induction cs with
  | nil => rfl
  | cons c cs ih =>
    obtain ⟨u, n⟩ := c
    by_cases hu : u = type
    · subst hu
      simp [ih, lookup_cons, beq_eq_false_iff_ne.2 ht]
    · simp [hu, ih, lookup_cons]

lemma last_next (p : NamePool) (type : String) :
    (p.next type).2.last = Function.update p.last type (p.nextNumber type) := by
  funext t
  by_cases ht : t = type
  · subst ht
    simp [next, last]
  · simp [next, last, ht, lookup_cons, beq_eq_false_iff_ne.2 ht, lookup_filter_ne ht]

/-- The author has not reserved the name, and the class does not store an object of the name. -/
def IsFree (p : NamePool) (c : ClassDef) (name : String) : Prop :=
  name ∉ p.reserved ∧ c.hasMember (storageName name) = false

/-- A name is made up with the first number after the last one that gives a free name. -/
structure Issues (p : NamePool) (c : ClassDef) (type : String) (k : Nat) (p' : NamePool) :
    Prop where
  reserved : p'.reserved = p.reserved
  last : p'.last = Function.update p.last type k
  least : IsLeast {j | p.last type < j ∧ p.IsFree c (numbered type j)} k

lemma exists_used_of_nextUnused {steps}
    (h : c.hasMember (nextUnused c type steps p).1.storage = true) :
    ∃ ns : List Nat, ns.length = steps + 1 ∧ ns.Nodup ∧
      ∀ n ∈ ns, p.last type < n ∧ c.hasMember (storageName (numbered type n)) = true := by
  have hlt : p.last type < p.nextNumber type := (p.nextNumber_isLeast type).1.1
  induction steps generalizing p with
  | zero => exact ⟨[p.nextNumber type], rfl, nodup_singleton _, by simpa using ⟨hlt, h⟩⟩
  | succ steps ih =>
    rw [nextUnused] at h
    dsimp only at h
    split at h
    · next hused =>
      obtain ⟨ns, hlength, hnodup, hns⟩ := ih h (nextNumber_isLeast _ type).1.1
      rw [last_next, Function.update_self] at hns
      refine ⟨p.nextNumber type :: ns, by simp [hlength], ?_, ?_⟩
      · exact nodup_cons.2 ⟨fun hmem => lt_irrefl _ (hns _ hmem).1, hnodup⟩
      · intro n hn
        obtain rfl | hn := mem_cons.1 hn
        · exact ⟨hlt, hused⟩
        · exact ⟨hlt.trans (hns n hn).1, (hns n hn).2⟩
    · next hunused => exact absurd h hunused

lemma nextUnused_not_used (c : ClassDef) (type : String) (p : NamePool) :
    c.hasMember (nextUnused c type c.members.length p).1.storage = false := by
  rw [← Bool.not_eq_true]
  intro h
  obtain ⟨ns, hlength, hnodup, hns⟩ := exists_used_of_nextUnused h
  have hmembers : ∀ n ∈ ns, storageName (numbered type n) ∈ c.members.map (·.name) :=
    fun n hn => ClassDef.hasMember_iff.1 (hns n hn).2
  have hle := length_le_of_numbered hnodup (fun _ _ => storageName_injective) hmembers
  rw [length_map] at hle
  omega

lemma issues_next (h : c.hasMember (p.next type).1.storage = false) :
    p.Issues c type (p.nextNumber type) (p.next type).2 := by
  obtain ⟨⟨hlt, hfree⟩, hleast⟩ := p.nextNumber_isLeast type
  exact ⟨rfl, p.last_next type, ⟨hlt, hfree, h⟩, fun j hj => hleast ⟨hj.1, hj.2.1⟩⟩

lemma Issues.skip (hused : c.hasMember (p.next type).1.storage = true)
    (h : (p.next type).2.Issues c type k p') : p.Issues c type k p' := by
  obtain ⟨⟨hlt, _⟩, hleast⟩ := p.nextNumber_isLeast type
  obtain ⟨hreserved, hlast, ⟨hlt', hfree'⟩, hleast'⟩ := h
  rw [last_next, Function.update_self] at hlt' hleast'
  refine ⟨hreserved, ?_, ⟨hlt.trans hlt', hfree'⟩, fun j hj => hleast' ⟨?_, hj.2⟩⟩
  · rw [hlast, last_next, Function.update_idem]
  · refine lt_of_le_of_ne (hleast ⟨hj.1, hj.2.1⟩) ?_
    rintro rfl
    exact Bool.false_ne_true (hj.2.2.symm.trans hused)

lemma issues_nextUnused {steps} (h : c.hasMember (nextUnused c type steps p).1.storage = false) :
    ∃ k, (nextUnused c type steps p).1 = ⟨numbered type k, false⟩ ∧
      p.Issues c type k (nextUnused c type steps p).2 := by
  induction steps generalizing p with
  | zero => exact ⟨_, rfl, issues_next h⟩
  | succ steps ih =>
    rw [nextUnused] at h ⊢
    dsimp only at h ⊢
    split at h
    · next hused =>
      rw [if_pos hused]
      obtain ⟨k, hk, hissues⟩ := ih h
      exact ⟨k, hk, hissues.skip hused⟩
    · next hunused =>
      rw [if_neg hunused]
      exact ⟨_, rfl, issues_next h⟩

lemma assignUnused_cases {given? o} (h : p.assignUnused c type given? = (o, p')) :
    (∃ name, name ≠ "" ∧ ObjectName.given? given? = some o ∧ o = ⟨name, true⟩ ∧ p' = p) ∨
      ∃ k, ObjectName.given? given? = none ∧ o = ⟨numbered type k, false⟩ ∧
        p.Issues c type k p' := by
  unfold assignUnused at h
  split at h
  · next hgiven =>
    cases h
    obtain ⟨hisGiven, hname⟩ := ObjectName.given?_spec hgiven
    obtain ⟨name, isGiven⟩ := o
    subst hisGiven
    exact .inl ⟨name, hname, hgiven, rfl, rfl⟩
  · next hnone =>
    obtain ⟨k, hk, hissues⟩ := issues_nextUnused (nextUnused_not_used c type p)
    rw [h] at hk hissues
    exact .inr ⟨k, hnone, hk, hissues⟩

lemma IsFree.anti {c' name} (h : p'.IsFree c' name) (hp : p.reserved ⊆ p'.reserved)
    (hc : c.hasMember (storageName name) = true → c'.hasMember (storageName name) = true) :
    p.IsFree c name := by
  refine ⟨fun hmem => h.1 (hp hmem), ?_⟩
  rw [← Bool.not_eq_true]
  intro hm
  exact Bool.false_ne_true (h.2.symm.trans (hc hm))

lemma Issues.isLeast (h : p.Issues c type k p')
    (hused : ∀ j, 0 < j → j ≤ p.last type → ¬ p.IsFree c (numbered type j)) :
    IsLeast {j | 0 < j ∧ p.IsFree c (numbered type j)} k := by
  obtain ⟨⟨hlt, hfree⟩, hleast⟩ := h.least
  refine ⟨⟨Nat.zero_lt_of_lt hlt, hfree⟩, fun j ⟨hpos, hj⟩ => hleast ⟨?_, hj⟩⟩
  by_contra hle
  exact hused j hpos (not_lt.1 hle) hj

lemma reserved_foldl (p : NamePool) (names : List String) :
    (names.foldl reserve p).reserved = (names.map Text.trim).reverse ++ p.reserved := by
  induction names generalizing p with
  | nil => rfl
  | cons name names ih => simp [ih, reserve]

lemma last_foldl (p : NamePool) (names : List String) : (names.foldl reserve p).last = p.last := by
  induction names generalizing p with
  | nil => rfl
  | cons name names ih =>
    rw [foldl_cons, ih]
    rfl

def freeName (taken : List String) (type : String) : String :=
  numbered type (firstFree taken type taken.length 1)

/-- The names that are made up for objects of the given types, one after the other. -/
def madeUp (reserved types : List String) : List String :=
  types.foldl (fun names type => names ++ [freeName (reserved ++ names) type]) []

@[simp]
lemma madeUp_concat (reserved types : List String) (type : String) :
    madeUp reserved (types ++ [type]) =
      madeUp reserved types ++ [freeName (reserved ++ madeUp reserved types) type] := by
  simp [madeUp]

lemma freeName_eq {taken} (h : IsLeast {j | 0 < j ∧ numbered type j ∉ taken} k) :
    freeName taken type = numbered type k :=
  congrArg _ ((firstFree_isLeast taken type 1).unique h)

lemma freeName_not_mem (taken : List String) (type : String) : freeName taken type ∉ taken :=
  (firstFree_isLeast taken type 1).1.2

lemma nodup_append_madeUp {reserved} (h : reserved.Nodup) (types : List String) :
    (reserved ++ madeUp reserved types).Nodup := by
  induction types using reverseRecOn with
  | nil => rwa [madeUp, foldl_nil, append_nil]
  | append_singleton types type ih =>
    rw [madeUp_concat, ← append_assoc, ← concat_eq_append]
    exact ih.concat (freeName_not_mem _ type)

example : madeUp ["Box2"] ["Box", "Box", "Sphere"] = ["Box1", "Box3", "Sphere1"] := by
  decide +kernel

end NamePool

end SceneView
