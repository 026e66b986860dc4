import SceneView.Proofs.Naming

/-!
# Names made up over a sequence of calls

Names are reserved and assigned in any order, for any types. The numbers that are issued for one
type grow, and each is the first one whose name is free. What is assigned to other types, or named
by the author, makes no difference.
-/

open List

namespace SceneView

/-- No name is given, so that one is made up. -/
abbrev blank (given? : Option String) : Bool :=
  given?.all (Text.trim · = "")

inductive NameCall where
  | reserve (name : String)
  | assign (type : String) (given? : Option String)

/-- The call reserves a name, or a name is to be made up for the type. -/
def NameCall.concerns (type : String) : NameCall → Bool
  | .reserve _ => true
  | .assign t given? => t = type && blank given?

namespace NamePool

def call (p : NamePool) : NameCall → NamePool
  | .reserve name => p.reserve name
  | .assign type given? => (p.assign type given?).2

/-- The names that are made up for the type, in the order of the calls. -/
def madeFor (type : String) : NamePool → List NameCall → List String
  | _, [] => []
  | p, .reserve name :: calls => madeFor type (p.reserve name) calls
  | p, .assign t given? :: calls =>
    let (object, p) := p.assign t given?
    if t = type ∧ object.isGiven = false then object.name :: madeFor type p calls
    else madeFor type p calls

/-- The counter is raised until its name is not taken. -/
inductive Search (taken : List String) (type : String) : Nat → Nat → Prop
  | found {n} : numbered type (n + 1) ∉ taken → Search taken type n (n + 1)
  | skip {n k} : numbered type (n + 1) ∈ taken → Search taken type (n + 1) k →
      Search taken type n k

lemma search_of_isLeast {taken type n k}
    (h : IsLeast {j | n < j ∧ numbered type j ∉ taken} k) : Search taken type n k := by
  obtain ⟨d, rfl⟩ := Nat.exists_eq_add_of_lt h.1.1
  induction d generalizing n with
  | zero => exact .found h.1.2
  | succ d ih =>
    have htaken : numbered type (n + 1) ∈ taken := by
      by_contra hfirst
      have := h.2 ⟨n.lt_succ_self, hfirst⟩
      omega
    rw [show n + (d + 1) + 1 = n + 1 + d + 1 by omega] at h ⊢
    refine .skip htaken (ih ⟨⟨by omega, h.1.2⟩, fun j hj => h.2 ⟨?_, hj.2⟩⟩)
    exact n.lt_succ_self.trans hj.1

variable {p q : NamePool} {type t : String} {given? : Option String}

lemma assign_blank (h : blank given?) : p.assign type given? = p.next type := by
  cases given? <;> simp_all [assign, ObjectName.given?, Option.filter]

lemma assign_given (h : blank given? = false) (p : NamePool) (type : String) :
    ∃ name, p.assign type given? = (⟨name, true⟩, p) := by
  cases given? <;> simp_all [assign, ObjectName.given?, Option.filter]

lemma madeFor_skip (p : NamePool) (calls : List NameCall)
    (h : ¬ (t = type ∧ blank given?)) :
    madeFor type p (.assign t given? :: calls) = madeFor type (p.assign t given?).2 calls ∧
      (p.assign t given?).2.reserved = p.reserved ∧
      (p.assign t given?).2.last type = p.last type := by
  cases hblank : blank given? with
  | false =>
    obtain ⟨name, hassign⟩ := assign_given hblank p t
    simp [madeFor, hassign]
  | true =>
    have ht : t ≠ type := fun ht => h ⟨ht, hblank⟩
    refine ⟨by simp [madeFor, ht], ?_⟩
    rw [assign_blank hblank, last_next, Function.update_of_ne ht.symm]
    exact ⟨rfl, rfl⟩

lemma madeFor_next {calls} (h : blank given?) :
    madeFor type p (.assign type given? :: calls) =
      numbered type (p.nextNumber type) :: madeFor type (p.next type).2 calls := by
  simp [madeFor, assign_blank h, next]

lemma nextNumber_congr (hreserved : p.reserved = q.reserved) (hlast : p.last type = q.last type) :
    p.nextNumber type = q.nextNumber type := by
  rw [nextNumber, nextNumber, hreserved, hlast]

lemma madeFor_concerns (calls : List NameCall) (hreserved : p.reserved = q.reserved)
    (hlast : p.last type = q.last type) :
    madeFor type p (calls.filter (·.concerns type)) = madeFor type q calls := by
  induction calls generalizing p q with
  | nil => rfl
  | cons c calls ih =>
    cases c with
    | reserve name => exact ih (by rw [reserve, reserve, hreserved]) hlast
    | assign t given? =>
      by_cases hc : t = type ∧ blank given?
      · obtain ⟨rfl, hblank⟩ := hc
        have hn := nextNumber_congr hreserved hlast
        rw [filter_cons_of_pos (by simpa [NameCall.concerns] using hblank),
          madeFor_next hblank, madeFor_next hblank, hn]
        exact congrArg _ (ih hreserved (by simp [last_next, hn]))
      · obtain ⟨hskip, hreserved', hlast'⟩ := madeFor_skip q calls hc
        rw [filter_cons_of_neg (by simpa [NameCall.concerns] using hc), hskip]
        exact ih (hreserved.trans hreserved'.symm) (hlast.trans hlast'.symm)

lemma mem_reserved_calls {name : String} (calls : List NameCall) :
    name ∈ (calls.foldl call p).reserved ↔
      (∃ s, .reserve s ∈ calls ∧ name = Text.trim s) ∨ name ∈ p.reserved := by
  induction calls generalizing p with
  | nil => simp
  | cons c calls ih =>
    rw [foldl_cons, ih]
    cases c with
    | reserve s => simp [call, reserve, or_and_right, exists_or, or_assoc, or_left_comm]
    | assign t given? =>
      have hreserved : (p.assign t given?).2.reserved = p.reserved := by
        unfold assign
        split <;> rfl
      simp [call, hreserved]

lemma exists_numbers (type : String) (p : NamePool) (calls : List NameCall) :
    ∃ ns : List Nat, madeFor type p calls = ns.map (numbered type) ∧
      (p.last type :: ns).Pairwise (· < ·) ∧
      (calls.foldl call p).last type = ns.getLastD (p.last type) := by
  induction calls generalizing p with
  | nil => exact ⟨[], rfl, pairwise_singleton _ _, rfl⟩
  | cons c calls ih =>
    obtain ⟨ns, hmade, hpairwise, hlast⟩ := ih (p.call c)
    rw [foldl_cons, hlast]
    cases c with
    | reserve name => exact ⟨ns, hmade, hpairwise, rfl⟩
    | assign t given? =>
      by_cases hc : t = type ∧ blank given?
      · obtain ⟨rfl, hblank⟩ := hc
        have hstep : (p.call (.assign t given?)).last t = p.nextNumber t := by
          simp [call, assign_blank hblank, last_next]
        rw [call, assign_blank hblank] at hmade
        rw [hstep] at hpairwise ⊢
        refine ⟨p.nextNumber t :: ns, by rw [madeFor_next hblank, hmade, map_cons], ?_, ?_⟩
        · have hlt := (p.nextNumber_isLeast t).1.1
          refine pairwise_cons.2 ⟨fun n hn => ?_, hpairwise⟩
          obtain rfl | hn := mem_cons.1 hn
          · exact hlt
          · exact hlt.trans ((pairwise_cons.1 hpairwise).1 n hn)
        · rw [getLastD_cons]
      · obtain ⟨hskip, -, hlast'⟩ := madeFor_skip p calls hc
        rw [call, hlast'] at hpairwise ⊢
        exact ⟨ns, hskip.trans hmade, hpairwise, rfl⟩

/-- After any calls, the search for a number ends with the first one that is free and follows the
last one of the type. So the names of a type are new, in order and the same without other calls. -/
theorem madeFor_fresh (type : String) (calls : List NameCall) :
    ∃ ns : List Nat, madeFor type {} calls = ns.map (numbered type) ∧ ns.Pairwise (· < ·) ∧
      (madeFor type {} calls).Nodup ∧
      madeFor type {} (calls.filter (·.concerns type)) = madeFor type {} calls ∧
      ∀ given? : Option String, blank given? → ∃ k,
        ((calls.foldl call {}).assign type given?).1 = ⟨numbered type k, false⟩ ∧
        Search (calls.foldl call {}).reserved type ((calls.foldl call {}).last type) k ∧
        IsLeast {j | ns.getLastD 0 < j ∧
          ∀ name, .reserve name ∈ calls → numbered type j ≠ Text.trim name} k := by
  obtain ⟨ns, hmade, hpairwise, hlast⟩ := exists_numbers type {} calls
  have hincreasing := hpairwise.of_cons
  refine ⟨ns, hmade, hincreasing, ?_, madeFor_concerns calls rfl rfl, fun given? hblank => ?_⟩
  · rw [hmade]
    exact List.Nodup.map (numbered_injective type) (hincreasing.imp ne_of_lt)
  · have hleast := nextNumber_isLeast (calls.foldl call {}) type
    refine ⟨_, by rw [assign_blank hblank, next], search_of_isLeast hleast, ?_⟩
    rw [show (calls.foldl call {}).last type = ns.getLastD 0 from hlast] at hleast
    simpa only [mem_reserved_calls, not_mem_nil, or_false, not_exists, not_and] using hleast

theorem madeFor_fresh_box :
    ∃ ns : List Nat, ["Box1", "Box3"] = ns.map (numbered "Box") ∧ ∃ k,
      IsLeast {j | ns.getLastD 0 < j ∧ ∀ name, .reserve name ∈ [NameCall.reserve " Box2",
        .assign "Box" none, .assign "Sphere" none, .assign "Box" (some "b"),
        .assign "Box" (some "")] → numbered "Box" j ≠ Text.trim name} k := by
  obtain ⟨ns, hmade, -, -, -, hnext⟩ := madeFor_fresh "Box" [.reserve " Box2",
    .assign "Box" none, .assign "Sphere" none, .assign "Box" (some "b"), .assign "Box" (some "")]
  obtain ⟨k, -, -, hk⟩ := hnext (some " ") (by decide)
  exact ⟨ns, by rw [← hmade]; decide +kernel, k, hk⟩

end NamePool

end SceneView
