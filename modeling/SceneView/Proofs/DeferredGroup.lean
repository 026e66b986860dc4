import SceneView.Proofs.Bound
import SceneView.Proofs.Nesting

/-!
# Deferred groups

A deferred group has a method of its own, which is guarded by a flag and builds all that is in the
group. It is wired once, in the method around it: its condition is observed if it is a property
path, and is checked at the end. Its callback comes after everything that is added to the method.
-/

open List

namespace SceneView

open Compile Station

variable {isMixin : Bool}

namespace Branch

mutual

lemma stations_below : {b : Branch} → {above : List Entry} → {g y : Station} →
    g ∈ b.stations above → y ∈ stationsOf (g.entry :: g.above) g.branch.children →
    y ∈ b.stations above
  | .mk x bs, above, g, y, hg, hy => by
    obtain rfl | hg := mem_cons.1 hg
    · exact mem_cons_of_mem _ hy
    · exact mem_cons_of_mem _ (stationsOf_below hg hy)

lemma stationsOf_below : {bs : List Branch} → {above : List Entry} → {g y : Station} →
    g ∈ stationsOf above bs → y ∈ stationsOf (g.entry :: g.above) g.branch.children →
    y ∈ stationsOf above bs
  | [], _, _, _, hg, _ => by cases hg
  | b :: bs, above, g, y, hg, hy => by
    obtain hg | hg := mem_append.1 hg
    · exact mem_append_left _ (stations_below hg hy)
    · exact mem_append_right _ (stationsOf_below hg hy)

end

end Branch

/-- A chain of properties from `this`. -/
inductive Script.Tree.IsPath : Script.Tree → Prop where
  | first {start name} : IsPath (.member (.this start) name)
  | next {t name} : IsPath t → IsPath (.member t name)

namespace Value

end Value

namespace Element.Waits

variable {isMixin : Bool} {e : Element} {path? check? : Option String}

end Element.Waits

lemma Element.Calls.isSome {e : Element} {call?} (h : e.Calls isMixin call?) :
    call?.isSome = e.hasAttr "onInit" := by
  cases h with
  | never hraw | once hraw => simp [hasAttr, hraw]

lemma Piece.Unwired.filter_writes {p : Piece} (h : p.Unwired) (m : String) :
    (p.writes m).filter (·.wires) = [] := by
  rw [filter_eq_nil_iff, Piece.writes]
  intro st hst
  split at hst
  · simp [h st hst]
  · cases hst

namespace Statement

def isCheck : Statement → Bool
  | trigger .. => true
  | _ => false

def isCallback : Statement → Bool
  | callback _ => true
  | _ => false

variable {st : Statement}

lemma not_wires_initBody (isMixin : Bool) : ∀ st ∈ initBody isMixin, st.wires = false := by
  cases isMixin <;> decide

end Statement

namespace Station

variable {es : List Event} {x : Station}

/-- What a deferred group writes to the method around it. -/
def bindings (isMixin : Bool) (es : List Event) (method : String) (x : Station) : List Statement :=
  (x.piece (nodeGrowth isMixin) es).writes method

lemma Fits.filter_pieces (h : x.Fits (nodeGrowth isMixin)) (m : String) :
    ((x.pieces (nodeGrowth isMixin) es).flatMap (Piece.writes m)).filter (·.wires) =
      x.groups.flatMap (bindings isMixin es m) := by
  cases hgroup : x.entry.isGroup with
  | false =>
    rw [pieces, groups, hgroup]
    simpa using (h.within hgroup).2.filter_writes m
  | true =>
    obtain ⟨_, _, path?, _, hstatements⟩ := h.entry.of_group hgroup
    have hall : (x.bindings isMixin es m).filter (·.wires) = x.bindings isMixin es m := by
      rw [filter_eq_self]
      intro st hst
      rw [bindings, Piece.writes] at hst
      split at hst
      · rw [piece, statements, nodeGrowth, hstatements] at hst
        obtain ⟨path, _, rfl⟩ := mem_map.1 hst
        rfl
      · cases hst
    have hguard : ((⟨groupMethod x.entry.name, [],
        [.leaveIf (groupFlag x.entry.name), .raise (groupFlag x.entry.name)], []⟩ : Piece).writes
          m).filter (·.wires) = [] := by
      rw [Piece.writes]
      split <;> rfl
    rw [pieces, groups, if_pos hgroup, if_pos hgroup, flatMap_append, flatMap_singleton,
      flatMap_singleton, flatMap_singleton, filter_append, hguard, nil_append]
    exact hall

end Station

lemma Portion.IsOf.filter_pieces {e es} {q : Portion} (h : q.IsOf isMixin e) (m : String) :
    ((q.pieces isMixin es).flatMap (Piece.writes m)).filter (·.wires) =
      q.groups.flatMap (bindings isMixin es m) := by
  cases q with
  | nodes =>
    cases h with
    | nodes _ _ hfits =>
      rw [pieces, groups, flatMap_assoc, flatMap_assoc, filter_flatMap]
      exact flatMap_congr fun x hx => (hfits x hx).filter_pieces m
  | guis | shared | properties | imports =>
    rw [filter_flatMap]
    exact flatMap_eq_nil_iff.2 fun p hp =>
      (h.within (fun _ => Portion.noConfusion) hp).2.filter_writes m

namespace Planned

variable {d : Document} {c : ClassDef} {plan : List Portion}

variable (h : Planned d c plan)
include h

lemma body_wired (m : String) : ∃ front,
    c.body m = front ++ ((plan.flatMap Portion.groups).flatMap (checks m) ++
      (plan.flatMap Portion.groups).flatMap (calls m)) ∧
    front.filter (·.wires) = (plan.flatMap Portion.groups).flatMap (bindings d.isMixin d.outline m) := by
  refine ⟨_, (h.body m).trans (append_assoc ..).symm, ?_⟩
  have hinit : (if m = Builtin.init then initBody d.isMixin else []).filter (·.wires) =
      [] := by
    rw [filter_eq_nil_iff]
    intro st hst
    split at hst
    · simp [Statement.not_wires_initBody _ st hst]
    · cases hst
  rw [filter_append, hinit, nil_append, Document.pieces, flatMap_assoc, flatMap_assoc,
    filter_flatMap]
  refine flatMap_congr fun q hq => ?_
  obtain ⟨e, he⟩ := h.isOf hq
  exact he.filter_pieces m

variable {g : Station} {m : String}

lemma mem_bindings (hg : g ∈ plan.flatMap Portion.groups) {st}
    (hst : st ∈ g.bindings d.isMixin d.outline m) :
    ∃ path, st = .bindGroup Builtin.engine path (groupMethod g.entry.name) := by
  obtain ⟨hmem, hgroup⟩ := mem_groups.1 hg
  obtain ⟨_, _, path?, _, hstatements⟩ := (h.fits hmem).entry.of_group hgroup
  rw [bindings, Piece.writes] at hst
  split at hst
  · rw [piece, Station.statements, nodeGrowth, hstatements] at hst
    obtain ⟨path, _, rfl⟩ := mem_map.1 hst
    exact ⟨path, rfl⟩
  · cases hst

lemma isCheck_front {front : List Statement}
    (hfront : front.filter (·.wires) = (plan.flatMap Portion.groups).flatMap (bindings d.isMixin d.outline m)) :
    ∀ st ∈ front, st.isCheck = false ∧ st.isCallback = false := by
  intro st hst
  cases hwires : st.wires with
  | true =>
    have hmem : st ∈ front.filter (·.wires) := mem_filter.2 ⟨hst, hwires⟩
    rw [hfront] at hmem
    obtain ⟨g, hg, hmem⟩ := mem_flatMap.1 hmem
    obtain ⟨path, rfl⟩ := h.mem_bindings hg hmem
    exact ⟨rfl, rfl⟩
  | false =>
    cases st with
    | trigger | callback => cases hwires
    | _ => exact ⟨rfl, rfl⟩

omit h in
lemma isCheck_checks {gs : List Station} :
    ∀ st ∈ gs.flatMap (checks m), st.isCheck = true := by
  intro st hst
  obtain ⟨g, _, hst⟩ := mem_flatMap.1 hst
  rw [checks] at hst
  split at hst
  · obtain ⟨_, _, rfl⟩ := mem_map.1 hst
    rfl
  · cases hst

omit h in
lemma isCallback_calls {gs : List Station} :
    ∀ st ∈ gs.flatMap (calls m), st.isCallback = true := by
  intro st hst
  obtain ⟨g, _, hst⟩ := mem_flatMap.1 hst
  rw [calls] at hst
  split at hst
  · obtain ⟨_, _, rfl⟩ := mem_map.1 hst
    rfl
  · cases hst

end Planned

namespace Planned

variable {d : Document} {c : ClassDef} {plan : List Portion}

end Planned

end SceneView
