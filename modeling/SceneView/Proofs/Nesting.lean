import SceneView.Proofs.Account

/-!
# Nested groups

Where a node is built depends on the deferred groups around it. The nodes of a document, each with
the groups around it, are those of the stations of its plan. The groups of an accepted document have
different names, so that the method of a group tells all the groups around it, and the groups around
a node are groups of the document.
-/

open List

namespace SceneView

open Compile

/-- A node of a document with the names of the deferred groups around it, the innermost first. -/
structure Node where
  element : Element
  groups : List String

namespace Node

def isGroup (n : Node) : Bool :=
  NodeKind.ofTag? n.element.tag == some .deferredGroup

/-- The groups around the nodes in a node. -/
def inner (n : Node) : List String :=
  if n.isGroup then n.element.ownName :: n.groups else n.groups

end Node

mutual

/-- A node and the nodes below it, given the groups around the node. -/
def Element.nodes (groups : List String) : Element → List Node
  | ⟨tag, attributes, children, text, line⟩ =>
    let n : Node := ⟨⟨tag, attributes, children, text, line⟩, groups⟩
    n :: if NodeKind.ofTag? tag = some .material then [] else Element.nodesOf n.inner children

def Element.nodesOf (groups : List String) : List Element → List Node
  | [] => []
  | e :: es => e.nodes groups ++ Element.nodesOf groups es

end

lemma Element.nodes_eq (groups : List String) (e : Element) :
    e.nodes groups = ⟨e, groups⟩ :: Element.nodesOf (Node.inner ⟨e, groups⟩) e.nodesIn := by
  obtain ⟨tag, attributes, children, text, line⟩ := e
  unfold Element.nodes Element.nodesIn
  dsimp only
  split <;> rfl

/-- The method that the innermost of some groups has, or the main method. -/
def groupsMethod : List String → String
  | [] => Builtin.init
  | g :: _ => groupMethod g

/-- The groups among the entries above an element. -/
def groupsAbove (above : List Entry) : List String :=
  (above.filter Entry.isGroup).map Entry.name

lemma groupsAbove_group {x} (h : x.isGroup = true) (above : List Entry) :
    groupsAbove (x :: above) = x.name :: groupsAbove above := by
  rw [groupsAbove, filter_cons_of_pos h]
  rfl

lemma groupsAbove_node {x} (h : x.isGroup = false) (above : List Entry) :
    groupsAbove (x :: above) = groupsAbove above := by
  rw [groupsAbove, filter_cons_of_neg (by simp [h])]
  rfl

lemma methodBelow_eq (above : List Entry) : methodBelow above = groupsMethod (groupsAbove above) := by
  induction above with
  | nil => rfl
  | cons x above ih =>
    cases hx : x.isGroup with
    | true => rw [methodBelow_group hx, groupsAbove_group hx, groupsMethod]
    | false => rw [methodBelow_node hx, groupsAbove_node hx, ih]

def Station.node (y : Station) : Node :=
  ⟨y.entry.element, groupsAbove y.above⟩

namespace Station.Fits

variable {isMixin : Bool} {y : Station} (h : y.Fits (nodeGrowth isMixin))
include h

lemma isGroup_node : y.node.isGroup = y.entry.isGroup := by
  rw [Bool.eq_iff_iff, Node.isGroup, beq_iff_eq]
  exact (NodeEntry.isGroup_iff h.entry).symm

lemma inner_node : y.node.inner = groupsAbove (y.entry :: y.above) := by
  rw [Node.inner, h.isGroup_node]
  cases hgroup : y.entry.isGroup with
  | true =>
    rw [if_pos rfl, groupsAbove_group hgroup, (h.entry.of_group hgroup).1]
    rfl
  | false =>
    rw [if_neg Bool.false_ne_true, groupsAbove_node hgroup]
    rfl

end Station.Fits

namespace Branch

variable {isMixin : Bool}

mutual

lemma map_node_stations : (b : Branch) → (above : List Entry) →
    (∀ y ∈ b.stations above, y.Fits (nodeGrowth isMixin)) →
    (b.stations above).map Station.node = b.element.nodes (groupsAbove above)
  | .mk x bs, above, h => by
    have hx := h _ mem_cons_self
    have hbelow : bs.map element = x.element.nodesIn := hx.below
    have hinner : Node.inner ⟨x.element, groupsAbove above⟩ = groupsAbove (x :: above) :=
      hx.inner_node
    rw [stations, map_cons, map_node_stationsOf bs _ fun y hy => h y (mem_cons_of_mem _ hy), hbelow,
      ← hinner]
    exact (x.element.nodes_eq _).symm

lemma map_node_stationsOf : (bs : List Branch) → (above : List Entry) →
    (∀ y ∈ stationsOf above bs, y.Fits (nodeGrowth isMixin)) →
    (stationsOf above bs).map Station.node = Element.nodesOf (groupsAbove above) (bs.map element)
  | [], _, _ => rfl
  | b :: bs, above, h => by
    rw [stationsOf, map_append, map_node_stations b _ fun y hy => h y (mem_append_left _ hy),
      map_node_stationsOf bs _ fun y hy => h y (mem_append_right _ hy)]
    rfl

end

mutual

lemma suffix_above : {b : Branch} → {above : List Entry} → {y : Station} → y ∈ b.stations above →
    above <:+ y.above
  | .mk x bs, above, y, hy => by
    obtain rfl | hy := mem_cons.1 hy
    · exact suffix_rfl
    · exact (suffix_cons x above).trans (suffix_aboveOf hy)

lemma suffix_aboveOf : {bs : List Branch} → {above : List Entry} → {y : Station} →
    y ∈ stationsOf above bs → above <:+ y.above
  | [], _, _, hy => by cases hy
  | b :: bs, above, y, hy => by
    obtain hy | hy := mem_append.1 hy
    · exact suffix_above hy
    · exact suffix_aboveOf hy

end

mutual

lemma stations_before : {b : Branch} → {above : List Entry} → {S₁ S₂ : List Station} →
    {x : Station} → b.stations above = S₁ ++ x :: S₂ → {p : Entry} → {outer : List Entry} →
    p :: outer <:+ x.above → p :: outer <:+ above ∨
      ∃ y ∈ S₁, y.entry = p ∧ y.above = outer ∧ y.branch.children ≠ []
  | .mk x₀ bs, above, S₁, S₂, x, h, p, outer, hp => by
    rw [stations] at h
    cases S₁ with
    | nil =>
      obtain ⟨rfl, _⟩ := cons.inj h
      exact .inl hp
    | cons y S₁ =>
      obtain ⟨rfl, htail⟩ := cons.inj h
      have hbs : bs ≠ [] := by
        rintro rfl
        rw [stationsOf] at htail
        cases (append_eq_nil_iff.1 htail.symm).2
      obtain hp | ⟨y, hy, hrest⟩ := stationsOf_before htail hp
      · obtain heq | hsuffix := suffix_cons_iff.1 hp
        · obtain ⟨rfl, rfl⟩ := cons.inj heq
          exact .inr ⟨_, mem_cons_self, rfl, rfl, hbs⟩
        · exact .inl hsuffix
      · exact .inr ⟨y, mem_cons_of_mem _ hy, hrest⟩

lemma stationsOf_before : {bs : List Branch} → {above : List Entry} → {S₁ S₂ : List Station} →
    {x : Station} → stationsOf above bs = S₁ ++ x :: S₂ → {p : Entry} → {outer : List Entry} →
    p :: outer <:+ x.above → p :: outer <:+ above ∨
      ∃ y ∈ S₁, y.entry = p ∧ y.above = outer ∧ y.branch.children ≠ []
  | [], above, S₁, S₂, x, h, p, outer, hp => by
    rw [stationsOf] at h
    cases (append_eq_nil_iff.1 h.symm).2
  | b :: bs, above, S₁, S₂, x, h, p, outer, hp => by
    rw [stationsOf] at h
    obtain ⟨S, rfl, hbs⟩ | ⟨S, hb, hbs⟩ := append_eq_append_iff.1 h
    · obtain hp | ⟨y, hy, hrest⟩ := stationsOf_before hbs hp
      · exact .inl hp
      · exact .inr ⟨y, mem_append_right _ hy, hrest⟩
    · cases S with
      | nil =>
        have hfirst : stationsOf above bs = [] ++ x :: S₂ := hbs.symm
        obtain hp | ⟨y, hy, _⟩ := stationsOf_before hfirst hp
        · exact .inl hp
        · cases hy
      | cons y S =>
        obtain ⟨rfl, _⟩ := cons.inj hbs
        exact stations_before hb hp

end

end Branch

def Portion.stations : Portion → List Station
  | nodes forest => Branch.stationsOf [] forest
  | guis _ | shared .. | properties _ | imports _ => []

lemma flatMap_groups (S : List Station) :
    S.flatMap Station.groups = S.filter (·.entry.isGroup) := by
  induction S with
  | nil => rfl
  | cons y S ih =>
    rw [flatMap_cons, filter_cons, ih, Station.groups]
    split <;> rfl

lemma Portion.groups_eq (q : Portion) : q.groups = q.stations.filter (·.entry.isGroup) := by
  cases q with
  | nodes forest => exact flatMap_groups _
  | guis | shared | properties | imports => rfl

lemma Document.piece_mem (d : Document) {plan y} (hy : y ∈ plan.flatMap Portion.stations) :
    y.piece (nodeGrowth d.isMixin) d.outline ∈ d.pieces plan := by
  obtain ⟨q, hq, hy⟩ := mem_flatMap.1 hy
  refine mem_flatMap.2 ⟨q, hq, ?_⟩
  cases q with
  | nodes forest => exact mem_flatMap.2 ⟨y, hy, mem_append_right _ mem_cons_self⟩
  | guis | shared | properties | imports => cases hy

lemma Document.part_mem (d : Document) {plan y x slots} (hy : y ∈ plan.flatMap Portion.stations)
    (hcontent : y.entry.content = .object x slots) : x ∈ d.parts plan := by
  refine mem_flatMap.2 ⟨_, d.piece_mem hy, ?_⟩
  rw [Station.piece, Entry.parts, hcontent]
  exact mem_cons_self

namespace Document

/-- The nodes of a document, in document order. -/
def nodes (d : Document) : List Node :=
  (d.sections.filter fun e => SectionKind.ofTag? e.tag == some .nodes).flatMap fun e =>
    Element.nodesOf [] e.children

/-- The deferred groups, each by its name and the names of the groups around it. -/
def groups (d : Document) : List (List String) :=
  (d.nodes.filter Node.isGroup).map Node.inner

/-- Some groups around a place of a document, the innermost first. -/
def Encloses (d : Document) (gs : List String) : Prop :=
  gs = [] ∨ gs ∈ d.groups

end Document

lemma stations_of_sections {isMixin sections plan}
    (h : List.Forall₂ (Portion.IsOf isMixin) sections plan) :
    (∀ y ∈ plan.flatMap Portion.stations, y.Fits (nodeGrowth isMixin)) ∧
      (plan.flatMap Portion.stations).map Station.node =
        (sections.filter fun e => SectionKind.ofTag? e.tag == some .nodes).flatMap fun e =>
          Element.nodesOf [] e.children := by
  induction h with
  | nil => exact ⟨by simp, rfl⟩
  | @cons e q sections plan he _ ih =>
    obtain ⟨hfits, hnodes⟩ := ih
    rw [flatMap_cons, map_append, hnodes]
    cases he with
    | nodes hkind hchildren hforest =>
      refine ⟨forall_mem_append.2 ⟨hforest, hfits⟩, ?_⟩
      rw [filter_cons_of_pos (by simp [hkind]), flatMap_cons, ← hchildren, Portion.stations,
        Branch.map_node_stationsOf _ _ hforest]
      rfl
    | guis hkind | properties hkind | imports hkind =>
      rw [filter_cons_of_neg (by simp [hkind])]
      exact ⟨hfits, rfl⟩
    | @shared kind _ hkind =>
      rw [filter_cons_of_neg (by cases kind <;> simp [hkind, SharedKind.home])]
      exact ⟨hfits, rfl⟩

namespace Planned

variable {d : Document} {c : ClassDef} {plan : List Portion} (h : Planned d c plan)
include h

lemma fits {y} (hy : y ∈ plan.flatMap Portion.stations) : y.Fits (nodeGrowth d.isMixin) :=
  (stations_of_sections h.sections).1 y hy

lemma map_node_stations : (plan.flatMap Portion.stations).map Station.node = d.nodes :=
  (stations_of_sections h.sections).2

omit h in
lemma mem_groups {g} :
    g ∈ plan.flatMap Portion.groups ↔
      g ∈ plan.flatMap Portion.stations ∧ g.entry.isGroup = true := by
  simp [Portion.groups_eq, mem_flatMap, mem_filter, ← and_assoc, exists_and_right]

omit h in
lemma mem_stations {forest y} (hforest : .nodes forest ∈ plan)
    (hy : y ∈ Branch.stationsOf [] forest) : y ∈ plan.flatMap Portion.stations :=
  mem_flatMap.2 ⟨_, hforest, hy⟩

omit h in
lemma exists_forest {y} (hy : y ∈ plan.flatMap Portion.stations) :
    ∃ forest, .nodes forest ∈ plan ∧ y ∈ Branch.stationsOf [] forest := by
  obtain ⟨q, hq, hy⟩ := mem_flatMap.1 hy
  cases q with
  | nodes forest => exact ⟨forest, hq, hy⟩
  | guis | shared | properties | imports => cases hy

lemma map_node_groups :
    (plan.flatMap Portion.groups).map Station.node = d.nodes.filter Node.isGroup := by
  have hfilter : plan.flatMap Portion.groups =
      (plan.flatMap Portion.stations).filter (·.entry.isGroup) := by
    rw [filter_flatMap]
    exact flatMap_congr fun q _ => q.groups_eq
  rw [← h.map_node_stations, filter_map, hfilter]
  refine congrArg _ (filter_congr fun y hy => ?_)
  exact ((h.fits hy).isGroup_node).symm

lemma mem_document_groups {gs} :
    gs ∈ d.groups ↔ ∃ g ∈ plan.flatMap Portion.groups, groupsAbove (g.entry :: g.above) = gs := by
  rw [Document.groups, ← h.map_node_groups, map_map, mem_map]
  refine exists_congr fun g => and_congr_right fun hg => ?_
  rw [Function.comp_apply, (h.fits (mem_groups.1 hg).1).inner_node]

lemma encloses {y} (hy : y ∈ plan.flatMap Portion.stations) {above} (habove : above <:+ y.above) :
    d.Encloses (groupsAbove above) := by
  induction above with
  | nil => exact .inl rfl
  | cons x outer ih =>
    cases hx : x.isGroup with
    | false =>
      rw [groupsAbove_node hx]
      exact ih ((suffix_cons _ _).trans habove)
    | true =>
      obtain ⟨forest, hforest, hy⟩ := exists_forest hy
      obtain ⟨S₁, S₂, hsplit⟩ := append_of_mem hy
      obtain hnil | ⟨g, hg, rfl, rfl, _⟩ := Branch.stationsOf_before hsplit habove
      · cases suffix_nil.1 hnil
      · have hstation : g ∈ Branch.stationsOf [] forest := hsplit ▸ mem_append_left _ hg
        exact .inr (h.mem_document_groups.2
          ⟨g, mem_groups.2 ⟨mem_stations hforest hstation, hx⟩, rfl⟩)

lemma encloses_above {g gs} (hgs : d.Encloses (g :: gs)) : d.Encloses gs := by
  obtain hnil | hgs := hgs
  · cases hnil
  · obtain ⟨y, hy, heq⟩ := h.mem_document_groups.1 hgs
    obtain ⟨hstation, hgroup⟩ := mem_groups.1 hy
    rw [groupsAbove_group hgroup] at heq
    rw [← (cons.inj heq).2]
    exact h.encloses hstation suffix_rfl

lemma encloses_of_suffix {gs ms} (hgs : d.Encloses gs) (hms : ms <:+ gs) : d.Encloses ms := by
  induction gs with
  | nil =>
    rw [suffix_nil.1 hms]
    exact hgs
  | cons g gs ih =>
    obtain rfl | hms := suffix_cons_iff.1 hms
    · exact hgs
    · exact ih (h.encloses_above hgs) hms

lemma groupsMethod_injective {gs ms} (hgs : d.Encloses gs) (hms : d.Encloses ms)
    (heq : groupsMethod gs = groupsMethod ms) : gs = ms := by
  cases gs with
  | nil =>
    cases ms with
    | nil => rfl
    | cons m ms => exact absurd heq.symm (groupMethod_ne_init m)
  | cons g gs =>
    cases ms with
    | nil => exact absurd heq (groupMethod_ne_init g)
    | cons m ms =>
      obtain hgs | hgs := hgs
      · cases hgs
      obtain hms | hms := hms
      · cases hms
      obtain ⟨y, hy, hgs⟩ := h.mem_document_groups.1 hgs
      obtain ⟨z, hz, hms⟩ := h.mem_document_groups.1 hms
      rw [groupsAbove_group (mem_groups.1 hy).2] at hgs
      rw [groupsAbove_group (mem_groups.1 hz).2] at hms
      have hname : y.entry.name = z.entry.name := by
        rw [(cons.inj hgs).1, (cons.inj hms).1, groupMethod_injective heq]
      rw [← hgs, ← hms, inj_on_of_nodup_map h.nodup_groups hy hz hname]

end Planned

end SceneView
