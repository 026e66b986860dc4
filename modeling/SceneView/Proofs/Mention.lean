import SceneView.Proofs.Diagnosis

/-!
# Mentions of meshes

The elements of user interfaces refer to meshes by name, and a mesh must stand before the elements
that refer to it. The mentions of a document are its nodes and these references, in document order.
A walk along them (`resolve`) stops at the first reference to a mesh that no node before it is.
-/

open List

namespace SceneView

/-- The name that user interfaces refer to a node by. Only shapes and custom nodes have one. -/
def Element.meshName? (e : Element) : Option String :=
  match NodeKind.ofTag? e.tag with
  | some (.shape _) | some .custom => e.givenName?
  | _ => none

/-- What a document says about meshes. -/
inductive Mention where
  | node (e : Element)
  /-- An element of a user interface refers to a mesh, and is told so at a line. -/
  | asks (e : Element) (name : String) (line : Nat)

namespace Mention

def atLine (line : Nat) : Mention → Mention
  | node e => node e
  | asks e name line' => asks e name (if line' = 0 then line else line')

def nodeName? : Mention → Option String
  | node e => (e.attr? "name").map Text.trim
  | asks .. => none

def mesh? : Mention → Option String
  | node e => e.meshName?
  | asks .. => none

def asked? : Mention → Option String
  | node _ => none
  | asks _ name _ => some name

end Mention

/-- Walks along some mentions. Every reference must be to a mesh that is known by then; what is said
about one that is not depends on the names of all nodes. -/
def resolve (names known : List String) : List Mention → Except Fault (List String)
  | [] => .ok known
  | .node e :: ms => resolve names (e.meshName?.toList ++ known) ms
  | .asks _ name line :: ms =>
    if name ∈ known then resolve names known ms
    else if name ∈ names then .error (.forwardReference .mesh name line)
    else .error (.reference .mesh name line)

mutual

def nodeMentions : Element → List Mention
  | ⟨tag, attributes, children, text, line⟩ =>
    if NodeKind.ofTag? tag = some .material then []
    else .node ⟨tag, attributes, children, text, line⟩ :: nodesMentions children

def nodesMentions : List Element → List Mention
  | [] => []
  | e :: es => nodeMentions e ++ nodesMentions es

end

def linkMentions (e : Element) : List Mention :=
  (e.attributesExcept ["name"]).flatMap fun a =>
    if a.name == Compile.linkAttribute && isLiteral a.value then [.asks e (Text.trim a.value) 0]
    else []

mutual

def controlMentions : Element → List Mention
  | ⟨tag, attributes, children, text, line⟩ =>
    (linkMentions ⟨tag, attributes, children, text, line⟩ ++ controlsMentions children).map
      (Mention.atLine line)

def controlsMentions : List Element → List Mention
  | [] => []
  | e :: es => controlMentions e ++ controlsMentions es

end

def rootMentions (e : Element) : List Mention :=
  match GuiRoot.ofTag? e.tag with
  | some .onMesh => ((e.attr? "mesh").map fun raw => .asks e (Text.trim raw) 0).toList
  | some .fullScreen | none => []

def guiMentions (e : Element) : List Mention :=
  (rootMentions e ++ controlsMentions e.children).map (Mention.atLine e.line)

def sectionMentions (e : Element) : List Mention :=
  match SectionKind.ofTag? e.tag with
  | some .nodes => nodesMentions e.children
  | some .guis => e.children.flatMap guiMentions
  | some .imports | some .properties | some .materials | some .textures | none => []

def Document.mentions (d : Document) : List Mention :=
  d.sections.flatMap sectionMentions

def Document.nodeNames (d : Document) : List String :=
  d.mentions.filterMap Mention.nodeName?

section

variable {names known : List String}

lemma resolve_append (ms ms' : List Mention) :
    resolve names known (ms ++ ms') =
      (resolve names known ms).bind fun known' => resolve names known' ms' := by
  induction ms generalizing known with
  | nil => rfl
  | cons m ms ih =>
    cases m with
    | node e => exact ih
    | asks e name line =>
      rw [cons_append, resolve, resolve]
      split
      · exact ih
      · split <;> rfl

lemma resolve_atLine (line : Nat) (ms : List Mention) :
    resolve names known (ms.map (Mention.atLine line)) =
      (resolve names known ms).mapError (Fault.atLine line) := by
  induction ms generalizing known with
  | nil => rfl
  | cons m ms ih =>
    cases m with
    | node e => exact ih
    | asks e name line' =>
      rw [map_cons, Mention.atLine, resolve, resolve]
      split
      · exact ih
      · split <;> cases line' <;> rfl

lemma resolve_eq_ok {ms known'} (h : resolve names known ms = .ok known') :
    known' = (ms.filterMap Mention.mesh?).reverse ++ known ∧
      ∀ n ∈ ms.filterMap Mention.asked?, n ∈ known' := by
  induction ms generalizing known with
  | nil =>
    cases h
    exact ⟨rfl, by simp⟩
  | cons m ms ih =>
    cases m with
    | node e =>
      obtain ⟨rfl, hasked⟩ := ih h
      refine ⟨?_, hasked⟩
      cases hmesh : e.meshName? <;> simp [Mention.mesh?, hmesh]
    | asks e name line =>
      rw [resolve] at h
      split at h
      · next hname =>
        obtain ⟨rfl, hasked⟩ := ih h
        exact ⟨rfl, forall_mem_cons.2 ⟨mem_append_right _ hname, hasked⟩⟩
      · split at h <;> cases h

lemma resolve_eq_error {ms f} (h : resolve names known ms = .error f) :
    ∃ before e n line after known', ms = before ++ .asks e n line :: after ∧
      resolve names known before = .ok known' ∧ n ∉ known' ∧
      f = if n ∈ names then .forwardReference .mesh n line else .reference .mesh n line := by
  induction ms generalizing known with
  | nil => cases h
  | cons m ms ih =>
    cases m with
    | node e =>
      obtain ⟨before, e', n, line, after, known', rfl, hbefore, hn, hf⟩ := ih h
      exact ⟨.node e :: before, e', n, line, after, known', rfl, hbefore, hn, hf⟩
    | asks e name line =>
      rw [resolve] at h
      split at h
      · next hname =>
        obtain ⟨before, e', n, line', after, known', rfl, hbefore, hn, hf⟩ := ih h
        refine ⟨.asks e name line :: before, e', n, line', after, known', rfl, ?_, hn, hf⟩
        rw [resolve, if_pos hname, hbefore]
      · next hname =>
        refine ⟨[], e, name, line, ms, known, rfl, rfl, hname, ?_⟩
        split at h
        · next hnames =>
          cases h
          exact (if_pos hnames).symm
        · next hnames =>
          cases h
          exact (if_neg hnames).symm

end

mutual

lemma mem_nodeMentions : (e : Element) →
    ∀ m ∈ nodeMentions e, ∃ c ∈ e.elements, m = .node c
  | ⟨tag, attributes, children, text, line⟩ => by
    rw [nodeMentions, Element.elements]
    split
    · simp
    · refine forall_mem_cons.2 ⟨⟨_, mem_cons_self, rfl⟩, fun m hm => ?_⟩
      obtain ⟨c, hc, rfl⟩ := mem_nodesMentions children m hm
      exact ⟨c, mem_cons_of_mem _ hc, rfl⟩

lemma mem_nodesMentions : (es : List Element) →
    ∀ m ∈ nodesMentions es, ∃ c ∈ Element.elementsOf es, m = .node c
  | [] => by simp [nodesMentions]
  | e :: es => by
    intro m hm
    rw [Element.elementsOf]
    obtain hm | hm := mem_append.1 hm
    · obtain ⟨c, hc, rfl⟩ := mem_nodeMentions e m hm
      exact ⟨c, mem_append_left _ hc, rfl⟩
    · obtain ⟨c, hc, rfl⟩ := mem_nodesMentions es m hm
      exact ⟨c, mem_append_right _ hc, rfl⟩

end

lemma nodeMentions_atLine (line : Nat) (e : Element) :
    (nodeMentions e).map (Mention.atLine line) = nodeMentions e := by
  have hnode : ∀ m ∈ nodeMentions e, m.atLine line = m := by
    intro m hm
    obtain ⟨c, _, rfl⟩ := mem_nodeMentions e m hm
    rfl
  rw [map_congr_left hnode, map_id']

/-- An element refers to a mesh by the attribute that a user interface is drawn with, or by a
literal link. -/
def Element.RefersTo (e : Element) (n : String) : Prop :=
  ∃ a ∈ e.attributes, Text.trim a.value = n ∧
    (a.name = "mesh" ∨ a.name = Compile.linkAttribute ∧ isLiteral a.value = true)

/-- A reference by an element of `B`, told at the line of the element if it has one. -/
inductive Mention.Refers (B : Element → Prop) : Mention → Prop where
  | asks {e n line} :
    B e →
    e.RefersTo n →
    (0 < e.line → line = e.line) →
    Refers B (.asks e n line)

namespace Mention.Refers

variable {B B' : Element → Prop} {m : Mention}

lemma mono (h : m.Refers B) (hB : ∀ e, B e → B' e) : m.Refers B' := by
  cases h with
  | asks he hrefers hline => exact .asks (hB _ he) hrefers hline

lemma atLine (h : m.Refers B) (line : Nat) : (m.atLine line).Refers B := by
  cases h with
  | asks he hrefers hline =>
    refine .asks he hrefers fun hpos => ?_
    rw [if_neg (by have := hline hpos; omega)]
    exact hline hpos

lemma nodeName?_eq (h : m.Refers B) : m.nodeName? = none := by
  cases h with
  | asks => rfl

end Mention.Refers

lemma refers_atLine {B e} {own inner : List Mention} (he : B e)
    (hown : ∀ m ∈ own, ∃ n, m = .asks e n 0 ∧ e.RefersTo n) (hinner : ∀ m ∈ inner, m.Refers B) :
    ∀ m ∈ (own ++ inner).map (Mention.atLine e.line), m.Refers B := by
  intro m hm
  obtain ⟨m', hm', rfl⟩ := mem_map.1 hm
  obtain hm' | hm' := mem_append.1 hm'
  · obtain ⟨n, rfl, hrefers⟩ := hown m' hm'
    exact .asks he hrefers fun _ => if_pos rfl
  · exact (hinner m' hm').atLine e.line

lemma mem_linkMentions {e m} (hm : m ∈ linkMentions e) : ∃ n, m = .asks e n 0 ∧ e.RefersTo n := by
  obtain ⟨a, ha, hm⟩ := mem_flatMap.1 hm
  split at hm
  · next hlink =>
    obtain rfl := mem_singleton.1 hm
    obtain ⟨hname, hliteral⟩ := Bool.and_eq_true_iff.1 hlink
    exact ⟨_, rfl, a, (mem_filter.1 ha).1, rfl, .inr ⟨eq_of_beq hname, hliteral⟩⟩
  · cases hm

mutual

lemma controlMentions_refer : (e : Element) →
    ∀ m ∈ controlMentions e, m.Refers (· ∈ e.elements)
  | ⟨tag, attributes, children, text, line⟩ => by
    rw [controlMentions, Element.elements]
    refine refers_atLine (e := ⟨tag, attributes, children, text, line⟩) mem_cons_self
      (fun m hm => mem_linkMentions hm) fun m hm => ?_
    exact (controlsMentions_refer children m hm).mono fun _ he => mem_cons_of_mem _ he

lemma controlsMentions_refer : (es : List Element) →
    ∀ m ∈ controlsMentions es, m.Refers (· ∈ Element.elementsOf es)
  | [] => by simp [controlsMentions]
  | e :: es => by
    intro m hm
    rw [Element.elementsOf]
    obtain hm | hm := mem_append.1 hm
    · exact (controlMentions_refer e m hm).mono fun _ he => mem_append_left _ he
    · exact (controlsMentions_refer es m hm).mono fun _ he => mem_append_right _ he

end

lemma mem_rootMentions {e m} (hm : m ∈ rootMentions e) : ∃ n, m = .asks e n 0 ∧ e.RefersTo n := by
  unfold rootMentions at hm
  split at hm
  · obtain ⟨raw, hraw, rfl⟩ := Option.map_eq_some_iff.1 (Option.mem_toList.1 hm)
    obtain ⟨a, ha, rfl⟩ := Option.map_eq_some_iff.1 hraw
    have hname : a.name = "mesh" := by simpa using List.find?_some ha
    exact ⟨_, rfl, a, mem_of_find?_eq_some ha, rfl, .inl hname⟩
  · cases hm
  · cases hm

lemma guiMentions_refer (e : Element) : ∀ m ∈ guiMentions e, m.Refers (· ∈ e.elements) := by
  refine refers_atLine e.mem_elements (fun m hm => mem_rootMentions hm) fun m hm => ?_
  refine (controlsMentions_refer e.children m hm).mono fun c hc => ?_
  cases e with
  | mk tag attributes children text line =>
    rw [Element.elements]
    exact mem_cons_of_mem _ hc

lemma Document.mem_mentions {d : Document} {e n line} (h : .asks e n line ∈ d.mentions) :
    ∃ g ∈ d.sections, SectionKind.ofTag? g.tag = some .guis ∧
      e ∈ Element.elementsOf g.children ∧ e.RefersTo n ∧ (0 < e.line → line = e.line) := by
  obtain ⟨g, hg, hm⟩ := mem_flatMap.1 h
  unfold sectionMentions at hm
  split at hm
  · obtain ⟨c, _, hc⟩ := mem_nodesMentions _ _ hm
    cases hc
  · next hguis =>
    obtain ⟨root, hroot, hm⟩ := mem_flatMap.1 hm
    cases guiMentions_refer root _ hm with
    | asks he hrefers hline =>
      exact ⟨g, hg, hguis, Element.mem_elementsOf hroot he, hrefers, hline⟩
  all_goals cases hm

end SceneView
