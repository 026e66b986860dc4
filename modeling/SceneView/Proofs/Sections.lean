import Mathlib.Logic.Relation
import SceneView.Proofs.Compilation
import SceneView.Proofs.Veil

/-!
# Sections cut in two

A section stands for its elements one after the other. It can be cut between any two of them into
two sections of the same kind, and the document is compiled as before: to the same code, or to the
same fault on the same line.
-/

open List

namespace SceneView

/-- One of some sections is cut in two. The text stays with the first part. -/
inductive Cut : List Element → List Element → Prop where
  | here {tag attributes first second text line rest} :
    Cut (⟨tag, attributes, first ++ second, text, line⟩ :: rest)
      (⟨tag, attributes, first, text, line⟩ :: ⟨tag, attributes, second, "", line⟩ :: rest)
  | there {e es es'} :
    Cut es es' →
    Cut (e :: es) (e :: es')

/-- A document with one of its sections cut in two. -/
inductive Document.CutsTo (d : Document) : Document → Prop where
  | cut {es} :
    Cut d.sections es →
    d.CutsTo ⟨{ d.root with children := es }⟩

lemma insertNames_self (more names : List String) :
    insertNames more (insertNames more names) = insertNames more names := by
  induction more with
  | nil => rfl
  | cons a more ih =>
    have hcons : ∀ names, insertNames (a :: more) names = insertName a (insertNames more names) :=
      fun _ => rfl
    rw [hcons, hcons, ← insertName_insertNames, insertName_self, ih]

lemma Session.veiled_veiled (s : Session) (more : List String) (log log' : List LogEntry) :
    (s.veiled more log).veiled more log' = s.veiled more log' := by
  unfold veiled Imports.withControls
  dsimp only
  rw [insertNames_self]

namespace Compile

variable {α β : Type}

/-- The second action ends like the first: with the same fault, or with the same answer and the same
session apart from the log. -/
def Agrees (x y : Compile α) : Prop :=
  ∀ s, match x.run.run s with
    | (.ok a, s') => ∃ log, y.run.run s = (.ok a, s'.veiled [] log)
    | (.error fault, _) => (y.run.run s).1 = .error fault

namespace Agrees

variable {x y z : Compile α} {f g : α → Compile β}

lemma refl (x : Compile α) : Agrees x x := by
  intro s
  generalize hx : x.run.run s = r
  obtain ⟨r, s'⟩ := r
  cases r with
  | ok a => exact ⟨s'.log, rfl⟩
  | error fault => rfl

lemma trans (h : Agrees x y) (h' : Agrees y z) : Agrees x z := by
  intro s
  have hx := h s
  have hy := h' s
  generalize x.run.run s = r at hx
  obtain ⟨r, s'⟩ := r
  cases r with
  | ok a =>
    obtain ⟨log, hlog⟩ := hx
    rw [hlog] at hy
    obtain ⟨log', hz⟩ := hy
    exact ⟨log', hz⟩
  | error fault =>
    dsimp only at hx ⊢
    generalize y.run.run s = r' at hx hy
    obtain ⟨r', s''⟩ := r'
    cases hx
    exact hy

lemma bind (h : Agrees x y) (hg : ∀ a, Blind (g a)) (hf : ∀ a, Agrees (f a) (g a)) :
    Agrees (x >>= f) (y >>= g) := by
  intro s
  have hx := h s
  rw [run_bind, run_bind]
  generalize x.run.run s = r at hx
  obtain ⟨r, s'⟩ := r
  cases r with
  | ok a =>
    obtain ⟨log, hy⟩ := hx
    rw [hy]
    obtain ⟨log', hblind⟩ := hg a s' [] log
    have ha := hf a s'
    dsimp only
    rw [hblind]
    generalize (f a).run.run s' = r' at ha
    obtain ⟨r', s''⟩ := r'
    cases r' with
    | ok b =>
      obtain ⟨log'', hb⟩ := ha
      rw [hb]
      exact ⟨log', rfl⟩
    | error fault => exact ha
  | error fault =>
    dsimp only at hx ⊢
    generalize y.run.run s = r' at hx
    obtain ⟨r', s''⟩ := r'
    cases hx
    rfl

lemma bind_right (hf : ∀ a, Agrees (f a) (g a)) (x : Compile α) : Agrees (x >>= f) (x >>= g) := by
  intro s
  rw [run_bind, run_bind]
  generalize x.run.run s = r
  obtain ⟨r, s'⟩ := r
  cases r with
  | ok a => exact hf a s'
  | error fault => rfl

lemma log (level : LogLevel) (text : String) {x : Compile α} (h : Blind x) :
    Agrees (do log level text; x) x ∧ Agrees x (do log level text; x) := by
  rw [Agrees, Agrees, ← forall_and]
  intro s
  rw [run_bind]
  obtain ⟨log', hlog⟩ := h s [] ({ level, text } :: s.log)
  have hrun : (Compile.log level text).run.run s =
    (.ok (), s.veiled [] ({ level, text } :: s.log)) := rfl
  rw [hrun]
  dsimp only
  rw [hlog]
  generalize x.run.run s = r
  obtain ⟨r, s'⟩ := r
  cases r with
  | ok a => exact ⟨⟨s'.log, rfl⟩, ⟨log', rfl⟩⟩
  | error fault => exact ⟨rfl, rfl⟩

end Agrees

lemma Agrees.forM_cut {f : Element → Compile PUnit} {es es' : List Element} (h : Cut es es')
    (hblind : ∀ e, Blind (f e))
    (hcut : ∀ tag attributes first second text line,
      Agrees (f ⟨tag, attributes, first ++ second, text, line⟩) (do
        f ⟨tag, attributes, first, text, line⟩
        f ⟨tag, attributes, second, "", line⟩)) :
    Agrees (es.forM f) (es'.forM f) := by
  induction h with
  | @here tag attributes first second text line rest =>
    have hparts : (⟨tag, attributes, first, text, line⟩ :: ⟨tag, attributes, second, "", line⟩ ::
        rest : List Element).forM f = (do
          f ⟨tag, attributes, first, text, line⟩
          f ⟨tag, attributes, second, "", line⟩) >>= fun _ => rest.forM f :=
      (bind_assoc ..).symm
    rw [hparts]
    exact .bind (hcut _ _ _ _ _ _) (fun _ => .forM hblind rest) fun _ => .refl _
  | there _ ih => exact .bind_right (fun _ => ih) _

lemma namesInAll_append (es es' : List Element) :
    namesInAll (es ++ es') = namesInAll es ++ namesInAll es' := by
  induction es with
  | nil => rfl
  | cons e es ih => rw [cons_append, namesInAll, namesInAll, ih, append_assoc]

lemma nodeNamesInAll_append (es es' : List Element) :
    nodeNamesInAll (es ++ es') = nodeNamesInAll es ++ nodeNamesInAll es' := by
  induction es with
  | nil => rfl
  | cons e es ih => rw [cons_append, nodeNamesInAll, nodeNamesInAll, ih, append_assoc]

def withNames (names : NamePool) (s : Session) : Session :=
  { s with names }

/-- An action that neither looks at the reserved names nor changes them. -/
def Nameless (x : Compile α) : Prop :=
  ∀ names s, x.run.run (withNames names s) = ((x.run.run s).1, withNames names (x.run.run s).2)

namespace Nameless

variable {x : Compile α} {f : α → Compile β}

lemma bind (h : Nameless x) (hf : ∀ a, Nameless (f a)) : Nameless (x >>= f) := by
  intro names s
  rw [run_bind, run_bind, h]
  generalize x.run.run s = r
  obtain ⟨r, s'⟩ := r
  cases r with
  | ok a => exact hf a names s'
  | error fault => rfl

lemma forM {f : α → Compile PUnit} (h : ∀ a, Nameless (f a)) : (l : List α) → Nameless (l.forM f)
  | [] => fun _ _ => rfl
  | a :: l => .bind (h a) fun _ => forM h l

lemma located {line} (h : Nameless x) : Nameless (located line x) := by
  intro names s
  change ((x.run.run (withNames names s)).1.mapError (Fault.atLine line),
    (x.run.run (withNames names s)).2) = _
  rw [h]
  rfl

end Nameless

lemma registerShared_nameless (kind : SharedKind) (e : Element) :
    Nameless (registerShared kind e) := by
  unfold registerShared
  refine .bind (fun _ _ => rfl) fun raw => .bind (fun _ _ => rfl) fun _ =>
    .located fun names s => ?_
  simp only [run_bind, run_get, run_lift]
  have hshared : (withNames names s).shared = s.shared := rfl
  rw [hshared]
  cases s.shared.register kind (Text.trim raw) Builtin.init with
  | ok | error => rfl

def reserveAll (es : List Element) : Compile Unit :=
  modify fun s => { s with names := (namesInAll es).foldl NamePool.reserve s.names }

def noteNodes (es : List Element) : Compile Unit :=
  modify fun s => { s with nodeNames := s.nodeNames ++ nodeNamesInAll es }

lemma reserveAll_append (first second : List Element) (s : Session) :
    (reserveAll (first ++ second)).run.run s =
      (.ok (), withNames ((namesInAll second).foldl NamePool.reserve
        ((namesInAll first).foldl NamePool.reserve s.names)) s) := by
  have hrun : (reserveAll (first ++ second)).run.run s =
      (.ok (), withNames ((namesInAll (first ++ second)).foldl NamePool.reserve s.names) s) := rfl
  rw [hrun, namesInAll_append, foldl_append]

lemma register_cut (kind : SharedKind) (first second : List Element) :
    Agrees (reserveAll (first ++ second) >>= fun _ => (first ++ second).forM (registerShared kind))
      ((reserveAll first >>= fun _ => first.forM (registerShared kind)) >>= fun _ =>
        reserveAll second >>= fun _ => second.forM (registerShared kind)) := by
  intro s
  have happend : (first ++ second).forM (registerShared kind) =
      first.forM (registerShared kind) >>= fun _ => second.forM (registerShared kind) :=
    forM_append
  have hfirst : (reserveAll first).run.run s =
      (.ok (), withNames ((namesInAll first).foldl NamePool.reserve s.names) s) := rfl
  rw [run_bind, reserveAll_append, bind_assoc, run_bind, hfirst, happend]
  dsimp only
  have hnameless := Nameless.forM (registerShared_nameless kind) first
  rw [run_bind, run_bind, hnameless, hnameless]
  generalize (first.forM (registerShared kind)).run.run s = r
  obtain ⟨r, s'⟩ := r
  cases r with
  | ok _ => exact Agrees.refl (second.forM (registerShared kind)) (withNames _ s')
  | error fault => rfl

lemma lookAhead_cut (tag : String) (attributes : List Attribute) (first second : List Element)
    (text : String) (line : Nat) :
    Agrees (lookAhead ⟨tag, attributes, first ++ second, text, line⟩) (do
      lookAhead ⟨tag, attributes, first, text, line⟩
      lookAhead ⟨tag, attributes, second, "", line⟩) := by
  have hreserve : Agrees (reserveAll (first ++ second) >>= fun _ => pure ())
      ((reserveAll first >>= fun _ => pure ()) >>= fun _ =>
        reserveAll second >>= fun _ => pure ()) := by
    intro s
    rw [run_bind, reserveAll_append]
    exact ⟨s.log, rfl⟩
  have hnodes : Agrees (reserveAll (first ++ second) >>= fun _ => noteNodes (first ++ second))
      ((reserveAll first >>= fun _ => noteNodes first) >>= fun _ =>
        reserveAll second >>= fun _ => noteNodes second) := by
    intro s
    rw [run_bind, reserveAll_append, noteNodes, nodeNamesInAll_append]
    refine ⟨s.log, ?_⟩
    simp only [← append_assoc]
    rfl
  unfold lookAhead
  dsimp only
  cases SectionKind.ofTag? tag with
  | none => exact hreserve
  | some kind =>
    cases kind with
    | materials => exact register_cut .material first second
    | textures => exact register_cut .texture first second
    | nodes => exact hnodes
    | imports | properties | guis => exact hreserve

lemma lookAhead_blind (e : Element) : Blind (lookAhead e) :=
  .of_composed (lookAhead_composed trivial trivial)

lemma gui_blind (e : Element) : Blind (gui e) :=
  .of_composed (gui_composed trivial trivial)

lemma nodes_append (p : Placement) (es es' : List Element) :
    nodes p (es ++ es') = nodes p es >>= fun _ => nodes p es' := by
  induction es with
  | nil => rw [nil_append, nodes, pure_bind]
  | cons e es ih => rw [cons_append, nodes, nodes, ih, bind_assoc]

lemma guis_cut (first second : List Element) :
    Agrees (guis (first ++ second)) (guis first >>= fun _ => guis second) := by
  have hrun : ∀ es s, (guis es).run.run s =
      (es.forM gui).run.run (s.veiled ["Control", guiType] s.log) := fun _ _ => rfl
  have happend : (first ++ second).forM gui = first.forM gui >>= fun _ => second.forM gui :=
    forM_append
  intro s
  rw [run_bind, hrun, hrun, happend, run_bind]
  obtain ⟨log, hfirst⟩ := Blind.forM gui_blind first s ["Control", guiType] s.log
  rw [hfirst]
  generalize (first.forM gui).run.run s = r
  obtain ⟨r, s'⟩ := r
  cases r with
  | error fault => rfl
  | ok _ =>
    dsimp only
    rw [hrun, Session.veiled_veiled]
    exact Agrees.refl (second.forM gui) (s'.veiled ["Control", guiType] log)

/-- What a section of a kind does, apart from the log. -/
def sectionBody (kind : SectionKind) (text : String) (es : List Element) : Compile Unit :=
  match kind with
  | .imports =>
    modify fun s => { s with authorImports := s.authorImports ++ Text.trimmedLines text }
  | .properties => es.forM property
  | .nodes => nodes Placement.top es
  | .materials => es.forM sharedMaterial
  | .textures => es.forM sharedTexture
  | .guis => guis es

lemma sectionElement_of_kind {tag kind} (h : SectionKind.ofTag? tag = some kind) (rootTag : String)
    (attributes : List Attribute) (es : List Element) (text : String) (line : Nat) :
    sectionElement rootTag ⟨tag, attributes, es, text, line⟩ = (do
      log .debug ("section <" ++ tag ++ "> (" ++ toString es.length ++ " elements)")
      sectionBody kind text es) := by
  unfold sectionElement
  dsimp only
  rw [h]
  cases kind <;> rfl

lemma sectionElement_blind (rootTag : String) (e : Element) : Blind (sectionElement rootTag e) :=
  .of_composed (sectionElement_composed trivial trivial rootTag (fun _ _ _ _ => trivial)
    fun _ _ _ => trivial)

lemma sectionBody_blind (kind : SectionKind) (text : String) (es : List Element) :
    Blind (sectionBody kind text es) := by
  cases kind with
  | imports => exact .of_composed .set
  | properties => exact .of_composed (.forM fun c _ => property_composed trivial)
  | nodes =>
    exact .of_composed (nodes_composed trivial _ es (fun _ _ => trivial) fun _ _ _ => trivial)
  | materials =>
    exact .of_composed
      (.forM fun c _ => sharedMaterial_composed trivial trivial fun _ _ _ => trivial)
  | textures => exact .of_composed (.forM fun c _ => sharedTexture_composed trivial trivial)
  | guis => exact .of_composed (guis_composed trivial fun _ _ => trivial)

lemma sectionBody_cut (kind : SectionKind) (text : String) (first second : List Element) :
    Agrees (sectionBody kind text (first ++ second))
      (sectionBody kind text first >>= fun _ => sectionBody kind "" second) := by
  have hforM : ∀ f : Element → Compile PUnit,
      Agrees ((first ++ second).forM f) (first.forM f >>= fun _ => second.forM f) := by
    intro f
    have happend : (first ++ second).forM f = first.forM f >>= fun _ => second.forM f :=
      forM_append
    rw [happend]
    exact .refl _
  cases kind with
  | imports =>
    have hempty : Text.trimmedLines "" = [] := by decide
    unfold sectionBody
    dsimp only
    rw [hempty]
    intro s
    refine ⟨s.log, ?_⟩
    simp only [append_nil]
    rfl
  | properties => exact hforM property
  | nodes =>
    unfold sectionBody
    dsimp only
    rw [nodes_append]
    exact .refl _
  | materials => exact hforM sharedMaterial
  | textures => exact hforM sharedTexture
  | guis => exact guis_cut first second

lemma sectionElement_cut (rootTag tag : String) (attributes : List Attribute)
    (first second : List Element) (text : String) (line : Nat) :
    Agrees (sectionElement rootTag ⟨tag, attributes, first ++ second, text, line⟩) (do
      sectionElement rootTag ⟨tag, attributes, first, text, line⟩
      sectionElement rootTag ⟨tag, attributes, second, "", line⟩) := by
  cases h : SectionKind.ofTag? tag with
  | none =>
    unfold sectionElement
    dsimp only
    rw [h]
    exact fun _ => rfl
  | some kind =>
    simp only [sectionElement_of_kind h, bind_assoc]
    have hsecond := sectionBody_blind kind "" second
    have hboth : Blind (do sectionBody kind text first; sectionBody kind "" second) :=
      .bind (sectionBody_blind kind text first) fun _ => hsecond
    refine (Agrees.log _ _ (sectionBody_blind kind text (first ++ second))).1.trans ?_
    refine (sectionBody_cut kind text first second).trans ?_
    refine Agrees.trans (Agrees.log _ _ hboth).2 (.bind_right (fun _ => ?_) _)
    exact .bind_right (fun _ => (Agrees.log _ _ hsecond).2) _

lemma finish_blind : Blind finish :=
  .of_composed finish_composed

lemma document_cut {d d'} (h : d.CutsTo d') : Agrees (document d) (document d') := by
  obtain ⟨hcut⟩ := h
  have hsections := Agrees.forM_cut hcut (sectionElement_blind d.root.tag)
    (sectionElement_cut d.root.tag)
  have hlook := Agrees.forM_cut hcut lookAhead_blind lookAhead_cut
  refine .bind hlook (fun _ => .bind (.forM (sectionElement_blind _) _) fun _ => finish_blind) ?_
  exact fun _ => .bind hsections (fun _ => finish_blind) fun _ => .refl finish

end Compile

lemma Session.moduleText_veiled (s : Session) (log : List LogEntry) (libraries : Libraries) :
    (s.veiled [] log).moduleText libraries = s.moduleText libraries :=
  rfl

lemma compileDocument_cutsTo (options : CompileOptions) {d d'} (h : d.CutsTo d') :
    (compileDocument options d').1 = (compileDocument options d).1 := by
  have hname : d'.className = d.className := by
    cases h
    rfl
  have hmixin : d'.isMixin = d.isMixin := by
    cases h
    rfl
  cases hd : d.className with
  | error fault =>
    unfold compileDocument
    rw [hname, hd]
  | ok className =>
    rw [compileDocument_eq hd, compileDocument_eq (hname.trans hd), hmixin]
    have hview : Compile.Agrees (Compile.view d className) (Compile.view d' className) := by
      unfold Compile.view
      rw [hmixin]
      exact .bind_right (fun _ => Compile.document_cut h) _
    have hs := hview (Compile.start className d.isMixin options.visibility)
    generalize (Compile.view d className).run.run
      (Compile.start className d.isMixin options.visibility) = r at hs ⊢
    obtain ⟨r, s'⟩ := r
    cases r with
    | ok _ =>
      obtain ⟨log, hlog⟩ := hs
      rw [hlog]
      dsimp only
      rw [Session.moduleText_veiled]
    | error fault =>
      generalize (Compile.view d' className).run.run
        (Compile.start className d.isMixin options.visibility) = r' at hs ⊢
      obtain ⟨r', s''⟩ := r'
      cases hs
      rfl

/-- However often its sections are cut, a document is compiled to the same code, or fails with the
same fault on the same line. -/
theorem compileDocument_cuts (options : CompileOptions) {d d' : Document}
    (h : Relation.ReflTransGen Document.CutsTo d d') :
    (compileDocument options d').1 = (compileDocument options d).1 := by
  induction h with
  | refl => rfl
  | tail _ h ih => rw [compileDocument_cutsTo options h, ih]

/-- The nodes and user interfaces of a view, the material of a node after it. -/
def joinedSections : List Element :=
  [{ tag := "Nodes"
     children :=
       [{ tag := "Box", attributes := [⟨"name", "a"⟩] },
         { tag := "Box", attributes := [⟨"name", "b"⟩, ⟨"material", "m"⟩] }] },
    { tag := "Materials"
      children := [{ tag := "StandardMaterial", attributes := [⟨"name", "m"⟩] }] },
    { tag := "Guis"
      children :=
        [{ tag := "FullScreen" }, { tag := "TextureGui", attributes := [⟨"mesh", "b"⟩] }] }]

/-- The same with the nodes cut after the first and the user interfaces cut at both ends. -/
def partedSections : List Element :=
  [{ tag := "Nodes", children := [{ tag := "Box", attributes := [⟨"name", "a"⟩] }] },
    { tag := "Nodes"
      children := [{ tag := "Box", attributes := [⟨"name", "b"⟩, ⟨"material", "m"⟩] }] },
    { tag := "Materials"
      children := [{ tag := "StandardMaterial", attributes := [⟨"name", "m"⟩] }] },
    { tag := "Guis" },
    { tag := "Guis"
      children :=
        [{ tag := "FullScreen" }, { tag := "TextureGui", attributes := [⟨"mesh", "b"⟩] }] },
    { tag := "Guis" }]

def viewOf (sections : List Element) : Document where
  root := { tag := "View", attributes := [⟨"name", "V"⟩], children := sections }

/-- The view with its sections whole is accepted, and with its sections cut it is compiled to the
same code. -/
theorem partedSections_compiled :
    Relation.ReflTransGen Document.CutsTo (viewOf joinedSections) (viewOf partedSections) ∧
      ∃ v, (compileDocument {} (viewOf joinedSections)).1 = .ok v ∧
        (compileDocument {} (viewOf partedSections)).1 = .ok v := by
  have hcuts : Relation.ReflTransGen Document.CutsTo (viewOf joinedSections)
      (viewOf partedSections) := by
    refine .head (.cut (@Cut.here _ _ [_] [_] _ _ _)) ?_
    refine .head (.cut (.there (.there (.there (@Cut.here _ _ [] [_, _] _ _ _))))) ?_
    refine .head (.cut (.there (.there (.there (.there (@Cut.here _ _ [_, _] [] _ _ _)))))) ?_
    exact .refl
  have haccepted : (compileDocument {} (viewOf joinedSections)).1.isOk = true := by decide +kernel
  have hsame := compileDocument_cuts {} hcuts
  obtain ⟨v, hv⟩ := exists_of_isOk haccepted
  exact ⟨hcuts, v, hv, hsame.trans hv⟩

end SceneView
