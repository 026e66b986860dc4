import Mathlib.Data.List.Count
import Mathlib.Data.List.Induction
import Mathlib.Data.List.Perm.Basic
import SceneView.Proofs.Table

/-!
# The parts of a class

A class is put together by changes in any order. Its text depends only on what the changes add to
each group, and every part that is added is written once, in the place of its group.
-/

open List hiding beq_eq_decide

namespace SceneView

open ClassDef

inductive ClassPart where
  | member (m : Member)
  | construct (parameters : List Parameter) (body : List String)
  | accessor (a : Accessor)
  | method (m : Method)
deriving DecidableEq

inductive ClassGroup where
  | members (v : Visibility) | construct | accessors (v : Visibility) | methods (v : Visibility)
deriving DecidableEq

def ClassGroup.order : List ClassGroup :=
  Visibility.order.map members ++ construct :: Visibility.order.flatMap fun v =>
    [accessors v, methods v]

def ClassGroup.blocks (parts : List ClassPart) : ClassGroup → List (List ClassPart)
  | members _ => if parts = [] then [] else [parts]
  | _ => parts.map ([·])

namespace ClassPart

def braced (header : String) (body : List String) : String :=
  "  " ++ header ++ " \x7b\n" ++ String.join (body.map fun line => "    " ++ line ++ "\n") ++ "  \x7d"

def parameterList (ps : List Parameter) : String :=
  ", ".intercalate (ps.map fun p => p.name ++ (if p.optional then "?: " else ": ") ++ p.type)

def text : ClassPart → String
  | member m =>
    "  " ++ m.visibility.keyword ++ " " ++ m.name ++
      (if m.presence? = some .optional then "?"
        else if m.presence? = some .definite then "!" else "") ++
      ": " ++ m.type ++ (m.default?.map (" = " ++ ·)).getD "" ++ ";"
  | construct parameters body => braced ("constructor(" ++ parameterList parameters ++ ")") body
  | accessor a =>
    braced (a.visibility.keyword ++ " get " ++ a.name ++ "(): " ++ a.type) a.getter ++
      if a.setter = [] then ""
      else
        "\n\n" ++ braced (a.visibility.keyword ++ " set " ++ a.name ++ "(" ++ a.argument ++ ": " ++
          a.type ++ ")") a.setter
  | method m =>
    braced (m.visibility.keyword ++ (if m.isStatic then " static " else " ") ++ m.name ++
      (if m.isArrow then " = (" else "(") ++ parameterList m.parameters ++ "): " ++ m.returnType ++
      if m.isArrow then " =>" else "") (m.body.map Statement.text)

def group : ClassPart → ClassGroup
  | member m => .members m.visibility
  | construct .. => .construct
  | accessor a => .accessors a.visibility
  | method m => .methods m.visibility

def blocks (parts : List ClassPart) : List (List ClassPart) :=
  ClassGroup.order.flatMap fun g => g.blocks (parts.filter (·.group = g))

lemma flatten_blocks (parts : List ClassPart) :
    (blocks parts).flatten = ClassGroup.order.flatMap fun g => parts.filter (·.group = g) := by
  have hgroup : ∀ (parts : List ClassPart) (g : ClassGroup), (g.blocks parts).flatten = parts := by
    intro parts g
    cases g with
    | members v => by_cases h : parts = [] <;> simp [ClassGroup.blocks, h]
    | _ => simp [ClassGroup.blocks, ← flatMap_def]
  rw [blocks, ← flatMap_id, flatMap_assoc]
  simp [flatMap_id, hgroup]

lemma flatten_blocks_perm (parts : List ClassPart) : (blocks parts).flatten.Perm parts := by
  rw [flatten_blocks, perm_iff_count]
  intro x
  have hcount : ∀ g, (parts.filter (·.group = g)).count x =
      if x.group = g then parts.count x else 0 := by
    intro g
    split_ifs with hg
    · exact count_filter (by simpa using hg)
    · exact count_eq_zero.2 fun hx => hg (by simpa using (mem_filter.1 hx).2)
  simp only [ClassGroup.order, Visibility.order, map_cons, map_nil, flatMap_cons,
    flatMap_nil, cons_append, nil_append, count_append, hcount]
  cases x.group with
  | construct => simp
  | _ v => cases v <;> simp

end ClassPart

def ClassDef.parts (c : ClassDef) : List ClassPart :=
  c.members.map .member ++ c.accessors.map .accessor ++ c.methods.map .method ++
    if c.constructorBody = [] then [] else [.construct c.constructorParameters c.constructorBody]

namespace ClassPart

lemma parametersText_eq (ps : List Parameter) : parametersText ps = parameterList ps := by
  unfold parametersText parameterList
  congr 1
  refine map_congr_left fun p _ => ?_
  unfold Parameter.text
  split_ifs <;> simp [String.append_assoc]

lemma text_member (m : Member) : text (.member m) = m.text := by
  obtain ⟨name, type, visibility, presence?, default?⟩ := m
  cases presence? with
  | none => simp [Member.text, text]
  | some presence => cases presence <;> simp [Member.text, text, Presence.sign]

lemma text_accessor (a : Accessor) : text (.accessor a) = a.text := by
  unfold Accessor.text text Accessor.hasSetter
  change braced _ a.getter ++ _ = if _ then braced _ a.getter ++ "\n\n" ++ braced _ a.setter else _
  cases a.setter with
  | nil => exact String.append_empty
  | cons line setter => exact String.append_assoc.symm

lemma text_method (m : Method) : text (.method m) = m.text := by
  have hheader : m.header = m.visibility.keyword ++ (if m.isStatic then " static " else " ") ++
      m.name ++ (if m.isArrow then " = (" else "(") ++ parameterList m.parameters ++ "): " ++
      m.returnType ++ if m.isArrow then " =>" else "" := by
    unfold Method.header
    rw [parametersText_eq]
    split_ifs <;> simp [← String.toList_inj]
  rw [Method.text, hheader]
  rfl

end ClassPart

lemma ClassDef.blocks_eq (c : ClassDef) :
    c.blocks = (ClassPart.blocks c.parts).map fun b => "\n".intercalate (b.map ClassPart.text) := by
  have hparts : ∀ v, c.parts.filter (·.group = .members v) =
        (c.members.filter (·.visibility = v)).map .member ∧
      c.parts.filter (·.group = .accessors v) =
        (c.accessors.filter (·.visibility = v)).map .accessor ∧
      c.parts.filter (·.group = .methods v) =
        (c.methods.filter (·.visibility = v)).map .method := by
    intro v
    unfold parts
    split_ifs <;> simp [filter_map, Function.comp_def, ClassPart.group]
  have hconstruct : c.parts.filter (·.group = .construct) = if c.constructorBody = [] then [] else
      [.construct c.constructorParameters c.constructorBody] := by
    unfold parts
    split_ifs <;> simp [filter_map, Function.comp_def, ClassPart.group]
  rw [ClassPart.blocks, map_flatMap, ClassGroup.order, flatMap_append,
    flatMap_cons, flatMap_map, flatMap_assoc, ← append_assoc, hconstruct]
  refine congrArg₂ _ (congrArg₂ _ ?_ ?_) ?_
  · rw [memberBlocks, filterMap_eq_flatMap_toList]
    refine flatMap_congr fun v _ => ?_
    rw [(hparts v).1]
    simp only [beq_eq_decide]
    cases c.members.filter (·.visibility = v) <;>
      simp [ClassGroup.blocks, Function.comp_def, ClassPart.text_member]
  · unfold constructorBlocks
    cases c.constructorBody <;>
      simp [ClassGroup.blocks, ClassPart.text, ClassPart.parametersText_eq, blockText,
        ClassPart.braced]
  · refine flatMap_congr fun v _ => ?_
    simp [hparts, ClassGroup.blocks, Function.comp_def, ClassPart.text_accessor,
      ClassPart.text_method, beq_eq_decide]

lemma ClassDef.text_eq (c : ClassDef) :
    c.text = c.header ++ " \x7b\n" ++ "\n".intercalate ((ClassPart.blocks c.parts).map fun block =>
      "\n".intercalate (block.map ClassPart.text) ++ "\n") ++ "\x7d\n" := by
  rw [text, blocks_eq, map_map]
  rfl

inductive ClassChange where
  | extend (base? : Option String)
  | implement (name : String)
  | take (parameters : List Parameter)
  | run (line : String)
  | member (m : Member)
  | accessor (a : Accessor)
  | method (m : Method)
  | push (name : String) (s : Statement)

def ClassDef.change (c : ClassDef) : ClassChange → ClassDef
  | .extend base? => { c with base? }
  | .implement name => c.addInterface name
  | .take parameters => { c with constructorParameters := parameters }
  | .run line => c.addConstructorLine line
  | .member m => c.addMember m
  | .accessor a => c.addAccessor a
  | .method m => c.addMethod m
  | .push name s => (c.push name s).toOption.getD c

namespace ClassChange

def pushed? (name : String) : ClassChange → Option Statement
  | .push target s => if target = name then some s else none
  | _ => none

def methods : (seen : List String) → List ClassChange → List Method
  | _, [] => []
  | seen, .method m :: changes =>
    (if m.name ∈ seen then m else { m with body := m.body ++ changes.filterMap (pushed? m.name) }) ::
      methods (m.name :: seen) changes
  | seen, _ :: changes => methods seen changes

def toClass (name : String) (visibility : ClassVisibility) (changes : List ClassChange) :
    ClassDef where
  name
  visibility
  base? := (changes.filterMap fun | .extend base? => some base? | _ => none).getLastD none
  interfaces := changes.filterMap fun | .implement name => some name | _ => none
  constructorParameters := (changes.filterMap fun | .take ps => some ps | _ => none).getLastD []
  constructorBody := changes.filterMap fun | .run line => some line | _ => none
  members := changes.filterMap fun | .member m => some m | _ => none
  accessors := changes.filterMap fun | .accessor a => some a | _ => none
  methods := methods [] changes

def amend (seen : List String) (ms : List Method) : ClassChange → List Method
  | .method m => ms ++ [m]
  | .push name s => if name ∈ seen then ms else updateFirst (·.push s) name ms
  | _ => ms

lemma methods_concat (seen : List String) (changes : List ClassChange) (change : ClassChange) :
    methods seen (changes ++ [change]) = change.amend seen (methods seen changes) := by
  induction changes generalizing seen with
  | nil => cases change <;> simp [methods, amend, updateFirst]
  | cons first changes ih =>
    cases first with
    | method m =>
      rw [cons_append, methods, ih, filterMap_append, methods]
      cases change with
      | push name s =>
        by_cases hname : m.name = name
        · subst hname
          by_cases hseen : m.name ∈ seen
          · simp [hseen, amend]
          · simp [hseen, amend, updateFirst, Method.push, pushed?]
        · by_cases hseen : name ∈ seen
          · simp [hseen, amend, Ne.symm hname, pushed?]
          · split_ifs <;> simp_all [amend, updateFirst, pushed?, Ne.symm hname]
      | _ => simp [amend, pushed?, filterMap_cons]
    | _ => exact ih seen

lemma change_push (c : ClassDef) (name : String) (s : Statement) :
    c.change (.push name s) =
      { c with methods := updateFirst (·.push s) name c.methods } := by
  cases h : c.hasMethod name with
  | true => simp [ClassDef.change, push_eq_ok h, Except.toOption]
  | false =>
    have hmethods : ∀ ms : List Method, (∀ m ∈ ms, m.name ≠ name) →
        updateFirst (·.push s) name ms = ms := by
      intro ms hms
      induction ms with
      | nil => rfl
      | cons m ms ih =>
        obtain ⟨hm, hms⟩ := forall_mem_cons.1 hms
        rw [updateFirst, if_neg (by simpa using hm), ih hms]
    have hnone : ∀ m ∈ c.methods, m.name ≠ name := by
      simpa [hasMethod, method?] using h
    simp [ClassDef.change, ClassDef.push, h, hmethods _ hnone, Except.toOption]

lemma change_toClass (name : String) (visibility : ClassVisibility) (changes : List ClassChange)
    (change : ClassChange) :
    (toClass name visibility changes).change change =
      toClass name visibility (changes ++ [change]) := by
  cases change with
  | push name s => simp [change_push, toClass, methods_concat, amend]
  | _ => simp [toClass, methods_concat, amend, change, addInterface,
      addConstructorLine, addMember, addAccessor, addMethod]

lemma foldl_change (name : String) (visibility : ClassVisibility) (changes : List ClassChange) :
    changes.foldl change { name, visibility } = toClass name visibility changes := by
  induction changes using reverseRecOn with
  | nil => rfl
  | append_singleton changes change ih =>
    rw [foldl_append, foldl_cons, foldl_nil, ih, change_toClass]

end ClassChange

/-- The text of a class is its header and the parts that the changes add, each of them once and in
the place of its group. So it is known from the header and from the parts of each group. -/
theorem text_of_changes (name : String) (visibility : ClassVisibility)
    (changes : List ClassChange) :
    let c := ClassChange.toClass name visibility changes
    (changes.foldl change { name, visibility }).text =
      c.header ++ " \x7b\n" ++ "\n".intercalate ((ClassPart.blocks c.parts).map fun block =>
        "\n".intercalate (block.map ClassPart.text) ++ "\n") ++ "\x7d\n" ∧
    c.header = visibility.keywords ++ "class " ++ name ++ (c.base?.map (" extends " ++ ·)).getD "" ++
      (if c.interfaces = [] then "" else " implements " ++ ", ".intercalate c.interfaces) ∧
    (∀ line, (Statement.line line).text = line) ∧
    (ClassPart.blocks c.parts).flatten.Perm c.parts ∧
    ∀ name' visibility' changes',
      let c' := ClassChange.toClass name' visibility' changes'
      c'.header = c.header →
      (∀ g, c'.parts.filter (·.group = g) = c.parts.filter (·.group = g)) →
      (changes'.foldl change { name := name', visibility := visibility' }).text =
        (changes.foldl change { name, visibility }).text := by
  intro c
  rw [ClassChange.foldl_change]
  refine ⟨c.text_eq, ?_, fun _ => rfl, ClassPart.flatten_blocks_perm c.parts, ?_⟩
  · unfold header
    simp [c, ClassChange.toClass]
  intro name' visibility' changes' c' hheader hparts
  have hblocks : ClassPart.blocks c'.parts = ClassPart.blocks c.parts :=
    flatMap_congr fun g _ => by rw [hparts g]
  rw [ClassChange.foldl_change]
  change c'.text = c.text
  rw [c'.text_eq, c.text_eq, hheader, hblocks]

/-- A member is added before a method and between its statements. -/
theorem text_of_changes_pair :
    let a : Member := { name := "a", type := "A" }
    let f : Method := { name := "f", returnType := "void", visibility := .isPublic }
    ([.member a, .method f, .push "f" (.line "g();"), .push "f" (.line "h();")].foldl change
      { name := "C", visibility := .isPrivate }).text =
    ([.push "f" (.line "i();"), .method f, .push "f" (.line "g();"), .member a,
      .push "f" (.line "h();")].foldl change { name := "C", visibility := .isPrivate }).text := by
  refine (text_of_changes "C" _ _).2.2.2.2 "C" _ _ rfl fun g => ?_
  cases g with
  | construct => rfl
  | _ v => cases v <;> rfl

end SceneView
