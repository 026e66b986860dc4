import Mathlib.Data.List.DropRight
import Mathlib.Data.List.TakeWhile
import SceneView.Compile.View

/-!
# Generated identifiers

The members and methods of a generated class are named after names in the document: `x_n` stores an
object, `_ensure_n` builds a shared one, `ensure_g` and `_is_g_initialized` belong to a deferred
group. Each of these is one-to-one, and the methods of the three kinds never meet.
-/

namespace SceneView

namespace Text

lemma trimBy_trimBy (p : Char → Bool) (cs : List Char) :
    trimBy p (trimBy p cs) = trimBy p cs := by
  have hdrop : ∀ xs : List Char, trimBy p xs = (xs.dropWhile p).rdropWhile p := fun _ => rfl
  have hfix : (trimBy p cs).dropWhile p = trimBy p cs := by
    rw [List.dropWhile_eq_self_iff]
    intro h
    have hpre : trimBy p cs <+: cs.dropWhile p := List.rdropWhile_prefix p _
    have hpos : 0 < (cs.dropWhile p).length := lt_of_lt_of_le h hpre.length_le
    have hhead := List.dropWhile_get_zero_not p cs hpos
    rw [hpre.getElem h]
    simpa using hhead
  rw [hdrop (trimBy p cs), hfix, hdrop cs, List.rdropWhile_idempotent]

@[simp]
lemma trim_trim (s : String) : trim (trim s) = trim s := by
  simp only [trim, String.toList_ofList, trimBy_trimBy]

end Text

lemma ObjectName.given?_trim {raw} (h : Text.trim raw ≠ "") :
    ObjectName.given? (some (Text.trim raw)) = some { name := Text.trim raw, isGiven := true } := by
  simp [ObjectName.given?, h]

lemma ObjectName.given?_spec {text? o} (h : ObjectName.given? text? = some o) :
    o.isGiven = true ∧ o.name ≠ "" := by
  simp only [ObjectName.given?, Option.map_eq_some_iff] at h
  obtain ⟨name, hname, rfl⟩ := h
  have := Option.mem_filter_iff.1 (Option.mem_def.2 hname)
  exact ⟨rfl, by simpa using this.2⟩

lemma ObjectName.trim_of_given? {text? o} (h : ObjectName.given? text? = some o) :
    text?.map Text.trim = some o.name := by
  unfold ObjectName.given? at h
  obtain ⟨name, hname, rfl⟩ := Option.map_eq_some_iff.1 h
  exact (Option.filter_eq_some_iff.1 hname).1

lemma NodeKind.tag_eq {tag kind} (h : ofTag? tag = some kind) : kind.tag = tag := by
  simpa using List.find?_some h

lemma MaterialKind.typeName_eq {tag kind} (h : ofTag? tag = some kind) : kind.typeName = tag := by
  simpa using List.find?_some h

lemma TextureKind.typeName_eq {tag kind} (h : ofTag? tag = some kind) : kind.typeName = tag := by
  simpa using List.find?_some h

lemma storageName_injective {a b} (h : storageName a = storageName b) : a = b :=
  (String.append_right_inj _).1 h

lemma ensureMethod_injective {a b} (h : ensureMethod a = ensureMethod b) : a = b :=
  (String.append_right_inj _).1 h

lemma storageName_not_mem_initMembers (n : String) (isMixin : Bool) :
    storageName n ∉ (Compile.initMembers isMixin).map (·.name) := by
  intro h
  have := List.mem_map_of_mem (f := String.toList) h
  cases isMixin <;>
    simp [storageName, Compile.initMembers, Builtin.root, Builtin.scene, Builtin.host,
      Builtin.hostParameter, Builtin.engine, Builtin.isInitialized, Builtin.propertyChanged] at this

lemma ensureMethod_ne_init (n : String) : ensureMethod n ≠ Builtin.init := by
  intro h
  have := congrArg String.toList h
  simp [ensureMethod, Builtin.init] at this

namespace Compile

lemma groupFlag_ne_storageName (g n : String) : groupFlag g ≠ storageName n := by
  intro h
  have := congrArg String.toList h
  simp [groupFlag, storageName] at this

lemma groupMethod_ne_init (g : String) : groupMethod g ≠ Builtin.init := by
  intro h
  have := congrArg String.toList h
  simp [groupMethod, Builtin.init] at this

lemma ensureMethod_ne_groupMethod (n g : String) : ensureMethod n ≠ groupMethod g := by
  intro h
  have := congrArg String.toList h
  simp [groupMethod, ensureMethod] at this

end Compile

/-- The methods in which the objects of the node tree and of user interfaces are built. -/
def IsHost (method : String) : Prop :=
  method = Builtin.init ∨ ∃ g, method = Compile.groupMethod g

lemma IsHost.ne_ensureMethod {method} (h : IsHost method) (n : String) :
    method ≠ ensureMethod n := by
  obtain rfl | ⟨g, rfl⟩ := h
  · exact (ensureMethod_ne_init n).symm
  · exact (Compile.ensureMethod_ne_groupMethod n g).symm

end SceneView
