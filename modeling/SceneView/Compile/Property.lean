import SceneView.Compile.Session

/-!
# Properties

A property of a view is stored in a private member. Assigning a different value raises the change
event, which is the event of the host if the view is a mixin.
-/

namespace SceneView.Compile

def propertyAccessor (name type : String) (isMixin : Bool) : Accessor :=
  let member := "this." ++ storageName name
  let notifier := if isMixin then "this." ++ Builtin.host isMixin else "this"
  { name
    type
    visibility := .isPublic
    getter := [(Statement.give (storageName name)).text]
    setter :=
      ["if (!isEqual(" ++ member ++ ", value)) \x7b",
        "  " ++ member ++ " = value;",
        "  " ++ notifier ++ "." ++ Builtin.propertyChanged ++ ".raise(\x7b propertyName: '" ++ name ++
          "', value \x7d);",
        "\x7d"] }

def property (e : Element) : Compile Unit :=
  located e.line do
    let name := Text.trim (← e.require "name")
    let type := Text.trim (← e.require "type")
    let s ← get
    if s.generated.hasMember (storageName name) || (s.generated.accessor? name).isSome then
      throw (.conflict (.property name) 0)
    log .debug ("property '" ++ name ++ "': " ++ type)
    modifyClass (·.addMember { name := storageName name, type, presence? := some .definite })
    match e.attr? "default" with
    | some raw => emit Builtin.init (.initial (storageName name) (← typed type raw))
    | none => pure ()
    modifyClass (·.addAccessor (propertyAccessor name type s.isMixin))
    addImport .utility "isEqual"

end SceneView.Compile
