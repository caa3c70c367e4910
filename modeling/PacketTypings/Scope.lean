import PacketTypings.Fault

/-! Where a node stands: the fields seen from there, scope by scope, and how a path is walked. -/

namespace PacketTypings

inductive Scope where
  | root
  /-- The scope of field `index` of `fields`, a container inside `outer`. -/
  | within (outer : Scope) (fields : List Field) (index : Nat)

namespace Scope

/-- A field sees itself and those declared before it. -/
def visible : Scope → List Field
  | root => []
  | within _ fields index => fields.take (index + 1)

def owner? : Scope → Option Field
  | root => none
  | within _ fields index => fields[index]?

def outer? : Scope → Option Scope
  | root => none
  | within outer _ _ => some outer

def depth : Scope → Nat
  | root => 0
  | within outer _ _ => outer.depth + 1

/-- The visible field of that name; of several the latest. -/
def lookup? (s : Scope) (name : String) : Option Field := Field.lastNamed name s.visible

end Scope

/-- What the steps of a path have reached. -/
inductive Target where
  | scope (s : Scope)
  | field (f : Field)

namespace Node

/-- Only the members of a container can be walked into, all of them. -/
def member? (name : String) : Node → Option Field
  | container fields => Field.lastNamed name fields
  | _ => none

end Node

namespace Target

def step : Target → Step → Except PathFault Target
  | t, .current => .ok t
  | scope s, .parent => s.outer?.elim (.error .aboveRoot) (.ok ∘ scope)
  | field f, .parent => .error (.parentOfField f.name)
  | scope s, .name text =>
    let name := (Step.name text).fieldName?.getD ""
    (s.lookup? name).elim (.error (.notInScope name)) (.ok ∘ field)
  | field f, .name text =>
    let name := (Step.name text).fieldName?.getD ""
    (f.node.member? name).elim (.error (.noMember f.name name)) (.ok ∘ field)

def walk (t : Target) (steps : List Step) : Except PathFault Target := steps.foldlM step t

end Target

namespace Scope

/-- Only the first alternative is walked. -/
def resolve (s : Scope) (path : FieldPath) : Except Fault Target :=
  ((Target.scope s).walk path.primary).mapError (.brokenPath path.text)

/-- The field at the end of a path. -/
def resolveField (s : Scope) (path : FieldPath) : Except Fault Field :=
  match s.resolve path with
  | .error e => .error e
  | .ok (.field f) => .ok f
  | .ok (.scope _) => .error (.brokenPath path.text .namesScope)

end Scope

/-- The path that `text` writes. -/
def FieldPath.read (text : String) : Except Fault FieldPath :=
  (FieldPath.ofText text).mapError fun refusal => .brokenPath text (.unreadable refusal)

end PacketTypings
