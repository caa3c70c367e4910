import PacketTypings.Scope
import PacketTypings.Typing.Discriminant

/-! The parts of a switch other than the types of its arms: what it compares, and how the condition
of an arm stands beside its value. -/

namespace PacketTypings

/-- A path that is walked leads to a field at once; a sibling is looked up only where an arm needs
it. -/
structure Comparison where
  path : FieldPath
  scope : Scope
  walked? : Option Field

namespace Comparison

def ofText (compareTo : String) (scope : Scope) : Except Fault Comparison := do
  let path ← FieldPath.read compareTo
  if path.isTraversal then
    return ⟨path, scope, some (← scope.resolveField path)⟩
  else
    return ⟨path, scope, none⟩

/-- The key under which literal values are compared. -/
def label (c : Comparison) : String := (c.walked?.bind FieldOf.name).getD c.path.text

def sibling (c : Comparison) : Except Fault Field :=
  let name := c.path.targetName?.getD ""
  (c.scope.lookup? name).elim (.error (.unresolvedDiscriminant c.path.text name)) .ok

def target (c : Comparison) : Except Fault Field := c.walked?.elim c.sibling .ok

/-- The condition of the arm with that key. -/
def condition (c : Comparison) (key : String) : Except Fault (String × TypeTerm) := do
  if key = holdsKey then
    let field ← c.target
    return (Discriminant.ofNode field.node).condition (field.name.getD c.label) c.label c.path
  else
    return (c.label, .text key)

end Comparison

/-- A field's own switch carries the field: its values stand under the name of the field. -/
def armTerm (owner? : Option String) (condition : String × TypeTerm) (value : TypeTerm) :
    TypeTerm :=
  match owner? with
  | some name => .record [condition, (name, value)]
  | none => .intersection [.record [condition], value]

def defaultTerm (owner? : Option String) (value : TypeTerm) : TypeTerm :=
  match owner? with
  | some name => .record [(name, value)]
  | none => value

end PacketTypings
