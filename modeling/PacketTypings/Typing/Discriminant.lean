import PacketTypings.Schema.Node
import PacketTypings.FieldPath.Basic
import PacketTypings.TypeTerm.Primitive

/-! How a switch tells that the compared field holds, by the type of that field. -/

namespace PacketTypings

inductive Discriminant where
  | boolean
  | literal
  | named (type : String)
deriving DecidableEq, Repr

/-- The key of the arm that is taken whenever the compared field holds. -/
def holdsKey : String := "true"

namespace Discriminant

def ofNode : Node → Discriminant
  | .primitive name =>
    if name = "bool" then boolean
    else if (Ground.ofName? name).isNone then named name
    else literal
  | _ => literal

/-- The type that the last step of an alternative names, in the type of the compared field. -/
def alternative (type : String) (steps : List Step) : TypeTerm :=
  match steps.getLast?.bind Step.member? with
  | some member => .reference (type ++ "." ++ member)
  | none => .reference type

/-- The member that says that the compared field holds. It stands under the name of the field, or
under `label` where only the text of the path is compared. -/
def condition (d : Discriminant) (field label : String) (path : FieldPath) : String × TypeTerm :=
  match d with
  | boolean => (field, .truth true)
  | literal => (label, .text holdsKey)
  | named type => (field, .union (path.alternatives.map (alternative type)))

end Discriminant
end PacketTypings
