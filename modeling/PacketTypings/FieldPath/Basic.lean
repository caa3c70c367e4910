/-! The path from a switch to the field it compares: steps between slashes, and alternatives between
double bars. Only the first alternative locates a field. -/

namespace PacketTypings

inductive Step where
  | parent
  | current
  | name (text : String)
deriving DecidableEq, Repr

namespace Step

/-- The field that a name starts from: its text before the first dot. -/
def fieldName? : Step → Option String
  | name text => some (String.ofList (text.toList.takeWhile (· != '.')))
  | _ => none

/-- The member that a name goes on to: its text after the first dot, if any is left. -/
def member? : Step → Option String
  | name text =>
    match text.toList.dropWhile (· != '.') with
    | _ :: c :: cs => some (String.ofList (c :: cs))
    | _ => none
  | _ => none

end Step

structure FieldPath where
  text : String
  alternatives : List (List Step)
deriving DecidableEq, Repr

namespace FieldPath

def primary (p : FieldPath) : List Step := p.alternatives.headD []

/-- A path of more than one step, or of a step up, is walked; any other names a sibling. -/
def isTraversal (p : FieldPath) : Bool := 1 < p.primary.length || p.primary.contains .parent

def targetName? (p : FieldPath) : Option String := p.primary.getLast?.bind Step.fieldName?

end FieldPath
end PacketTypings
