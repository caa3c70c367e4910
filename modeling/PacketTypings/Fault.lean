import PacketTypings.FieldPath.Reader
import PacketTypings.Json.Writer
import PacketTypings.Schema.Options
import PacketTypings.Text.Quoted

/-! Why a node cannot be read or has no type, and how it is told. -/

namespace PacketTypings

def Expected.text : Expected → String
  | sequence => "a sequence"
  | string => "a string"
  | boolean => "a boolean"
  | map => "a map"
  | record name => "struct " ++ name

namespace Json

/-- What a value is, for a complaint about its type. -/
def description : Json → String
  | .null => "null"
  | .bool b => "boolean `" ++ (if b then "true" else "false") ++ "`"
  | .num (.int n) => "integer `" ++ (Number.int n).text ++ "`"
  | .num (.float x) => "floating point `" ++ (Number.float x).text ++ "`"
  | .str s => "string " ++ Text.quoted s
  | .arr _ => "sequence"
  | .obj _ => "map"

end Json

namespace ShapeFault

def elements (n : Nat) : String := toString n ++ (if n = 1 then " element" else " elements")

def message : ShapeFault → String
  | wrongType got expected =>
    "invalid type: " ++ got.description ++ ", expected " ++ expected.text
  | missing key => "missing field `" ++ key ++ "`"
  | tooShort index record size =>
    "invalid length " ++ toString index ++ ", expected struct " ++ record ++ " with " ++
      elements size
  | tooLong length =>
    "invalid length " ++ toString length ++ ", expected fewer elements in array"
  | unnamedField => "field without a name must be anonymous"
  | flagName got => "flag name must be a string, got " ++ got.text
  | flagValue name got =>
    "flag `" ++ name ++ "` must have an integer value, got " ++ got.text
  | flagsShape got => "flags must be a list or an object, got " ++ got.name

end ShapeFault

/-- Why a path leads to no field. -/
inductive PathFault where
  | unreadable (refusal : FieldPath.Refusal)
  | aboveRoot
  | parentOfField (name : Option String)
  | notInScope (name : String)
  | noMember (field : Option String) (member : String)
  | namesScope
deriving DecidableEq, Repr

namespace PathFault

def fieldText (name : Option String) : String := "`" ++ name.getD "<anonymous>" ++ "`"

def message (path : String) : PathFault → String
  | unreadable refusal => "parse error: " ++ refusal.report path
  | aboveRoot => "`..` above the root scope"
  | parentOfField name => "`..` after field " ++ fieldText name
  | notInScope name => "no field `" ++ name ++ "` in scope"
  | noMember field member => "field " ++ fieldText field ++ " has no member `" ++ member ++ "`"
  | namesScope => "path names a scope, not a field"

end PathFault

/-- What stands where a node should be. -/
inductive Unsupported where
  | json (kind : Json.Kind)
  | emptyArray
  | nestedOption
  | named (kind : String)
deriving DecidableEq, Repr

def Unsupported.text : Unsupported → String
  | json kind => kind.name
  | emptyArray => "empty array"
  | nestedOption => "option(option)"
  | named kind => kind

inductive Fault where
  | brokenPath (path : String) (reason : PathFault)
  | unresolvedDiscriminant (path field : String)
  | unsupported (kind : Unsupported)
  | malformed (kind : Kind) (reason : ShapeFault)

def Fault.message : Fault → String
  | brokenPath path reason => "broken reference `" ++ path ++ "`: " ++ reason.message path
  | unresolvedDiscriminant path field =>
    "unresolved discriminant `" ++ path ++ "`: no field `" ++ field ++
      "` in the enclosing container"
  | unsupported kind => "unsupported schema node kind `" ++ kind.text ++ "`"
  | malformed kind reason => "malformed `" ++ kind.name ++ "` node: " ++ reason.message

end PacketTypings
