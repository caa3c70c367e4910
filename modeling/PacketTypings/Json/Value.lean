import PacketTypings.Json.Number

/-! Values of a document. The members of an object keep their order. -/

namespace PacketTypings

inductive Json where
  | null
  | bool (b : Bool)
  | num (n : Json.Number)
  | str (s : String)
  | arr (items : List Json)
  | obj (members : List (String × Json))
deriving Inhabited

namespace Json

/-- The six kinds of value, by the names the format gives them. -/
inductive Kind where
  | null | boolean | number | string | array | object
deriving DecidableEq, Repr

def Kind.name : Kind → String
  | null => "null"
  | boolean => "boolean"
  | number => "number"
  | string => "string"
  | array => "array"
  | object => "object"

def kind : Json → Kind
  | null => .null
  | bool _ => .boolean
  | num _ => .number
  | str _ => .string
  | arr _ => .array
  | obj _ => .object

def isStr : Json → Bool
  | str _ => true
  | _ => false

/-- The members after `key` is set to `value`: a key that is there keeps its place. -/
def put (key : String) (value : Json) : List (String × Json) → List (String × Json)
  | [] => [(key, value)]
  | (k, v) :: rest => if k = key then (k, value) :: rest else (k, v) :: put key value rest

def get? (key : String) (members : List (String × Json)) : Option Json := members.lookup key

end Json
end PacketTypings
