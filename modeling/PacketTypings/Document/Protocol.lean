import PacketTypings.Json.Reader

/-! The named entries of a protocol, in the order in which they are declared. -/

namespace PacketTypings

export List (splitOn)

structure Protocol where
  entries : List (String × Json)

/-- Why a document yields no entries. -/
inductive LoadError where
  | invalid (e : Json.SyntaxError)
  | missingTypes (namespaceText : String)

def LoadError.message : LoadError → String
  | invalid e => "invalid protocol JSON: " ++ e.message
  | missingTypes namespaceText => "no type mapping at `" ++ namespaceText ++ "`"

namespace Protocol

/-- The keys that a namespace leads through; slashes without a key between them count as one. -/
def keys (namespaceText : String) : List String :=
  ((splitOn '/' namespaceText.toList).filter fun piece => !piece.isEmpty).map String.ofList

/-- The value that the keys lead to, one object after the other. -/
def follow? (v : Json) : List String → Option Json
  | [] => some v
  | key :: rest =>
    match v with
    | .obj members => (Json.get? key members).bind fun w => follow? w rest
    | _ => none

/-- The types of an object are its member of that name, or else the object itself. -/
def types? : Json → Option (List (String × Json))
  | .obj members =>
    match Json.get? "types" members with
    | none => some members
    | some (.obj types) => some types
    | some _ => none
  | _ => none

def ofJson (root : Json) (namespaceText : String) : Except LoadError Protocol :=
  match (follow? root (keys namespaceText)).bind types? with
  | some entries => .ok ⟨entries⟩
  | none => .error (.missingTypes namespaceText)

def ofText (source : String) : Except LoadError Protocol :=
  match Json.ofText Json.documentDepth source with
  | .ok root => ofJson root ""
  | .error e => .error (.invalid e)

end Protocol
end PacketTypings
