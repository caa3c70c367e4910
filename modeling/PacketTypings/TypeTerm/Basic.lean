/-! The types that are written out. -/

namespace PacketTypings

inductive TypeTerm where
  | primitive (name : String)
  /-- A type that is declared elsewhere, or a member of it. -/
  | reference (name : String)
  | text (value : String)
  | truth (value : Bool)
  | record (members : List (String × TypeTerm))
  | array (element : TypeTerm)
  | union (parts : List TypeTerm)
  | intersection (parts : List TypeTerm)
  /-- A note says something about a value and does not change its type. -/
  | annotated (inner : TypeTerm) (note : String)
deriving Inhabited

namespace TypeTerm

def absent : TypeTerm := primitive "undefined"

def optional (inner : TypeTerm) : TypeTerm := union [inner, absent]

mutual

/-- The referenced names, from left to right. -/
def references : TypeTerm → List String
  | primitive _ => []
  | reference name => [name]
  | text _ => []
  | truth _ => []
  | record members => memberReferences members
  | array element => element.references
  | union parts => partReferences parts
  | intersection parts => partReferences parts
  | annotated inner _ => inner.references

def memberReferences : List (String × TypeTerm) → List String
  | [] => []
  | (_, t) :: rest => t.references ++ memberReferences rest

def partReferences : List TypeTerm → List String
  | [] => []
  | t :: rest => t.references ++ partReferences rest

end

end TypeTerm
end PacketTypings
