import PacketTypings.Typing.Switch

/-! The type of a node. -/

namespace PacketTypings

/-- Anonymous fields are left out, or what they hold stands among the fields around them. -/
inductive AnonymousFields where
  | omit
  | flatten
deriving DecidableEq, Repr

/-- What a node's type depends on beside the node and its scope. -/
structure Typer where
  anonymousFields : AnonymousFields
  /-- The names declared at top level, which a kind with options may refer to. -/
  entries : List String

/-- What a field brings to its container: members of the record, and types beside it. -/
structure Parts where
  members : List (String × TypeTerm)
  others : List TypeTerm

namespace Parts

def empty : Parts := ⟨[], []⟩

def append (p q : Parts) : Parts := ⟨p.members ++ q.members, p.others ++ q.others⟩

instance : Append Parts := ⟨append⟩

def ofMember (name : String) (t : TypeTerm) : Parts := ⟨[(name, t)], []⟩

def beside (t : TypeTerm) : Parts := ⟨[], [t]⟩

/-- A part of an intersection. -/
def ofPart : TypeTerm → Parts
  | .record members => ⟨members, []⟩
  | t => beside t

/-- A type taken apart into the members of its records and the rest. -/
def spliced : TypeTerm → Parts
  | .intersection parts => parts.foldr (fun t p => ofPart t ++ p) empty
  | t => ofPart t

def term (p : Parts) : TypeTerm :=
  match p.others with
  | [] => .record p.members
  | others => .intersection (.record p.members :: others)

end Parts

def Flags.note (flags : Flags) : String :=
  "bitflags: " ++ String.intercalate ", " (flags.constants.map fun (name, v) => name ++ " = " ++ v)

def Ground.term (g : Ground) : TypeTerm := .primitive g.text

namespace Typer

/-- More names are declared at top level. -/
def withEntries (t : Typer) (names : List String) : Typer :=
  { t with entries := t.entries ++ names }

/-- A kind with options of its own stands for the type of its name, if there is one. -/
def parametrized (t : Typer) (kind : String) : Except Fault TypeTerm :=
  if (Ground.ofName? kind).isSome || t.entries.contains kind then .ok (.ofName kind)
  else .error (.unsupported (.named kind))

mutual

/-- The type of a node in a scope; `owner?` names the field whose own node it is. -/
def type (t : Typer) (owner? : Option String) (scope : Scope) : Node → Except Fault TypeTerm
  | .primitive name => .ok (.ofName name)
  | .container fields => do
    return (← t.parts scope fields 0 fields).term
  | .switch compareTo arms none => do
    let comparison ← Comparison.ofText compareTo scope
    return .union (← t.arms owner? comparison arms)
  | .switch compareTo arms (some d) => do
    let comparison ← Comparison.ofText compareTo scope
    let armTerms ← t.arms owner? comparison arms
    return .union (armTerms ++ [defaultTerm owner? (← t.type none scope d)])
  | .mapper literals => .ok (.union (literals.map .text))
  | .array element => do
    return .array (← t.type none scope element)
  | .option content =>
    if content.isOption then .error (.unsupported .nestedOption)
    else do return .optional (← t.type none scope content)
  | .bitflags flags => .ok (.annotated Ground.number.term flags.note)
  | .bitfield names => .ok (.record (names.map fun name => (name, Ground.number.term)))
  | .encapsulated lengthType content => do
    return .annotated (← t.type none scope content)
      ("encapsulated (lengthType: " ++ lengthType ++ ")")
  | .parametrized kind => t.parametrized kind

/-- The parts of `fields` from position `index` on. -/
def parts (t : Typer) (outer : Scope) (fields : List Field) (index : Nat) :
    List Field → Except Fault Parts
  | [] => .ok .empty
  | f :: rest => do
    let scope := Scope.within outer fields index
    let own ←
      if f.anonymous then
        match t.anonymousFields with
        | .omit => .ok .empty
        | .flatten => (t.type f.name scope f.node).map .spliced
      else
        match f.name with
        | none => .error (.malformed .container .unnamedField)
        | some name =>
          (t.type f.name scope f.node).map
            (if f.node.isSwitch then .beside else .ofMember name)
    return own ++ (← t.parts outer fields (index + 1) rest)

/-- The value of an arm comes before its condition. -/
def arms (t : Typer) (owner? : Option String) (c : Comparison) :
    List (String × Node) → Except Fault (List TypeTerm)
  | [] => .ok []
  | (key, node) :: rest => do
    let value ← t.type none c.scope node
    let condition ← c.condition key
    return armTerm owner? condition value :: (← t.arms owner? c rest)

end

end Typer
end PacketTypings
