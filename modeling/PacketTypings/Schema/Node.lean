import PacketTypings.Json.Number

/-! The description of a packet: a tree of nodes, each of which stands for a value on the wire. -/

namespace PacketTypings

/-- A field of a container whose content is a `ν`. -/
structure FieldOf (ν : Type) where
  name : Option String
  node : ν
  anonymous : Bool

/-- The named bits of a flag set: by position, or each with a number. -/
inductive Flags where
  | sequence (names : List String)
  | mapping (values : List (String × Json.Number))
deriving DecidableEq, Repr

/-- The constants of a flag set, values as they are written. -/
def Flags.constants : Flags → List (String × String)
  | sequence names => names.zipIdx.map fun (name, i) => (name, toString i)
  | mapping values => values.map fun (name, n) => (name, n.text)

inductive Node where
  | primitive (name : String)
  | container (fields : List (FieldOf Node))
  | switch (compareTo : String) (arms : List (String × Node)) (default? : Option Node)
  | mapper (literals : List String)
  | array (element : Node)
  | option (content : Node)
  | bitflags (flags : Flags)
  | bitfield (names : List String)
  | encapsulated (lengthType : String) (content : Node)
  | parametrized (kind : String)
deriving Inhabited

abbrev Field := FieldOf Node

/-- The kinds of node that have options of their own shape. -/
inductive Kind where
  | container | switch | mapper | array | option | bitflags | bitfield | encapsulated
deriving DecidableEq, Repr

namespace Kind

def name : Kind → String
  | container => "container"
  | switch => "switch"
  | mapper => "mapper"
  | array => "array"
  | option => "option"
  | bitflags => "bitflags"
  | bitfield => "bitfield"
  | encapsulated => "encapsulated"

def all : List Kind := [container, switch, mapper, array, option, bitflags, bitfield, encapsulated]

def ofName? (s : String) : Option Kind := all.find? (·.name = s)

end Kind

namespace Node

def kindName : Node → String
  | primitive name => name
  | container _ => Kind.container.name
  | switch .. => Kind.switch.name
  | mapper _ => Kind.mapper.name
  | array _ => Kind.array.name
  | option _ => Kind.option.name
  | bitflags _ => Kind.bitflags.name
  | bitfield _ => Kind.bitfield.name
  | encapsulated .. => Kind.encapsulated.name
  | parametrized kind => kind

def isSwitch : Node → Bool
  | switch .. => true
  | _ => false

def isOption : Node → Bool
  | option _ => true
  | _ => false

end Node

namespace Field

/-- The last field of that name. -/
def lastNamed (name : String) (fields : List Field) : Option Field :=
  fields.reverse.find? (·.name = some name)

end Field
end PacketTypings
