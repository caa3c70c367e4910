import PacketTypings.Json.Value
import PacketTypings.Schema.Node

/-! The options of a node. Each is a record that may be written as an object, by key, or as a list,
by position. All of it is read before any node inside it. -/

namespace PacketTypings

/-- The shapes that a slot asks for. -/
inductive Expected where
  | sequence | string | boolean | map | record (name : String)
deriving DecidableEq, Repr

/-- What can be wrong with the options of a node. -/
inductive ShapeFault where
  | wrongType (got : Json) (expected : Expected)
  | missing (key : String)
  | tooShort (index : Nat) (record : String) (size : Nat)
  | tooLong (length : Nat)
  | unnamedField
  | flagName (got : Json)
  | flagValue (name : String) (got : Json)
  | flagsShape (got : Json.Kind)

/-- A slot of a record: its key, what it accepts, and the value it takes when an object has no such
key, or a list ends before it. -/
structure Slot (α : Type) where
  key : String
  read : Json → Except ShapeFault α
  absent? : Option α
  short? : Option α

namespace Slot

def string : Json → Except ShapeFault String
  | .str s => .ok s
  | v => .error (.wrongType v .string)

def bool : Json → Except ShapeFault Bool
  | .bool b => .ok b
  | v => .error (.wrongType v .boolean)

def map : Json → Except ShapeFault (List (String × Json))
  | .obj members => .ok members
  | v => .error (.wrongType v .map)

/-- Null stands for an absent value. -/
def orNull {α : Type} (read : Json → Except ShapeFault α) : Json → Except ShapeFault (Option α)
  | .null => .ok none
  | v => (read v).map some

/-- A slot that has to be there. -/
def required {α : Type} (key : String) (read : Json → Except ShapeFault α) : Slot α :=
  ⟨key, read, none, none⟩

/-- A slot that may be null or, in an object, left out. -/
def nullable {α : Type} (key : String) (read : Json → Except ShapeFault α) : Slot (Option α) :=
  ⟨key, orNull read, some none, none⟩

/-- A slot that may be left out. -/
def withDefault {α : Type} (key : String) (read : Json → Except ShapeFault α) (value : α) :
    Slot α :=
  ⟨key, read, some value, some value⟩

/-- Whether the slot accepts `v`, if `key` is its key. -/
def check {α : Type} (s : Slot α) (key : String) (v : Json) : Except ShapeFault Unit :=
  if key = s.key then (s.read v).map fun _ => () else .ok ()

end Slot

/-- A record as it is written. -/
inductive Written where
  | byKey (members : List (String × Json))
  | byPlace (items : List Json)

structure RecordName where
  name : String
  size : Nat

namespace RecordName

/-- An object is checked in its own order, so the first wrong member is told. -/
def ofJson (r : RecordName) (check : String → Json → Except ShapeFault Unit) :
    Json → Except ShapeFault Written
  | .obj members => do
    members.forM fun (key, v) => check key v
    return .byKey members
  | .arr items => .ok (.byPlace items)
  | v => .error (.wrongType v (.record r.name))

/-- The value of the slot that stands at `index` in a list. -/
def slot {α : Type} (r : RecordName) (w : Written) (index : Nat) (s : Slot α) :
    Except ShapeFault α :=
  match w with
  | .byKey members =>
    match Json.get? s.key members with
    | some v => s.read v
    | none => s.absent?.elim (.error (.missing s.key)) .ok
  | .byPlace items =>
    match items[index]? with
    | some v => s.read v
    | none => s.short?.elim (.error (.tooShort index r.name r.size)) .ok

/-- A list may not go on behind the last slot. -/
def close (r : RecordName) : Written → Except ShapeFault Unit
  | .byKey _ => .ok ()
  | .byPlace items => if r.size < items.length then .error (.tooLong items.length) else .ok ()

end RecordName

/-- The node of a slot is taken as it is, and read later. -/
def Slot.node : Slot Json := .required "type" .ok

namespace FieldOf

def nameSlot : Slot (Option String) := .nullable "name" Slot.string

def anonSlot : Slot Bool := .withDefault "anon" Slot.bool false

def ofJson (v : Json) : Except ShapeFault (FieldOf Json) := do
  let record : RecordName := ⟨"RawField", 3⟩
  let w ← record.ofJson (fun k v => do
    nameSlot.check k v
    anonSlot.check k v) v
  let name ← record.slot w 0 nameSlot
  let node ← record.slot w 1 .node
  let anonymous ← record.slot w 2 anonSlot
  record.close w
  return ⟨name, node, anonymous⟩

end FieldOf

/-- The options of a switch. -/
structure SwitchOptions where
  compareTo : String
  arms : List (String × Json)
  default? : Option Json

namespace SwitchOptions

def compareToSlot : Slot String := .required "compareTo" Slot.string

def armsSlot : Slot (List (String × Json)) := .withDefault "fields" Slot.map []

def defaultSlot : Slot (Option Json) := .nullable "default" .ok

def ofJson (v : Json) : Except ShapeFault SwitchOptions := do
  let record : RecordName := ⟨"RawSwitch", 3⟩
  let w ← record.ofJson (fun k v => do
    compareToSlot.check k v
    armsSlot.check k v) v
  let compareTo ← record.slot w 0 compareToSlot
  let arms ← record.slot w 1 armsSlot
  let default? ← record.slot w 2 defaultSlot
  record.close w
  return ⟨compareTo, arms, default?⟩

end SwitchOptions

def mappingsOfJson (v : Json) : Except ShapeFault (List (String × Json)) := do
  let mappings : Slot (List (String × Json)) := .required "mappings" Slot.map
  let record : RecordName := ⟨"RawMapper", 1⟩
  let w ← record.ofJson mappings.check v
  let members ← record.slot w 0 mappings
  record.close w
  return members

/-- The node of an array's elements. -/
def elementOfJson (v : Json) : Except ShapeFault Json := do
  let record : RecordName := ⟨"RawTyped", 1⟩
  let w ← record.ofJson (fun _ _ => .ok ()) v
  let node ← record.slot w 0 .node
  record.close w
  return node

structure EncapsulatedOptions where
  lengthType : String
  content : Json

def EncapsulatedOptions.ofJson (v : Json) : Except ShapeFault EncapsulatedOptions := do
  let lengthType : Slot String := .required "lengthType" Slot.string
  let record : RecordName := ⟨"RawEncapsulated", 2⟩
  let w ← record.ofJson lengthType.check v
  let length ← record.slot w 0 lengthType
  let content ← record.slot w 1 .node
  record.close w
  return ⟨length, content⟩

def bitfieldMemberOfJson (v : Json) : Except ShapeFault String := do
  let nameSlot : Slot String := .required "name" Slot.string
  let record : RecordName := ⟨"RawBitfieldMember", 1⟩
  let w ← record.ofJson nameSlot.check v
  let name ← record.slot w 0 nameSlot
  record.close w
  return name

/-- A list, each item of which `read` accepts. -/
def listOfJson {α : Type} (read : Json → Except ShapeFault α) : Json → Except ShapeFault (List α)
  | .arr items => items.mapM read
  | v => .error (.wrongType v .sequence)

namespace Flags

def nameOfJson : Json → Except ShapeFault String
  | .str s => .ok s
  | v => .error (.flagName v)

def valueOfJson (name : String) : Json → Except ShapeFault (String × Json.Number)
  | .num n => .ok (name, n)
  | v => .error (.flagValue name v)

def ofJson (v : Json) : Except ShapeFault Flags := do
  let flags : Slot Json := .required "flags" .ok
  let record : RecordName := ⟨"RawBitflags", 1⟩
  let w ← record.ofJson (fun _ _ => .ok ()) v
  let written ← record.slot w 0 flags
  record.close w
  match written with
  | .arr names => return .sequence (← names.mapM nameOfJson)
  | .obj values => return .mapping (← values.mapM fun (name, v) => valueOfJson name v)
  | v => .error (.flagsShape v.kind)

end Flags
end PacketTypings
