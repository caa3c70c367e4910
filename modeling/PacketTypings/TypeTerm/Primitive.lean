import PacketTypings.TypeTerm.Basic

/-! The names with a type of their own. Every other name refers to a type that is declared
elsewhere. -/

namespace PacketTypings

/-- The types that the names stand for. -/
inductive Ground where
  | number | boolean | string | bytes | vector | any
deriving DecidableEq, Repr

def Ground.text : Ground → String
  | number => "number"
  | boolean => "boolean"
  | string => "string"
  | bytes => "Uint8Array"
  | vector => "[number, number, number]"
  | any => "any"

namespace Ground

def names : List (Ground × List String) := [
  (number, ["byterot", "u8", "u32", "uint8", "i8", "i16", "i32", "li16", "li32", "li64", "lu16",
    "lu32", "lu64", "varint", "varint64", "zigzag32", "zigzag64", "lf32", "lf64", "f32",
    "enum_size_based_on_values_len"]),
  (boolean, ["bool"]),
  (string, ["pstring", "uuid", "LatinString", "LittleString"]),
  (bytes, ["buffer", "ByteArray", "restBuffer"]),
  (vector, ["vec3f", "vec3i"]),
  (any, ["nbt", "lnbt", "lnbts", "slot", "nbtLoop"])]

def ofName? (name : String) : Option Ground :=
  (names.find? fun (_, ns) => ns.contains name).map Prod.fst

end Ground

def TypeTerm.ofName (name : String) : TypeTerm :=
  match Ground.ofName? name with
  | some g => .primitive g.text
  | none => .reference name

end PacketTypings
