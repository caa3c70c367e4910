import PacketTypings.Fault
import PacketTypings.Schema.Inside

/-! Reading a node from a value: a text names a primitive, and a list holds a kind and its options.
The nodes inside the options are parts of them, so the reading ends. -/

namespace PacketTypings

/-- The texts of a mapper: a text as it is, any other value by its compact text. -/
def literalText : Json → String
  | .str s => s
  | v => v.text

def Node.ofJson (v : Json) : Except Fault Node :=
  match v with
  | .str name => .ok (.primitive name)
  | .arr [] => .error (.unsupported .emptyArray)
  | .arr (.str kind :: rest) =>
    have := sizeOf_optionsOf_lt (.str kind) rest
    match Kind.ofName? kind with
    | none => .ok (.parametrized kind)
    | some .container =>
      match h : listOfJson FieldOf.ofJson (optionsOf rest) with
      | .error e => .error (.malformed .container e)
      | .ok fields => do
        let fields ← fields.attach.mapM fun ⟨f, hf⟩ => do
          have := FieldOf.sizeOf_node_lt_of_mem h hf
          if f.name.isNone && !f.anonymous then
            .error (.malformed .container .unnamedField)
          else
            return ⟨f.name, ← Node.ofJson f.node, f.anonymous⟩
        return .container fields
    | some .switch =>
      match h : SwitchOptions.ofJson (optionsOf rest) with
      | .error e => .error (.malformed .switch e)
      | .ok o => do
        let arms ← o.arms.attach.mapM fun ⟨(key, node), hn⟩ => do
          have : sizeOf node < sizeOf (optionsOf rest) := (SwitchOptions.sizeOf_lt h).1 _ hn
          return (key, ← Node.ofJson node)
        match hd : o.default? with
        | none => return .switch o.compareTo arms none
        | some d =>
          have := (SwitchOptions.sizeOf_lt h).2 d hd
          return .switch o.compareTo arms (some (← Node.ofJson d))
    | some .mapper =>
      match mappingsOfJson (optionsOf rest) with
      | .error e => .error (.malformed .mapper e)
      | .ok mappings => .ok (.mapper (mappings.map fun (_, value) => literalText value))
    | some .array =>
      match h : elementOfJson (optionsOf rest) with
      | .error e => .error (.malformed .array e)
      | .ok element => do
        have := sizeOf_element_lt h
        return .array (← Node.ofJson element)
    | some .option => do
      return .option (← Node.ofJson (optionsOf rest))
    | some .bitflags =>
      match Flags.ofJson (optionsOf rest) with
      | .error e => .error (.malformed .bitflags e)
      | .ok flags => .ok (.bitflags flags)
    | some .bitfield =>
      match listOfJson bitfieldMemberOfJson (optionsOf rest) with
      | .error e => .error (.malformed .bitfield e)
      | .ok names => .ok (.bitfield names)
    | some .encapsulated =>
      match h : EncapsulatedOptions.ofJson (optionsOf rest) with
      | .error e => .error (.malformed .encapsulated e)
      | .ok o => do
        have := EncapsulatedOptions.sizeOf_content_lt h
        return .encapsulated o.lengthType (← Node.ofJson o.content)
  | .arr (first :: _) => .error (.unsupported (.json first.kind))
  | v => .error (.unsupported (.json v.kind))
termination_by sizeOf v
decreasing_by all_goals omega

end PacketTypings
