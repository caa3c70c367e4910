import PacketTypings.Proofs.Results
import PacketTypings.Schema.Loader

/-! One step of reading a node. Main statement: a node of a kind is read from its options alone, the
nodes inside it are read by themselves, and there is one way for each kind in which this succeeds. -/

namespace PacketTypings

/-- Options that are read by shape; a wrong shape is the fault of the kind. -/
def Kind.shaped {α : Type} (k : Kind) (x : Except ShapeFault α) : Except Fault α :=
  x.mapError (.malformed k)

namespace Node

def fieldOfJson (f : FieldOf Json) : Except Fault Field :=
  if f.name.isNone && !f.anonymous then .error (.malformed .container .unnamedField)
  else do return ⟨f.name, ← Node.ofJson f.node, f.anonymous⟩

def armOfJson (arm : String × Json) : Except Fault (String × Node) := do
  return (arm.1, ← Node.ofJson arm.2)

def defaultOfJson : Option Json → Except Fault (Option Node)
  | none => .ok none
  | some d => (Node.ofJson d).map some

/-- The node of that kind with those options. -/
def ofOptions (options : Json) : Kind → Except Fault Node
  | .container => do
    let fields ← Kind.container.shaped (listOfJson FieldOf.ofJson options)
    return .container (← fields.mapM fieldOfJson)
  | .switch => do
    let o ← Kind.switch.shaped (SwitchOptions.ofJson options)
    return .switch o.compareTo (← o.arms.mapM armOfJson) (← defaultOfJson o.default?)
  | .mapper => do
    let mappings ← Kind.mapper.shaped (mappingsOfJson options)
    return .mapper (mappings.map fun (_, value) => literalText value)
  | .array => do
    let element ← Kind.array.shaped (elementOfJson options)
    return .array (← Node.ofJson element)
  | .option => do return .option (← Node.ofJson options)
  | .bitflags => do return .bitflags (← Kind.bitflags.shaped (Flags.ofJson options))
  | .bitfield => do
    return .bitfield (← Kind.bitfield.shaped (listOfJson bitfieldMemberOfJson options))
  | .encapsulated => do
    let o ← Kind.encapsulated.shaped (EncapsulatedOptions.ofJson options)
    return .encapsulated o.lengthType (← Node.ofJson o.content)

theorem mapM_attach {ε α β : Type} {xs : List α} {g : α → Except ε β}
    {f : {x // x ∈ xs} → Except ε β} (hf : ∀ x h, f ⟨x, h⟩ = g x) :
    xs.attach.mapM f = xs.mapM g := by
  rw [List.mapM_subtype hf, List.unattach_attach]

theorem ofJson_of_kind {name : String} {k : Kind} (hk : Kind.ofName? name = some k)
    (rest : List Json) :
    Node.ofJson (.arr (.str name :: rest)) = ofOptions (optionsOf rest) k := by
  rw [Node.ofJson]
  simp only [hk]
  cases k with
  | container =>
    simp only [ofOptions]
    split
    · next e h => rw [h]; rfl
    · next fields h =>
      rw [mapM_attach (g := fieldOfJson) fun _ _ => rfl, h]
      rfl
  | switch =>
    simp only [ofOptions]
    split
    · next e h => rw [h]; rfl
    · next o h =>
      rw [mapM_attach (g := armOfJson) fun _ _ => rfl, h]
      change _ = o.arms.mapM armOfJson >>= _
      cases o.arms.mapM armOfJson with
      | error e => rfl
      | ok arms =>
        split
        · next hd => rw [hd]; rfl
        · next d hd =>
          rw [hd]
          dsimp only [defaultOfJson]
          cases Node.ofJson d <;> rfl
  | mapper =>
    simp only [ofOptions]
    cases mappingsOfJson (optionsOf rest) <;> rfl
  | array =>
    simp only [ofOptions]
    split
    · next e h => rw [h]; rfl
    · next element h => rw [h]; rfl
  | option => rfl
  | bitflags =>
    simp only [ofOptions]
    cases Flags.ofJson (optionsOf rest) <;> rfl
  | bitfield =>
    simp only [ofOptions]
    cases listOfJson bitfieldMemberOfJson (optionsOf rest) <;> rfl
  | encapsulated =>
    simp only [ofOptions]
    split
    · next e h => rw [h]; rfl
    · next o h => rw [h]; rfl

theorem shaped_eq_ok_iff {α : Type} {k : Kind} {x : Except ShapeFault α} {a : α} :
    k.shaped x = .ok a ↔ x = .ok a := mapError_eq_ok_iff

theorem fieldOfJson_eq_ok {f : FieldOf Json} {g : Field} (h : fieldOfJson f = .ok g) :
    (g.name = none → g.anonymous = true) ∧ Node.ofJson f.node = .ok g.node := by
  rw [fieldOfJson] at h
  split at h
  · cases h
  · rename_i hnamed
    obtain ⟨node, hnode, h⟩ := bind_eq_ok_iff.1 h
    cases h
    exact ⟨by simpa using hnamed, hnode⟩

theorem armOfJson_eq_ok_iff {written : String × Json} {arm : String × Node} :
    armOfJson written = .ok arm ↔ written.1 = arm.1 ∧ Node.ofJson written.2 = .ok arm.2 := by
  obtain ⟨key, n⟩ := arm
  constructor
  · intro h
    obtain ⟨m, hm, h⟩ := bind_eq_ok_iff.1 h
    cases h
    exact ⟨rfl, hm⟩
  · rintro ⟨rfl, hnode⟩
    exact bind_eq_ok_iff.2 ⟨n, hnode, rfl⟩

theorem defaultOfJson_eq_ok_some_iff {written : Option Json} {n : Node} :
    defaultOfJson written = .ok (some n) ↔ ∃ d, written = some d ∧ Node.ofJson d = .ok n := by
  cases written with
  | none => simp [defaultOfJson]
  | some d => simp [defaultOfJson, map_eq_ok_iff]

/-- The options are read as options of the kind, and the nodes that stand in them as nodes. -/
inductive FromOptions (options : Json) : Kind → Node → Prop
  | container {written : List (FieldOf Json)} {fields : List Field}
      (shape : listOfJson FieldOf.ofJson options = .ok written)
      (nodes : written.mapM fieldOfJson = .ok fields) :
      FromOptions options .container (.container fields)
  | switch {written : SwitchOptions} {arms : List (String × Node)} {default? : Option Node}
      (shape : SwitchOptions.ofJson options = .ok written)
      (nodes : written.arms.mapM armOfJson = .ok arms)
      (last : defaultOfJson written.default? = .ok default?) :
      FromOptions options .switch (.switch written.compareTo arms default?)
  | mapper {mappings : List (String × Json)} (shape : mappingsOfJson options = .ok mappings) :
      FromOptions options .mapper (.mapper (mappings.map fun m => literalText m.2))
  | array {written : Json} {element : Node} (shape : elementOfJson options = .ok written)
      (node : Node.ofJson written = .ok element) : FromOptions options .array (.array element)
  | option {content : Node} (node : Node.ofJson options = .ok content) :
      FromOptions options .option (.option content)
  | bitflags {flags : Flags} (shape : Flags.ofJson options = .ok flags) :
      FromOptions options .bitflags (.bitflags flags)
  | bitfield {names : List String}
      (shape : listOfJson bitfieldMemberOfJson options = .ok names) :
      FromOptions options .bitfield (.bitfield names)
  | encapsulated {written : EncapsulatedOptions} {content : Node}
      (shape : EncapsulatedOptions.ofJson options = .ok written)
      (node : Node.ofJson written.content = .ok content) :
      FromOptions options .encapsulated (.encapsulated written.lengthType content)

theorem fromOptions_of_ofOptions {options : Json} {k : Kind} {n : Node}
    (h : ofOptions options k = .ok n) : FromOptions options k n := by
  cases k with
  | container =>
    obtain ⟨written, hshape, h⟩ := bind_eq_ok_iff.1 h
    obtain ⟨fields, hnodes, h⟩ := bind_eq_ok_iff.1 h
    cases h
    exact .container (shaped_eq_ok_iff.1 hshape) hnodes
  | switch =>
    obtain ⟨written, hshape, h⟩ := bind_eq_ok_iff.1 h
    obtain ⟨arms, hnodes, h⟩ := bind_eq_ok_iff.1 h
    obtain ⟨default?, hlast, h⟩ := bind_eq_ok_iff.1 h
    cases h
    exact .switch (shaped_eq_ok_iff.1 hshape) hnodes hlast
  | mapper =>
    obtain ⟨mappings, hshape, h⟩ := bind_eq_ok_iff.1 h
    cases h
    exact .mapper (shaped_eq_ok_iff.1 hshape)
  | array =>
    obtain ⟨written, hshape, h⟩ := bind_eq_ok_iff.1 h
    obtain ⟨element, hnode, h⟩ := bind_eq_ok_iff.1 h
    cases h
    exact .array (shaped_eq_ok_iff.1 hshape) hnode
  | option =>
    obtain ⟨content, hnode, h⟩ := bind_eq_ok_iff.1 h
    cases h
    exact .option hnode
  | bitflags =>
    obtain ⟨flags, hshape, h⟩ := bind_eq_ok_iff.1 h
    cases h
    exact .bitflags (shaped_eq_ok_iff.1 hshape)
  | bitfield =>
    obtain ⟨names, hshape, h⟩ := bind_eq_ok_iff.1 h
    cases h
    exact .bitfield (shaped_eq_ok_iff.1 hshape)
  | encapsulated =>
    obtain ⟨written, hshape, h⟩ := bind_eq_ok_iff.1 h
    obtain ⟨content, hnode, h⟩ := bind_eq_ok_iff.1 h
    cases h
    exact .encapsulated (shaped_eq_ok_iff.1 hshape) hnode

theorem FromOptions.ofOptions {options : Json} {k : Kind} {n : Node} (h : FromOptions options k n) :
    ofOptions options k = .ok n := by
  cases h with
  | container shape nodes =>
    exact bind_eq_ok_iff.2 ⟨_, shaped_eq_ok_iff.2 shape, bind_eq_ok_iff.2 ⟨_, nodes, rfl⟩⟩
  | switch shape nodes last =>
    exact bind_eq_ok_iff.2 ⟨_, shaped_eq_ok_iff.2 shape,
      bind_eq_ok_iff.2 ⟨_, nodes, bind_eq_ok_iff.2 ⟨_, last, rfl⟩⟩⟩
  | array shape node =>
    exact bind_eq_ok_iff.2 ⟨_, shaped_eq_ok_iff.2 shape, bind_eq_ok_iff.2 ⟨_, node, rfl⟩⟩
  | encapsulated shape node =>
    exact bind_eq_ok_iff.2 ⟨_, shaped_eq_ok_iff.2 shape, bind_eq_ok_iff.2 ⟨_, node, rfl⟩⟩
  | option node => exact bind_eq_ok_iff.2 ⟨_, node, rfl⟩
  | mapper shape => exact bind_eq_ok_iff.2 ⟨_, shaped_eq_ok_iff.2 shape, rfl⟩
  | bitflags shape => exact bind_eq_ok_iff.2 ⟨_, shaped_eq_ok_iff.2 shape, rfl⟩
  | bitfield shape => exact bind_eq_ok_iff.2 ⟨_, shaped_eq_ok_iff.2 shape, rfl⟩

theorem ofJson_str (name : String) : Node.ofJson (.str name) = .ok (.primitive name) := by
  rw [Node.ofJson]

theorem ofJson_of_other {kind : String} (unknown : Kind.ofName? kind = none) (rest : List Json) :
    Node.ofJson (.arr (.str kind :: rest)) = .ok (.parametrized kind) := by
  rw [Node.ofJson]
  simp only [unknown]

theorem ofJson_container_nil :
    Node.ofJson (.arr [.str "container", .arr []]) = .ok (.container []) := by
  rw [ofJson_of_kind (k := .container) rfl]
  rfl

theorem ofJson_array {element : Json} {n : Node} (h : Node.ofJson element = .ok n) :
    Node.ofJson (.arr [.str "array", .obj [("type", element)]]) = .ok (.array n) := by
  rw [ofJson_of_kind (k := .array) rfl]
  change (Node.ofJson element >>= _) = _
  rw [h]
  rfl

/-- What a value that is read as a node looks like. -/
inductive Read : Json → Node → Prop
  | name (name : String) : Read (.str name) (.primitive name)
  | other {kind : String} (unknown : Kind.ofName? kind = none) (rest : List Json) :
      Read (.arr (.str kind :: rest)) (.parametrized kind)
  | kind {name : String} {k : Kind} {rest : List Json} {n : Node}
      (known : Kind.ofName? name = some k) (options : ofOptions (optionsOf rest) k = .ok n) :
      Read (.arr (.str name :: rest)) n

theorem read_of_ofJson {v : Json} {n : Node} (h : Node.ofJson v = .ok n) : Read v n := by
  have hread := h
  unfold Node.ofJson at h
  split at h
  · cases h
    exact .name _
  · cases h
  · rename_i name rest
    cases hk : Kind.ofName? name with
    | none =>
      rw [hk] at h
      cases h
      exact .other hk rest
    | some k => exact .kind hk ((ofJson_of_kind hk rest).symm.trans hread)
  · cases h
  · cases h

end Node
end PacketTypings
