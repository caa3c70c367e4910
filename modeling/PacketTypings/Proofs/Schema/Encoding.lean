import PacketTypings.Proofs.Schema.Nesting
import Mathlib.Data.List.Nodup
import Mathlib.Tactic.TFAE

/-! Nodes written as values. Main statement: a node is read from a value that a document can hold
exactly if its names can be told apart where they have to be, and then it is read from the value
that it is written as. -/

namespace PacketTypings

namespace Kind

theorem ofName?_name (k : Kind) : ofName? k.name = some k := by
  cases k <;> decide

theorem ofName?_eq_none_iff {s : String} : ofName? s = none ↔ ∀ k : Kind, s ≠ k.name := by
  rw [ofName?, List.find?_eq_none]
  constructor
  · intro h k hk
    have hmem : k ∈ all := by cases k <;> decide
    exact h k hmem (by simp [hk])
  · intro h k _
    simpa using (h k).symm

end Kind

/-- Names and numbers as the members of an object. -/
def Flags.toJson : Flags → Json
  | sequence names => .arr (names.map .str)
  | mapping values => .obj (values.map fun v => (v.1, .num v.2))

namespace Node

/-- The texts of a mapper under the numbers of their places. -/
def mappingsToJson (literals : List String) : Json :=
  .obj (literals.zipIdx.map fun x => (toString x.2, .str x.1))

def fieldToJson (name : Option String) (node : Json) (anonymous : Bool) : Json :=
  .obj [("name", name.elim .null .str), ("type", node), ("anon", .bool anonymous)]

def switchToJson (compareTo : String) (arms : List (String × Json)) (default : Json) : Json :=
  .obj [("compareTo", .str compareTo), ("fields", .obj arms), ("default", default)]

mutual

/-- A kind and its options, by key. -/
def toJson : Node → Json
  | primitive name => .str name
  | container fields => .arr [.str Kind.container.name, .arr (fieldsToJson fields)]
  | switch compareTo arms none =>
    .arr [.str Kind.switch.name, switchToJson compareTo (armsToJson arms) .null]
  | switch compareTo arms (some d) =>
    .arr [.str Kind.switch.name, switchToJson compareTo (armsToJson arms) d.toJson]
  | mapper literals => .arr [.str Kind.mapper.name, .obj [("mappings", mappingsToJson literals)]]
  | array element => .arr [.str Kind.array.name, .obj [("type", element.toJson)]]
  | option content => .arr [.str Kind.option.name, content.toJson]
  | bitflags flags => .arr [.str Kind.bitflags.name, .obj [("flags", flags.toJson)]]
  | bitfield names =>
    .arr [.str Kind.bitfield.name, .arr (names.map fun name => .obj [("name", .str name)])]
  | encapsulated lengthType content =>
    .arr [.str Kind.encapsulated.name,
      .obj [("lengthType", .str lengthType), ("type", content.toJson)]]
  | parametrized kind => .arr [.str kind, .obj []]

def fieldsToJson : List Field → List Json
  | [] => []
  | f :: rest => fieldToJson f.name f.node.toJson f.anonymous :: fieldsToJson rest

def armsToJson : List (String × Node) → List (String × Json)
  | [] => []
  | (key, n) :: rest => (key, n.toJson) :: armsToJson rest

end

/-- An unnamed field is anonymous, arms and mapped flags are told apart by their names, the numbers
of flags are numbers of a document, and a kind with options of its own is none of the others. -/
def Loadable : Node → Prop
  | container fields => ∀ f ∈ fields, f.name = none → f.anonymous = true
  | switch _ arms _ => (arms.map Prod.fst).Nodup
  | bitflags (.mapping values) => (values.map Prod.fst).Nodup ∧ ∀ v ∈ values, v.2.Valid
  | parametrized kind => ∀ k : Kind, kind ≠ k.name
  | _ => True

theorem fieldsToJson_eq (fields : List Field) : fieldsToJson fields =
    fields.map fun f => fieldToJson f.name f.node.toJson f.anonymous := by
  induction fields with
  | nil => rfl
  | cons f rest ih => rw [fieldsToJson, ih, List.map_cons]

theorem armsToJson_eq (arms : List (String × Node)) :
    armsToJson arms = arms.map fun x => (x.1, x.2.toJson) := by
  induction arms with
  | nil => rfl
  | cons x rest ih => rw [armsToJson, ih, List.map_cons]

theorem toJson_switch (compareTo : String) (arms : List (String × Node)) (default? : Option Node) :
    (switch compareTo arms default?).toJson = .arr [.str Kind.switch.name,
      switchToJson compareTo (arms.map fun x => (x.1, x.2.toJson))
        (default?.elim .null toJson)] := by
  rw [← armsToJson_eq]
  cases default? <;> rfl

/-! ### What is read can be written -/

theorem toJson_mem_children_of_ofJson {v : Json} {flags : Flags} (h : Flags.ofJson v = .ok flags) :
    flags.toJson ∈ v.children := by
  obtain ⟨w, hw, h⟩ := bind_eq_ok_iff.1 h
  obtain ⟨written, hwritten, h⟩ := bind_eq_ok_iff.1 h
  obtain ⟨_, -, h⟩ := bind_eq_ok_iff.1 h
  have hmem : written ∈ v.children := by
    rcases RecordName.exists_mem_children_of_slot hw hwritten with ⟨x, hx, hread⟩ | h | h
    · cases hread
      exact hx
    · cases h
    · cases h
  suffices heq : flags.toJson = written from heq ▸ hmem
  cases written with
  | arr items =>
    obtain ⟨names, hnames, h⟩ := bind_eq_ok_iff.1 h
    cases h
    rw [Flags.toJson, ← map_eq_map_of_mapM_eq_ok hnames (p := id), List.map_id]
    intro x name hx
    cases x <;> cases hx
    rfl
  | obj members =>
    obtain ⟨values, hvalues, h⟩ := bind_eq_ok_iff.1 h
    cases h
    rw [Flags.toJson, ← map_eq_map_of_mapM_eq_ok hvalues (p := id), List.map_id]
    rintro ⟨name, x⟩ value hx
    cases x <;> cases hx
    rfl
  | null => cases h
  | bool b => cases h
  | num n => cases h
  | str s => cases h

theorem bitflags_loadable {flags : Flags} (h : flags.toJson.WellFormed) :
    (bitflags flags).Loadable := by
  cases flags with
  | sequence names => trivial
  | mapping values =>
    cases h with
    | obj distinct inside =>
      rw [List.map_map] at distinct
      refine ⟨distinct, fun v hv => ?_⟩
      cases inside _ (List.mem_map_of_mem hv) with
      | num valid => exact valid

theorem FromOptions.loadable {options : Json} {k : Kind} {n : Node}
    (h : FromOptions options k n) (hoptions : options.WellFormed) : n.Loadable := by
  cases h with
  | container shape nodes => exact (FromOptions.container shape nodes).fieldsNamed
  | @switch written arms _ shape nodes last =>
    have hkeys : written.arms.map Prod.fst = arms.map Prod.fst :=
      map_eq_map_of_mapM_eq_ok nodes fun _ _ harm => (armOfJson_eq_ok_iff.1 harm).1
    change (arms.map Prod.fst).Nodup
    rw [← hkeys]
    rcases (SwitchOptions.mem_children shape).1 with hnone | hobject
    · rw [hnone]
      exact List.nodup_nil
    · exact (hoptions.child hobject).keys_nodup
  | bitflags shape =>
    exact bitflags_loadable (hoptions.child (toJson_mem_children_of_ofJson shape))
  | _ => trivial

theorem loadable_of_ofJson {v : Json} {n : Node} (hv : v.WellFormed) (h : Node.ofJson v = .ok n) :
    n.Everywhere Loadable :=
  everywhere_of_ofJson .null (fun _ _ hw hv => hv.child hw) (fun _ => trivial)
    (fun _ => Kind.ofName?_eq_none_iff.1) (fun _ _ _ hoptions h => h.loadable hoptions) hv h

/-! ### What can be written is read -/

theorem exists_toJson_eq (n : Node) :
    (∃ s, n.toJson = .str s) ∨ ∃ items, n.toJson = .arr items := by
  cases n with
  | primitive name => exact .inl ⟨name, rfl⟩
  | switch compareTo arms default? => exact .inr ⟨_, toJson_switch compareTo arms default?⟩
  | _ => exact .inr ⟨_, rfl⟩

/-- A node is never written as null, so a default arm does not get lost. -/
theorem orNull_toJson (n : Node) : Slot.orNull .ok n.toJson = .ok (some n.toJson) := by
  rcases n.exists_toJson_eq with ⟨s, h⟩ | ⟨items, h⟩ <;> rw [h] <;> rfl

theorem ofJson_fieldToJson (name : Option String) (node : Json) (anonymous : Bool) :
    FieldOf.ofJson (fieldToJson name node anonymous) = .ok ⟨name, node, anonymous⟩ := by
  cases name <;> rfl

theorem ofJson_kind (k : Kind) (options : Json) :
    Node.ofJson (.arr [.str k.name, options]) = ofOptions options k :=
  ofJson_of_kind k.ofName?_name [options]

theorem ofJson_container {fields : List Field} (hloadable : (container fields).Loadable)
    (hnodes : ∀ f ∈ fields, Node.ofJson f.node.toJson = .ok f.node) :
    Node.ofJson (container fields).toJson = .ok (container fields) := by
  have hraw : listOfJson FieldOf.ofJson (.arr (fieldsToJson fields)) =
      .ok (fields.map fun f => ⟨f.name, f.node.toJson, f.anonymous⟩) := by
    rw [fieldsToJson_eq]
    exact mapM_map_eq_ok fun f _ => ofJson_fieldToJson f.name f.node.toJson f.anonymous
  have hfields : (fields.map fun f => (⟨f.name, f.node.toJson, f.anonymous⟩ : FieldOf Json)).mapM
      fieldOfJson = .ok (fields.map id) := by
    refine mapM_map_eq_ok fun f hf => ?_
    have hnamed : (f.name.isNone && !f.anonymous) = false := by
      have := hloadable f hf
      cases hname : f.name <;> simp_all
    simp only [fieldOfJson, hnamed, hnodes f hf]
    rfl
  rw [List.map_id] at hfields
  rw [toJson, ofJson_kind]
  exact (FromOptions.container hraw hfields).ofOptions

theorem ofJson_switch {compareTo : String} {arms : List (String × Node)} {default? : Option Node}
    (harms : ∀ x ∈ arms, Node.ofJson x.2.toJson = .ok x.2)
    (hdefault : ∀ d ∈ default?, Node.ofJson d.toJson = .ok d) :
    Node.ofJson (switch compareTo arms default?).toJson = .ok (switch compareTo arms default?) := by
  have hraw : SwitchOptions.ofJson (switchToJson compareTo (arms.map fun x => (x.1, x.2.toJson))
      (default?.elim .null toJson)) =
      .ok ⟨compareTo, arms.map fun x => (x.1, x.2.toJson), default?.map toJson⟩ := by
    cases default? with
    | none => rfl
    | some d =>
      change (Slot.orNull .ok d.toJson >>= _) = _
      rw [orNull_toJson]
      rfl
  have hloaded : (arms.map fun x => (x.1, x.2.toJson)).mapM armOfJson = .ok (arms.map id) := by
    exact mapM_map_eq_ok fun x hx => armOfJson_eq_ok_iff.2 ⟨rfl, harms x hx⟩
  have hlast : defaultOfJson (default?.map toJson) = .ok default? := by
    cases default? with
    | none => rfl
    | some d => exact defaultOfJson_eq_ok_some_iff.2 ⟨_, rfl, hdefault d rfl⟩
  rw [List.map_id] at hloaded
  rw [toJson_switch, ofJson_kind]
  exact (FromOptions.switch hraw hloaded hlast).ofOptions

theorem ofJson_mapper (literals : List String) :
    Node.ofJson (mapper literals).toJson = .ok (mapper literals) := by
  have hraw : mappingsOfJson (.obj [("mappings", mappingsToJson literals)]) =
      .ok (literals.zipIdx.map fun x => (toString x.2, .str x.1)) := rfl
  have htexts : (literals.zipIdx.map fun x => ((toString x.2, .str x.1) : String × Json)).map
      (fun x => literalText x.2) = literals := by
    rw [List.map_map]
    exact List.zipIdx_map_fst 0 literals
  rw [toJson, ofJson_kind]
  rw [(FromOptions.mapper hraw).ofOptions, htexts]

theorem ofJson_bitflags (flags : Flags) :
    Node.ofJson (bitflags flags).toJson = .ok (bitflags flags) := by
  have hraw : Flags.ofJson (.obj [("flags", flags.toJson)]) = .ok flags := by
    cases flags with
    | sequence names =>
      have hnames : (names.map .str).mapM Flags.nameOfJson = .ok (names.map id) :=
        mapM_map_eq_ok fun _ _ => rfl
      rw [List.map_id] at hnames
      exact bind_eq_ok_iff.2 ⟨_, rfl, bind_eq_ok_iff.2 ⟨_, rfl, bind_eq_ok_iff.2 ⟨_, rfl,
        bind_eq_ok_iff.2 ⟨_, hnames, rfl⟩⟩⟩⟩
    | mapping values =>
      have hvalues : (values.map fun v => (v.1, Json.num v.2)).mapM
          (fun v => Flags.valueOfJson v.1 v.2) = .ok (values.map id) :=
        mapM_map_eq_ok fun _ _ => rfl
      rw [List.map_id] at hvalues
      exact bind_eq_ok_iff.2 ⟨_, rfl, bind_eq_ok_iff.2 ⟨_, rfl, bind_eq_ok_iff.2 ⟨_, rfl,
        bind_eq_ok_iff.2 ⟨_, hvalues, rfl⟩⟩⟩⟩
  rw [toJson, ofJson_kind]
  exact (FromOptions.bitflags hraw).ofOptions

theorem ofJson_bitfield (names : List String) :
    Node.ofJson (bitfield names).toJson = .ok (bitfield names) := by
  have hraw : listOfJson bitfieldMemberOfJson
      (.arr (names.map fun name => .obj [("name", .str name)])) = .ok (names.map id) :=
    mapM_map_eq_ok fun _ _ => rfl
  rw [List.map_id] at hraw
  rw [toJson, ofJson_kind]
  exact (FromOptions.bitfield hraw).ofOptions

theorem ofJson_toJson {n : Node} (h : n.Everywhere Loadable) : Node.ofJson n.toJson = .ok n := by
  induction n using Node.induction with
  | primitive name => exact ofJson_str name
  | container fields ih =>
    exact ofJson_container h.self fun f hf => ih f hf (h.child (List.mem_map_of_mem hf))
  | switch compareTo arms default? iharms ihdefault =>
    refine ofJson_switch (fun x hx => iharms x hx (h.child ?_))
      (fun d hd => ihdefault d hd (h.child ?_))
    · exact List.mem_append_left _ (List.mem_map_of_mem hx)
    · exact List.mem_append_right _ (Option.mem_toList.2 hd)
  | mapper literals => exact ofJson_mapper literals
  | array element ih =>
    rw [toJson, ofJson_kind]
    exact (FromOptions.array rfl (ih (h.child List.mem_cons_self))).ofOptions
  | option content ih =>
    rw [toJson, ofJson_kind]
    exact (FromOptions.option (ih (h.child List.mem_cons_self))).ofOptions
  | bitflags flags => exact ofJson_bitflags flags
  | bitfield names => exact ofJson_bitfield names
  | encapsulated lengthType content ih =>
    rw [toJson, ofJson_kind]
    have hraw : EncapsulatedOptions.ofJson (.obj [("lengthType", .str lengthType),
        ("type", content.toJson)]) = .ok ⟨lengthType, content.toJson⟩ := rfl
    exact (FromOptions.encapsulated hraw (ih (h.child List.mem_cons_self))).ofOptions
  | parametrized kind => exact ofJson_of_other (Kind.ofName?_eq_none_iff.2 h.self) _

/-! ### What can be written can stand in a document -/

theorem wellFormed_kind {options : Json} (h : options.WellFormed) (name : String) :
    (Json.arr [.str name, options]).WellFormed :=
  .arr (List.forall_mem_cons.2 ⟨.str name, List.forall_mem_singleton.2 h⟩)

theorem wellFormed_member {v : Json} (h : v.WellFormed) (key : String) :
    (Json.obj [(key, v)]).WellFormed :=
  .obj (List.nodup_singleton key) (List.forall_mem_singleton.2 h)

theorem fieldToJson_wellFormed {node : Json} (h : node.WellFormed) (name : Option String)
    (anonymous : Bool) : (fieldToJson name node anonymous).WellFormed := by
  have hname : (name.elim Json.null Json.str).WellFormed := by
    cases name with
    | none => exact .null
    | some s => exact .str s
  refine .obj (by simp) ?_
  simp only [List.forall_mem_cons]
  exact ⟨hname, h, .bool anonymous, nofun⟩

theorem switchToJson_wellFormed {arms : List (String × Json)} {default : Json}
    (harms : (Json.obj arms).WellFormed) (hdefault : default.WellFormed) (compareTo : String) :
    (switchToJson compareTo arms default).WellFormed := by
  refine .obj (by simp) ?_
  simp only [List.forall_mem_cons]
  exact ⟨.str compareTo, harms, hdefault, nofun⟩

theorem mappingsToJson_wellFormed (literals : List String) :
    (mappingsToJson literals).WellFormed := by
  refine .obj ?_ (List.forall_mem_map.2 fun _ _ => .str _)
  have hkeys :
      (literals.zipIdx.map fun x => ((toString x.2, .str x.1) : String × Json)).map Prod.fst =
      (literals.zipIdx.map Prod.snd).map toString := by
    rw [List.map_map, List.map_map]
    rfl
  rw [hkeys, List.zipIdx_map_snd]
  refine (List.nodup_range' 1).map fun i j h => ?_
  -- a text of decimal digits reads back as its number
  have hread := congrArg (fun s : String => Nat.ofDigitChars 10 s.toList 0) h
  simpa [Nat.repr, Nat.ofDigitChars_toDigits] using hread

theorem Flags.toJson_wellFormed {flags : Flags} (h : (bitflags flags).Loadable) :
    flags.toJson.WellFormed := by
  cases flags with
  | sequence names => exact .arr (List.forall_mem_map.2 fun _ _ => .str _)
  | mapping values =>
    refine .obj ?_ (List.forall_mem_map.2 fun v hv => .num (h.2 v hv))
    rw [List.map_map]
    exact h.1

theorem toJson_wellFormed {n : Node} (h : n.Everywhere Loadable) : n.toJson.WellFormed := by
  induction n using Node.induction with
  | primitive name => exact .str name
  | container fields ih =>
    rw [toJson, fieldsToJson_eq]
    refine wellFormed_kind (.arr (List.forall_mem_map.2 fun f hf => ?_)) _
    exact fieldToJson_wellFormed (ih f hf (h.child (List.mem_map_of_mem hf))) _ _
  | switch compareTo arms default? iharms ihdefault =>
    rw [toJson_switch]
    refine wellFormed_kind (switchToJson_wellFormed (.obj ?_ ?_) ?_ compareTo) _
    · rw [List.map_map]
      exact h.self
    · refine List.forall_mem_map.2 fun x hx => iharms x hx (h.child ?_)
      exact List.mem_append_left _ (List.mem_map_of_mem hx)
    · cases default? with
      | none => exact .null
      | some d =>
        refine ihdefault d rfl (h.child ?_)
        exact List.mem_append_right _ (Option.mem_toList.2 rfl)
  | mapper literals => exact wellFormed_kind (wellFormed_member (mappingsToJson_wellFormed _) _) _
  | array element ih =>
    exact wellFormed_kind (wellFormed_member (ih (h.child List.mem_cons_self)) _) _
  | option content ih => exact wellFormed_kind (ih (h.child List.mem_cons_self)) _
  | bitflags flags =>
    exact wellFormed_kind (wellFormed_member (Flags.toJson_wellFormed h.self) _) _
  | bitfield names =>
    exact wellFormed_kind
      (.arr (List.forall_mem_map.2 fun name _ => wellFormed_member (.str name) _)) _
  | encapsulated lengthType content ih =>
    refine wellFormed_kind (.obj (by simp) ?_) _
    simp only [List.forall_mem_cons]
    exact ⟨.str lengthType, ih (h.child List.mem_cons_self), nofun⟩
  | parametrized kind => exact wellFormed_kind (.obj (by simp) (by simp)) kind

/-- What is read somewhere, what keeps its names apart, and what is read back from its own writing
are the same nodes. -/
theorem loadable_tfae (n : Node) :
    [∃ v : Json, v.WellFormed ∧ Node.ofJson v = .ok n, n.Everywhere Loadable,
      n.toJson.WellFormed ∧ Node.ofJson n.toJson = .ok n].TFAE := by
  tfae_have 1 → 2 := fun ⟨v, hv, hread⟩ => loadable_of_ofJson hv hread
  tfae_have 2 → 3 := fun h => ⟨toJson_wellFormed h, ofJson_toJson h⟩
  tfae_have 3 → 1 := fun h => ⟨n.toJson, h⟩
  tfae_finish

end Node
end PacketTypings
