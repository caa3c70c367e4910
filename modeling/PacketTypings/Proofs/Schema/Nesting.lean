import PacketTypings.Proofs.Json.WellFormed
import PacketTypings.Proofs.Results
import PacketTypings.Proofs.Schema.Reading

/-! The nodes inside a node. What one step of reading gives a node holds everywhere inside it. Main
statement: wherever a field of a node that was read has no name, the field is anonymous. -/

namespace PacketTypings

namespace Node

@[elab_as_elim]
theorem induction {motive : Node → Prop} (primitive : ∀ name, motive (.primitive name))
    (container : ∀ fields, (∀ f ∈ fields, motive f.node) → motive (.container fields))
    (switch : ∀ compareTo arms default?, (∀ arm ∈ arms, motive arm.2) →
      (∀ d ∈ default?, motive d) → motive (.switch compareTo arms default?))
    (mapper : ∀ literals, motive (.mapper literals))
    (array : ∀ element, motive element → motive (.array element))
    (option : ∀ content, motive content → motive (.option content))
    (bitflags : ∀ flags, motive (.bitflags flags)) (bitfield : ∀ names, motive (.bitfield names))
    (encapsulated : ∀ lengthType content, motive content →
      motive (.encapsulated lengthType content))
    (parametrized : ∀ kind, motive (.parametrized kind)) (n : Node) : motive n :=
  @Node.rec motive (fun fields => ∀ f ∈ fields, motive f.node)
    (fun arms => ∀ arm ∈ arms, motive arm.2) (fun default? => ∀ d ∈ default?, motive d)
    (fun f => motive f.node) (fun arm => motive arm.2)
    primitive container switch mapper array option bitflags bitfield encapsulated parametrized
    nofun (fun _ _ hf hrest => List.forall_mem_cons.2 ⟨hf, hrest⟩)
    nofun (fun _ _ harm hrest => List.forall_mem_cons.2 ⟨harm, hrest⟩)
    nofun (fun _ hd _ h => Option.some.inj h ▸ hd) (fun _ _ _ h => h) (fun _ _ h => h) n

/-- The nodes right inside a node, in the order in which they are declared. -/
def children : Node → List Node
  | container fields => fields.map FieldOf.node
  | switch _ arms default? => arms.map Prod.snd ++ default?.toList
  | array element => [element]
  | option content => [content]
  | encapsulated _ content => [content]
  | _ => []

theorem sizeOf_lt_of_mem_children {n c : Node} (h : c ∈ n.children) : sizeOf c < sizeOf n := by
  cases n with
  | container fields =>
    obtain ⟨f, hf, rfl⟩ := List.mem_map.1 h
    have := List.sizeOf_lt_of_mem hf
    obtain ⟨name, node, anonymous⟩ := f
    simp at this ⊢
    omega
  | switch compareTo arms default? =>
    rcases List.mem_append.1 h with h | h
    · obtain ⟨⟨key, node⟩, harm, rfl⟩ := List.mem_map.1 h
      have := List.sizeOf_lt_of_mem harm
      simp at this ⊢
      omega
    · rw [Option.mem_toList] at h
      cases h
      simp
      omega
  | array element => cases List.mem_singleton.1 h; simp
  | option content => cases List.mem_singleton.1 h; simp
  | encapsulated lengthType content =>
    cases List.mem_singleton.1 h
    simp only [encapsulated.sizeOf_spec]
    omega
  | primitive name => cases h
  | mapper literals => cases h
  | bitflags flags => cases h
  | bitfield names => cases h
  | parametrized kind => cases h

/-- The second node is the first or stands somewhere inside it. -/
inductive Holds : Node → Node → Prop
  | self (n : Node) : Holds n n
  | child {n c m : Node} (mem : c ∈ n.children) (holds : Holds c m) : Holds n m

theorem Holds.to_child {n m c : Node} (h : Holds n m) (hc : c ∈ m.children) : Holds n c := by
  induction h with
  | self n => exact .child hc (.self c)
  | child mem _ ih => exact .child mem (ih hc)

/-- `P` holds of a node and of all nodes inside it. -/
def Everywhere (P : Node → Prop) (n : Node) : Prop := ∀ m, n.Holds m → P m

theorem Everywhere.self {P : Node → Prop} {n : Node} (h : n.Everywhere P) : P n := h n (.self n)

theorem Everywhere.child {P : Node → Prop} {n c : Node} (h : n.Everywhere P)
    (hc : c ∈ n.children) : c.Everywhere P :=
  fun m hm => h m (.child hc hm)

theorem everywhere_of_children {P : Node → Prop} {n : Node} (hn : P n)
    (hchildren : ∀ c ∈ n.children, c.Everywhere P) : n.Everywhere P := by
  intro m hm
  cases hm with
  | self => exact hn
  | child hc hcm => exact hchildren _ hc m hcm

/-- The unnamed fields of a container are anonymous. -/
def FieldsNamed : Node → Prop
  | container fields => ∀ f ∈ fields, f.name = none → f.anonymous = true
  | _ => True

/-- The fields of a container are not anonymous. -/
def NoneAnonymous : Node → Prop
  | container fields => ∀ f ∈ fields, f.anonymous = false
  | _ => True

theorem FromOptions.fieldsNamed {options : Json} {k : Kind} {n : Node}
    (h : FromOptions options k n) : n.FieldsNamed := by
  cases h with
  | container shape nodes =>
    intro g hg
    obtain ⟨f, -, hf⟩ := mem_of_mapM_eq_ok nodes hg
    exact (fieldOfJson_eq_ok hf).1
  | _ => trivial

/-- A node right inside a node was read from a part of the options. -/
theorem FromOptions.exists_ofJson {options : Json} {k : Kind} {n c : Node}
    (h : FromOptions options k n) (hc : c ∈ n.children) :
    ∃ w, options.Holds w ∧ Node.ofJson w = .ok c := by
  cases h with
  | container shape nodes =>
    obtain ⟨g, hg, rfl⟩ := List.mem_map.1 hc
    obtain ⟨f, hf, hfg⟩ := mem_of_mapM_eq_ok nodes hg
    obtain ⟨x, hx, hxf⟩ := exists_mem_children_of_listOfJson shape hf
    exact ⟨f.node, .child hx (.child (FieldOf.node_mem_children hxf) (.self _)),
      (fieldOfJson_eq_ok hfg).2⟩
  | switch shape nodes last =>
    obtain ⟨hobject, hd⟩ := SwitchOptions.mem_children shape
    rcases List.mem_append.1 hc with hc | hc
    · obtain ⟨arm, harm, rfl⟩ := List.mem_map.1 hc
      obtain ⟨a, ha, hread⟩ := mem_of_mapM_eq_ok nodes harm
      have hobject := hobject.resolve_left (List.ne_nil_of_mem ha)
      exact ⟨a.2, .child hobject (.child (List.mem_map_of_mem ha) (.self _)),
        (armOfJson_eq_ok_iff.1 hread).2⟩
    · rw [Option.mem_toList] at hc
      cases hc
      obtain ⟨d, hwritten, hread⟩ := defaultOfJson_eq_ok_some_iff.1 last
      exact ⟨d, .child (hd d hwritten) (.self _), hread⟩
  | array shape node =>
    cases List.mem_singleton.1 hc
    exact ⟨_, .child (element_mem_children shape) (.self _), node⟩
  | option node =>
    cases List.mem_singleton.1 hc
    exact ⟨options, .self _, node⟩
  | encapsulated shape node =>
    cases List.mem_singleton.1 hc
    exact ⟨_, .child (EncapsulatedOptions.content_mem_children shape) (.self _), node⟩
  | mapper shape => cases hc
  | bitflags shape => cases hc
  | bitfield shape => cases hc

/-- What one step of reading gives every node holds everywhere inside the nodes that are read. The
step may use what the value that is read hands on to all values inside it. -/
theorem everywhere_of_ofJson {P : Node → Prop} {Q : Json → Prop} (hnull : Q .null)
    (hchild : ∀ v w, w ∈ v.children → Q v → Q w) (hprimitive : ∀ name, P (.primitive name))
    (hparametrized : ∀ kind, Kind.ofName? kind = none → P (.parametrized kind))
    (hkind : ∀ options k n, Q options → FromOptions options k n → P n) {v : Json} {n : Node}
    (hv : Q v) (h : Node.ofJson v = .ok n) : n.Everywhere P := by
  induction hsize : sizeOf v using Nat.strongRecOn generalizing v n with
  | ind size ih =>
    subst hsize
    cases read_of_ofJson h with
    | name name => exact everywhere_of_children (hprimitive name) nofun
    | other unknown rest => exact everywhere_of_children (hparametrized _ unknown) nofun
    | @kind name k rest _ known options =>
      have hoptions : Q (optionsOf rest) := by
        rcases optionsOf_eq_null_or_mem rest with hnone | hmem
        · rwa [hnone]
        · exact hchild (.arr (.str name :: rest)) _ (List.mem_cons_of_mem _ hmem) hv
      have hread := fromOptions_of_ofOptions options
      refine everywhere_of_children (hkind _ k n hoptions hread) fun c hc => ?_
      obtain ⟨w, hw, hc⟩ := hread.exists_ofJson hc
      have hlt := Nat.lt_of_le_of_lt hw.sizeOf_le (sizeOf_optionsOf_lt (.str name) rest)
      exact ih _ hlt (hw.inherits hchild hoptions) hc rfl

theorem fieldsNamed_of_ofJson {v : Json} {n : Node} (h : Node.ofJson v = .ok n) :
    n.Everywhere FieldsNamed :=
  everywhere_of_ofJson (Q := fun _ => True) trivial (fun _ _ _ _ => trivial) (fun _ => trivial)
    (fun _ _ => trivial) (fun _ _ _ _ => FromOptions.fieldsNamed) trivial h

end Node
end PacketTypings
