import PacketTypings.Proofs.Typing.Step

/-! Where the nodes inside a node are typed. Each field of a container gets a scope of its own; an
arm, a default, an element or a content keeps the scope of the node around it. -/

namespace PacketTypings

/-- A node and the scope that it is typed in. -/
structure Site where
  scope : Scope
  node : Node

/-- The field that the node at position `i` inside a node is typed for, if it is a field's own. -/
def Node.ownerAt : Node → Nat → Option String
  | container fields, i => fields[i]?.bind FieldOf.name
  | _, _ => none

namespace Site

/-- The second site is the one at position `i` right inside the first. What is inside an anonymous
field counts only if those are flattened. -/
inductive Child (policy : AnonymousFields) : Nat → Site → Site → Prop
  | field {s : Scope} {fields : List Field} {i : Nat} {f : Field}
      (getElem? : fields[i]? = some f) (kept : f.anonymous = true → policy = .flatten) :
      Child policy i ⟨s, .container fields⟩ ⟨.within s fields i, f.node⟩
  | arm {s : Scope} {compareTo key : String} {arms : List (String × Node)}
      {default? : Option Node} {i : Nat} {n : Node} (getElem? : arms[i]? = some (key, n)) :
      Child policy i ⟨s, .switch compareTo arms default?⟩ ⟨s, n⟩
  | default (s : Scope) (compareTo : String) (arms : List (String × Node)) (n : Node) :
      Child policy arms.length ⟨s, .switch compareTo arms (some n)⟩ ⟨s, n⟩
  | element (s : Scope) (n : Node) : Child policy 0 ⟨s, .array n⟩ ⟨s, n⟩
  | content (s : Scope) (n : Node) : Child policy 0 ⟨s, .option n⟩ ⟨s, n⟩
  | encapsulated (s : Scope) (lengthType : String) (n : Node) :
      Child policy 0 ⟨s, .encapsulated lengthType n⟩ ⟨s, n⟩

/-- The second site is the first or somewhere inside it. -/
inductive Part (policy : AnonymousFields) : Site → Site → Prop
  | self (a : Site) : Part policy a a
  | inside {i : Nat} {a b c : Site} (child : Child policy i a b) (part : Part policy b c) :
      Part policy a c

theorem Child.mem_children {policy : AnonymousFields} {i : Nat} {a b : Site}
    (h : Child policy i a b) : b.node ∈ a.node.children := by
  cases h with
  | field hf _ => exact List.mem_map.2 ⟨_, List.mem_of_getElem? hf, rfl⟩
  | arm harm =>
    exact List.mem_append_left _ (List.mem_map.2 ⟨_, List.mem_of_getElem? harm, rfl⟩)
  | default => exact List.mem_append_right _ (List.mem_singleton.2 rfl)
  | element => exact List.mem_singleton.2 rfl
  | content => exact List.mem_singleton.2 rfl
  | encapsulated => exact List.mem_singleton.2 rfl

theorem Part.holds {policy : AnonymousFields} {a b : Site} (h : Part policy a b) :
    a.node.Holds b.node := by
  induction h with
  | self a => exact .self _
  | inside hchild _ ih => exact .child hchild.mem_children ih

theorem Child.flattened {policy : AnonymousFields} {i : Nat} {a b : Site}
    (h : Child policy i a b) : Child .flatten i a b := by
  cases h with
  | field hf _ => exact .field hf fun _ => rfl
  | arm harm => exact .arm harm
  | default s compareTo arms n => exact .default s compareTo arms n
  | element s n => exact .element s n
  | content s n => exact .content s n
  | encapsulated s lengthType n => exact .encapsulated s lengthType n

/-- What is inside where fields are omitted is inside where they are flattened. -/
theorem Part.flattened {policy : AnonymousFields} {a b : Site} (h : Part policy a b) :
    Part .flatten a b := by
  induction h with
  | self a => exact .self a
  | inside hchild _ ih => exact .inside hchild.flattened ih

end Site
end PacketTypings
