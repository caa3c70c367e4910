import PacketTypings.Proofs.Schema.Nesting
import PacketTypings.Typing.Discriminant

/-! Nodes without their anonymous fields. Main statement: if anonymous fields have no names, the
field that a name finds is the same with and without them. -/

namespace PacketTypings

namespace Node

mutual

/-- The node, every container in it without its anonymous fields. -/
def erased : Node → Node
  | primitive name => primitive name
  | container fields => container (erasedFields fields)
  | switch compareTo arms none => switch compareTo (erasedArms arms) none
  | switch compareTo arms (some d) => switch compareTo (erasedArms arms) (some d.erased)
  | mapper literals => mapper literals
  | array element => array element.erased
  | option content => option content.erased
  | bitflags flags => bitflags flags
  | bitfield names => bitfield names
  | encapsulated lengthType content => encapsulated lengthType content.erased
  | parametrized kind => parametrized kind

def erasedFields : List Field → List Field
  | [] => []
  | f :: rest =>
    if f.anonymous then erasedFields rest
    else ⟨f.name, f.node.erased, f.anonymous⟩ :: erasedFields rest

def erasedArms : List (String × Node) → List (String × Node)
  | [] => []
  | (key, n) :: rest => (key, n.erased) :: erasedArms rest

end

/-- Where a field is anonymous, it has no name. -/
def AnonymousUnnamed : Node → Prop
  | container fields => ∀ f ∈ fields, f.anonymous = true → f.name = none
  | _ => True

@[simp]
theorem isSwitch_erased (n : Node) : n.erased.isSwitch = n.isSwitch := by
  cases n with
  | switch compareTo arms default? => cases default? <;> rfl
  | _ => rfl

@[simp]
theorem isOption_erased (n : Node) : n.erased.isOption = n.isOption := by
  cases n with
  | switch compareTo arms default? => cases default? <;> rfl
  | _ => rfl

theorem erasedArms_eq (arms : List (String × Node)) :
    erasedArms arms = arms.map fun x => (x.1, x.2.erased) := by
  induction arms with
  | nil => rfl
  | cons x rest ih => rw [erasedArms, ih, List.map_cons]

theorem erased_switch (compareTo : String) (arms : List (String × Node)) (default? : Option Node) :
    (switch compareTo arms default?).erased =
      switch compareTo (arms.map fun x => (x.1, x.2.erased)) (default?.map erased) := by
  rw [← erasedArms_eq]
  cases default? <;> rfl

end Node

/-- A switch compares the erased node as it does the node. -/
@[simp]
theorem Discriminant.ofNode_erased (n : Node) : ofNode n.erased = ofNode n := by
  cases n with
  | switch compareTo arms default? => cases default? <;> rfl
  | _ => rfl

namespace Field

def erased (f : Field) : Field := ⟨f.name, f.node.erased, f.anonymous⟩

/-- The fields that are not anonymous, erased. -/
def kept (fields : List Field) : List Field :=
  (fields.filter fun f => !f.anonymous).map erased

theorem kept_cons_of_anonymous {f : Field} (h : f.anonymous = true) (rest : List Field) :
    kept (f :: rest) = kept rest := by
  simp [kept, h]

theorem kept_cons_of_named {f : Field} (h : f.anonymous = false) (rest : List Field) :
    kept (f :: rest) = f.erased :: kept rest := by
  simp [kept, h]

theorem kept_eq (fields : List Field) : Node.erasedFields fields = kept fields := by
  induction fields with
  | nil => rfl
  | cons f rest ih =>
    unfold Node.erasedFields
    rw [ih]
    by_cases hf : f.anonymous = true
    · rw [if_pos hf, kept_cons_of_anonymous hf]
    · rw [if_neg hf, kept_cons_of_named (by simpa using hf)]
      rfl

theorem kept_append (fields fields' : List Field) :
    kept (fields ++ fields') = kept fields ++ kept fields' := by
  simp [kept]

/-- If it is anonymous, the field has no name, nor has any anonymous field inside it. -/
structure Tame (f : Field) : Prop where
  unnamed : f.anonymous = true → f.name = none
  inside : f.node.Everywhere Node.AnonymousUnnamed

/-- A name never finds an anonymous field, so it finds the same field when those are gone. -/
theorem lastNamed_kept {fields : List Field} (h : ∀ f ∈ fields, f.Tame) (name : String) :
    lastNamed name (kept fields) = (lastNamed name fields).map erased := by
  -- both searches run through the same filtered list: the name already rules the rest out
  unfold lastNamed kept
  rw [← List.map_reverse, ← List.filter_reverse, List.find?_map, List.find?_filter,
    ← List.head?_filter, ← List.head?_filter]
  congr 2
  apply List.filter_congr
  intro f hf
  by_cases hanonymous : f.anonymous = true
  · have hname := (h f (List.mem_reverse.1 hf)).unnamed hanonymous
    simp [hanonymous, hname]
  · simp [hanonymous, erased]

end Field

theorem Node.Everywhere.tame {fields : List Field}
    (h : (Node.container fields).Everywhere Node.AnonymousUnnamed) : ∀ f ∈ fields, f.Tame :=
  fun f hf => ⟨h.self f hf, h.child (List.mem_map_of_mem hf)⟩

end PacketTypings
