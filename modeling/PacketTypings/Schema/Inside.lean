import PacketTypings.Schema.Options

/-! Where the nodes inside the options of another stand, and that they are smaller values than the
options are. Main statements: one `…_mem_children` and one `sizeOf_…_lt` for each kind of node that
holds others. -/

namespace PacketTypings

namespace Json

/-- The values right inside a value. -/
def children : Json → List Json
  | arr items => items
  | obj members => members.map Prod.snd
  | _ => []

theorem sizeOf_lt_of_mem_children {v w : Json} (h : w ∈ v.children) : sizeOf w < sizeOf v := by
  cases v with
  | arr items =>
    have : sizeOf w < sizeOf items := List.sizeOf_lt_of_mem h
    simp
    omega
  | obj members =>
    obtain ⟨⟨key, w⟩, hm, rfl⟩ := List.mem_map.1 h
    have := List.sizeOf_lt_of_mem hm
    simp at this ⊢
    omega
  | null => cases h
  | bool b => cases h
  | num n => cases h
  | str s => cases h

theorem mem_of_get? {key : String} {v : Json} {members : List (String × Json)}
    (h : get? key members = some v) : (key, v) ∈ members := by
  induction members with
  | nil => simp [get?] at h
  | cons m rest ih =>
    obtain ⟨k, w⟩ := m
    unfold get? at h ih
    rw [List.lookup_cons] at h
    split at h
    · simp_all
    · exact List.mem_cons_of_mem _ (ih h)

end Json

namespace RecordName

/-- What a slot reads stands right inside the value that the record was read from. -/
theorem exists_mem_children_of_slot {α : Type} {r : RecordName}
    {check : String → Json → Except ShapeFault Unit} {v : Json} {w : Written} {i : Nat}
    {s : Slot α} {a : α} (hw : r.ofJson check v = .ok w) (h : r.slot w i s = .ok a) :
    (∃ x ∈ v.children, s.read x = .ok a) ∨ s.absent? = some a ∨ s.short? = some a := by
  cases v with
  | obj members =>
    simp only [ofJson, bind, Except.bind] at hw
    split at hw
    · cases hw
    · cases hw
      simp only [slot] at h
      split at h
      · next x hx => exact .inl ⟨x, List.mem_map_of_mem (Json.mem_of_get? hx), h⟩
      · cases hs : s.absent? with
        | none => simp [hs] at h
        | some b => simp [hs] at h; simp [h]
  | arr items =>
    cases hw
    simp only [slot] at h
    split at h
    · next x hx => exact .inl ⟨x, List.mem_of_getElem? hx, h⟩
    · cases hs : s.short? with
      | none => simp [hs] at h
      | some b => simp [hs] at h; simp [h]
  | null => cases hw
  | bool b => cases hw
  | num n => cases hw
  | str s => cases hw

/-- The node of a record is taken as it is. -/
theorem node_mem_children {r : RecordName} {check : String → Json → Except ShapeFault Unit}
    {v node : Json} {w : Written} {i : Nat} (hw : r.ofJson check v = .ok w)
    (h : r.slot w i .node = .ok node) : node ∈ v.children := by
  rcases exists_mem_children_of_slot hw h with ⟨x, hx, hread⟩ | h | h
  · cases hread
    exact hx
  · cases h
  · cases h

end RecordName

theorem bind_eq_ok_iff {ε α β : Type} {x : Except ε α} {f : α → Except ε β} {b : β} :
    (x >>= f) = .ok b ↔ ∃ a, x = .ok a ∧ f a = .ok b := by
  cases x <;> simp [bind, Except.bind]

theorem mem_of_mapM_eq_ok {ε α β : Type} {f : α → Except ε β} {xs : List α} {ys : List β} {y : β}
    (h : xs.mapM f = .ok ys) (hy : y ∈ ys) : ∃ x ∈ xs, f x = .ok y := by
  induction xs generalizing ys with
  | nil =>
    cases h
    cases hy
  | cons x xs ih =>
    rw [List.mapM_cons] at h
    obtain ⟨z, hz, h⟩ := bind_eq_ok_iff.1 h
    obtain ⟨zs, hzs, h⟩ := bind_eq_ok_iff.1 h
    cases h
    rcases List.mem_cons.1 hy with rfl | hy
    · exact ⟨x, by simp, hz⟩
    · obtain ⟨x', hx', h'⟩ := ih hzs hy
      exact ⟨x', List.mem_cons_of_mem _ hx', h'⟩

theorem FieldOf.node_mem_children {v : Json} {f : FieldOf Json} (h : FieldOf.ofJson v = .ok f) :
    f.node ∈ v.children := by
  obtain ⟨w, hw, h⟩ := bind_eq_ok_iff.1 h
  obtain ⟨name, -, h⟩ := bind_eq_ok_iff.1 h
  obtain ⟨node, hn, h⟩ := bind_eq_ok_iff.1 h
  obtain ⟨anonymous, -, h⟩ := bind_eq_ok_iff.1 h
  obtain ⟨_, -, h⟩ := bind_eq_ok_iff.1 h
  cases h
  exact RecordName.node_mem_children hw hn

/-- The items of a list are read one by one. -/
theorem exists_mem_children_of_listOfJson {α : Type} {read : Json → Except ShapeFault α} {v : Json}
    {as : List α} {a : α} (h : listOfJson read v = .ok as) (ha : a ∈ as) :
    ∃ x ∈ v.children, read x = .ok a := by
  cases v with
  | arr items => exact mem_of_mapM_eq_ok h ha
  | null => cases h
  | bool b => cases h
  | num n => cases h
  | str s => cases h
  | obj members => cases h

theorem FieldOf.sizeOf_node_lt_of_mem {v : Json} {fields : List (FieldOf Json)} {f : FieldOf Json}
    (h : listOfJson FieldOf.ofJson v = .ok fields) (hf : f ∈ fields) :
    sizeOf f.node < sizeOf v := by
  obtain ⟨x, hx, hfx⟩ := exists_mem_children_of_listOfJson h hf
  exact Nat.lt_trans (Json.sizeOf_lt_of_mem_children (FieldOf.node_mem_children hfx))
    (Json.sizeOf_lt_of_mem_children hx)

/-- The arms of a switch are the members of one object, if there are any. -/
theorem SwitchOptions.mem_children {v : Json} {o : SwitchOptions}
    (h : SwitchOptions.ofJson v = .ok o) :
    (o.arms = [] ∨ .obj o.arms ∈ v.children) ∧ ∀ d ∈ o.default?, d ∈ v.children := by
  obtain ⟨w, hw, h⟩ := bind_eq_ok_iff.1 h
  obtain ⟨compareTo, -, h⟩ := bind_eq_ok_iff.1 h
  obtain ⟨arms, ha, h⟩ := bind_eq_ok_iff.1 h
  obtain ⟨default?, hd, h⟩ := bind_eq_ok_iff.1 h
  obtain ⟨_, -, h⟩ := bind_eq_ok_iff.1 h
  cases h
  constructor
  · rcases RecordName.exists_mem_children_of_slot hw ha with ⟨x, hx, hread⟩ | h | h
    · cases x with
      | obj members =>
        cases hread
        exact .inr hx
      | _ => cases hread
    · cases h
      exact .inl rfl
    · cases h
      exact .inl rfl
  · intro d hmem
    cases hmem
    rcases RecordName.exists_mem_children_of_slot hw hd with ⟨x, hx, hread⟩ | h | h
    · cases x <;> cases hread <;> exact hx
    · cases h
    · cases h

theorem SwitchOptions.sizeOf_lt {v : Json} {o : SwitchOptions}
    (h : SwitchOptions.ofJson v = .ok o) :
    (∀ arm ∈ o.arms, sizeOf arm.2 < sizeOf v) ∧ ∀ d ∈ o.default?, sizeOf d < sizeOf v := by
  obtain ⟨harms, hdefault⟩ := SwitchOptions.mem_children h
  refine ⟨fun arm harm => ?_, fun d hd => Json.sizeOf_lt_of_mem_children (hdefault d hd)⟩
  rcases harms with hnone | harms
  · rw [hnone] at harm
    cases harm
  · have hlt : sizeOf arm.2 < sizeOf (Json.obj o.arms) :=
      Json.sizeOf_lt_of_mem_children (List.mem_map_of_mem harm)
    exact Nat.lt_trans hlt (Json.sizeOf_lt_of_mem_children harms)

theorem element_mem_children {v node : Json} (h : elementOfJson v = .ok node) :
    node ∈ v.children := by
  obtain ⟨w, hw, h⟩ := bind_eq_ok_iff.1 h
  obtain ⟨x, hn, h⟩ := bind_eq_ok_iff.1 h
  obtain ⟨_, -, h⟩ := bind_eq_ok_iff.1 h
  cases h
  exact RecordName.node_mem_children hw hn

theorem sizeOf_element_lt {v node : Json} (h : elementOfJson v = .ok node) :
    sizeOf node < sizeOf v :=
  Json.sizeOf_lt_of_mem_children (element_mem_children h)

theorem EncapsulatedOptions.content_mem_children {v : Json} {o : EncapsulatedOptions}
    (h : EncapsulatedOptions.ofJson v = .ok o) : o.content ∈ v.children := by
  obtain ⟨w, hw, h⟩ := bind_eq_ok_iff.1 h
  obtain ⟨length, -, h⟩ := bind_eq_ok_iff.1 h
  obtain ⟨content, hn, h⟩ := bind_eq_ok_iff.1 h
  obtain ⟨_, -, h⟩ := bind_eq_ok_iff.1 h
  cases h
  exact RecordName.node_mem_children hw hn

theorem EncapsulatedOptions.sizeOf_content_lt {v : Json} {o : EncapsulatedOptions}
    (h : EncapsulatedOptions.ofJson v = .ok o) : sizeOf o.content < sizeOf v :=
  Json.sizeOf_lt_of_mem_children (EncapsulatedOptions.content_mem_children h)

/-- The options of a kind are the item behind it, or null. -/
def optionsOf (rest : List Json) : Json := rest.headD .null

theorem optionsOf_eq_null_or_mem (rest : List Json) :
    optionsOf rest = .null ∨ optionsOf rest ∈ rest := by
  cases rest with
  | nil => exact .inl rfl
  | cons v rest => exact .inr List.mem_cons_self

theorem sizeOf_optionsOf_lt (first : Json) (rest : List Json) :
    sizeOf (optionsOf rest) < sizeOf (Json.arr (first :: rest)) := by
  rcases optionsOf_eq_null_or_mem rest with h | h
  · rw [h, Json.null.sizeOf_spec, Json.arr.sizeOf_spec, List.cons.sizeOf_spec]
    omega
  · exact Json.sizeOf_lt_of_mem_children (List.mem_cons_of_mem first h)

end PacketTypings
