import PacketTypings.Proofs.Typing.Shape

/-! The parts of a switch's type: one for each arm, and one for the default. They stand under the
name of a field or beside nothing but their conditions, and no part reads both ways. Main statement:
an anonymous field's switch is put beside the fields around it bare exactly if the field has no
name. -/

namespace PacketTypings

/-- An arm that has a type: its condition on the compared field and the type of its value. -/
structure TypedArm where
  condition : String × TypeTerm
  value : TypeTerm

namespace TypedArm

def term (owner? : Option String) (x : TypedArm) : TypeTerm := armTerm owner? x.condition x.value

/-- The value under the name of a field, with the condition before it. -/
def nested (name : String) (x : TypedArm) : TypeTerm := .record [x.condition, (name, x.value)]

/-- The value and, apart from it, the condition. -/
def bare (x : TypedArm) : TypeTerm := .intersection [.record [x.condition], x.value]

end TypedArm

namespace TypeTerm

theorem record_singleton_ne (name : String) (e : TypeTerm) : record [(name, e)] ≠ e := by
  intro h
  have := congrArg sizeOf h
  simp at this
  omega

end TypeTerm

theorem Parts.term_of_mem_others {p : Parts} {e : TypeTerm} (h : e ∈ p.others) :
    p.term = .intersection (.record p.members :: p.others) := by
  obtain ⟨members, others⟩ := p
  cases others with
  | nil => cases h
  | cons o others => rfl

namespace Typer

variable {t : Typer} {owner? : Option String} {s : Scope} {compareTo : String}
  {arms : List (String × Node)} {default? : Option Node} {e : TypeTerm}

/-- The arms of a switch, typed in its own scope, each as a node that no field owns. -/
def TypesArms (t : Typer) (s : Scope) (c : Comparison) (arms : List (String × Node))
    (typed : List TypedArm) : Prop :=
  List.Forall₂ (fun arm x => c.condition arm.1 = .ok x.condition ∧
    t.type none s arm.2 = .ok x.value) arms typed

def TypesDefault (t : Typer) (s : Scope) (default? : Option Node) (values : List TypeTerm) : Prop :=
  List.Forall₂ (fun d value => t.type none s d = .ok value) default?.toList values

theorem exists_typed_of_arms {c : Comparison} {terms : List TypeTerm}
    (h : arms.mapM (t.arm owner? c) = .ok terms) : ∃ typed, t.TypesArms c.scope c arms typed ∧
      typed.map (TypedArm.term owner?) = terms := by
  apply exists_map_of_mapM_eq_ok h
  intro arm term harm
  obtain ⟨value, condition, hvalue, hcondition, rfl⟩ := arm_eq_ok_iff.1 harm
  exact ⟨⟨condition, value⟩, ⟨hcondition, hvalue⟩, rfl⟩

theorem exists_values_of_last {rest : List TypeTerm} (h : t.last owner? s default? = .ok rest) :
    ∃ values, t.TypesDefault s default? values ∧ values.map (defaultTerm owner?) = rest := by
  cases default? with
  | none =>
    cases h
    exact ⟨[], .nil, rfl⟩
  | some d =>
    obtain ⟨value, hvalue, rfl⟩ := map_eq_ok_iff.1 h
    exact ⟨[value], .cons hvalue .nil, rfl⟩

/-- The type of a switch is made of its arms and its default, in the order of declaration. -/
theorem exists_typed_of_type_switch
    (h : t.type owner? s (.switch compareTo arms default?) = .ok e) :
    ∃ c typed values, Comparison.ofText compareTo s = .ok c ∧ t.TypesArms s c arms typed ∧
      t.TypesDefault s default? values ∧
      e = .union (typed.map (TypedArm.term owner?) ++
        values.map (defaultTerm owner?)) := by
  obtain ⟨c, terms, rest, hc, hterms, hrest, rfl⟩ := type_switch_eq_ok_iff.1 h
  obtain ⟨typed, htyped, rfl⟩ := exists_typed_of_arms hterms
  rw [Comparison.scope_of_ofText hc] at htyped
  obtain ⟨values, hvalues, rfl⟩ := exists_values_of_last hrest
  exact ⟨c, typed, values, hc, htyped, hvalues, rfl⟩

theorem parts_of_named (name : String) (typed : List TypedArm) (values : List TypeTerm) :
    typed.map (TypedArm.term (some name)) ++
        values.map (defaultTerm (some name)) =
      typed.map (TypedArm.nested name) ++ values.map fun value => .record [(name, value)] := rfl

theorem parts_of_unnamed (typed : List TypedArm) (values : List TypeTerm) :
    typed.map (TypedArm.term none) ++ values.map (defaultTerm none) =
      typed.map TypedArm.bare ++ values := by
  rw [show defaultTerm none = id from rfl, List.map_id]
  rfl

/-- Under a name, no part is what it would be without one. -/
theorem nested_eq_bare_iff {name : String} {typed : List TypedArm} {values : List TypeTerm} :
    typed.map (TypedArm.nested name) ++ values.map (fun value => .record [(name, value)]) =
        typed.map TypedArm.bare ++ values ↔
      typed = [] ∧ values = [] := by
  constructor
  · intro h
    cases typed with
    | cons x typed => cases (List.cons.inj h).1
    | nil =>
      cases values with
      | cons value values => exact absurd (List.cons.inj h).1 (TypeTerm.record_singleton_ne _ _)
      | nil => exact ⟨rfl, rfl⟩
  · rintro ⟨rfl, rfl⟩
    rfl

/-- What a flattened anonymous switch brings to its container: its union, beside the record. -/
theorem exists_typed_of_flattened_switch (flattens : t.anonymousFields = .flatten)
    {fields : List Field} (h : t.type owner? s (.container fields) = .ok e) {i : Nat} {f : Field}
    (hf : fields[i]? = some f) (anonymous : f.anonymous = true)
    (switch : f.node = .switch compareTo arms default?) :
    ∃ c typed values terms, Comparison.ofText compareTo (.within s fields i) = .ok c ∧
      t.TypesArms (.within s fields i) c arms typed ∧
      t.TypesDefault (.within s fields i) default? values ∧
      terms = typed.map (TypedArm.term f.name) ++
        values.map (defaultTerm f.name) ∧
      f.Contributes t (.within s fields i) ⟨[], [.union terms]⟩ ∧
      ∃ members others, e = .intersection (.record members :: others) ∧ .union terms ∈ others := by
  obtain ⟨ps, hps, rfl⟩ := exists_parts_of_type_container h
  obtain ⟨p, hp, hown⟩ :=
    exists_of_mem_of_mapM_eq_ok hps (List.mem_zipIdx_iff_getElem?.2 hf : (f, i) ∈ fields.zipIdx)
  rw [own, if_pos anonymous, flattens] at hown
  obtain ⟨union, htype, rfl⟩ := map_eq_ok_iff.1 hown
  obtain ⟨c, typed, values, hc, htyped, hvalues, rfl⟩ :=
    exists_typed_of_type_switch (switch ▸ htype)
  refine ⟨c, typed, values, _, hc, htyped, hvalues, rfl,
    .beside anonymous flattens htype trivial, ?_⟩
  have hmem := List.mem_flatMap_of_mem (f := Parts.others) hp List.mem_cons_self
  exact ⟨_, _, Parts.term_of_mem_others (p := ⟨_, _⟩) hmem, hmem⟩

/-- A switch that is an anonymous field's own stands in the flattened container's type as one union
beside its record. The arms are intersections of their conditions and values, and the default is
its bare value, exactly if the field has no name, or the switch nothing to hold; with a name, they
hold their values under it. -/
theorem flattened_switch_bare_iff_unnamed (flattens : t.anonymousFields = .flatten)
    {fields : List Field} (h : t.type owner? s (.container fields) = .ok e) {i : Nat} {f : Field}
    (hf : fields[i]? = some f) (anonymous : f.anonymous = true)
    (switch : f.node = .switch compareTo arms default?) :
    ∃ c typed values terms, Comparison.ofText compareTo (.within s fields i) = .ok c ∧
      t.TypesArms (.within s fields i) c arms typed ∧
      t.TypesDefault (.within s fields i) default? values ∧
      f.Contributes t (.within s fields i) ⟨[], [.union terms]⟩ ∧
      (∃ members others, e = .intersection (.record members :: others) ∧ .union terms ∈ others) ∧
      (terms = typed.map (fun x => .intersection [.record [x.condition], x.value]) ++ values ↔
        f.name = none ∨ arms = [] ∧ default? = none) ∧
      ∀ name, f.name = some name → terms =
        typed.map (fun x => .record [x.condition, (name, x.value)]) ++
          values.map fun value => .record [(name, value)] := by
  obtain ⟨c, typed, values, terms, hc, htyped, hvalues, rfl, hbrings, hinside⟩ :=
    exists_typed_of_flattened_switch flattens h hf anonymous switch
  refine ⟨c, typed, values, _, hc, htyped, hvalues, hbrings, hinside, ?_, ?_⟩
  · have hnothing : typed = [] ∧ values = [] ↔ arms = [] ∧ default? = none := by
      have harms := htyped.length_eq
      have hdefault := hvalues.length_eq
      rw [← List.length_eq_zero_iff, ← List.length_eq_zero_iff, ← List.length_eq_zero_iff, ← harms,
        ← hdefault, List.length_eq_zero_iff (l := default?.toList), Option.toList_eq_nil_iff]
    cases hname : f.name with
    | none => exact iff_of_true (parts_of_unnamed typed values) (.inl rfl)
    | some name =>
      rw [parts_of_named]
      exact nested_eq_bare_iff.trans (hnothing.trans (by simp))
  · rintro name hname
    rw [hname]
    exact parts_of_named name typed values

/-- An unnamed switch with an arm of either sort and a default, spliced bare. -/
theorem flattened_switch_bare_of_unnamed_payload :
    let mode : Field := ⟨some "mode", .primitive "bool", false⟩
    let position : Node := .container [⟨some "x", .primitive "i32", false⟩]
    let arms : List (String × Node) := [("1", .primitive "u8"), ("true", position)]
    let payload : Field := ⟨none, .switch "mode" arms (some (.primitive "Rest")), true⟩
    let e : TypeTerm := .intersection [.record [("mode", .primitive "boolean")], .union
      [.intersection [.record [("mode", .text "1")], .primitive "number"],
        .intersection [.record [("mode", .truth true)], .record [("x", .primitive "number")]],
        .reference "Rest"]]
    (Typer.mk .flatten []).type none .root (.container [mode, payload]) = .ok e ∧
      ∃ (typed : List TypedArm) (values : List TypeTerm), typed.length = 2 ∧ values.length = 1 ∧
        payload.Contributes ⟨.flatten, []⟩ (.within .root [mode, payload] 1) ⟨[], [.union
          (typed.map (fun x => .intersection [.record [x.condition], x.value]) ++ values)]⟩ := by
  intro mode position arms payload e
  have h : (Typer.mk .flatten []).type none .root (.container [mode, payload]) = .ok e := rfl
  obtain ⟨c, typed, values, terms, -, htyped, hvalues, hbrings, -, hbare, -⟩ :=
    flattened_switch_bare_iff_unnamed (t := ⟨.flatten, []⟩) rfl h (i := 1) rfl rfl rfl
  have hterms := hbare.2 (.inl rfl)
  exact ⟨h, typed, values, htyped.length_eq.symm, hvalues.length_eq.symm, hterms ▸ hbrings⟩

/-- With a name, the switch of an anonymous field holds its value under the name, which so becomes a
key of the container's type. -/
theorem flattened_switch_nested_of_named_payload :
    let kind : Field := ⟨some "kind", .primitive "u8", false⟩
    let data : Field := ⟨some "data", .switch "kind" [("1", .primitive "u8")] none, true⟩
    let s : Scope := .within .root [kind, data] 1
    let condition : String × TypeTerm := ("kind", .text "1")
    let value : TypeTerm := .primitive "number"
    let kinds : TypeTerm := .record [("kind", .primitive "number")]
    ∃ c, Comparison.ofText "kind" s = .ok c ∧ c.condition "1" = .ok condition ∧
      (Typer.mk .flatten []).type none s (.primitive "u8") = .ok value ∧
      (Typer.mk .flatten []).type none .root (.container [kind, data]) =
        .ok (.intersection [kinds, .union [.record [condition, ("data", value)]]]) ∧
      (Typer.mk .flatten []).type none .root (.container [kind, data]) ≠
        .ok (.intersection [kinds, .union [.intersection [.record [condition], value]]]) := by
  intro kind data s condition value kinds
  refine ⟨_, rfl, rfl, rfl, rfl, ?_⟩
  intro h
  have harm := (TypeTerm.union.inj (List.cons.inj (List.cons.inj
    (TypeTerm.intersection.inj (Except.ok.inj h))).2).1)
  cases (List.cons.inj harm).1

end Typer
end PacketTypings
