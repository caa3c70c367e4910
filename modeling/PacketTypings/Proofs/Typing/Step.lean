import PacketTypings.Proofs.Schema.Nesting
import PacketTypings.Proofs.Typing.Comparison
import PacketTypings.Typing.Typer

/-! One step of typing a node. Main statements: for each kind of node, what its type is made of. The
type of a container is put together from what its fields bring, and the type of a switch from its
arms and its default, each typed by itself. -/

namespace PacketTypings

namespace Parts

theorem foldr_append (ps : List Parts) :
    ps.foldr (· ++ ·) empty = ⟨ps.flatMap members, ps.flatMap others⟩ := by
  induction ps with
  | nil => rfl
  | cons p ps ih =>
    rw [List.foldr_cons, ih, List.flatMap_cons, List.flatMap_cons]
    rfl

theorem spliced_intersection (parts : List TypeTerm) :
    spliced (.intersection parts) = (parts.map ofPart).foldr (· ++ ·) empty := by
  rw [List.foldr_map]
  rfl

end Parts

namespace Typer

/-- What a field brings to its container, typed in its own scope. -/
def own (t : Typer) (scope : Scope) (f : Field) : Except Fault Parts :=
  if f.anonymous then
    match t.anonymousFields with
    | .omit => .ok .empty
    | .flatten => (t.type f.name scope f.node).map .spliced
  else
    match f.name with
    | none => .error (.malformed .container .unnamedField)
    | some name =>
      (t.type f.name scope f.node).map (if f.node.isSwitch then .beside else .ofMember name)

/-- The term of an arm. -/
def arm (t : Typer) (owner? : Option String) (c : Comparison) (arm : String × Node) :
    Except Fault TypeTerm := do
  let value ← t.type none c.scope arm.2
  return armTerm owner? (← c.condition arm.1) value

/-- The term behind those of the arms, if there is a default. -/
def last (t : Typer) (owner? : Option String) (scope : Scope) :
    Option Node → Except Fault (List TypeTerm)
  | none => .ok []
  | some d => (t.type none scope d).map fun value => [defaultTerm owner? value]

theorem parametrized_eq_ok_iff {t : Typer} {kind : String} {e : TypeTerm} :
    t.parametrized kind = .ok e ↔
      ((Ground.ofName? kind).isSome = true ∨ kind ∈ t.entries) ∧ e = .ofName kind := by
  have hknown : ((Ground.ofName? kind).isSome || t.entries.contains kind) = true ↔
      (Ground.ofName? kind).isSome = true ∨ kind ∈ t.entries := by
    rw [Bool.or_eq_true, List.contains_iff_mem]
  rw [parametrized, ← hknown]
  split
  · next h => exact ⟨fun he => ⟨h, (Except.ok.inj he).symm⟩, fun he => he.2 ▸ rfl⟩
  · next h => exact ⟨nofun, fun he => absurd he.1 h⟩

theorem parts_cons (t : Typer) (outer : Scope) (fields : List Field) (index : Nat) (f : Field)
    (rest : List Field) : t.parts outer fields index (f :: rest) =
      t.own (.within outer fields index) f >>= fun own =>
        (t.parts outer fields (index + 1) rest).map (own ++ ·) := by
  rw [parts, own]
  cases f.anonymous with
  | true => cases t.anonymousFields <;> rfl
  | false => cases f.name <;> rfl

theorem parts_eq (t : Typer) (outer : Scope) (fields : List Field) (index : Nat)
    (rest : List Field) : t.parts outer fields index rest =
      ((rest.zipIdx index).mapM fun x => t.own (.within outer fields x.2) x.1).map
        (List.foldr (· ++ ·) .empty) := by
  induction rest generalizing index with
  | nil => rw [parts]; rfl
  | cons f rest ih =>
    rw [parts_cons, ih, List.zipIdx_cons, List.mapM_cons]
    cases t.own (.within outer fields index) f with
    | error e => rfl
    | ok own =>
      cases (rest.zipIdx (index + 1)).mapM fun x => t.own (.within outer fields x.2) x.1 <;> rfl

theorem arms_eq (t : Typer) (owner? : Option String) (c : Comparison)
    (arms : List (String × Node)) : t.arms owner? c arms = arms.mapM (t.arm owner? c) := by
  induction arms with
  | nil => rw [Typer.arms]; rfl
  | cons x rest ih =>
    rw [Typer.arms, List.mapM_cons, ih]
    simp only [arm, bind_assoc, pure_bind]

theorem type_container (t : Typer) (owner? : Option String) (s : Scope) (fields : List Field) :
    t.type owner? s (.container fields) =
      (((fields.zipIdx).mapM fun x => t.own (.within s fields x.2) x.1).map
        (List.foldr (· ++ ·) .empty)).map Parts.term := by
  rw [type, parts_eq]
  rfl

/-- A container's type is put together from what its fields bring, one after the other. -/
theorem exists_parts_of_type_container {t : Typer} {owner? : Option String} {s : Scope}
    {fields : List Field} {e : TypeTerm} (h : t.type owner? s (.container fields) = .ok e) :
    ∃ ps : List Parts, (fields.zipIdx.mapM fun x => t.own (.within s fields x.2) x.1) = .ok ps ∧
      e = (⟨ps.flatMap Parts.members, ps.flatMap Parts.others⟩ : Parts).term := by
  rw [type_container] at h
  obtain ⟨_, hparts, rfl⟩ := map_eq_ok_iff.1 h
  obtain ⟨ps, hps, rfl⟩ := map_eq_ok_iff.1 hparts
  exact ⟨ps, hps, by rw [Parts.foldr_append]⟩

theorem type_switch (t : Typer) (owner? : Option String) (s : Scope) (compareTo : String)
    (arms : List (String × Node)) (default? : Option Node) :
    t.type owner? s (.switch compareTo arms default?) =
      Comparison.ofText compareTo s >>= fun c => arms.mapM (t.arm owner? c) >>= fun terms =>
        (t.last owner? s default?).map fun rest => .union (terms ++ rest) := by
  cases default? with
  | none =>
    rw [type]
    simp only [arms_eq, last, Except.map, List.append_nil]
    rfl
  | some d =>
    rw [type]
    simp only [arms_eq, last]
    congr 1
    funext c
    congr 1
    funext terms
    cases t.type none s d <;> rfl

theorem type_array (t : Typer) (owner? : Option String) (s : Scope) (n : Node) :
    t.type owner? s (.array n) = (t.type none s n).map .array := by
  rw [type]
  cases t.type none s n <;> rfl

theorem type_encapsulated (t : Typer) (owner? : Option String) (s : Scope) (lengthType : String)
    (n : Node) : t.type owner? s (.encapsulated lengthType n) = (t.type none s n).map
      (.annotated · ("encapsulated (lengthType: " ++ lengthType ++ ")")) := by
  rw [type]
  cases t.type none s n <;> rfl

theorem type_option (t : Typer) (owner? : Option String) (s : Scope) (n : Node) :
    t.type owner? s (.option n) = if n.isOption then .error (.unsupported .nestedOption)
      else (t.type none s n).map .optional := by
  rw [type]
  cases t.type none s n <;> rfl

variable {t : Typer} {owner? : Option String} {s : Scope} {e : TypeTerm}

theorem type_option_eq_ok_iff {n : Node} : t.type owner? s (.option n) = .ok e ↔
    n.isOption = false ∧ ∃ inner, t.type none s n = .ok inner ∧ .optional inner = e := by
  rw [type_option]
  cases n.isOption with
  | true => simp
  | false => simp [map_eq_ok_iff]

theorem arm_eq_ok_iff {c : Comparison} {x : String × Node} : t.arm owner? c x = .ok e ↔
    ∃ value condition, t.type none c.scope x.2 = .ok value ∧ c.condition x.1 = .ok condition ∧
      armTerm owner? condition value = e := by
  rw [arm, bind_eq_ok_iff]
  simp only [bind_eq_ok_iff, pure, Except.pure, Except.ok.injEq]
  constructor
  · rintro ⟨value, hvalue, condition, hcondition, he⟩
    exact ⟨value, condition, hvalue, hcondition, he⟩
  · rintro ⟨value, condition, hvalue, hcondition, he⟩
    exact ⟨value, hvalue, condition, hcondition, he⟩

/-- A switch's type is made of the terms of its arms and of its default. -/
theorem type_switch_eq_ok_iff {compareTo : String} {arms : List (String × Node)}
    {default? : Option Node} : t.type owner? s (.switch compareTo arms default?) = .ok e ↔
      ∃ c terms rest, Comparison.ofText compareTo s = .ok c ∧
        arms.mapM (t.arm owner? c) = .ok terms ∧ t.last owner? s default? = .ok rest ∧
        .union (terms ++ rest) = e := by
  simp only [type_switch, bind_eq_ok_iff, map_eq_ok_iff]
  constructor
  · rintro ⟨c, hc, terms, hterms, rest, hrest, he⟩
    exact ⟨c, terms, rest, hc, hterms, hrest, he⟩
  · rintro ⟨c, terms, rest, hc, hterms, hrest, he⟩
    exact ⟨c, hc, terms, hterms, rest, hrest, he⟩

end Typer
end PacketTypings
