import PacketTypings.Proofs.Agreement
import PacketTypings.Proofs.Schema.Nesting
import PacketTypings.Proofs.Scope.Resolution
import PacketTypings.Typing.Discriminant

/-! Scopes that cannot be told apart. Of the nodes in a scope a path sees the names of fields and
the members of containers, and a switch how the compared field holds; what a switch, an array or an
option holds is hidden. Main statement: in scopes that look alike a path leads to fields that look
alike, or fails for the same reason. -/

namespace PacketTypings

/-- The nodes are containers whose fields look alike one by one, or both are no containers and a
field of the one holds as a field of the other does. -/
inductive Node.LooksLike : Node → Node → Prop
  | closed {n n' : Node} (closed : ∀ fields, n ≠ .container fields)
      (closed' : ∀ fields, n' ≠ .container fields)
      (discriminant : Discriminant.ofNode n' = Discriminant.ofNode n) : LooksLike n n'
  | container {fields fields' : List Field}
      (names : fields'.map FieldOf.name = fields.map FieldOf.name)
      (members : ∀ (i : Nat) (f f' : Field), fields[i]? = some f → fields'[i]? = some f' →
        LooksLike f.node f'.node) : LooksLike (.container fields) (.container fields')

structure Field.LooksLike (f f' : Field) : Prop where
  name : f'.name = f.name
  node : f.node.LooksLike f'.node

theorem Node.LooksLike.refl (n : Node) : n.LooksLike n := by
  induction n using Node.induction with
  | container fields ih =>
    refine .container rfl fun i f f' hf hf' => ?_
    cases hf.symm.trans hf'
    exact ih f (List.mem_of_getElem? hf)
  | _ => exact .closed nofun nofun rfl

/-- What switches compare and hold is not seen. -/
theorem Node.LooksLike.switch (compareTo compareTo' : String) (arms arms' : List (String × Node))
    (default? default?' : Option Node) :
    (Node.switch compareTo arms default?).LooksLike (.switch compareTo' arms' default?') :=
  .closed nofun nofun rfl

theorem Field.LooksLike.refl (f : Field) : f.LooksLike f := ⟨rfl, .refl f.node⟩

theorem Node.LooksLike.forall₂ {fields fields' : List Field}
    (h : (Node.container fields).LooksLike (.container fields')) :
    List.Forall₂ Field.LooksLike fields fields' := by
  cases h with
  | closed closed => exact absurd rfl (closed fields)
  | container names members =>
    have hlength := congrArg List.length names
    rw [List.length_map, List.length_map] at hlength
    refine List.forall₂_iff_get.2 ⟨hlength.symm, fun i hi hi' => ⟨?_, ?_⟩⟩
    · have hname : (fields'.map FieldOf.name)[i]? = (fields.map FieldOf.name)[i]? := by rw [names]
      simpa [List.getElem?_eq_getElem hi, List.getElem?_eq_getElem hi'] using hname
    · exact members i _ _ (List.getElem?_eq_getElem hi) (List.getElem?_eq_getElem hi')

theorem Field.lastNamed_looksLike {fields fields' : List Field}
    (h : List.Forall₂ Field.LooksLike fields fields') (name : String) :
    Option.Rel Field.LooksLike (lastNamed name fields) (lastNamed name fields') := by
  unfold lastNamed
  have hreverse := List.forall₂_reverse_iff.2 h
  generalize fields.reverse = fs at hreverse
  generalize fields'.reverse = fs' at hreverse
  induction hreverse with
  | nil => exact .none
  | @cons f f' _ _ hf _ ih =>
    rw [List.find?_cons, List.find?_cons, hf.name]
    cases decide (f.name = some name) with
    | true => exact .some hf
    | false => exact ih

theorem Node.member?_looksLike {n n' : Node} (h : n.LooksLike n') (name : String) :
    Option.Rel Field.LooksLike (n.member? name) (n'.member? name) := by
  have hnone {m : Node} (closed : ∀ fields, m ≠ .container fields) : m.member? name = none := by
    cases m with
    | container fields => exact absurd rfl (closed fields)
    | _ => rfl
  cases h with
  | closed closed closed' =>
    rw [hnone closed, hnone closed']
    exact .none
  | container names members =>
    exact Field.lastNamed_looksLike (Node.LooksLike.container names members).forall₂ name

namespace Scope

/-- The scopes are of fields at the same position, among fields that look alike, and so are the
scopes around them. -/
inductive LooksLike : Scope → Scope → Prop
  | root : LooksLike root root
  | within {outer outer' : Scope} {fields fields' : List Field} (around : LooksLike outer outer')
      (alike : List.Forall₂ Field.LooksLike fields fields') (index : Nat) :
      LooksLike (within outer fields index) (within outer' fields' index)

theorem LooksLike.refl (s : Scope) : s.LooksLike s := by
  induction s with
  | root => exact .root
  | within outer fields index ih =>
    exact .within ih (List.forall₂_same.2 fun f _ => .refl f) index

variable {s s' : Scope}

theorem LooksLike.field (h : s.LooksLike s') (fields : List Field) (index : Nat) :
    (Scope.within s fields index).LooksLike (.within s' fields index) :=
  .within h (List.forall₂_same.2 fun f _ => .refl f) index

/-- Another switch in place of a field's own one changes nothing that is seen from the field. -/
theorem LooksLike.respelled (outer : Scope) (before after : List Field) {f f' : Field}
    (h : f.LooksLike f') : (Scope.within outer (before ++ f :: after) before.length).LooksLike
      (.within outer (before ++ f' :: after) before.length) := by
  refine .within (.refl outer) (List.rel_append ?_ (.cons h ?_)) _
  · exact List.forall₂_same.2 fun g _ => .refl g
  · exact List.forall₂_same.2 fun g _ => .refl g

theorem LooksLike.lookup? (h : s.LooksLike s') (name : String) :
    Option.Rel Field.LooksLike (s.lookup? name) (s'.lookup? name) := by
  cases h with
  | root => exact .none
  | within _ alike index =>
    exact Field.lastNamed_looksLike (List.forall₂_take (index + 1) alike) name

theorem LooksLike.exists_lookup? (h : s.LooksLike s') {name : String} {f : Field}
    (hf : s.lookup? name = some f) : ∃ f', s'.lookup? name = some f' ∧ f.LooksLike f' := by
  have hlookup := h.lookup? name
  rw [hf] at hlookup
  generalize s'.lookup? name = found at hlookup ⊢
  cases hlookup with
  | some hff' => exact ⟨_, rfl, hff'⟩

end Scope

namespace Target

/-- The second walk has come to a scope or field that looks like the first one's. -/
inductive LooksLike : Target → Target → Prop
  | scope {s s' : Scope} (alike : s.LooksLike s') : LooksLike (scope s) (scope s')
  | field {f f' : Field} (alike : f.LooksLike f') : LooksLike (field f) (field f')

theorem LooksLike.follows_step {t u : Target} (h : t.LooksLike u) (x : Step) :
    Follows False LooksLike (t.step x) (u.step x) := by
  cases h with
  | @scope s s' hs =>
    cases x with
    | current => exact .ok (.scope hs)
    | parent =>
      cases hs with
      | root => exact .fault _
      | within around => exact .ok (.scope around)
    | name text =>
      have hlookup := hs.lookup? (Step.fieldPart text)
      change Follows False LooksLike ((s.lookup? (Step.fieldPart text)).elim _ _)
        ((s'.lookup? (Step.fieldPart text)).elim _ _)
      generalize s.lookup? (Step.fieldPart text) = x, s'.lookup? (Step.fieldPart text) = y
        at hlookup
      cases hlookup with
      | none => exact .fault _
      | some hf => exact .ok (.field hf)
  | @field f f' hf =>
    cases x with
    | current => exact .ok (.field hf)
    | parent =>
      simp only [step, hf.name]
      exact .fault _
    | name text =>
      have hmember := Node.member?_looksLike hf.node (Step.fieldPart text)
      change Follows False LooksLike ((f.node.member? (Step.fieldPart text)).elim _ _)
        ((f'.node.member? (Step.fieldPart text)).elim _ _)
      generalize f.node.member? (Step.fieldPart text) = x, f'.node.member? (Step.fieldPart text) = y
        at hmember
      cases hmember with
      | none =>
        rw [hf.name]
        exact .fault _
      | some hg => exact .ok (.field hg)

theorem LooksLike.follows_walk {t u : Target} (h : t.LooksLike u) (steps : List Step) :
    Follows False LooksLike (t.walk steps) (u.walk steps) := by
  induction steps generalizing t u with
  | nil => exact .ok h
  | cons x steps ih =>
    rw [walk_cons, walk_cons]
    apply (h.follows_step x).bind
    intro t' u' h'
    exact ih h'

/-- A walk has to end at a field. -/
def asField : Target → Except PathFault Field
  | field f => .ok f
  | scope _ => .error .namesScope

end Target

namespace Scope

variable {s s' : Scope}

theorem resolveField_eq (s : Scope) (path : FieldPath) : s.resolveField path =
    ((Target.scope s).walk path.primary >>= Target.asField).mapError (.brokenPath path.text) := by
  unfold resolveField resolve
  cases (Target.scope s).walk path.primary with
  | error e => rfl
  | ok t => cases t <;> rfl

theorem LooksLike.follows_asField (h : s.LooksLike s') (steps : List Step) :
    Follows False Field.LooksLike ((Target.scope s).walk steps >>= Target.asField)
      ((Target.scope s').walk steps >>= Target.asField) := by
  apply ((Target.LooksLike.scope h).follows_walk steps).bind
  intro t u htu
  cases htu with
  | scope => exact .fault _
  | field hf => exact .ok hf

end Scope
end PacketTypings
