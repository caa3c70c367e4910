import PacketTypings.Proofs.Agreement
import PacketTypings.Proofs.Schema.Erasure
import PacketTypings.Proofs.Scope.Resolution

/-! Scopes without anonymous fields. The positions of fields differ from those in the whole scopes,
but names find the same fields in both. Main statement: a path that leads to a field in the one
leads to the same field, erased, in the other, and else fails for the same reason. -/

namespace PacketTypings

theorem Field.mem_of_lastNamed {name : String} {fields : List Field} {f : Field}
    (h : lastNamed name fields = some f) : f ∈ fields :=
  List.mem_reverse.1 (List.mem_of_find?_eq_some h)

theorem Node.member?_erased {n : Node} (h : n.Everywhere AnonymousUnnamed) (name : String) :
    n.erased.member? name = (n.member? name).map Field.erased := by
  cases n with
  | container fields =>
    unfold erased member?
    rw [Field.kept_eq]
    exact Field.lastNamed_kept h.tame name
  | switch compareTo arms default? => cases default? <;> rfl
  | _ => rfl

theorem Node.tame_of_member? {n : Node} (h : n.Everywhere AnonymousUnnamed) {name : String}
    {g : Field} (hg : n.member? name = some g) : g.Tame := by
  cases n with
  | container fields => exact h.tame g (Field.mem_of_lastNamed hg)
  | _ => cases hg

namespace Scope

/-- What is seen from the second scope is what is seen from the first one, erased, and so it is for
the scopes around them. -/
inductive Erased : Scope → Scope → Prop
  | root : Erased root root
  | within {outer outer' : Scope} {fields fields' : List Field} {index index' : Nat}
      (around : Erased outer outer') (tame : ∀ f ∈ (within outer fields index).visible, f.Tame)
      (visible : (within outer' fields' index').visible =
        Field.kept (within outer fields index).visible) :
      Erased (within outer fields index) (within outer' fields' index')

variable {s s' : Scope}

theorem Erased.lookup?_eq (h : s.Erased s') (name : String) :
    s'.lookup? name = (s.lookup? name).map Field.erased := by
  cases h with
  | root => rfl
  | within around tame visible =>
    unfold lookup?
    rw [visible]
    exact Field.lastNamed_kept tame name

theorem Erased.tame (h : s.Erased s') {name : String} {f : Field} (hf : s.lookup? name = some f) :
    f.Tame := by
  cases h with
  | root => cases hf
  | within around tame visible => exact tame f (Field.mem_of_lastNamed hf)

theorem visible_within_append (outer : Scope) (before rest : List Field) (f : Field) :
    (within outer (before ++ f :: rest) before.length).visible = before ++ [f] := by
  change (before ++ f :: rest).take (before.length + 1) = _
  rw [List.take_length_add_append]
  rfl

/-- The scopes of a field that is kept, among all fields and among those that are kept. -/
theorem Erased.field (h : s.Erased s') {before rest : List Field} {f : Field}
    (tame : ∀ g ∈ before ++ f :: rest, g.Tame) (hf : f.anonymous = false) :
    (Scope.within s (before ++ f :: rest) before.length).Erased
      (.within s' (Field.kept (before ++ f :: rest)) (Field.kept before).length) := by
  apply Erased.within h
  · intro g hg
    exact tame g (List.mem_of_mem_take hg)
  · rw [visible_within_append, Field.kept_append, Field.kept_append, Field.kept_cons_of_named hf,
      Field.kept_cons_of_named hf, visible_within_append]
    rfl

end Scope

namespace Target

/-- The second walk has come to the same scope or field, erased. -/
inductive Erased : Target → Target → Prop
  | scope {s s' : Scope} (erased : s.Erased s') : Erased (scope s) (scope s')
  | field {f : Field} (tame : f.Tame) : Erased (field f) (field f.erased)

theorem Erased.follows_step {t u : Target} (h : t.Erased u) (x : Step) :
    Follows False Erased (t.step x) (u.step x) := by
  cases h with
  | @scope s s' hs =>
    cases x with
    | current => exact .ok (.scope hs)
    | parent =>
      cases hs with
      | root => exact .fault _
      | within around => exact .ok (.scope around)
    | name text =>
      simp only [step]
      rw [hs.lookup?_eq]
      cases hf : s.lookup? _ with
      | none => exact .fault _
      | some f => exact .ok (.field (hs.tame hf))
  | @field f hf =>
    cases x with
    | current => exact .ok (.field hf)
    | parent => exact .fault _
    | name text =>
      simp only [step]
      unfold Field.erased
      rw [Node.member?_erased hf.inside]
      cases hg : f.node.member? _ with
      | none => exact .fault _
      | some g => exact .ok (.field (Node.tame_of_member? hf.inside hg))

theorem Erased.follows_walk {t u : Target} (h : t.Erased u) (steps : List Step) :
    Follows False Erased (t.walk steps) (u.walk steps) := by
  induction steps generalizing t u with
  | nil => exact .ok h
  | cons x steps ih =>
    rw [walk_cons, walk_cons]
    apply (h.follows_step x).bind
    intro t' u' h'
    exact ih h'

end Target

namespace Scope

variable {s s' : Scope}

theorem Erased.follows_resolveField (h : s.Erased s') (path : FieldPath) :
    Follows False (fun f f' => f' = f.erased) (s.resolveField path) (s'.resolveField path) := by
  have hresolve : Follows False Target.Erased (s.resolve path) (s'.resolve path) :=
    ((Target.Erased.scope h).follows_walk path.primary).mapError _
  unfold resolveField
  generalize s.resolve path = x at hresolve
  generalize s'.resolve path = y at hresolve
  cases hresolve with
  | ok related =>
    cases related with
    | scope => exact .fault _
    | field => exact .ok rfl
  | fault e => exact .fault e
  | free e y excused => exact excused.elim

end Scope
end PacketTypings
