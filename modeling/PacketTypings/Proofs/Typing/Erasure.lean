import PacketTypings.Proofs.Scope.Erasure
import PacketTypings.Proofs.Typing.Agreement

/-! What is left out. Main statement: a node typed without its anonymous fields has the type, or the
fault, of the node that never had them. -/

namespace PacketTypings

theorem Field.alike_erased (f : Field) : f.Alike f.erased :=
  ⟨rfl, Discriminant.ofNode_erased f.node⟩

theorem Scope.Erased.agrees {s s' : Scope} (h : s.Erased s') : s.Agrees False s' where
  resolveField path := by
    have hfollows := h.follows_resolveField path
    apply hfollows.imp
    rintro f _ rfl
    exact f.alike_erased
  sibling path := by
    change Follows False Field.Alike ((s.lookup? path.siblingName).elim _ _)
      ((s'.lookup? path.siblingName).elim _ _)
    rw [h.lookup?_eq]
    cases s.lookup? path.siblingName with
    | none => exact .fault _
    | some f => exact .ok f.alike_erased

namespace Typer

variable {t t' : Typer} {s s' : Scope}

theorem parts_cons_of_omitted (omits : t.anonymousFields = .omit) {f : Field}
    (hf : f.anonymous = true) (outer : Scope) (fields : List Field) (index : Nat)
    (rest : List Field) :
    t.parts outer fields index (f :: rest) = t.parts outer fields (index + 1) rest := by
  have hown : t.own (.within outer fields index) f = .ok .empty := by
    unfold own
    rw [if_pos hf, omits]
  rw [parts_cons, hown]
  change (t.parts outer fields (index + 1) rest).map (Parts.empty ++ ·) = _
  cases t.parts outer fields (index + 1) rest <;> rfl

theorem follows_own_erased {f : Field} (hf : f.anonymous = false)
    (h : Follows False Eq (t.type f.name s f.node) (t'.type f.name s' f.node.erased)) :
    Follows False Eq (t.own s f) (t'.own s' f.erased) := by
  have hname : f.erased.name = f.name := rfl
  have hanonymous : f.erased.anonymous = f.anonymous := rfl
  exact follows_own hname hanonymous f.node.isSwitch_erased (by simp [hf]) fun _ => h

/-- The parts of the fields `rest`, which come behind the fields `before`. -/
theorem follows_parts_erased (omits : t.anonymousFields = .omit) (hs : s.Erased s')
    {fields : List Field} (tame : ∀ f ∈ fields, f.Tame) (before rest : List Field)
    (hfields : fields = before ++ rest)
    (hrest : ∀ f ∈ rest, ∀ u u', u.Erased u' →
      Follows False Eq (t.type f.name u f.node) (t'.type f.name u' f.node.erased)) :
    Follows False Eq (t.parts s fields before.length rest)
      (t'.parts s' (Field.kept fields) (Field.kept before).length (Field.kept rest)) := by
  -- `before` tells the position on either side: its length, and that of what is kept of it
  induction rest generalizing before with
  | nil =>
    change Follows False Eq _ (parts _ _ _ _ [])
    rw [parts, parts]
    exact .refl _
  | cons f rest ih =>
    rw [List.forall_mem_cons] at hrest
    have hlater := ih (before ++ [f]) (by simp [hfields]) hrest.2
    rw [List.length_append, Field.kept_append, List.length_append] at hlater
    by_cases hf : f.anonymous = true
    · rw [Field.kept_cons_of_anonymous hf] at hlater ⊢
      rw [parts_cons_of_omitted omits hf]
      exact hlater
    · rw [Bool.not_eq_true] at hf
      rw [Field.kept_cons_of_named hf] at hlater ⊢
      rw [parts_cons, parts_cons]
      subst hfields
      apply (follows_own_erased hf (hrest.1 _ _ (hs.field tame hf))).bind_same
      intro own
      exact hlater.map_same _

theorem follows_erased (omits : t.anonymousFields = .omit) (hentries : t'.entries = t.entries)
    {n : Node} (h : n.Everywhere Node.AnonymousUnnamed) (owner? : Option String)
    (hs : s.Erased s') : Follows False Eq (t.type owner? s n) (t'.type owner? s' n.erased) := by
  induction n using Node.induction generalizing owner? s s' with
  | primitive name => exact .refl _
  | mapper literals => exact .refl _
  | bitflags flags => exact .refl _
  | bitfield names => exact .refl _
  | parametrized kind =>
    unfold Node.erased
    rw [type, type, parametrized, parametrized, hentries]
    exact .refl _
  | array element ih => exact follows_array (ih (h.child List.mem_cons_self) none hs)
  | option content ih =>
    exact follows_option content.isOption_erased (ih (h.child List.mem_cons_self) none hs)
  | encapsulated lengthType content ih =>
    exact follows_encapsulated lengthType (ih (h.child List.mem_cons_self) none hs)
  | container fields ih =>
    unfold Node.erased
    rw [Field.kept_eq, type, type]
    have hparts := follows_parts_erased omits hs h.tame [] fields rfl
      fun f hf u u' hu => ih f hf (h.tame f hf).inside f.name hu
    exact hparts.bind_same fun _ => .refl _
  | switch compareTo arms default? iharms ihdefault =>
    rw [Node.erased_switch]
    apply follows_switch hs.agrees
    · rw [List.forall₂_map_right_iff, List.forall₂_same]
      intro x hx
      have hchild := h.child (List.mem_append_left _ (List.mem_map_of_mem hx))
      exact ⟨rfl, iharms x hx hchild none hs⟩
    · cases default? with
      | none => exact .none
      | some d =>
        have hchild := h.child (List.mem_append_right _ List.mem_cons_self)
        exact .some (ihdefault d rfl hchild none hs)

/-- Leaving anonymous fields out is the same as never having had them: the node without them has
the same type, or the same fault, whether anonymous fields are left out or flattened. -/
theorem type_omit_eq_type_erased {n : Node} (h : n.Everywhere Node.AnonymousUnnamed)
    (entries : List String) (policy : AnonymousFields) :
    (Typer.mk .omit entries).type none .root n =
      (Typer.mk policy entries).type none .root n.erased := by
  have hentries : (Typer.mk policy entries).entries = (Typer.mk .omit entries).entries := rfl
  exact (follows_erased rfl hentries h none .root).eq

/-- Anonymous fields before a switch, in its own container and in the one around it: the path climbs
past them, to a field whose position they shift. -/
theorem type_omit_eq_type_erased_of_shifted_mode :
    let flag : Node := .container [⟨some "flag", .primitive "bool", false⟩]
    let switch : Node := .switch "../mode" [("true", .primitive "u8")] none
    let body : Node := .container [⟨none, .primitive "uuid", true⟩, ⟨some "data", switch, false⟩]
    let n : Node := .container [⟨none, flag, true⟩, ⟨some "mode", .primitive "Mode", false⟩,
      ⟨some "body", body, false⟩]
    let rest : Node := .container [⟨some "mode", .primitive "Mode", false⟩,
      ⟨some "body", .container [⟨some "data", switch, false⟩], false⟩]
    n.Everywhere Node.AnonymousUnnamed ∧ n.erased = rest ∧
      (Typer.mk .omit []).type none .root n = (Typer.mk .flatten []).type none .root rest ∧
      ∃ e, (Typer.mk .flatten []).type none .root rest = .ok e := by
  intro flag switch body n rest
  have hprimitive (name : String) : (Node.primitive name).Everywhere Node.AnonymousUnnamed :=
    Node.everywhere_of_children trivial nofun
  have hflag : flag.Everywhere Node.AnonymousUnnamed :=
    Node.everywhere_of_children (by simp [flag, Node.AnonymousUnnamed])
      (by simp [flag, Node.children, hprimitive])
  have hswitch : switch.Everywhere Node.AnonymousUnnamed :=
    Node.everywhere_of_children trivial (by simp [switch, Node.children, hprimitive])
  have hbody : body.Everywhere Node.AnonymousUnnamed :=
    Node.everywhere_of_children (by simp [body, Node.AnonymousUnnamed])
      (by simp [body, Node.children, hprimitive, hswitch])
  have hn : n.Everywhere Node.AnonymousUnnamed :=
    Node.everywhere_of_children (by simp [n, Node.AnonymousUnnamed])
      (by simp [n, Node.children, hprimitive, hflag, hbody])
  exact ⟨hn, rfl, type_omit_eq_type_erased hn [] .flatten, _, rfl⟩

end Typer
end PacketTypings
