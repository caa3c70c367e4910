import PacketTypings.Proofs.Typing.Entries

/-! What flattening adds. Whether anonymous fields are left out changes no scope, so it changes no
comparison and no field beside them. Main statement: a node with a type where anonymous fields are
flattened has one where they are left out, and a container has the same keys there in the same
order, or fewer. -/

namespace PacketTypings

/-- The keys of a record, or of the record that an intersection begins with. -/
def TypeTerm.recordKeys : TypeTerm → List String
  | record members => members.map Prod.fst
  | intersection (record members :: _) => members.map Prod.fst
  | _ => []

namespace Parts

def keys (p : Parts) : List String := p.members.map Prod.fst

theorem keys_append (p q : Parts) : (p ++ q).keys = p.keys ++ q.keys := List.map_append

theorem recordKeys_term (p : Parts) : p.term.recordKeys = p.keys := by
  obtain ⟨members, others⟩ := p
  cases others <;> rfl

theorem keys_foldr_sublist {ps qs : List Parts}
    (h : List.Forall₂ (fun p q => q.keys.Sublist p.keys) ps qs) :
    (qs.foldr (· ++ ·) empty).keys.Sublist (ps.foldr (· ++ ·) empty).keys := by
  induction h with
  | nil => exact List.Sublist.refl _
  | cons head _ ih =>
    rw [List.foldr_cons, List.foldr_cons, keys_append, keys_append]
    exact head.append ih

end Parts

namespace Typer

variable {t t' : Typer} {s : Scope}

/-- Where the first typer has a type for a node, so does the second. -/
def Covers (t t' : Typer) (owner? : Option String) (s : Scope) (n : Node) : Prop :=
  Follows True (fun _ _ => True) (t.type owner? s n) (t'.type owner? s n)

/-- Left out, a field brings no key to its container, and else the keys that it brings anyway. -/
theorem follows_own_omit (omits : t'.anonymousFields = .omit) {f : Field}
    (h : Covers t t' f.name s f.node) :
    Follows True (fun p q => q.keys.Sublist p.keys) (t.own s f) (t'.own s f) := by
  unfold own
  by_cases hf : f.anonymous = true
  · simp only [if_pos hf, omits]
    apply Follows.of_exists_ok
    intro p _
    exact ⟨.empty, rfl, List.nil_sublist _⟩
  · simp only [if_neg hf]
    cases hname : f.name with
    | none => exact .fault _
    | some name =>
      rw [hname] at h
      apply h.map
      intro e e' _
      cases f.node.isSwitch <;> exact List.Sublist.refl _

theorem follows_container_omit (omits : t'.anonymousFields = .omit) (owner? : Option String)
    {fields : List Field}
    (h : ∀ i f, fields[i]? = some f → Covers t t' f.name (.within s fields i) f.node) :
    Follows True (fun e e' => e'.recordKeys.Sublist e.recordKeys)
      (t.type owner? s (.container fields)) (t'.type owner? s (.container fields)) := by
  rw [type_container, type_container]
  have howns : Follows True (List.Forall₂ fun p q => q.keys.Sublist p.keys)
      (fields.zipIdx.mapM fun x => t.own (.within s fields x.2) x.1)
      (fields.zipIdx.mapM fun x => t'.own (.within s fields x.2) x.1) := by
    apply Follows.mapM_forall₂
    rw [List.forall₂_same]
    intro x hx
    exact follows_own_omit omits (h x.2 x.1 (List.mem_zipIdx_iff_getElem?.1 hx))
  have hparts : Follows True (fun p q : Parts => q.keys.Sublist p.keys) _ _ :=
    howns.map fun _ _ => Parts.keys_foldr_sublist
  apply hparts.map
  intro p q hpq
  rwa [Parts.recordKeys_term, Parts.recordKeys_term]

/-- Both compare with the same field, so only the values of the arms and of the default may
differ. -/
theorem covers_switch (owner? : Option String) (compareTo : String) {arms : List (String × Node)}
    {default? : Option Node} (harms : ∀ x ∈ arms, ∀ s, Covers t t' none s x.2)
    (hdefault : ∀ d ∈ default?, Covers t t' none s d) :
    Covers t t' owner? s (.switch compareTo arms default?) := by
  unfold Covers
  rw [type_switch, type_switch]
  apply (Follows.refl _).bind_same
  intro c
  have hterms : Follows True (List.Forall₂ fun _ _ => True) (arms.mapM (t.arm owner? c))
      (arms.mapM (t'.arm owner? c)) := by
    apply Follows.mapM_forall₂
    rw [List.forall₂_same]
    intro x hx
    apply (harms x hx c.scope).bind
    intro _ _ _
    exact (Follows.refl _).bind_same fun _ => .ok trivial
  have hlast : Follows True (fun _ _ => True) (t.last owner? s default?)
      (t'.last owner? s default?) := by
    cases default? with
    | none => exact .ok trivial
    | some d => exact (hdefault d rfl).map fun _ _ _ => trivial
  apply hterms.bind
  intro _ _ _
  exact hlast.map fun _ _ _ => trivial

theorem covers_omit (omits : t'.anonymousFields = .omit) (hentries : t'.entries = t.entries)
    (owner? : Option String) (s : Scope) (n : Node) : Covers t t' owner? s n := by
  induction n using Node.induction generalizing owner? s with
  | primitive name => exact .ok trivial
  | mapper literals => exact .ok trivial
  | bitflags flags => exact .ok trivial
  | bitfield names => exact .ok trivial
  | parametrized kind =>
    unfold Covers
    rw [type, type, parametrized, parametrized, hentries]
    exact (Follows.refl _).imp fun _ _ _ => trivial
  | array element ih =>
    unfold Covers
    rw [type_array, type_array]
    exact (ih none s).map fun _ _ _ => trivial
  | option content ih =>
    unfold Covers
    rw [type_option, type_option]
    split
    · exact .fault _
    · exact (ih none s).map fun _ _ _ => trivial
  | encapsulated lengthType content ih =>
    unfold Covers
    rw [type_encapsulated, type_encapsulated]
    exact (ih none s).map fun _ _ _ => trivial
  | container fields ih =>
    have hkeys := follows_container_omit omits owner? fun i f hf =>
      ih f (List.mem_of_getElem? hf) f.name (.within s fields i)
    exact hkeys.imp fun _ _ _ => trivial
  | switch compareTo arms default? iharms ihdefault =>
    exact covers_switch owner? compareTo (fun x hx => iharms x hx none)
      fun d hd => ihdefault d hd none s

/-- A node with a type where anonymous fields are flattened has one where they are left out; if it
is a container, its keys there are, in order, among those that it has with all fields. Without
anonymous fields, it has one type, or one fault, whatever becomes of such fields. -/
theorem flatten_adds (entries : List String) (owner? : Option String) (s : Scope) (n : Node) :
    (∀ e, (Typer.mk .flatten entries).type owner? s n = .ok e →
      ∃ e', (Typer.mk .omit entries).type owner? s n = .ok e' ∧
        ∀ fields, n = .container fields → e'.recordKeys.Sublist e.recordKeys) ∧
    (n.Everywhere Node.NoneAnonymous →
      (Typer.mk .flatten entries).type owner? s n = (Typer.mk .omit entries).type owner? s n) := by
  have hcovers (owner? : Option String) (s : Scope) (n : Node) :
      Covers ⟨.flatten, entries⟩ ⟨.omit, entries⟩ owner? s n :=
    covers_omit (by rfl) (by rfl) owner? s n
  constructor
  · intro e he
    cases n with
    | container fields =>
      have hkeys := follows_container_omit (by rfl) owner? fun i f _ =>
        hcovers f.name (.within s fields i) f.node
      obtain ⟨e', he', hsublist⟩ := hkeys.exists_ok he
      exact ⟨e', he', fun _ _ => hsublist⟩
    | _ =>
      obtain ⟨e', he', -⟩ := (hcovers owner? s _).exists_ok he
      exact ⟨e', he', nofun⟩
  · intro hnone
    have hkind (kind : String) : Follows False Eq ((Typer.mk .flatten entries).parametrized kind)
        ((Typer.mk .omit entries).parametrized kind) := .refl _
    exact (follows_of_policy (.inr hnone) hkind owner? s).eq

/-- A key that an anonymous field repeats, a switch behind it that climbs past that field, and a
switch that fails either way. -/
theorem flatten_adds_of_repeated_kind :
    let hidden : Node := .container [⟨some "x", .primitive "bool", false⟩,
      ⟨some "kind", .primitive "bool", false⟩]
    let row : Node := .container [⟨none, .primitive "uuid", true⟩,
      ⟨some "data", .switch "../kind" [("true", .primitive "u8")] none, false⟩]
    let fields : List Field := [⟨some "kind", .primitive "u8", false⟩, ⟨none, hidden, true⟩,
      ⟨some "rows", .array row, false⟩]
    let broken : Node := .container [⟨some "data", .switch "mode" [("true", hidden)] none, false⟩]
    (∃ e, (Typer.mk .flatten []).type none .root (.container fields) = .ok e ∧
      e.recordKeys = ["kind", "x", "kind", "rows"] ∧
      ∃ e', (Typer.mk .omit []).type none .root (.container fields) = .ok e' ∧
        e'.recordKeys.Sublist e.recordKeys) ∧
    broken.Everywhere Node.NoneAnonymous ∧
      (Typer.mk .flatten []).type none .root broken =
        .error (.unresolvedDiscriminant "mode" "mode") ∧
      (Typer.mk .omit []).type none .root broken =
        .error (.unresolvedDiscriminant "mode" "mode") := by
  intro hidden row fields broken
  obtain ⟨e, he⟩ : ∃ e, (Typer.mk .flatten []).type none .root (.container fields) = .ok e :=
    ⟨_, rfl⟩
  obtain ⟨e', he', hkeys⟩ := (flatten_adds [] none .root (.container fields)).1 e he
  have hprimitive (name : String) : (Node.primitive name).Everywhere Node.NoneAnonymous :=
    Node.everywhere_of_children trivial nofun
  have hhidden : hidden.Everywhere Node.NoneAnonymous :=
    Node.everywhere_of_children (by simp [hidden, Node.NoneAnonymous])
      (by simp [hidden, Node.children, hprimitive])
  have hswitch : (Node.switch "mode" [("true", hidden)] none).Everywhere Node.NoneAnonymous :=
    Node.everywhere_of_children trivial (by simp [Node.children, hhidden])
  have hbroken : broken.Everywhere Node.NoneAnonymous :=
    Node.everywhere_of_children (by simp [broken, Node.NoneAnonymous])
      (by simp [broken, Node.children, hswitch])
  have hfault : (Typer.mk .flatten []).type none .root broken =
      .error (.unresolvedDiscriminant "mode" "mode") := rfl
  refine ⟨⟨e, he, ?_, e', he', hkeys fields rfl⟩, hbroken, hfault, ?_⟩
  · cases he
    rfl
  · exact ((flatten_adds [] none .root broken).2 hbroken).symm.trans hfault

end Typer
end PacketTypings
