import PacketTypings.Proofs.TypeTerm.Leaves
import PacketTypings.Proofs.Typing.Site

/-! Where the leaves of a type come from. Main statement: what is a matter of leaves holds of a type
exactly if it holds of all that the nodes of its node bring in; so none of it is lost, and nothing
else is in the type. -/

namespace PacketTypings

/-- The node at the site brings in the leaf, or a condition with its leaves, by itself. -/
inductive Brings (t : Typer) : Site → TypeTerm → Prop
  | primitive (s : Scope) (name : String) : Brings t ⟨s, .primitive name⟩ (.ofName name)
  | parametrized (s : Scope) {kind : String} {e : TypeTerm} (known : t.parametrized kind = .ok e) :
      Brings t ⟨s, .parametrized kind⟩ e
  | condition {s : Scope} {compareTo key : String} {arms : List (String × Node)}
      (default? : Option Node) {n : Node} {c : Comparison} {condition : String × TypeTerm}
      (made : Comparison.ofText compareTo s = .ok c) (mem : (key, n) ∈ arms)
      (ok : c.condition key = .ok condition) :
      Brings t ⟨s, .switch compareTo arms default?⟩ condition.2
  | text (s : Scope) {literals : List String} {value : String} (mem : value ∈ literals) :
      Brings t ⟨s, .mapper literals⟩ (.text value)
  | flags (s : Scope) (flags : Flags) : Brings t ⟨s, .bitflags flags⟩ Ground.number.term
  | bit (s : Scope) {names : List String} {name : String} (mem : name ∈ names) :
      Brings t ⟨s, .bitfield names⟩ Ground.number.term
  | absent (s : Scope) (content : Node) : Brings t ⟨s, .option content⟩ .absent

namespace Parts

/-- `P` holds of the types of the members and of the types beside them. -/
structure All (P : TypeTerm → Prop) (p : Parts) : Prop where
  members : ∀ m ∈ p.members, P m.2
  others : ∀ t ∈ p.others, P t

variable {P : TypeTerm → Prop}

theorem all_empty : empty.All P := ⟨nofun, nofun⟩

theorem all_append_iff {p q : Parts} : (p ++ q).All P ↔ p.All P ∧ q.All P := by
  constructor
  · rintro ⟨hmembers, hothers⟩
    obtain ⟨hp, hq⟩ := List.forall_mem_append.1 hmembers
    obtain ⟨hp', hq'⟩ := List.forall_mem_append.1 hothers
    exact ⟨⟨hp, hp'⟩, hq, hq'⟩
  · rintro ⟨hp, hq⟩
    exact ⟨List.forall_mem_append.2 ⟨hp.members, hq.members⟩,
      List.forall_mem_append.2 ⟨hp.others, hq.others⟩⟩

theorem all_foldr_iff {ps : List Parts} :
    (ps.foldr (· ++ ·) empty).All P ↔ ∀ p ∈ ps, p.All P := by
  induction ps with
  | nil => exact ⟨nofun, fun _ => all_empty⟩
  | cons p ps ih => rw [List.foldr_cons, all_append_iff, ih, List.forall_mem_cons]

theorem all_beside_iff {t : TypeTerm} : (beside t).All P ↔ P t :=
  ⟨fun h => List.forall_mem_singleton.1 h.others, fun h => ⟨nofun, List.forall_mem_singleton.2 h⟩⟩

theorem all_ofMember_iff {name : String} {t : TypeTerm} : (ofMember name t).All P ↔ P t :=
  ⟨fun h => h.members (name, t) List.mem_cons_self,
    fun h => ⟨List.forall_mem_singleton.2 h, nofun⟩⟩

theorem all_ofPart_iff (hP : TypeTerm.Inherited P) {t : TypeTerm} : (ofPart t).All P ↔ P t := by
  cases t with
  | record members =>
    rw [hP.record]
    exact ⟨All.members, fun h => ⟨h, nofun⟩⟩
  | _ => exact all_beside_iff

theorem all_spliced_iff (hP : TypeTerm.Inherited P) {t : TypeTerm} :
    (spliced t).All P ↔ P t := by
  cases t with
  | intersection parts =>
    rw [spliced_intersection, all_foldr_iff, List.forall_mem_map, hP.intersection]
    exact forall₂_congr fun p _ => all_ofPart_iff hP
  | _ =>
    simp only [spliced]
    exact all_ofPart_iff hP

theorem holds_term_iff (hP : TypeTerm.Inherited P) {p : Parts} : P p.term ↔ p.All P := by
  have hall : p.All P ↔ P (.record p.members) ∧ ∀ t ∈ p.others, P t := by
    rw [hP.record]
    exact ⟨fun h => ⟨h.members, h.others⟩, fun h => ⟨h.1, h.2⟩⟩
  rw [hall, Parts.term]
  split
  · next hothers => simp [hothers]
  · rw [hP.intersection, List.forall_mem_cons]

end Parts

theorem Discriminant.primitives_condition (d : Discriminant) (field label : String)
    (path : FieldPath) : (d.condition field label path).2.primitives = [] := by
  cases d with
  | boolean => rfl
  | literal => rfl
  | named type =>
    change TypeTerm.partPrimitives (path.alternatives.map (alternative type)) = []
    rw [TypeTerm.partPrimitives_eq, List.flatMap_map, List.flatMap_eq_nil_iff]
    intro steps _
    rw [alternative]
    split <;> rfl

/-- A condition compares with literals and with references. -/
theorem Comparison.primitives_of_condition {c : Comparison} {key : String}
    {condition : String × TypeTerm} (h : c.condition key = .ok condition) :
    condition.2.primitives = [] := by
  rw [Comparison.condition] at h
  split at h
  · obtain ⟨field, -, h⟩ := bind_eq_ok_iff.1 h
    cases h
    exact Discriminant.primitives_condition _ _ _ _
  · cases h
    rfl

namespace Typer

variable {P : TypeTerm → Prop} {t : Typer} {owner? : Option String} {s : Scope}

theorem armTerm_inherits_iff (hP : TypeTerm.Inherited P) {condition : String × TypeTerm}
    {value : TypeTerm} : P (armTerm owner? condition value) ↔ P condition.2 ∧ P value := by
  cases owner? with
  | some name => rw [armTerm, hP.record, List.forall_mem_cons, List.forall_mem_singleton]
  | none =>
    rw [armTerm, hP.intersection, List.forall_mem_cons, List.forall_mem_singleton, hP.record,
      List.forall_mem_singleton]

theorem defaultTerm_inherits_iff (hP : TypeTerm.Inherited P) {value : TypeTerm} :
    P (defaultTerm owner? value) ↔ P value := by
  cases owner? with
  | some name => rw [defaultTerm, hP.record, List.forall_mem_singleton]
  | none => rfl

/-- What a field brings has the property if the type of its node has it, or if the field is left
out. -/
theorem own_inherits_iff (hP : TypeTerm.Inherited P) {f : Field} {own : Parts}
    (h : t.own s f = .ok own) : own.All P ↔
      ((f.anonymous = true → t.anonymousFields = .flatten) →
        ∃ inner, t.type f.name s f.node = .ok inner ∧ P inner) := by
  rw [Typer.own] at h
  split at h
  · next hanonymous =>
    split at h
    · next hpolicy =>
      cases h
      refine iff_of_true Parts.all_empty fun hkept => ?_
      cases (hkept hanonymous).symm.trans hpolicy
    · next hpolicy =>
      obtain ⟨inner, htype, rfl⟩ := map_eq_ok_iff.1 h
      simp [Parts.all_spliced_iff hP, hpolicy, htype]
  · next hanonymous =>
    split at h
    · cases h
    · obtain ⟨inner, htype, rfl⟩ := map_eq_ok_iff.1 h
      split <;> simp [Parts.all_beside_iff, Parts.all_ofMember_iff, hanonymous, htype]

theorem arm_inherits_iff (hP : TypeTerm.Inherited P) {c : Comparison} {x : String × Node}
    {term : TypeTerm} (h : t.arm owner? c x = .ok term) : P term ↔
      (∀ condition, c.condition x.1 = .ok condition → P condition.2) ∧
        ∃ value, t.type none c.scope x.2 = .ok value ∧ P value := by
  obtain ⟨value, condition, hvalue, hcondition, rfl⟩ := arm_eq_ok_iff.1 h
  simp [armTerm_inherits_iff hP, hvalue, hcondition]

theorem last_inherits_iff (hP : TypeTerm.Inherited P) {default? : Option Node}
    {rest : List TypeTerm} (h : t.last owner? s default? = .ok rest) : (∀ p ∈ rest, P p) ↔
      ∀ d ∈ default?, ∃ value, t.type none s d = .ok value ∧ P value := by
  cases default? with
  | none =>
    cases h
    simp
  | some d =>
    obtain ⟨value, hvalue, rfl⟩ := map_eq_ok_iff.1 h
    simp [defaultTerm_inherits_iff hP, hvalue]

theorem container_inherits_iff (hP : TypeTerm.Inherited P) {fields : List Field} {e : TypeTerm}
    (h : t.type owner? s (.container fields) = .ok e) : P e ↔
      ∀ i b, Site.Child t.anonymousFields i ⟨s, .container fields⟩ b →
        ∃ inner, t.type ((Node.container fields).ownerAt i) b.scope b.node = .ok inner ∧
          P inner := by
  rw [type_container] at h
  obtain ⟨_, hparts, rfl⟩ := map_eq_ok_iff.1 h
  obtain ⟨owns, howns, rfl⟩ := map_eq_ok_iff.1 hparts
  rw [Parts.holds_term_iff hP, Parts.all_foldr_iff,
    forall_mem_iff_of_mapM_eq_ok howns fun x _ _ => own_inherits_iff hP]
  constructor
  · intro hall i b hchild
    cases hchild with
    | @field _ _ _ f hf hkept =>
      rw [Node.ownerAt, hf]
      exact hall (f, i) (List.mem_zipIdx_iff_getElem?.2 hf) hkept
  · intro hall x hx hkept
    have hf := List.mem_zipIdx_iff_getElem?.1 hx
    have hinner := hall x.2 _ (.field hf hkept)
    rwa [Node.ownerAt, hf] at hinner

theorem switch_inherits_iff (hP : TypeTerm.Inherited P) {compareTo : String}
    {arms : List (String × Node)} {default? : Option Node} {e : TypeTerm}
    (h : t.type owner? s (.switch compareTo arms default?) = .ok e) : P e ↔
      (∀ leaf, Brings t ⟨s, .switch compareTo arms default?⟩ leaf → P leaf) ∧
        ∀ i b, Site.Child t.anonymousFields i ⟨s, .switch compareTo arms default?⟩ b →
          ∃ inner, t.type none b.scope b.node = .ok inner ∧ P inner := by
  obtain ⟨c, terms, rest, hc, hterms, hrest, rfl⟩ := type_switch_eq_ok_iff.1 h
  rw [hP.union, List.forall_mem_append, last_inherits_iff hP hrest,
    forall_mem_iff_of_mapM_eq_ok hterms fun x _ _ => arm_inherits_iff hP,
    Comparison.scope_of_ofText hc]
  constructor
  · rintro ⟨harms, hdefault⟩
    refine ⟨fun leaf hleaf => ?_, fun i b hchild => ?_⟩
    · cases hleaf with
      | condition _ made mem ok =>
        cases hc.symm.trans made
        exact (harms _ mem).1 _ ok
    · cases hchild with
      | arm harm => exact (harms _ (List.mem_of_getElem? harm)).2
      | default => exact hdefault _ rfl
  · rintro ⟨hleaf, hinner⟩
    refine ⟨fun x hx => ⟨fun condition ok => ?_, ?_⟩, ?_⟩
    · exact hleaf _ (.condition default? hc hx ok)
    · obtain ⟨i, hi⟩ := List.getElem?_of_mem hx
      exact hinner i _ (.arm hi)
    · rintro d ⟨⟩
      exact hinner _ _ (.default s compareTo arms d)

/-- One node is right inside, and its type is known. -/
theorem forall_child_iff_of_sole {n : Node} {j : Nat} {b : Site} {e : TypeTerm}
    (hchild : Site.Child t.anonymousFields j ⟨s, n⟩ b)
    (hsole : ∀ i c, Site.Child t.anonymousFields i ⟨s, n⟩ c → i = j ∧ c = b)
    (htype : t.type (n.ownerAt j) b.scope b.node = .ok e) :
    (∀ i c, Site.Child t.anonymousFields i ⟨s, n⟩ c →
      ∃ inner, t.type (n.ownerAt i) c.scope c.node = .ok inner ∧ P inner) ↔ P e := by
  constructor
  · intro h
    obtain ⟨inner, htype', hinner⟩ := h j b hchild
    cases htype.symm.trans htype'
    exact hinner
  · intro he i c hc
    obtain ⟨rfl, rfl⟩ := hsole i c hc
    exact ⟨e, htype, he⟩

/-- A property of leaves holds of the type of a node exactly if it holds of the leaves that the node
brings in and of the types right inside it. -/
theorem type_inherits_step (hP : TypeTerm.Inherited P) {n : Node} {e : TypeTerm}
    (h : t.type owner? s n = .ok e) : P e ↔ (∀ leaf, Brings t ⟨s, n⟩ leaf → P leaf) ∧
      ∀ i b, Site.Child t.anonymousFields i ⟨s, n⟩ b →
        ∃ inner, t.type (n.ownerAt i) b.scope b.node = .ok inner ∧ P inner := by
  cases n with
  | primitive name =>
    cases h
    refine ⟨fun he => ⟨?_, nofun⟩, fun h => h.1 _ (.primitive s name)⟩
    rintro leaf ⟨⟩
    exact he
  | mapper literals =>
    cases h
    rw [hP.union, List.forall_mem_map]
    refine ⟨fun he => ⟨?_, nofun⟩, fun h value hvalue => h.1 _ (.text s hvalue)⟩
    rintro leaf (⟨⟩ | ⟨⟩ | ⟨⟩ | @⟨_, _, _, hvalue⟩)
    exact he _ hvalue
  | bitflags flags =>
    cases h
    rw [hP.annotated]
    refine ⟨fun he => ⟨?_, nofun⟩, fun h => h.1 _ (.flags s flags)⟩
    rintro leaf ⟨⟩
    exact he
  | bitfield names =>
    cases h
    rw [hP.record, List.forall_mem_map]
    refine ⟨fun he => ⟨?_, nofun⟩, fun h name hname => h.1 _ (.bit s hname)⟩
    intro leaf hleaf
    cases hleaf with
    | bit _ hname => exact he _ hname
  | parametrized kind =>
    refine ⟨fun he => ⟨?_, nofun⟩, fun h' => h'.1 _ (.parametrized s h)⟩
    intro leaf hleaf
    cases hleaf with
    | parametrized _ known =>
      cases h.symm.trans known
      exact he
  | array element =>
    rw [type_array] at h
    obtain ⟨inner, htype, rfl⟩ := map_eq_ok_iff.1 h
    rw [hP.array, forall_child_iff_of_sole (.element s element) (by rintro i b ⟨⟩; simp) htype]
    exact (and_iff_right (by rintro leaf ⟨⟩)).symm
  | encapsulated lengthType content =>
    rw [type_encapsulated] at h
    obtain ⟨inner, htype, rfl⟩ := map_eq_ok_iff.1 h
    rw [hP.annotated, forall_child_iff_of_sole (.encapsulated s lengthType content)
      (by rintro i b ⟨⟩; simp) htype]
    exact (and_iff_right (by rintro leaf ⟨⟩)).symm
  | option content =>
    obtain ⟨-, inner, htype, rfl⟩ := type_option_eq_ok_iff.1 h
    rw [TypeTerm.optional, hP.union, List.forall_mem_cons, List.forall_mem_singleton, and_comm,
      forall_child_iff_of_sole (.content s content) (by rintro i b ⟨⟩; simp) htype]
    refine and_congr_left' ⟨fun habsent => ?_, fun h => h _ (.absent s content)⟩
    rintro leaf ⟨⟩
    exact habsent
  | container fields =>
    rw [container_inherits_iff hP h]
    exact (and_iff_right (by rintro leaf ⟨⟩)).symm
  | switch compareTo arms default? => exact switch_inherits_iff hP h

/-- What is inside a node that has a type has one too. -/
theorem exists_type_of_child {n : Node} {e : TypeTerm} (h : t.type owner? s n = .ok e) {i : Nat}
    {b : Site} (hchild : Site.Child t.anonymousFields i ⟨s, n⟩ b) :
    ∃ inner, t.type (n.ownerAt i) b.scope b.node = .ok inner := by
  obtain ⟨inner, htype, -⟩ :=
    ((type_inherits_step TypeTerm.true_inherited h).1 trivial).2 i b hchild
  exact ⟨inner, htype⟩

/-- A property of leaves holds of the type of a node exactly if it holds of all leaves that are
brought in anywhere in the node. -/
theorem type_inherits_iff (hP : TypeTerm.Inherited P) {n : Node} {e : TypeTerm}
    (h : t.type owner? s n = .ok e) :
    P e ↔ ∀ b, Site.Part t.anonymousFields ⟨s, n⟩ b → ∀ leaf, Brings t b leaf → P leaf := by
  induction hsize : sizeOf n using Nat.strongRecOn generalizing owner? s n e with
  | ind size ih =>
    subst hsize
    rw [type_inherits_step hP h]
    constructor
    · rintro ⟨hleaf, hinner⟩ b hpart
      cases hpart with
      | self => exact hleaf
      | inside hchild hpart =>
        obtain ⟨inner, htype, he⟩ := hinner _ _ hchild
        have hlt := Node.sizeOf_lt_of_mem_children hchild.mem_children
        exact (ih _ hlt htype rfl).1 he b hpart
    · intro hall
      refine ⟨hall _ (.self _), fun i b hchild => ?_⟩
      obtain ⟨inner, htype⟩ := exists_type_of_child h hchild
      have hlt := Node.sizeOf_lt_of_mem_children hchild.mem_children
      exact ⟨inner, htype, (ih _ hlt htype rfl).2 fun c hpart => hall c (.inside hchild hpart)⟩

/-- The names that are written as they are come from the table. -/
theorem isGround_of_mem_primitives {n : Node} {e : TypeTerm} (h : t.type owner? s n = .ok e) :
    ∀ name ∈ e.primitives, TypeTerm.IsGround name := by
  have hground (g : Ground) : ∀ name ∈ g.term.primitives, TypeTerm.IsGround name := by
    intro name hname
    cases List.mem_singleton.1 hname
    exact .inr ⟨g, rfl⟩
  have hofName (name : String) :
      ∀ name' ∈ (TypeTerm.ofName name).primitives, TypeTerm.IsGround name' := by
    rw [TypeTerm.ofName]
    cases Ground.ofName? name with
    | none => nofun
    | some g => exact hground g
  refine (type_inherits_iff (TypeTerm.primitives_inherited _) h).2 fun b _ leaf hleaf => ?_
  cases hleaf with
  | primitive s name => exact hofName name
  | parametrized s known =>
    obtain ⟨-, rfl⟩ := parametrized_eq_ok_iff.1 known
    exact hofName _
  | condition default? made mem ok => simp [Comparison.primitives_of_condition ok]
  | text s mem => nofun
  | flags s flags => exact hground .number
  | bit s mem => exact hground .number
  | absent s content =>
    intro name hname
    cases List.mem_singleton.1 hname
    exact .inl rfl

end Typer
end PacketTypings
