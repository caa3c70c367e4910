import PacketTypings.Proofs.TypeTerm.Meaning
import PacketTypings.Proofs.Typing.Step

/-! What flattening means. Taken apart and put among the members and the types of the fields around
it, the type of an anonymous field says of an object just what it says by itself. Main statement: a
value is of a flattened container's type if it is an object and each field holds of it. -/

namespace PacketTypings

/-- What the field says of its container, if its node is of type `e`: that it has a member of the
type, or that it is of the type itself. -/
def Field.contribution (f : Field) (e : TypeTerm) : TypeTerm :=
  match f.name with
  | none => e
  | some name => if f.anonymous || f.node.isSwitch then e else .record [(name, e)]

namespace Parts

variable {V : Type} {m : Meaning V} {v : V}

/-- The value has the members and is of the types beside them. -/
def Hold (m : Meaning V) (p : Parts) (v : V) : Prop :=
  (∀ x ∈ p.members, m.member x.1 (m.Holds x.2) v) ∧ ∀ e ∈ p.others, m.Holds e v

theorem hold_empty : empty.Hold m v := ⟨nofun, nofun⟩

theorem hold_append {p q : Parts} : (p ++ q).Hold m v ↔ p.Hold m v ∧ q.Hold m v := by
  change (∀ x ∈ p.members ++ q.members, _) ∧ (∀ e ∈ p.others ++ q.others, _) ↔ _
  rw [List.forall_mem_append, List.forall_mem_append]
  exact and_and_and_comm

theorem hold_foldr {ps : List Parts} :
    (ps.foldr (· ++ ·) empty).Hold m v ↔ ∀ p ∈ ps, p.Hold m v := by
  induction ps with
  | nil => simp [hold_empty]
  | cons p ps ih => rw [List.foldr_cons, hold_append, ih, List.forall_mem_cons]

theorem holds_term {p : Parts} : m.Holds p.term v ↔ m.object v ∧ p.Hold m v := by
  obtain ⟨members, others⟩ := p
  cases others with
  | nil => simp [term, Hold, Meaning.holds_record]
  | cons o others =>
    simp only [term, Hold, Meaning.holds_intersection, List.forall_mem_cons, Meaning.holds_record]
    exact and_assoc

theorem hold_beside {e : TypeTerm} : (beside e).Hold m v ↔ m.Holds e v := by
  simp [beside, Hold]

theorem hold_ofMember (hv : m.object v) {name : String} {e : TypeTerm} :
    (ofMember name e).Hold m v ↔ m.Holds (.record [(name, e)]) v := by
  simp [ofMember, Hold, Meaning.holds_record, hv]

-- That the value is an object is said by the record that the parts end up in.
theorem hold_ofPart (hv : m.object v) {e : TypeTerm} : (ofPart e).Hold m v ↔ m.Holds e v := by
  cases e with
  | record members => simp [ofPart, Hold, Meaning.holds_record, hv]
  | _ => exact hold_beside

theorem hold_spliced (hv : m.object v) {e : TypeTerm} : (spliced e).Hold m v ↔ m.Holds e v := by
  cases e with
  | intersection parts =>
    rw [spliced_intersection, hold_foldr, List.forall_mem_map, Meaning.holds_intersection]
    exact forall₂_congr fun e _ => hold_ofPart hv
  | _ => exact hold_ofPart hv

end Parts

namespace Typer

/-- What a field brings says of an object what the field does. -/
theorem hold_own {t : Typer} (flattens : t.anonymousFields = .flatten) {s : Scope} {f : Field}
    {p : Parts} (h : t.own s f = .ok p) :
    ∃ e, t.type f.name s f.node = .ok e ∧ ∀ {V : Type} (m : Meaning V) (v : V), m.object v →
      (p.Hold m v ↔ m.Holds (f.contribution e) v) := by
  unfold own at h
  split at h
  · next hanonymous =>
    rw [flattens] at h
    obtain ⟨e, he, rfl⟩ := map_eq_ok_iff.1 h
    refine ⟨e, he, fun m v hv => ?_⟩
    have hcontribution : f.contribution e = e := by
      unfold Field.contribution
      cases f.name <;> simp [hanonymous]
    rw [hcontribution]
    exact Parts.hold_spliced hv
  · next hnamed =>
    split at h
    · cases h
    · next name hname =>
      obtain ⟨e, he, rfl⟩ := map_eq_ok_iff.1 h
      refine ⟨e, hname ▸ he, fun m v hv => ?_⟩
      unfold Field.contribution
      rw [hname]
      by_cases hswitch : f.node.isSwitch = true
      · simp only [hswitch, Bool.or_true, if_true]
        exact Parts.hold_beside
      · simp only [hnamed, hswitch, Bool.or_self, Bool.false_eq_true, if_false]
        exact Parts.hold_ofMember hv

/-- A value is of the type of a flattened container exactly if it is an object and, for each field,
it has a member of the field's type or, where the field is anonymous or its node a switch, is of
that type itself. -/
theorem holds_type_container_iff {entries : List String} {owner? : Option String} {s : Scope}
    {fields : List Field} {e : TypeTerm}
    (h : (Typer.mk .flatten entries).type owner? s (.container fields) = .ok e) :
    (∀ i f, fields[i]? = some f →
      ∃ c, (Typer.mk .flatten entries).type f.name (.within s fields i) f.node = .ok c) ∧
    ∀ {V : Type} (m : Meaning V) (v : V), m.Holds e v ↔ m.Holds (.record []) v ∧
      ∀ i f c, fields[i]? = some f →
        (Typer.mk .flatten entries).type f.name (.within s fields i) f.node = .ok c →
        m.Holds (f.contribution c) v := by
  obtain ⟨ps, hps, rfl⟩ := exists_parts_of_type_container h
  have hown {i : Nat} {f : Field} (hf : fields[i]? = some f) :
      ∃ p ∈ ps, (Typer.mk .flatten entries).own (.within s fields i) f = .ok p :=
    exists_of_mem_of_mapM_eq_ok hps (x := (f, i)) (List.mem_zipIdx_iff_getElem?.2 hf)
  constructor
  · intro i f hf
    obtain ⟨p, -, hp⟩ := hown hf
    obtain ⟨c, hc, -⟩ := hold_own rfl hp
    exact ⟨c, hc⟩
  · intro V m v
    rw [← Parts.foldr_append, Parts.holds_term, Parts.hold_foldr, Meaning.holds_record]
    constructor
    · rintro ⟨hv, hall⟩
      refine ⟨⟨hv, nofun⟩, fun i f c hf hc => ?_⟩
      obtain ⟨p, hp, hpown⟩ := hown hf
      obtain ⟨c', hc', hiff⟩ := hold_own rfl hpown
      cases hc.symm.trans hc'
      exact (hiff m v hv).1 (hall p hp)
    · rintro ⟨⟨hv, -⟩, hall⟩
      refine ⟨hv, fun p hp => ?_⟩
      obtain ⟨⟨f, i⟩, hf, hpown⟩ := mem_of_mapM_eq_ok hps hp
      obtain ⟨c, hc, hiff⟩ := hold_own rfl hpown
      exact (hiff m v hv).2 (hall i f c (List.mem_zipIdx_iff_getElem?.1 hf) hc)

/-- JSON values, read as types of records and texts: the value is of the flattened type, since
each field holds of it. -/
theorem holds_type_container_iff_of_payload :
    let m : Meaning Json := {
      object := fun v => ∃ entries, v = .obj entries
      member := fun name P v => ∃ entries w, v = .obj entries ∧ (name, w) ∈ entries ∧ P w
      atom := fun e v => ∃ text, v = .str text ∧ (e = .text text ∨ e = Ground.string.term) }
    let switch : Node := .switch "../kind" [("1", .primitive "uuid")] none
    let fields : List Field := [⟨some "kind", .mapper ["1", "2"], false⟩,
      ⟨none, .container [⟨some "data", switch, false⟩], true⟩]
    let e : TypeTerm := .intersection [.record [("kind", .union [.text "1", .text "2"])],
      .union [.record [("kind", .text "1"), ("data", Ground.string.term)]]]
    let v : Json := .obj [("kind", .str "1"), ("data", .str "x")]
    (Typer.mk .flatten []).type none .root (.container fields) = .ok e ∧ m.Holds e v := by
  intro m switch fields e v
  have h : (Typer.mk .flatten []).type none .root (.container fields) = .ok e := rfl
  have hv : m.object v := ⟨_, rfl⟩
  have hkind : m.member "kind" (m.Holds (.text "1")) v :=
    ⟨_, .str "1", rfl, by simp, "1", rfl, .inl rfl⟩
  have hdata : m.member "data" (m.Holds Ground.string.term) v :=
    ⟨_, .str "x", rfl, by simp, "x", rfl, .inr rfl⟩
  refine ⟨h, ((holds_type_container_iff h).2 m v).2 ⟨⟨hv, trivial⟩, ?_⟩⟩
  intro i f c hf hc
  match i, hf with
  | 0, rfl =>
    cases hc
    have hone : m.Holds (.union [.text "1", .text "2"]) (.str "1") :=
      Meaning.holds_union.2 ⟨.text "1", by simp, "1", rfl, .inl rfl⟩
    exact ⟨hv, ⟨_, .str "1", rfl, by simp, hone⟩, trivial⟩
  | 1, rfl =>
    cases hc
    refine ⟨⟨hv, trivial⟩, Meaning.holds_union.2 ⟨_, List.mem_cons_self, ?_⟩, trivial⟩
    exact ⟨hv, hkind, hdata, trivial⟩

end Typer
end PacketTypings
