import PacketTypings.Proofs.Typing.Step

/-! The shape of a container's type: one record, and beside it types that are neither records nor
intersections. So a flattened container comes apart into just what it was put together from. Main
statement: the type of a container holds what each field brings, in the order of declaration. -/

namespace PacketTypings

namespace TypeTerm

/-- The type can stand beside a record as it is. -/
def IsApart : TypeTerm → Prop
  | record _ => False
  | intersection _ => False
  | _ => True

theorem isApart_ofName (name : String) : (ofName name).IsApart := by
  unfold ofName
  cases Ground.ofName? name <;> trivial

end TypeTerm

namespace Parts

theorem ofPart_of_isApart {e : TypeTerm} (h : e.IsApart) : ofPart e = beside e := by
  cases e with
  | record members => exact h.elim
  | _ => rfl

theorem spliced_of_isApart {e : TypeTerm} (h : e.IsApart) : spliced e = beside e := by
  cases e with
  | intersection parts => exact h.elim
  | _ => exact ofPart_of_isApart h

theorem foldr_ofPart {others : List TypeTerm} (h : ∀ o ∈ others, o.IsApart) :
    (others.map ofPart).foldr (· ++ ·) empty = ⟨[], others⟩ := by
  induction others with
  | nil => rfl
  | cons o others ih =>
    rw [List.forall_mem_cons] at h
    rw [List.map_cons, List.foldr_cons, ih h.2, ofPart_of_isApart h.1]
    rfl

/-- A type comes apart into the parts that it was put together from. -/
theorem spliced_term {p : Parts} (h : ∀ o ∈ p.others, o.IsApart) : spliced p.term = p := by
  obtain ⟨members, others⟩ := p
  cases others with
  | nil => rfl
  | cons o others =>
    have hterm : term ⟨members, o :: others⟩ = .intersection (.record members :: o :: others) := rfl
    rw [hterm, spliced_intersection, List.map_cons, List.foldr_cons, foldr_ofPart h]
    change (⟨members ++ [], o :: others⟩ : Parts) = _
    rw [List.append_nil]

end Parts

/-- The type stands by itself, or is put together from a record and types that do. -/
inductive TypeTerm.Shaped : TypeTerm → Prop
  | apart {e : TypeTerm} (apart : e.IsApart) : Shaped e
  | term {p : Parts} (apart : ∀ o ∈ p.others, o.IsApart) : Shaped p.term

/-- In its scope, the field brings these members and these types beside them. -/
inductive Field.Contributes (t : Typer) (s : Scope) (f : Field) : Parts → Prop
  | omitted (anonymous : f.anonymous = true) (omits : t.anonymousFields = .omit) :
      Contributes t s f ⟨[], []⟩
  | member {name : String} {e : TypeTerm} (named : f.anonymous = false)
      (hasName : f.name = some name) (plain : f.node.isSwitch = false)
      (type : t.type f.name s f.node = .ok e) : Contributes t s f ⟨[(name, e)], []⟩
  | alternatives {arms : List TypeTerm} (named : f.anonymous = false)
      (switch : f.node.isSwitch = true) (type : t.type f.name s f.node = .ok (.union arms)) :
      Contributes t s f ⟨[], [.union arms]⟩
  | record {members : List (String × TypeTerm)} (anonymous : f.anonymous = true)
      (flattens : t.anonymousFields = .flatten)
      (type : t.type f.name s f.node = .ok (.record members)) : Contributes t s f ⟨members, []⟩
  | intersection {members : List (String × TypeTerm)} {others : List TypeTerm}
      (anonymous : f.anonymous = true) (flattens : t.anonymousFields = .flatten)
      (type : t.type f.name s f.node = .ok (.intersection (.record members :: others)))
      (apart : ∀ o ∈ others, o.IsApart) : Contributes t s f ⟨members, others⟩
  | beside {e : TypeTerm} (anonymous : f.anonymous = true)
      (flattens : t.anonymousFields = .flatten) (type : t.type f.name s f.node = .ok e)
      (apart : e.IsApart) : Contributes t s f ⟨[], [e]⟩

theorem Field.Contributes.isApart {t : Typer} {s : Scope} {f : Field} {p : Parts}
    (h : f.Contributes t s p) : ∀ o ∈ p.others, o.IsApart := by
  cases h with
  | omitted => exact nofun
  | member => exact nofun
  | alternatives => exact List.forall_mem_singleton.2 trivial
  | record => exact nofun
  | intersection _ _ _ apart => exact apart
  | beside _ _ _ apart => exact List.forall_mem_singleton.2 apart

namespace Typer

theorem exists_union_of_type_switch {t : Typer} {owner? : Option String} {s : Scope} {n : Node}
    {e : TypeTerm} (hn : n.isSwitch = true) (h : t.type owner? s n = .ok e) :
    ∃ arms, e = .union arms := by
  cases n with
  | switch compareTo arms default? =>
    obtain ⟨_, terms, rest, -, -, -, rfl⟩ := type_switch_eq_ok_iff.1 h
    exact ⟨terms ++ rest, rfl⟩
  | _ => cases hn

/-- What is spliced in has been put together before, or stands by itself. -/
theorem contributes_of_own {t : Typer} {s : Scope} {f : Field} {p : Parts}
    (h : t.own s f = .ok p) (shaped : ∀ e, t.type f.name s f.node = .ok e → e.Shaped) :
    f.Contributes t s p := by
  unfold own at h
  split at h
  · next hanonymous =>
    split at h
    · next homit =>
      cases h
      exact .omitted hanonymous homit
    · next hflatten =>
      obtain ⟨e, he, rfl⟩ := map_eq_ok_iff.1 h
      cases shaped e he with
      | apart apart =>
        rw [Parts.spliced_of_isApart apart]
        exact .beside hanonymous hflatten he apart
      | @term p apart =>
        rw [Parts.spliced_term apart]
        obtain ⟨members, others⟩ := p
        cases others with
        | nil => exact .record hanonymous hflatten he
        | cons o others => exact .intersection hanonymous hflatten he apart
  · next hnamed =>
    rw [Bool.not_eq_true] at hnamed
    split at h
    · cases h
    · next name hname =>
      obtain ⟨e, he, rfl⟩ := map_eq_ok_iff.1 h
      by_cases hswitch : f.node.isSwitch = true
      · obtain ⟨arms, rfl⟩ := exists_union_of_type_switch hswitch he
        rw [if_pos hswitch]
        exact .alternatives hnamed hswitch he
      · rw [if_neg hswitch]
        exact .member hnamed hname (by simpa using hswitch) he

theorem type_shaped {t : Typer} {owner? : Option String} {s : Scope} {n : Node} {e : TypeTerm}
    (h : t.type owner? s n = .ok e) : e.Shaped := by
  induction n using Node.induction generalizing owner? s e with
  | primitive name =>
    cases h
    exact .apart (TypeTerm.isApart_ofName name)
  | mapper literals =>
    cases h
    exact .apart trivial
  | bitflags flags =>
    cases h
    exact .apart trivial
  | bitfield names =>
    cases h
    exact .term (p := ⟨_, []⟩) nofun
  | parametrized kind =>
    obtain ⟨-, rfl⟩ := parametrized_eq_ok_iff.1 h
    exact .apart (TypeTerm.isApart_ofName kind)
  | array element =>
    rw [type_array] at h
    obtain ⟨inner, -, rfl⟩ := map_eq_ok_iff.1 h
    exact .apart trivial
  | option content =>
    obtain ⟨-, inner, -, rfl⟩ := type_option_eq_ok_iff.1 h
    exact .apart trivial
  | encapsulated lengthType content =>
    rw [type_encapsulated] at h
    obtain ⟨inner, -, rfl⟩ := map_eq_ok_iff.1 h
    exact .apart trivial
  | switch compareTo arms default? =>
    obtain ⟨arms, rfl⟩ := exists_union_of_type_switch rfl h
    exact .apart trivial
  | container fields ih =>
    obtain ⟨ps, hps, rfl⟩ := exists_parts_of_type_container h
    -- every other type comes from one field, where nothing deeper than its own type was taken apart
    apply TypeTerm.Shaped.term
    intro o ho
    obtain ⟨p, hp, ho⟩ := List.mem_flatMap.1 ho
    obtain ⟨x, hx, hown⟩ := mem_of_mapM_eq_ok hps hp
    have hf := List.mem_of_getElem? (List.mem_zipIdx_iff_getElem?.1 hx)
    exact (contributes_of_own hown fun e he => ih x.1 hf he).isApart o ho

/-- The type of a container is the record of the members that its fields bring, or that record and,
beside it, the other types that they bring, none of them a record or an intersection; all in the
order of declaration. -/
theorem type_container_shape {t : Typer} {owner? : Option String} {s : Scope}
    {fields : List Field} {e : TypeTerm} (h : t.type owner? s (.container fields) = .ok e) :
    ∃ ps : List Parts,
      List.Forall₂ (fun x p => x.1.Contributes t (.within s fields x.2) p) fields.zipIdx ps ∧
      (∀ o ∈ ps.flatMap Parts.others, o.IsApart) ∧
      (ps.flatMap Parts.others = [] → e = .record (ps.flatMap Parts.members)) ∧
      (ps.flatMap Parts.others ≠ [] →
        e = .intersection (.record (ps.flatMap Parts.members) :: ps.flatMap Parts.others)) := by
  obtain ⟨ps, hps, rfl⟩ := exists_parts_of_type_container h
  have hcontributes (x : Field × Nat) (p : Parts)
      (hown : t.own (.within s fields x.2) x.1 = .ok p) :
      x.1.Contributes t (.within s fields x.2) p :=
    contributes_of_own hown fun e he => type_shaped he
  refine ⟨ps, (mapM_eq_ok_iff.1 hps).imp hcontributes, ?_, ?_⟩
  · intro o ho
    obtain ⟨p, hp, ho⟩ := List.mem_flatMap.1 ho
    obtain ⟨x, -, hown⟩ := mem_of_mapM_eq_ok hps hp
    exact (hcontributes x p hown).isApart o ho
  · unfold Parts.term
    cases ps.flatMap Parts.others with
    | nil => exact ⟨fun _ => rfl, fun hnil => absurd rfl hnil⟩
    | cons o others => exact ⟨nofun, fun _ => rfl⟩

/-- A flattened container that repeats a name and has an anonymous field and a switch of its own,
and behind it an anonymous option. -/
theorem type_container_shape_of_flattened :
    let inner : Node := .container [⟨some "kind", .primitive "bool", false⟩,
      ⟨none, .bitfield ["x"], true⟩,
      ⟨some "data", .switch "kind" [("1", .primitive "u8")] none, false⟩]
    let fields : List Field := [⟨some "kind", .primitive "u8", false⟩, ⟨none, inner, true⟩,
      ⟨none, .option (.primitive "uuid"), true⟩, ⟨some "last", .primitive "nbt", false⟩]
    let e : TypeTerm := .intersection [
      .record [("kind", .primitive "number"), ("kind", .primitive "boolean"),
        ("x", .primitive "number"), ("last", .primitive "any")],
      .union [.record [("kind", .text "1"), ("data", .primitive "number")]],
      .union [.primitive "string", .primitive "undefined"]]
    (Typer.mk .flatten []).type none .root (.container fields) = .ok e ∧
      ∃ ps : List Parts, List.Forall₂ (fun x p => x.1.Contributes ⟨.flatten, []⟩
          (.within .root fields x.2) p) fields.zipIdx ps ∧
        (∀ o ∈ ps.flatMap Parts.others, o.IsApart) ∧
        e = .intersection (.record (ps.flatMap Parts.members) :: ps.flatMap Parts.others) := by
  intro inner fields e
  have h : (Typer.mk .flatten []).type none .root (.container fields) = .ok e := rfl
  obtain ⟨ps, hps, hapart, hrecord, hintersection⟩ := type_container_shape h
  have hothers : ps.flatMap Parts.others ≠ [] := fun hnil => TypeTerm.noConfusion (hrecord hnil)
  exact ⟨h, ps, hps, hapart, hintersection hothers⟩

end Typer
end PacketTypings
