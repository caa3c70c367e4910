import PacketTypings.Proofs.Document.Declared
import PacketTypings.Proofs.Document.Unresolved
import PacketTypings.Proofs.Typing.References

/-! What the unresolved names of a document say of its protocol. They are cut from the texts of
references, at the first dot. Main statement: they are the types that are referred to and not
supplied exactly if every type that is referred to and has a dot in its name is supplied, and what
its name begins with is supplied or referred to as well. -/

namespace PacketTypings

namespace Document

theorem not_dot_mem_referredType (name : String) : '.' ∉ (referredType name).toList := by
  rw [referredType, String.toList_ofList]
  intro h
  have hdot := List.mem_takeWhile_imp h
  simp at hdot

theorem referredType_eq_self {name : String} (h : '.' ∉ name.toList) : referredType name = name := by
  rw [referredType, List.takeWhile_eq_self_iff.2 (bne_dot_of_not_mem h), String.ofList_toList]

theorem takeWhile_append_dot (cs rest : List Char) :
    (cs ++ '.' :: rest).takeWhile (· != '.') = cs.takeWhile (· != '.') := by
  induction cs with
  | nil => rfl
  | cons c cs ih => simp only [List.cons_append, List.takeWhile_cons, ih]

theorem referredType_member (type member : String) :
    referredType (type ++ "." ++ member) = referredType type := by
  have htext : (type ++ "." ++ member).toList = type.toList ++ '.' :: member.toList := by simp
  rw [referredType, htext, takeWhile_append_dot, referredType]

end Document

theorem Refers.text_eq {t : Typer} {a : Site} {text type : String} (h : Refers t a text type) :
    text = type ∨ ∃ member, text = type ++ "." ++ member := by
  cases h with
  | name => exact .inl rfl
  | kind => exact .inl rfl
  | compared =>
    rw [Discriminant.alternativeText]
    split
    · next member _ => exact .inr ⟨member, rfl⟩
    · exact .inl rfl

namespace Protocol

/-- In the type that is declared for an entry, a node writes a reference of that text, and means the
type of that name. -/
inductive Writes (p : Protocol) (policy : AnonymousFields) : String → String → Prop
  | intro {entry : String × Json} {e : TypeTerm} {n : Node} {b : Site} {text type : String}
      (mem : entry ∈ p.entries) (notSkipped : Outcome.isSkipped entry.1 entry.2 = false)
      (declared : Declaration.ofEntry (p.typer policy) entry.1 entry.2 = .ok (.type entry.1 e))
      (read : Node.ofJson entry.2 = .ok n) (part : Site.Part policy ⟨.root, n⟩ b)
      (refers : Refers (p.typer policy) b text type) : Writes p policy text type

def RefersTo (p : Protocol) (policy : AnonymousFields) (type : String) : Prop :=
  ∃ text, p.Writes policy text type

theorem Writes.text_eq {p : Protocol} {policy : AnonymousFields} {text type : String}
    (h : p.Writes policy text type) : text = type ∨ ∃ member, text = type ++ "." ++ member := by
  cases h with
  | intro _ _ _ _ _ refers => exact refers.text_eq

theorem Writes.referredType_eq {p : Protocol} {policy : AnonymousFields} {text type : String}
    (h : p.Writes policy text type) : Document.referredType text = Document.referredType type := by
  rcases h.text_eq with rfl | ⟨member, rfl⟩
  · rfl
  · exact Document.referredType_member type member

theorem RefersTo.notGround {p : Protocol} {policy : AnonymousFields} {type : String}
    (h : p.RefersTo policy type) : Ground.ofName? type = none := by
  obtain ⟨_, hwrites⟩ := h
  cases hwrites with
  | intro _ _ _ _ _ refers => exact refers.notGround

variable {p : Protocol} {options : Options} {d : Document}

/-- The references in the declarations of a document are those that its entries write. -/
theorem mem_references_iff (h : p.generate options = .ok d) {text : String} :
    (∃ declaration ∈ d.declarations, text ∈ declaration.references) ↔
      ∃ type, p.Writes options.anonymousFields text type := by
  constructor
  · rintro ⟨declaration, hdeclaration, htext⟩
    obtain ⟨entry, hentry, hskipped, hd⟩ := (mem_declarations_iff h).1 hdeclaration
    obtain ⟨n, hread, hof⟩ := Declaration.ofEntry_eq_ok_iff.1 hd
    cases hof with
    | constants flags => cases htext
    | type noFlags htype =>
      obtain ⟨b, hpart, type, hrefers⟩ := (Typer.mem_references_iff htype).1 htext
      exact ⟨type, .intro hentry hskipped hd hread hpart hrefers⟩
  · rintro ⟨type, ⟨hentry, hskipped, hd, hread, hpart, hrefers⟩⟩
    refine ⟨_, (mem_declarations_iff h).2 ⟨_, hentry, hskipped, hd⟩, ?_⟩
    obtain ⟨n, hread', hof⟩ := Declaration.ofEntry_eq_ok_iff.1 hd
    cases hread.symm.trans hread'
    cases hof with
    | type noFlags htype => exact (Typer.mem_references_iff htype).2 ⟨_, hpart, type, hrefers⟩

/-- A reported name is what the name of a type begins with that is referred to. -/
theorem mem_unresolved_iff (h : p.generate options = .ok d) {name : String} :
    name ∈ d.unresolved ↔
      (∃ type, p.RefersTo options.anonymousFields type ∧ Document.referredType type = name) ∧
        name ∉ d.knownNames := by
  rw [Document.mem_unresolved_iff]
  refine and_congr_left fun _ => ?_
  constructor
  · rintro ⟨declaration, hdeclaration, text, htext, rfl⟩
    obtain ⟨type, hwrites⟩ := (mem_references_iff h).1 ⟨declaration, hdeclaration, htext⟩
    exact ⟨type, ⟨text, hwrites⟩, hwrites.referredType_eq.symm⟩
  · rintro ⟨type, ⟨text, hwrites⟩, rfl⟩
    obtain ⟨declaration, hdeclaration, htext⟩ := (mem_references_iff h).2 ⟨type, hwrites⟩
    exact ⟨declaration, hdeclaration, text, htext, hwrites.referredType_eq⟩

theorem not_dot_mem_of_mem_unresolved (h : p.generate options = .ok d) {name : String}
    (hname : name ∈ d.unresolved) : '.' ∉ name.toList := by
  obtain ⟨⟨type, -, rfl⟩, -⟩ := (mem_unresolved_iff h).1 hname
  exact Document.not_dot_mem_referredType type

/-- The names in the report are, in ascending order, the types that are referred to and that nothing
supplies. -/
structure Reported (p : Protocol) (policy : AnonymousFields) (d : Document) : Prop where
  ascending : d.unresolved.Pairwise (· < ·)
  mem_iff : ∀ name, name ∈ d.unresolved ↔ p.RefersTo policy name ∧ name ∉ d.knownNames
  notGround : ∀ name ∈ d.unresolved, Ground.ofName? name = none

/-- Names are reported in ascending order, each because it is not supplied and the name of a type that
is referred to begins with it. They are just the types that are referred to and not supplied exactly
if dots do no harm: a type with a dot in its name that is referred to is supplied, and what its name
begins with is supplied too, or referred to by itself. -/
theorem reported_iff (h : p.generate options = .ok d) :
    d.unresolved.Pairwise (· < ·) ∧
    (∀ name, name ∈ d.unresolved ↔
      (∃ type, p.RefersTo options.anonymousFields type ∧ Document.referredType type = name) ∧
        name ∉ d.knownNames) ∧
    (p.Reported options.anonymousFields d ↔
      ∀ type, p.RefersTo options.anonymousFields type → '.' ∈ type.toList →
        type ∈ d.knownNames ∧ (Document.referredType type ∈ d.knownNames ∨
          p.RefersTo options.anonymousFields (Document.referredType type))) := by
  have hascending : d.unresolved.Pairwise (· < ·) := Document.pairwise_ascending _
  refine ⟨hascending, fun name => mem_unresolved_iff h, ?_, ?_⟩
  · intro hreported type htype hdot
    constructor
    · by_contra hknown
      have hmem : type ∈ d.unresolved := (hreported.mem_iff type).2 ⟨htype, hknown⟩
      exact not_dot_mem_of_mem_unresolved h hmem hdot
    · by_cases hknown : Document.referredType type ∈ d.knownNames
      · exact .inl hknown
      · have hmem : Document.referredType type ∈ d.unresolved :=
          (mem_unresolved_iff h).2 ⟨⟨type, htype, rfl⟩, hknown⟩
        exact .inr ((hreported.mem_iff _).1 hmem).1
  · intro hdots
    have hmem_iff (name : String) : name ∈ d.unresolved ↔
        p.RefersTo options.anonymousFields name ∧ name ∉ d.knownNames := by
      rw [mem_unresolved_iff h]
      refine and_congr_left fun hunknown => ?_
      constructor
      · rintro ⟨type, htype, rfl⟩
        by_cases hdot : '.' ∈ type.toList
        · exact (hdots type htype hdot).2.resolve_left hunknown
        · rwa [Document.referredType_eq_self hdot]
      · intro hname
        have hdot : '.' ∉ name.toList := fun hdot => hunknown (hdots name hname hdot).1
        exact ⟨name, hname, Document.referredType_eq_self hdot⟩
    exact ⟨hascending, hmem_iff, fun name hname => ((hmem_iff name).1 hname).1.notGround⟩

/-- A type whose name begins with the name of another, which is supplied like it. -/
theorem reported_of_supplied_beginning :
    let array (type : String) : Json := .arr [.str "array", .obj [("type", .str type)]]
    let p : Protocol := ⟨[("box", .str "native"), ("box.lid", .arr [.str "container", .arr []]),
      ("lids", array "box.lid"), ("rest", array "Rest")]⟩
    let d : Document := ⟨[.type "box.lid" (.record []),
      .type "lids" (.array (.reference "box.lid")), .type "rest" (.array (.reference "Rest"))],
      [], ["box"]⟩
    p.generate ⟨.omit, .abort⟩ = .ok d ∧ d.unresolved = ["Rest"] ∧ p.Reported .omit d := by
  intro array p d
  have hlid : Outcome.ofEntry (p.typer .omit) "box.lid" (.arr [.str "container", .arr []]) =
      .declared (.type "box.lid" (.record [])) :=
    Outcome.ofEntry_of_declaration rfl
      (Declaration.ofEntry_eq_ok_iff.2 ⟨_, Node.ofJson_container_nil, .type nofun rfl⟩)
  have harray (name type : String) (hskipped : Outcome.isSkipped name (array type) = false) :
      Outcome.ofEntry (p.typer .omit) name (array type) =
        .declared (.type name (.array (.ofName type))) :=
    Outcome.ofEntry_of_declaration hskipped (Declaration.ofEntry_eq_ok_iff.2
      ⟨_, Node.ofJson_array (Node.ofJson_str type), .type nofun rfl⟩)
  have hd : p.generate ⟨.omit, .abort⟩ = .ok d := by
    simp only [generate, outcomes, p, List.map_cons, List.map_nil]
    rw [hlid, harray "lids" _ rfl, harray "rest" _ rfl]
    rfl
  obtain ⟨-, -, hreported⟩ := reported_iff hd
  refine ⟨hd, rfl, hreported.2 ?_⟩
  rintro type ⟨text, hwrites⟩ hdot
  have hreferences : text ∈ ["box.lid", "Rest"] :=
    List.mem_flatMap.2 ((mem_references_iff hd).2 ⟨type, hwrites⟩)
  have hdots : ∀ x ∈ ["box.lid", "Rest"], x.toList.count '.' ≤ 1 := by decide
  rcases hwrites.text_eq with rfl | ⟨member, rfl⟩
  · rcases List.mem_pair.1 hreferences with rfl | rfl
    · exact ⟨by decide, .inl (by decide)⟩
    · exact absurd hdot (by decide)
  · have htwo := hdots _ hreferences
    have hone := List.count_pos_iff.2 hdot
    simp only [String.toList_append, List.count_append] at htwo
    have hseparator : ".".toList.count '.' = 1 := by decide
    omega

/-- A type that is supplied is reported under what its name begins with, here a name with a type of
its own. -/
theorem not_reported_of_dotted_entry :
    let p : Protocol := ⟨[("varint.pair", .arr [.str "container", .arr []]),
      ("segment", .arr [.str "array", .obj [("type", .str "varint.pair")]])]⟩
    let d : Document := ⟨[.type "varint.pair" (.record []),
      .type "segment" (.array (.reference "varint.pair"))], [], []⟩
    p.generate ⟨.omit, .skipEntry⟩ = .ok d ∧ d.unresolved = ["varint"] ∧
      "varint.pair" ∈ d.knownNames ∧ Ground.ofName? "varint" = some .number ∧
      ¬ p.RefersTo .omit "varint" ∧ ¬ p.Reported .omit d := by
  intro p d
  have hpair : Outcome.ofEntry (p.typer .omit) "varint.pair" (.arr [.str "container", .arr []]) =
      .declared (.type "varint.pair" (.record [])) :=
    Outcome.ofEntry_of_declaration rfl
      (Declaration.ofEntry_eq_ok_iff.2 ⟨_, Node.ofJson_container_nil, .type nofun rfl⟩)
  have hsegment : Outcome.ofEntry (p.typer .omit) "segment"
      (.arr [.str "array", .obj [("type", .str "varint.pair")]]) =
      .declared (.type "segment" (.array (.reference "varint.pair"))) :=
    Outcome.ofEntry_of_declaration rfl (Declaration.ofEntry_eq_ok_iff.2
      ⟨_, Node.ofJson_array (Node.ofJson_str "varint.pair"), .type nofun rfl⟩)
  have hd : p.generate ⟨.omit, .skipEntry⟩ = .ok d := by
    simp only [generate, outcomes, p, List.map_cons, List.map_nil]
    rw [hpair, hsegment]
    rfl
  have hunresolved : d.unresolved = ["varint"] := rfl
  have hground : Ground.ofName? "varint" = some .number := by decide
  refine ⟨hd, hunresolved, by decide, hground, fun h => ?_, fun h => ?_⟩
  · exact absurd h.notGround (by simp [hground])
  · have hmem : "varint" ∈ d.unresolved := hunresolved ▸ List.mem_singleton_self _
    exact absurd (h.notGround _ hmem) (by simp [hground])

end Protocol
end PacketTypings
