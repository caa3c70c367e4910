import PacketTypings.Proofs.Document.Declared
import PacketTypings.Proofs.Typing.References

/-! The names that a declared type refers to. None is made up: every one occurs in the entry, or is
put together from a type and a member that do. Main statement: so for every declared entry, and no
reference is to a name that has a type of its own. -/

namespace PacketTypings

namespace Ground

theorem not_dot_mem {name : String} {g : Ground} (h : ofName? name = some g) :
    '.' ∉ name.toList := by
  obtain ⟨⟨g', ns⟩, hfind, rfl⟩ := Option.map_eq_some_iff.1 h
  have hcontains : ns.contains name = true := by simpa using List.find?_some hfind
  have hnames : name ∈ ns := List.contains_iff_mem.1 hcontains
  have hplain : ∀ x ∈ names, ∀ n ∈ x.2, '.' ∉ n.toList := by decide
  exact hplain _ (List.mem_of_find?_eq_some hfind) name hnames

theorem ofName?_eq_none_of_dot {name : String} (h : '.' ∈ name.toList) : ofName? name = none := by
  cases hname : ofName? name with
  | none => rfl
  | some g => exact absurd h (not_dot_mem hname)

end Ground

/-- The names that references in the type of a node may be: a name in it that has no type of its
own, a kind in it that is declared at top level, or the type of a field declared in it with a member
that a path in it goes on to. -/
inductive Node.Mentions (entries : List String) (n : Node) : String → Prop
  | primitive {name : String} (holds : n.Holds (.primitive name))
      (notGround : Ground.ofName? name = none) : Mentions entries n name
  | kind {kind : String} (holds : n.Holds (.parametrized kind))
      (notGround : Ground.ofName? kind = none) (entry : kind ∈ entries) : Mentions entries n kind
  | member {type member compareTo field : String} {q : Place} {f : Field}
      {arms : List (String × Node)} {default? : Option Node} {path : FieldPath} {steps : List Step}
      (declared : FieldAt n q f) (node : f.node = .primitive type)
      (notGround : Ground.ofName? type = none)
      (holds : n.Holds (.switch compareTo arms default?))
      (read : FieldPath.ofText compareTo = .ok path) (mem : steps ∈ path.alternatives)
      (last : steps.getLast? = some (.name (field ++ "." ++ member)))
      (firstDot : '.' ∉ field.toList) (nonempty : member ≠ "") :
      Mentions entries n (type ++ "." ++ member)

theorem Node.Mentions.notGround {entries : List String} {n : Node} {text : String}
    (h : n.Mentions entries text) : Ground.ofName? text = none := by
  cases h with
  | primitive holds notGround => exact notGround
  | kind holds notGround entry => exact notGround
  | member => exact Ground.ofName?_eq_none_of_dot (by simp)

/-- The field that a switch in a node compares is declared in that node. -/
theorem exists_fieldAt_of_target {policy : AnonymousFields} {n : Node} {s : Scope}
    {compareTo : String} {arms : List (String × Node)} {default? : Option Node}
    (hpart : Site.Part policy ⟨.root, n⟩ ⟨s, .switch compareTo arms default?⟩) {c : Comparison}
    (hc : Comparison.ofText compareTo s = .ok c) {f : Field} (hf : c.target = .ok f) :
    ∃ q, FieldAt n q f := by
  obtain ⟨p, cs, hlocated⟩ := Located.root.exists_of_part hpart.flattened
  obtain ⟨q, hfinds⟩ := (hlocated.target_eq_ok_iff nofun hc f).1 hf
  exact ⟨q, (hlocated.of_finds nofun hfinds).1⟩

theorem Comparison.read_of_ofText {compareTo : String} {s : Scope} {c : Comparison}
    (h : ofText compareTo s = .ok c) : FieldPath.ofText compareTo = .ok c.path := by
  cases ofText_eq_ok_iff.1 h <;> assumption

/-- What a node inside `n` writes is a name that `n` mentions. -/
theorem Refers.mentions {t : Typer} {n : Node} {b : Site} {text type : String}
    (h : Refers t b text type) (hpart : Site.Part t.anonymousFields ⟨.root, n⟩ b) :
    n.Mentions t.entries text := by
  have hholds := hpart.holds
  cases h with
  | name s notGround => exact .primitive hholds notGround
  | kind s notGround entry => exact .kind hholds notGround entry
  | @compared s compareTo type arms m default? c f steps made holds target node notGround mem =>
    obtain ⟨q, declared⟩ := exists_fieldAt_of_target hpart made target
    rw [Discriminant.alternativeText]
    split
    · next member hmember =>
      obtain ⟨x, hlast, hx⟩ := Option.bind_eq_some_iff.1 hmember
      obtain ⟨field, rfl, firstDot, nonempty⟩ := Step.member?_eq_some_iff.1 hx
      exact .member declared node notGround hholds (Comparison.read_of_ofText made) mem hlast
        firstDot nonempty
    · exact .primitive (node ▸ declared.holds) notGround

/-- Every reference in a declared type is a name that its entry mentions, and has no type of its
own. -/
theorem Declaration.references_mentioned {t : Typer} {name name' : String} {raw : Json}
    {e : TypeTerm} (h : ofEntry t name raw = .ok (.type name' e)) :
    ∃ n, Node.ofJson raw = .ok n ∧
      ∀ text ∈ e.references, n.Mentions t.entries text ∧ Ground.ofName? text = none := by
  obtain ⟨n, hread, hd⟩ := ofEntry_eq_ok_iff.1 h
  refine ⟨n, hread, fun text htext => ?_⟩
  cases hd with
  | type noFlags htype =>
    obtain ⟨b, hpart, type, hrefers⟩ := (Typer.mem_references_iff htype).1 htext
    have hmentions := hrefers.mentions hpart
    exact ⟨hmentions, hmentions.notGround⟩

/-- An entry that refers to a name, to two members of it, and to a declared kind. -/
theorem Declaration.references_mentioned_of_update :
    let item : Json := .arr [.str "Item", .obj []]
    let switch : Json := .arr [.str "switch", .obj [("compareTo", .str "flags.has_x || flags.has_y"),
      ("fields", .obj [("true", item)])]]
    let raw : Json := .arr [.str "container",
      .arr [.obj [("name", .str "flags"), ("type", .str "UpdateFlags")],
        .obj [("name", .str "body"), ("type", switch)]]]
    let n : Node := .container [⟨some "flags", .primitive "UpdateFlags", false⟩, ⟨some "body",
      .switch "flags.has_x || flags.has_y" [("true", .parametrized "Item")] none, false⟩]
    let condition : TypeTerm :=
      .union [.reference "UpdateFlags.has_x", .reference "UpdateFlags.has_y"]
    let e : TypeTerm := .intersection [.record [("flags", .reference "UpdateFlags")],
      .union [.record [("flags", condition), ("body", .reference "Item")]]]
    ofEntry ⟨.omit, ["Item"]⟩ "update" raw = .ok (.type "update" e) ∧
      e.references = ["UpdateFlags", "UpdateFlags.has_x", "UpdateFlags.has_y", "Item"] ∧
      ∃ n', Node.ofJson raw = .ok n' ∧ n' = n ∧ n.Mentions ["Item"] "UpdateFlags.has_y" := by
  intro item switch raw n condition e
  have hitem : Node.ofJson item = .ok (.parametrized "Item") := Node.ofJson_of_other rfl _
  have hswitch : Node.ofJson switch = .ok
      (.switch "flags.has_x || flags.has_y" [("true", .parametrized "Item")] none) := by
    rw [Node.ofJson_of_kind (k := .switch) rfl]
    change ([("true", item)].mapM Node.armOfJson >>= _) = _
    simp only [List.mapM_cons, Node.armOfJson, hitem]
    rfl
  have hread : Node.ofJson raw = .ok n := by
    rw [Node.ofJson_of_kind (k := .container) rfl]
    change ([⟨some "flags", .str "UpdateFlags", false⟩,
      ⟨some "body", switch, false⟩].mapM Node.fieldOfJson >>= _) = _
    simp only [List.mapM_cons, Node.fieldOfJson, Node.ofJson_str, hswitch]
    rfl
  have noFlags (flags : Flags) : n ≠ .bitflags flags := by simp [n]
  have hentry : ofEntry ⟨.omit, ["Item"]⟩ "update" raw = .ok (.type "update" e) :=
    ofEntry_eq_ok_iff.2 ⟨n, hread, .type noFlags rfl⟩
  have hreferences : e.references =
      ["UpdateFlags", "UpdateFlags.has_x", "UpdateFlags.has_y", "Item"] := rfl
  obtain ⟨n', hread', hmentioned⟩ := references_mentioned hentry
  cases hread.symm.trans hread'
  have hy : "UpdateFlags.has_y" ∈ e.references := by simp [hreferences]
  exact ⟨hentry, hreferences, n, hread, rfl, (hmentioned _ hy).1⟩

end PacketTypings
