import Mathlib.Data.List.TakeWhile
import PacketTypings.Proofs.Typing.DeclarationOrder
import PacketTypings.Proofs.Typing.Origin

/-! The references in a type, and the types that they mean. A node refers to a name as a whole; only
a condition goes on to a member of the type that it compares. Main statement: the references in the
type of a node are those that the nodes in it write. -/

namespace PacketTypings

theorem bne_dot_of_not_mem {cs : List Char} (h : '.' ∉ cs) : ∀ c ∈ cs, (c != '.') = true := by
  intro c hc
  rw [bne_iff_ne]
  rintro rfl
  exact h hc

namespace Step

theorem member?_of_dot {text : String} {before after : List Char}
    (htext : text.toList = before ++ '.' :: after) (hbefore : '.' ∉ before) :
    (name text).member? = if after = [] then none else some (String.ofList after) := by
  have hbehind : text.toList.dropWhile (· != '.') = '.' :: after := by
    rw [htext, List.dropWhile_append_of_pos (bne_dot_of_not_mem hbefore)]
    rfl
  rw [member?, hbehind]
  cases after <;> rfl

theorem member?_of_not_dot {text : String} (h : '.' ∉ text.toList) :
    (name text).member? = none := by
  rw [member?, List.dropWhile_eq_nil_iff.2 (bne_dot_of_not_mem h)]

/-- A step goes on to a member if a text stands behind its first dot. -/
theorem member?_eq_some_iff {x : Step} {member : String} : x.member? = some member ↔
    ∃ field, x = .name (field ++ "." ++ member) ∧ '.' ∉ field.toList ∧ member ≠ "" := by
  constructor
  · intro h
    cases x with
    | parent => cases h
    | current => cases h
    | name text =>
      by_cases hdot : '.' ∈ text.toList
      · obtain ⟨before, after, htext, hbefore⟩ := List.eq_append_cons_of_mem hdot
        rw [member?_of_dot htext hbefore] at h
        split at h
        · cases h
        · next hafter =>
          cases h
          refine ⟨String.ofList before, ?_, by simpa using hbefore, by simpa using hafter⟩
          congr 1
          apply String.ext
          simp [htext]
      · rw [member?_of_not_dot hdot] at h
        cases h
  · rintro ⟨field, rfl, hfield, hmember⟩
    have htext : (field ++ "." ++ member).toList = field.toList ++ '.' :: member.toList := by simp
    rw [member?_of_dot htext hfield, if_neg (by simpa using hmember), String.ofList_toList]

end Step

namespace Discriminant

/-- The text of the reference for one alternative of a path. -/
def alternativeText (type : String) (steps : List Step) : String :=
  match steps.getLast?.bind Step.member? with
  | some member => type ++ "." ++ member
  | none => type

theorem alternative_eq (type : String) (steps : List Step) :
    alternative type steps = .reference (alternativeText type steps) := by
  rw [alternative, alternativeText]
  cases steps.getLast?.bind Step.member? <;> rfl

theorem ofNode_eq_named_iff {n : Node} {type : String} :
    ofNode n = named type ↔ n = .primitive type ∧ Ground.ofName? type = none := by
  cases n with
  | primitive name =>
    rw [ofNode]
    split
    · next hbool =>
      refine ⟨nofun, ?_⟩
      rintro ⟨⟨⟩, hground⟩
      rw [hbool] at hground
      cases hground
    split
    · next hground =>
      rw [Option.isNone_iff_eq_none] at hground
      constructor
      · rintro ⟨⟩
        exact ⟨rfl, hground⟩
      · rintro ⟨⟨⟩, -⟩
        rfl
    · next hground =>
      refine ⟨nofun, ?_⟩
      rintro ⟨⟨⟩, hnone⟩
      exact absurd (Option.isNone_iff_eq_none.2 hnone) hground
  | _ => exact ⟨nofun, nofun⟩

theorem mem_references_condition_iff {d : Discriminant} {field label : String} {path : FieldPath}
    {text : String} : text ∈ (d.condition field label path).2.references ↔
      ∃ type, d = named type ∧ ∃ steps ∈ path.alternatives, text = alternativeText type steps := by
  cases d with
  | boolean => exact ⟨nofun, nofun⟩
  | literal => exact ⟨nofun, nofun⟩
  | named type =>
    change text ∈ TypeTerm.partReferences (path.alternatives.map (alternative type)) ↔ _
    rw [TypeTerm.partReferences_eq, List.flatMap_map]
    simp [alternative_eq, TypeTerm.references]

end Discriminant

theorem TypeTerm.mem_references_ofName_iff {name text : String} :
    text ∈ (ofName name).references ↔ Ground.ofName? name = none ∧ text = name := by
  rw [ofName]
  cases Ground.ofName? name <;> simp [references]

/-- The node at the site writes a reference of that text, and means the type of that name. -/
inductive Refers (t : Typer) : Site → String → String → Prop
  | name (s : Scope) {name : String} (notGround : Ground.ofName? name = none) :
      Refers t ⟨s, .primitive name⟩ name name
  | kind (s : Scope) {kind : String} (notGround : Ground.ofName? kind = none)
      (entry : kind ∈ t.entries) : Refers t ⟨s, .parametrized kind⟩ kind kind
  | compared {s : Scope} {compareTo type : String} {arms : List (String × Node)} {n : Node}
      (default? : Option Node) {c : Comparison} {f : Field} {steps : List Step}
      (made : Comparison.ofText compareTo s = .ok c) (holds : (holdsKey, n) ∈ arms)
      (target : c.target = .ok f) (node : f.node = .primitive type)
      (notGround : Ground.ofName? type = none) (mem : steps ∈ c.path.alternatives) :
      Refers t ⟨s, .switch compareTo arms default?⟩ (Discriminant.alternativeText type steps) type

theorem Refers.notGround {t : Typer} {a : Site} {text type : String} (h : Refers t a text type) :
    Ground.ofName? type = none := by
  cases h <;> assumption

theorem Comparison.mem_references_condition_iff {c : Comparison} {key : String}
    {condition : String × TypeTerm} (h : c.condition key = .ok condition) {text : String} :
    text ∈ condition.2.references ↔ key = holdsKey ∧ ∃ f type, c.target = .ok f ∧
      f.node = .primitive type ∧ Ground.ofName? type = none ∧
        ∃ steps ∈ c.path.alternatives, text = Discriminant.alternativeText type steps := by
  rw [Comparison.condition] at h
  split at h
  · next hkey =>
    obtain ⟨f, htarget, h⟩ := bind_eq_ok_iff.1 h
    cases h
    rw [Discriminant.mem_references_condition_iff]
    simp [Discriminant.ofNode_eq_named_iff, hkey, htarget, and_assoc]
  · next hkey =>
    cases h
    exact ⟨fun htext => absurd htext List.not_mem_nil, fun h => absurd h.1 hkey⟩

theorem Comparison.exists_condition_of_target {c : Comparison} {f : Field}
    (h : c.target = .ok f) : ∃ condition, c.condition holdsKey = .ok condition := by
  rw [condition, if_pos rfl, h]
  exact ⟨_, rfl⟩

/-- Of what a node brings in, the references are those that it writes. -/
theorem exists_brings_iff_refers {t : Typer} {a : Site} {text : String} :
    (∃ leaf, Brings t a leaf ∧ text ∈ leaf.references) ↔ ∃ type, Refers t a text type := by
  constructor
  · rintro ⟨leaf, hleaf, htext⟩
    cases hleaf with
    | primitive s name =>
      obtain ⟨hground, rfl⟩ := TypeTerm.mem_references_ofName_iff.1 htext
      exact ⟨_, .name s hground⟩
    | parametrized s known =>
      obtain ⟨hknown, rfl⟩ := Typer.parametrized_eq_ok_iff.1 known
      obtain ⟨hground, rfl⟩ := TypeTerm.mem_references_ofName_iff.1 htext
      exact ⟨_, .kind s hground (hknown.resolve_left (by simp [hground]))⟩
    | condition default? made mem ok =>
      obtain ⟨rfl, f, type, htarget, hnode, hground, steps, hsteps, rfl⟩ :=
        (Comparison.mem_references_condition_iff ok).1 htext
      exact ⟨type, .compared default? made mem htarget hnode hground hsteps⟩
    | text s mem => cases htext
    | flags s flags => cases htext
    | bit s mem => cases htext
    | absent s content => cases htext
  · rintro ⟨type, h⟩
    cases h with
    | name s notGround =>
      exact ⟨_, .primitive s text, TypeTerm.mem_references_ofName_iff.2 ⟨notGround, rfl⟩⟩
    | kind s notGround entry =>
      exact ⟨_, .parametrized s (Typer.parametrized_eq_ok_iff.2 ⟨.inr entry, rfl⟩),
        TypeTerm.mem_references_ofName_iff.2 ⟨notGround, rfl⟩⟩
    | compared default? made holds target node notGround mem =>
      obtain ⟨condition, ok⟩ := Comparison.exists_condition_of_target target
      exact ⟨_, .condition default? made holds ok, (Comparison.mem_references_condition_iff ok).2
        ⟨rfl, _, _, target, node, notGround, _, mem, rfl⟩⟩

namespace Typer

/-- The references in the type of a node are those that the nodes in it write. -/
theorem mem_references_iff {t : Typer} {owner? : Option String} {s : Scope} {n : Node}
    {e : TypeTerm} (h : t.type owner? s n = .ok e) {text : String} : text ∈ e.references ↔
      ∃ b, Site.Part t.anonymousFields ⟨s, n⟩ b ∧ ∃ type, Refers t b text type := by
  have hother := type_inherits_iff (TypeTerm.references_inherited (· ≠ text)) h
  simp only [← exists_brings_iff_refers]
  constructor
  · intro htext
    by_contra hnone
    refine hother.2 ?_ text htext rfl
    rintro b hpart leaf hleaf _ htext' rfl
    exact hnone ⟨b, hpart, leaf, hleaf, htext'⟩
  · rintro ⟨b, hpart, leaf, hleaf, htext⟩
    by_contra hnone
    refine hother.1 ?_ b hpart leaf hleaf text htext rfl
    rintro _ htext' rfl
    exact hnone htext'

end Typer
end PacketTypings
