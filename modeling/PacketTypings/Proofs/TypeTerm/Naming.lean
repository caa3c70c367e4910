import PacketTypings.Proofs.TypeTerm.Grouping
import PacketTypings.Proofs.TypeTerm.Reduced

/-! Texts as names of types. A type without notes, the references of which are no words of the types
themselves, is found again from its tree. Main statement: two such types have the same text exactly
if they have the same normal form. -/

namespace PacketTypings

namespace TypeTerm

/-- The words that are written for something other than a reference. -/
def ownWords : List String :=
  ["never", "unknown", "true", "false", "undefined"] ++ Ground.names.map fun x => x.1.text

/-- There are no notes, the primitives are those of the table or absence, and the references are
words that are written for nothing else. -/
inductive Plain : TypeTerm → Prop
  | primitive {name : String} (ground : IsGround name) : Plain (primitive name)
  | reference {name : String} (word : TypeText.IsWord name) (foreign : name ∉ ownWords) :
      Plain (reference name)
  | text (value : String) : Plain (text value)
  | truth (value : Bool) : Plain (truth value)
  | record {members : List (String × TypeTerm)} (plain : ∀ m ∈ members, Plain m.2) :
      Plain (record members)
  | array {element : TypeTerm} (plain : Plain element) : Plain (array element)
  | union {parts : List TypeTerm} (plain : ∀ p ∈ parts, Plain p) : Plain (union parts)
  | intersection {parts : List TypeTerm} (plain : ∀ p ∈ parts, Plain p) : Plain (intersection parts)

variable {e f : TypeTerm}

theorem Plain.readable (h : e.Plain) : e.Readable := by
  induction h with
  | primitive ground => exact ⟨List.forall_mem_singleton.2 ground, List.forall_mem_nil _⟩
  | reference word => exact ⟨List.forall_mem_nil _, List.forall_mem_singleton.2 word⟩
  | text | truth => exact ⟨List.forall_mem_nil _, List.forall_mem_nil _⟩
  | record _ ih => exact (readable_inherited.record _).2 ih
  | array _ ih => exact (readable_inherited.array _).2 ih
  | union _ ih => exact (readable_inherited.union _).2 ih
  | intersection _ ih => exact (readable_inherited.intersection _).2 ih

theorem Plain.isCompoundUnion_bare (h : e.Plain) : e.bare.isCompoundUnion = e.isCompoundUnion := by
  induction h with
  | @union parts _ ih | @intersection parts _ ih =>
    cases parts using parts_cases with
    | none => rfl
    | one t => exact ih t (List.mem_singleton.2 rfl)
    | several => rfl
  | primitive | reference | text | truth | record | array => rfl

/-- Where there are no notes, none hides a union. -/
theorem Plain.hidesUnion_eq_false (h : e.Plain) : e.hidesUnion = false := by
  rw [hidesUnion, h.isCompoundUnion_bare, Bool.and_not_self]

theorem Plain.wellGrouped (h : e.Plain) : e.WellGrouped := by
  induction h with
  | record _ ih => exact (membersWellGrouped_iff _).2 ih
  | array _ ih => exact ih
  | union _ ih => exact (partsWellGrouped_iff _).2 ih
  | intersection plain ih =>
    exact ⟨fun _ t ht => (plain t ht).hidesUnion_eq_false, (partsWellGrouped_iff _).2 ih⟩
  | primitive | reference | text | truth => trivial

/-- What a word of a type is written for. -/
def ofWord (name : String) : TypeTerm :=
  if name = "never" then union []
  else if name = "unknown" then intersection []
  else if name = "true" then truth true
  else if name = "false" then truth false
  else if name ∈ ownWords then primitive name
  else reference name

theorem ofWord_of_not_mem {name : String} (h : name ∉ ownWords) : ofWord name = reference name := by
  have hne {word : String} (hword : word ∈ ownWords) : name ≠ word := fun heq => h (heq ▸ hword)
  rw [ofWord, if_neg (hne (by decide)), if_neg (hne (by decide)), if_neg (hne (by decide)),
    if_neg (hne (by decide)), if_neg h]

theorem alternatives_ofWord (name : String) :
    (ofWord name).alternatives .kept = [ofWord name] := by
  unfold ofWord
  split_ifs <;> rfl

theorem operands_ofWord (name : String) : (ofWord name).operands .kept = [ofWord name] := by
  unfold ofWord
  split_ifs <;> rfl

end TypeTerm

namespace TypeText.Tree

mutual

/-- The type in normal form that a tree stands for. -/
def term : Tree → TypeTerm
  | word name => TypeTerm.ofWord name
  | literal value => .text value
  | tuple _ => .primitive Ground.vector.text
  | record members => .record (memberTerms members)
  | array element => .array element.term
  | union parts => .union (partTerms parts)
  | intersection parts => .intersection (partTerms parts)

def memberTerms : List (String × Tree) → List (String × TypeTerm)
  | [] => []
  | (key, t) :: rest => (key, t.term) :: memberTerms rest

def partTerms : List Tree → List TypeTerm
  | [] => []
  | t :: rest => t.term :: partTerms rest

end

theorem memberTerms_eq (members : List (String × Tree)) :
    memberTerms members = members.map fun m => (m.1, m.2.term) := by
  induction members with
  | nil => rfl
  | cons m rest ih => rw [memberTerms, ih, List.map_cons]

theorem partTerms_eq (parts : List Tree) : partTerms parts = parts.map term := by
  induction parts with
  | nil => rfl
  | cons t rest ih => rw [partTerms, ih, List.map_cons]

theorem term_sum (ts : List Tree) : (sum ts).term = TypeTerm.sum (ts.map term) := by
  cases ts using parts_cases with
  | none | one => rfl
  | several => exact congrArg TypeTerm.union (partTerms_eq _)

theorem term_product (ts : List Tree) : (product ts).term = TypeTerm.product (ts.map term) := by
  cases ts using parts_cases with
  | none | one => rfl
  | several => exact congrArg TypeTerm.intersection (partTerms_eq _)

theorem Flat.alternatives_term {t : Tree} (h : t.Flat) :
    t.term.alternatives .kept = t.alternatives.map term := by
  cases h with
  | word name => exact TypeTerm.alternatives_ofWord name
  | @union parts several =>
    match parts, several with
    | _ :: _ :: _, _ => rw [alternatives, ← partTerms_eq]; rfl
  | literal | tuple | record | array | intersection => rfl

theorem Flat.operands_term {t : Tree} (h : t.Flat) :
    t.term.operands .kept = t.operands.map term := by
  cases h with
  | word name => exact TypeTerm.operands_ofWord name
  | @intersection parts several =>
    match parts, several with
    | _ :: _ :: _, _ => rw [operands, ← partTerms_eq]; rfl
  | literal | tuple | record | array | union => rfl

theorem term_unionOf {ts : List Tree} (h : ∀ t ∈ ts, t.Flat) : (unionOf ts).term =
    TypeTerm.sum (ts.flatMap fun t => t.term.alternatives .kept) := by
  rw [List.flatMap_congr fun t ht => (h t ht).alternatives_term, ← List.map_flatMap, ← term_sum]
  cases ts <;> rfl

theorem term_intersectionOf {ts : List Tree} (h : ∀ t ∈ ts, t.Flat) : (intersectionOf ts).term =
    TypeTerm.product (ts.flatMap fun t => t.term.operands .kept) := by
  rw [List.flatMap_congr fun t ht => (h t ht).operands_term, ← List.map_flatMap, ← term_product]
  cases ts <;> rfl

end TypeText.Tree

namespace TypeTerm

variable {e f : TypeTerm}

theorem term_groundTree {name : String} (h : IsGround name) :
    (groundTree name).term = primitive name := by
  rcases h with rfl | ⟨g, rfl⟩
  · rfl
  · cases g <;> rfl

/-- The normal form of a type is found again from its tree. -/
theorem Plain.term_normal (h : e.Plain) : e.normal.term = e.reduced .kept := by
  induction h with
  | primitive ground => exact term_groundTree ground
  | reference _ foreign => exact ofWord_of_not_mem foreign
  | text => rfl
  | truth value => cases value <;> rfl
  | record _ ih =>
    rw [normal, TypeText.Tree.term, reduced, memberNormals_eq, TypeText.Tree.memberTerms_eq,
      reducedMembers_eq, List.map_map]
    exact congrArg _ (List.map_congr_left fun m hm => congrArg _ (ih m hm))
  | array _ ih => exact congrArg _ ih
  | @union parts _ ih =>
    rw [normal, partNormals_eq, reduced_union,
      TypeText.Tree.term_unionOf (List.forall_mem_map.2 fun p _ => p.normal_flat), List.flatMap_map,
      List.flatMap_congr fun p hp => by rw [ih p hp]]
  | @intersection parts _ ih =>
    rw [normal, partNormals_eq, reduced_intersection,
      TypeText.Tree.term_intersectionOf (List.forall_mem_map.2 fun p _ => p.normal_flat),
      List.flatMap_map, List.flatMap_congr fun p hp => by rw [ih p hp]]

/-- Two types without notes have the same text exactly if they have the same normal form, in which a
union of no parts is kept as a part of another one. -/
theorem chars_eq_iff_reduced_eq (he : e.Plain) (hf : f.Plain) (level : Nat) :
    e.chars level = f.chars level ↔ e.reduced .kept = f.reduced .kept := by
  constructor
  · intro hchars
    have hparse := congrArg (fun cs => TypeText.parse (String.ofList cs)) hchars
    simp only [parse_chars he.readable, parse_chars hf.readable, Option.some_inj] at hparse
    rw [(tree_reading_iff e).2 he.wellGrouped, (tree_reading_iff f).2 hf.wellGrouped] at hparse
    rw [← he.term_normal, hparse, hf.term_normal]
  · intro hreduced
    rw [← e.chars_reduced level, hreduced, f.chars_reduced level]

/-- Written with operands grouped in two ways, and with a reference to a member of a type. -/
theorem chars_eq_of_grouped :
    let mode : TypeTerm := reference (String.intercalate "." ["Game_Mode", "creative"])
    let e : TypeTerm := record [("a b", array (union [text "x\x27", union [mode, absent]]))]
    let f : TypeTerm := intersection
      [record [("a b", array (union [union [text "x\x27"], intersection [mode], absent]))]]
    e.Plain ∧ f.Plain ∧ e.reduced .kept = f.reduced .kept ∧ e ≠ f ∧ e.chars 1 = f.chars 1 := by
  intro mode e f
  have hmode : mode.Plain := by
    refine .reference (TypeText.isWord_intercalate nofun (by decide)) ?_
    decide
  have htext : (text "x\x27").Plain := .text _
  have habsent : absent.Plain := .primitive (.inl rfl)
  have he : e.Plain := by
    refine .record (List.forall_mem_singleton.2 (.array (.union ?_)))
    refine List.forall_mem_cons.2 ⟨htext, List.forall_mem_singleton.2 (.union ?_)⟩
    exact List.forall_mem_cons.2 ⟨hmode, List.forall_mem_singleton.2 habsent⟩
  have hf : f.Plain := by
    refine .intersection (List.forall_mem_singleton.2 ?_)
    refine .record (List.forall_mem_singleton.2 (.array (.union ?_)))
    refine List.forall_mem_cons.2 ⟨.union (List.forall_mem_singleton.2 htext), ?_⟩
    refine List.forall_mem_cons.2 ⟨.intersection (List.forall_mem_singleton.2 hmode), ?_⟩
    exact List.forall_mem_singleton.2 habsent
  have hreduced : e.reduced .kept = f.reduced .kept := rfl
  exact ⟨he, hf, hreduced, nofun, (chars_eq_iff_reduced_eq he hf 1).2 hreduced⟩

/-- A union of no parts is written, right inside another union too. -/
theorem chars_ne_of_empty_part :
    let e : TypeTerm := union [union [], absent]
    e.Plain ∧ absent.Plain ∧ e.reduced .spliced = absent.reduced .spliced ∧
      e.toText = "never | undefined" ∧ absent.toText = "undefined" ∧
      ¬ (e.chars 0 = absent.chars 0 ↔ e.reduced .spliced = absent.reduced .spliced) := by
  intro e
  have habsent : absent.Plain := .primitive (.inl rfl)
  have he : e.Plain := by
    refine .union (List.forall_mem_cons.2 ⟨.union (List.forall_mem_nil _), ?_⟩)
    exact List.forall_mem_singleton.2 habsent
  have hspliced : e.reduced .spliced = absent.reduced .spliced := rfl
  refine ⟨he, habsent, hspliced, rfl, rfl, fun h => ?_⟩
  exact absurd (h.2 hspliced) (by decide)

end TypeTerm
end PacketTypings
