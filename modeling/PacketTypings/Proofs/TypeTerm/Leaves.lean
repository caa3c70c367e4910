import PacketTypings.Proofs.TypeTerm.Token
import PacketTypings.TypeTerm.Primitive

/-! The names at the leaves of a type, and induction over types. A type can be read back if its
primitives are those of the table or absence and each of its references is one word. -/

namespace PacketTypings
namespace TypeTerm

@[elab_as_elim, induction_eliminator]
theorem induction {motive : TypeTerm → Prop} (primitive : ∀ name, motive (.primitive name))
    (reference : ∀ name, motive (.reference name)) (text : ∀ value, motive (.text value))
    (truth : ∀ value, motive (.truth value))
    (record : ∀ members, (∀ m ∈ members, motive m.2) → motive (.record members))
    (array : ∀ element, motive element → motive (.array element))
    (union : ∀ parts, (∀ p ∈ parts, motive p) → motive (.union parts))
    (intersection : ∀ parts, (∀ p ∈ parts, motive p) → motive (.intersection parts))
    (annotated : ∀ inner note, motive inner → motive (.annotated inner note)) (e : TypeTerm) :
    motive e :=
  @TypeTerm.rec motive (fun members => ∀ m ∈ members, motive m.2)
    (fun parts => ∀ p ∈ parts, motive p) (fun m => motive m.2) primitive reference text truth
    record array union intersection annotated nofun
    (fun _ _ hm hrest => List.forall_mem_cons.2 ⟨hm, hrest⟩) nofun
    (fun _ _ hp hrest => List.forall_mem_cons.2 ⟨hp, hrest⟩) (fun _ _ h => h) e

mutual

/-- The names that are written as they are, from left to right. -/
def primitives : TypeTerm → List String
  | primitive name => [name]
  | reference _ => []
  | text _ => []
  | truth _ => []
  | record members => memberPrimitives members
  | array element => element.primitives
  | union parts => partPrimitives parts
  | intersection parts => partPrimitives parts
  | annotated inner _ => inner.primitives

def memberPrimitives : List (String × TypeTerm) → List String
  | [] => []
  | (_, t) :: rest => t.primitives ++ memberPrimitives rest

def partPrimitives : List TypeTerm → List String
  | [] => []
  | t :: rest => t.primitives ++ partPrimitives rest

end

theorem memberReferences_eq (members : List (String × TypeTerm)) :
    memberReferences members = members.flatMap fun m => m.2.references := by
  induction members with
  | nil => rfl
  | cons m rest ih => rw [memberReferences, ih, List.flatMap_cons]

theorem partReferences_eq (parts : List TypeTerm) :
    partReferences parts = parts.flatMap references := by
  induction parts with
  | nil => rfl
  | cons t rest ih => rw [partReferences, ih, List.flatMap_cons]

theorem memberPrimitives_eq (members : List (String × TypeTerm)) :
    memberPrimitives members = members.flatMap fun m => m.2.primitives := by
  induction members with
  | nil => rfl
  | cons m rest ih => rw [memberPrimitives, ih, List.flatMap_cons]

theorem partPrimitives_eq (parts : List TypeTerm) :
    partPrimitives parts = parts.flatMap primitives := by
  induction parts with
  | nil => rfl
  | cons t rest ih => rw [partPrimitives, ih, List.flatMap_cons]

/-- A property that a type has exactly if the types right inside it have it. -/
structure Inherited (P : TypeTerm → Prop) : Prop where
  record : ∀ members, P (.record members) ↔ ∀ m ∈ members, P m.2
  array : ∀ element, P (.array element) ↔ P element
  union : ∀ parts, P (.union parts) ↔ ∀ p ∈ parts, P p
  intersection : ∀ parts, P (.intersection parts) ↔ ∀ p ∈ parts, P p
  annotated : ∀ inner note, P (.annotated inner note) ↔ P inner

theorem Inherited.and {P Q : TypeTerm → Prop} (hP : Inherited P) (hQ : Inherited Q) :
    Inherited fun e => P e ∧ Q e where
  record members := by simp only [hP.record, hQ.record, imp_and, forall_and]
  array element := by rw [hP.array, hQ.array]
  union parts := by simp only [hP.union, hQ.union, imp_and, forall_and]
  intersection parts := by simp only [hP.intersection, hQ.intersection, imp_and, forall_and]
  annotated inner note := by rw [hP.annotated, hQ.annotated]

theorem true_inherited : Inherited fun _ => True :=
  ⟨by simp, by simp, by simp, by simp, by simp⟩

theorem primitives_inherited (Q : String → Prop) :
    Inherited fun e => ∀ name ∈ e.primitives, Q name where
  record members := by rw [primitives, memberPrimitives_eq, List.forall_mem_flatMap]
  array _ := Iff.rfl
  union parts := by rw [primitives, partPrimitives_eq, List.forall_mem_flatMap]
  intersection parts := by rw [primitives, partPrimitives_eq, List.forall_mem_flatMap]
  annotated _ _ := Iff.rfl

theorem references_inherited (Q : String → Prop) :
    Inherited fun e => ∀ name ∈ e.references, Q name where
  record members := by rw [references, memberReferences_eq, List.forall_mem_flatMap]
  array _ := Iff.rfl
  union parts := by rw [references, partReferences_eq, List.forall_mem_flatMap]
  intersection parts := by rw [references, partReferences_eq, List.forall_mem_flatMap]
  annotated _ _ := Iff.rfl

/-- A name of the table, or absence. -/
def IsGround (name : String) : Prop := name = "undefined" ∨ ∃ g : Ground, name = g.text

def Readable (e : TypeTerm) : Prop :=
  (∀ name ∈ e.primitives, IsGround name) ∧ ∀ name ∈ e.references, TypeText.IsWord name

theorem readable_inherited : Inherited Readable :=
  (primitives_inherited IsGround).and (references_inherited TypeText.IsWord)

end TypeTerm
end PacketTypings
