import PacketTypings.Proofs.TypeTerm.Reader

/-! The tree that a type stands for: notes count for nothing, a union or an intersection of one part
is that part, and a union right inside a union, or an intersection right inside an intersection, is
no level of its own. Main statement: in the tree of a type nothing of that kind is left. -/

namespace PacketTypings
namespace TypeTerm

open TypeText

mutual

def normal : TypeTerm → Tree
  | primitive name => groundTree name
  | reference name => .word name
  | text value => .literal value
  | truth true => .word "true"
  | truth false => .word "false"
  | record members => .record (memberNormals members)
  | array element => .array element.normal
  | union parts => .unionOf (partNormals parts)
  | intersection parts => .intersectionOf (partNormals parts)
  | annotated inner _ => inner.normal

def memberNormals : List (String × TypeTerm) → List (String × Tree)
  | [] => []
  | (key, t) :: rest => (key, t.normal) :: memberNormals rest

def partNormals : List TypeTerm → List Tree
  | [] => []
  | t :: rest => t.normal :: partNormals rest

end

theorem memberNormals_eq (members : List (String × TypeTerm)) :
    memberNormals members = members.map fun m => (m.1, m.2.normal) := by
  induction members with
  | nil => rfl
  | cons m rest ih => rw [memberNormals, ih, List.map_cons]

theorem partNormals_eq (parts : List TypeTerm) : partNormals parts = parts.map normal := by
  induction parts with
  | nil => rfl
  | cons t rest ih => rw [partNormals, ih, List.map_cons]

theorem groundTree_flat (name : String) : (groundTree name).Flat := by
  unfold groundTree
  split
  · refine .tuple fun t ht => ?_
    simp only [List.mem_cons, List.not_mem_nil, or_false, or_self] at ht
    exact ht ▸ .word _
  · exact .word _

theorem groundTree_simple (name : String) :
    (groundTree name).isUnion = false ∧ (groundTree name).isIntersection = false := by
  unfold groundTree
  split <;> exact ⟨rfl, rfl⟩

theorem normal_flat (e : TypeTerm) : e.normal.Flat := by
  induction e with
  | primitive name => exact groundTree_flat name
  | reference name => exact .word name
  | text value => exact .literal value
  | truth value => cases value <;> exact .word _
  | record members ih =>
    rw [normal, memberNormals_eq]
    exact .record (List.forall_mem_map.2 ih)
  | array element ih => exact .array ih
  | union parts ih =>
    rw [normal, partNormals_eq]
    exact Tree.unionOf_flat (List.forall_mem_map.2 ih)
  | intersection parts ih =>
    rw [normal, partNormals_eq]
    exact Tree.intersectionOf_flat (List.forall_mem_map.2 ih)
  | annotated inner note ih => exact ih

theorem normal_union_singleton (t : TypeTerm) : (union [t]).normal = t.normal :=
  Tree.unionOf_singleton t.normal_flat

theorem normal_intersection_singleton (t : TypeTerm) : (intersection [t]).normal = t.normal :=
  Tree.intersectionOf_singleton t.normal_flat

theorem normal_union_cons (t : TypeTerm) (rest : List TypeTerm) :
    (union (t :: rest)).normal = .sum ((t :: rest).flatMap fun p => p.normal.alternatives) := by
  rw [normal, partNormals_eq]
  simp [Tree.unionOf, List.flatMap_map]

theorem alternatives_normal_union_cons (t : TypeTerm) (rest : List TypeTerm) :
    (union (t :: rest)).normal.alternatives =
      (t :: rest).flatMap fun p => p.normal.alternatives := by
  rw [normal_union_cons, Tree.alternatives_sum fun u hu => ?_]
  obtain ⟨p, -, hu⟩ := List.mem_flatMap.1 hu
  exact (p.normal_flat.of_mem_alternatives hu).2

theorem normal_intersection_cons (t : TypeTerm) (rest : List TypeTerm) :
    (intersection (t :: rest)).normal =
      .product ((t :: rest).flatMap fun p => p.normal.operands) := by
  rw [normal, partNormals_eq]
  simp [Tree.intersectionOf, List.flatMap_map]

end TypeTerm
end PacketTypings
