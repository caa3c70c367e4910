import PacketTypings.Proofs.TypeTerm.Normal

/-! When the text of a type says what the type is. Parentheses are put around the unions among the
operands of an intersection, but not around one that a note follows. Main statement: the text is
read as the tree of the type exactly if the type has no operand of that kind. -/

namespace PacketTypings
namespace TypeTerm

open TypeText

theorem partReadings_eq (parts : List TypeTerm) : partReadings parts = parts.map reading := by
  induction parts with
  | nil => rfl
  | cons t rest ih => rw [partReadings, ih, List.map_cons]

theorem memberReadings_eq (members : List (String × TypeTerm)) :
    memberReadings members = members.map fun m => (m.1, m.2.reading.tree) := by
  induction members with
  | nil => rfl
  | cons m rest ih => rw [memberReadings, ih, List.map_cons]

/-- What is read for an operand of an intersection. -/
def operandReading (t : TypeTerm) : Alternatives :=
  parenthesizedReading t.isCompoundUnion t.reading

theorem operandReadings_eq (parts : List TypeTerm) :
    operandReadings parts = parts.map operandReading := by
  induction parts with
  | nil => rfl
  | cons t rest ih => rw [operandReadings, ih, List.map_cons, operandReading]

theorem reading_union_cons (t : TypeTerm) (rest : List TypeTerm) :
    (union (t :: rest)).reading = (rest.map reading).foldl .or t.reading := by
  rw [reading, partReadings_eq]

theorem reading_intersection (t u : TypeTerm) (rest : List TypeTerm) :
    (intersection (t :: u :: rest)).reading =
      (rest.map operandReading).foldl .and (t.operandReading.and u.operandReading) := by
  rw [reading, operandReadings_eq]
  rfl

theorem products_reading_union (t : TypeTerm) (rest : List TypeTerm) :
    (union (t :: rest)).reading.products = (t :: rest).flatMap fun p => p.reading.products := by
  rw [reading_union_cons, Alternatives.products_foldl_or, List.flatMap_map, List.flatMap_cons]

theorem closed_ne_nil_of_isCompoundUnion {e : TypeTerm} (h : e.isCompoundUnion = true) :
    e.reading.closed ≠ [] := by
  induction e with
  | union parts ih =>
    cases parts using parts_cases with
    | none => cases h
    | one t => exact ih t (List.mem_singleton.2 rfl) h
    | several t u rest =>
      have hle : 2 ≤ (union (t :: u :: rest)).reading.products.length := by
        rw [products_reading_union]
        refine Nat.le_trans ?_ (length_le_length_flatMap fun p _ => p.reading.products_ne_nil)
        simp
      intro hclosed
      rw [Alternatives.products, hclosed] at hle
      exact absurd hle (Nat.not_succ_le_self 1)
  | intersection parts ih =>
    cases parts using parts_cases with
    | none => cases h
    | one t => exact ih t (List.mem_singleton.2 rfl) h
    | several => cases h
  | primitive | reference | text | truth | record | array | annotated => cases h

/-- Only operands of an intersection can be unions, and there they stand in parentheses. -/
theorem reading_filled_split (e : TypeTerm) : e.reading.Filled ∧ e.reading.Split := by
  have hone {t : Tree} (h : t.isUnion = false ∧ t.isIntersection = false) :
      (Alternatives.one t).Filled ∧ (Alternatives.one t).Split :=
    ⟨Alternatives.filled_one h.2, Alternatives.split_one h.1⟩
  induction e with
  | primitive name => exact hone (groundTree_simple name)
  | truth value => cases value <;> exact hone ⟨rfl, rfl⟩
  | reference | text | record | array => exact hone ⟨rfl, rfl⟩
  | union parts ih =>
    cases parts with
    | nil => exact hone ⟨rfl, rfl⟩
    | cons t rest =>
      obtain ⟨ht, hrest⟩ := List.forall_mem_cons.1 ih
      rw [reading_union_cons]
      exact ⟨Alternatives.forall_mem_products_foldl_or ht.1
          (List.forall_mem_map.2 fun p hp => (hrest p hp).1),
        Alternatives.forall_mem_products_foldl_or ht.2
          (List.forall_mem_map.2 fun p hp => (hrest p hp).2)⟩
  | intersection parts ih =>
    have hoperand (p : TypeTerm) (hp : p ∈ parts) : p.operandReading.Filled ∧
        (p.operandReading.closed ≠ [] → p.operandReading.Split) := by
      cases h : p.isCompoundUnion with
      | true =>
        rw [operandReading, h]
        have hclosed := closed_ne_nil_of_isCompoundUnion h
        have hunion := Alternatives.isUnion_tree_of_closed_ne_nil hclosed
        exact ⟨Alternatives.filled_one (Tree.isIntersection_of_isUnion hunion),
          fun hne => absurd rfl hne⟩
      | false =>
        rw [operandReading, h]
        exact ⟨(ih p hp).1, fun _ => (ih p hp).2⟩
    cases parts using parts_cases with
    | none => exact hone ⟨rfl, rfl⟩
    | one t => exact ih t (List.mem_singleton.2 rfl)
    | several t u rest =>
      obtain ⟨ht, hrest⟩ := List.forall_mem_cons.1 hoperand
      obtain ⟨hu, hrest⟩ := List.forall_mem_cons.1 hrest
      rw [reading_intersection]
      have hfilled := ht.1.and hu.1
      exact ⟨Alternatives.filled_foldl_and hfilled
          (List.forall_mem_map.2 fun p hp => (hrest p hp).1),
        Alternatives.split_foldl_and hfilled (Alternatives.split_and ht.1 hu.1 ht.2 hu.2)
          (List.forall_mem_map.2 hrest)⟩
  | annotated inner note ih => exact ih

mutual

/-- What is left of a type without the notes and single operands around it. -/
def bare : TypeTerm → TypeTerm
  | union parts => (soleBare? parts).getD (union parts)
  | intersection parts => (soleBare? parts).getD (intersection parts)
  | annotated inner _ => inner.bare
  | t => t

def soleBare? : List TypeTerm → Option TypeTerm
  | [t] => some t.bare
  | _ => none

end

/-- A union of several parts stands behind a note. -/
def hidesUnion (t : TypeTerm) : Bool := t.bare.isCompoundUnion && !t.isCompoundUnion

mutual

/-- No operand beside others, anywhere in the type, hides a union. -/
def WellGrouped : TypeTerm → Prop
  | record members => membersWellGrouped members
  | array element => element.WellGrouped
  | union parts => partsWellGrouped parts
  | intersection parts =>
    (2 ≤ parts.length → ∀ t ∈ parts, t.hidesUnion = false) ∧ partsWellGrouped parts
  | annotated inner _ => inner.WellGrouped
  | _ => True

def membersWellGrouped : List (String × TypeTerm) → Prop
  | [] => True
  | (_, t) :: rest => t.WellGrouped ∧ membersWellGrouped rest

def partsWellGrouped : List TypeTerm → Prop
  | [] => True
  | t :: rest => t.WellGrouped ∧ partsWellGrouped rest

end

theorem membersWellGrouped_iff (members : List (String × TypeTerm)) :
    membersWellGrouped members ↔ ∀ m ∈ members, m.2.WellGrouped := by
  induction members with
  | nil => simp [membersWellGrouped]
  | cons m rest ih => rw [membersWellGrouped, ih, List.forall_mem_cons]

theorem partsWellGrouped_iff (parts : List TypeTerm) :
    partsWellGrouped parts ↔ ∀ p ∈ parts, p.WellGrouped := by
  induction parts with
  | nil => simp [partsWellGrouped]
  | cons t rest ih => rw [partsWellGrouped, ih, List.forall_mem_cons]

theorem isUnion_normal_of_isCompoundUnion {e : TypeTerm} (h : e.isCompoundUnion = true) :
    e.normal.isUnion = true := by
  induction e with
  | union parts ih =>
    cases parts using parts_cases with
    | none => cases h
    | one t =>
      rw [normal_union_singleton]
      exact ih t (List.mem_singleton.2 rfl) h
    | several t u rest =>
      have hle := length_le_length_flatMap
        fun (p : TypeTerm) (_ : p ∈ t :: u :: rest) => p.normal_flat.alternatives_ne_nil
      rw [normal_union_cons, Tree.sum_of_two_le (Nat.le_trans (by simp) hle)]
      rfl
  | intersection parts ih =>
    cases parts using parts_cases with
    | none => cases h
    | one t =>
      rw [normal_intersection_singleton]
      exact ih t (List.mem_singleton.2 rfl) h
    | several => cases h
  | primitive | reference | text | truth | record | array | annotated => cases h

theorem normal_intersection_of_two_le {parts : List TypeTerm} (h : 2 ≤ parts.length) :
    (intersection parts).normal = .intersection (parts.flatMap fun p => p.normal.operands) := by
  have hle := length_le_length_flatMap
    fun (p : TypeTerm) (_ : p ∈ parts) => p.normal_flat.operands_ne_nil
  match parts, h with
  | t :: rest, h => rw [normal_intersection_cons, Tree.product_of_two_le (Nat.le_trans h hle)]

/-- A type stands for a union exactly if a union of several parts is left of it. -/
theorem isUnion_normal (e : TypeTerm) : e.normal.isUnion = e.bare.isCompoundUnion := by
  induction e with
  | primitive name => exact (groundTree_simple name).1
  | truth value => cases value <;> rfl
  | reference | text | record | array => rfl
  | union parts ih =>
    cases parts using parts_cases with
    | none => rfl
    | one t =>
      rw [normal_union_singleton]
      exact ih t (List.mem_singleton.2 rfl)
    | several t u rest => exact isUnion_normal_of_isCompoundUnion rfl
  | intersection parts ih =>
    cases parts using parts_cases with
    | none => rfl
    | one t =>
      rw [normal_intersection_singleton]
      exact ih t (List.mem_singleton.2 rfl)
    | several t u rest =>
      rw [normal_intersection_of_two_le (by simp)]
      rfl
  | annotated inner note ih => exact ih

theorem closed_reading_intersection {parts : List TypeTerm} (h : 2 ≤ parts.length) :
    (intersection parts).reading.closed = [] ↔ ∀ p ∈ parts, p.operandReading.closed = [] := by
  match parts, h with
  | t :: u :: rest, _ =>
    rw [reading_intersection, Alternatives.closed_foldl_and_eq_nil_iff,
      Alternatives.closed_and_eq_nil_iff, List.forall_mem_map]
    simp [and_assoc]

theorem last_reading_intersection {parts : List TypeTerm} (h : 2 ≤ parts.length)
    (hclosed : ∀ p ∈ parts, p.operandReading.closed = []) :
    (intersection parts).reading.last = parts.flatMap fun p => p.operandReading.last := by
  match parts, h with
  | t :: u :: rest, _ =>
    obtain ⟨ht, hrest⟩ := List.forall_mem_cons.1 hclosed
    obtain ⟨hu, hrest⟩ := List.forall_mem_cons.1 hrest
    rw [reading_intersection, Alternatives.last_foldl_and _ (List.forall_mem_map.2 hrest),
      Alternatives.last_and hu]
    simp [List.flatMap_map]

/-- The text of a type has at least as many alternatives as the type, and if it has only one, then
as many operands. -/
structure Covered (e : TypeTerm) : Prop where
  alternatives_le : e.normal.alternatives.length ≤ e.reading.products.length
  operands_eq : e.reading.closed = [] → e.normal.operands.length = e.reading.last.length

/-- An operand has as many operands of its own as the type says, if its text has one alternative. -/
theorem Covered.operand {e : TypeTerm} (h : e.Covered) (hclosed : e.operandReading.closed = []) :
    e.normal.operands.length = e.operandReading.last.length := by
  cases hcompound : e.isCompoundUnion with
  | true =>
    have hunion := isUnion_normal_of_isCompoundUnion hcompound
    rw [Tree.operands_of_not_isIntersection (Tree.isIntersection_of_isUnion hunion),
      operandReading, hcompound]
    rfl
  | false =>
    rw [operandReading, hcompound] at hclosed ⊢
    exact h.operands_eq hclosed

theorem covered_of_one {e : TypeTerm} {t : Tree} (h : e.reading = .one t)
    (hunion : e.normal.isUnion = false) (hintersection : e.normal.isIntersection = false) :
    e.Covered := by
  constructor
  · rw [Tree.alternatives_of_not_isUnion hunion, h]
    exact Nat.le_refl 1
  · rw [Tree.operands_of_not_isIntersection hintersection, h]
    exact fun _ => rfl

theorem covered (e : TypeTerm) : e.Covered := by
  induction e with
  | primitive name =>
    exact covered_of_one rfl (groundTree_simple name).1 (groundTree_simple name).2
  | truth value => cases value <;> exact covered_of_one rfl rfl rfl
  | reference | text | record | array => exact covered_of_one rfl rfl rfl
  | union parts ih =>
    cases parts using parts_cases with
    | none => exact covered_of_one rfl rfl rfl
    | one t =>
      have ht := ih t (List.mem_singleton.2 rfl)
      exact ⟨normal_union_singleton t ▸ ht.alternatives_le,
        normal_union_singleton t ▸ ht.operands_eq⟩
    | several t u rest =>
      refine ⟨?_, fun hclosed => absurd hclosed (closed_ne_nil_of_isCompoundUnion rfl)⟩
      rw [alternatives_normal_union_cons, products_reading_union]
      exact length_flatMap_le fun p hp => (ih p hp).alternatives_le
  | intersection parts ih =>
    cases parts using parts_cases with
    | none => exact covered_of_one rfl rfl rfl
    | one t =>
      have ht := ih t (List.mem_singleton.2 rfl)
      exact ⟨normal_intersection_singleton t ▸ ht.alternatives_le,
        normal_intersection_singleton t ▸ ht.operands_eq⟩
    | several t u rest =>
      have hle : 2 ≤ (t :: u :: rest).length := by simp
      constructor
      · rw [normal_intersection_of_two_le hle]
        simp [Tree.alternatives, Alternatives.products]
      · intro hclosed
        have hparts := (closed_reading_intersection hle).1 hclosed
        rw [normal_intersection_of_two_le hle, last_reading_intersection hle hparts]
        exact Nat.le_antisymm
          (length_flatMap_le fun p hp => Nat.le_of_eq ((ih p hp).operand (hparts p hp)))
          (length_flatMap_le fun p hp => Nat.le_of_eq ((ih p hp).operand (hparts p hp)).symm)
  | annotated inner note ih => exact ⟨ih.alternatives_le, ih.operands_eq⟩

theorem tree_eq_normal_iff_products (e : TypeTerm) :
    e.reading.tree = e.normal ↔ e.reading.products.map Tree.product = e.normal.alternatives := by
  conv => lhs; rhs; rw [← e.normal_flat.sum_alternatives]
  exact Tree.sum_inj (List.forall_mem_map.2 e.reading_filled_split.2)
    fun u hu => (e.normal_flat.of_mem_alternatives hu).2

theorem tree_union_iff {parts : List TypeTerm} (h : parts ≠ []) :
    (union parts).reading.tree = (union parts).normal ↔
      ∀ p ∈ parts, p.reading.tree = p.normal := by
  match parts, h with
  | t :: rest, _ =>
    have hparts : ∀ p ∈ t :: rest, p.normal.alternatives.length ≤
        (p.reading.products.map Tree.product).length := by
      intro p _
      rw [List.length_map]
      exact p.covered.alternatives_le
    rw [tree_eq_normal_iff_products, alternatives_normal_union_cons, products_reading_union,
      List.map_flatMap, flatMap_eq_flatMap_iff hparts]
    exact forall₂_congr fun p _ => p.tree_eq_normal_iff_products.symm

theorem last_eq_operands_iff (e : TypeTerm) :
    e.reading.closed = [] ∧ e.reading.last = e.normal.operands ↔
      e.normal.isUnion = false ∧ e.reading.tree = e.normal := by
  obtain ⟨hfilled, hsplit⟩ := e.reading_filled_split
  have hunion : e.reading.tree.isUnion = false ↔ e.reading.closed = [] := by
    rw [← Bool.not_eq_true, Alternatives.isUnion_tree_iff hsplit, Classical.not_not]
  constructor
  · rintro ⟨hclosed, hlast⟩
    have htree : e.reading.tree = e.normal := by
      rw [Alternatives.tree_of_closed_eq_nil hclosed, hlast, e.normal_flat.product_operands]
    exact ⟨htree ▸ hunion.2 hclosed, htree⟩
  · rintro ⟨hnormal, htree⟩
    have hclosed := hunion.1 (htree ▸ hnormal)
    refine ⟨hclosed, ?_⟩
    rw [← htree, Alternatives.tree_of_closed_eq_nil hclosed,
      Tree.operands_product (hfilled _ e.reading.last_mem_products).2]

theorem operandReading_eq_iff (e : TypeTerm) :
    e.operandReading.closed = [] ∧ e.operandReading.last = e.normal.operands ↔
      e.hidesUnion = false ∧ e.reading.tree = e.normal := by
  cases hcompound : e.isCompoundUnion with
  | true =>
    have hunion := isUnion_normal_of_isCompoundUnion hcompound
    rw [Tree.operands_of_not_isIntersection (Tree.isIntersection_of_isUnion hunion),
      operandReading, hidesUnion, hcompound]
    simp [parenthesizedReading, Alternatives.one]
  | false =>
    rw [operandReading, hidesUnion, hcompound, Bool.not_false, Bool.and_true, ← isUnion_normal]
    exact e.last_eq_operands_iff

theorem tree_intersection_iff {parts : List TypeTerm} (h : 2 ≤ parts.length) :
    (intersection parts).reading.tree = (intersection parts).normal ↔
      ∀ p ∈ parts, p.hidesUnion = false ∧ p.reading.tree = p.normal := by
  have hnormal := normal_intersection_of_two_le h
  have hunion : (intersection parts).normal.isUnion = false := by rw [hnormal]; rfl
  have hlast (hclosed : ∀ p ∈ parts, p.operandReading.closed = []) :
      (intersection parts).reading.last = (intersection parts).normal.operands ↔
        ∀ p ∈ parts, p.operandReading.last = p.normal.operands := by
    rw [last_reading_intersection h hclosed, hnormal, Tree.operands]
    exact flatMap_eq_flatMap_iff fun p hp => Nat.le_of_eq (p.covered.operand (hclosed p hp))
  refine Iff.trans ?_ (forall₂_congr fun p _ => p.operandReading_eq_iff)
  rw [← and_iff_right hunion (b := _ = _), ← last_eq_operands_iff, closed_reading_intersection h,
    and_congr_right hlast]
  exact ⟨fun h p hp => ⟨h.1 p hp, h.2 p hp⟩,
    fun h => ⟨fun p hp => (h p hp).1, fun p hp => (h p hp).2⟩⟩

/-- The text of a type is read as the tree of the type exactly if no operand beside others hides a
union. -/
theorem tree_reading_iff (e : TypeTerm) : e.reading.tree = e.normal ↔ e.WellGrouped := by
  induction e with
  | primitive | reference | text => exact iff_of_true rfl trivial
  | truth value => cases value <;> exact iff_of_true rfl trivial
  | record members ih =>
    rw [WellGrouped, membersWellGrouped_iff, reading, normal, memberReadings_eq, memberNormals_eq,
      Alternatives.tree_one, Tree.record.injEq, List.map_inj_left]
    refine forall₂_congr fun m hm => ?_
    rw [Prod.mk.injEq, ih m hm]
    exact and_iff_right rfl
  | array element ih =>
    rw [WellGrouped, reading, normal, Alternatives.tree_one, Tree.array.injEq, ih]
  | union parts ih =>
    rw [WellGrouped, partsWellGrouped_iff]
    cases parts with
    | nil => exact iff_of_true rfl (List.forall_mem_nil _)
    | cons t rest =>
      rw [tree_union_iff (List.cons_ne_nil t rest)]
      exact forall₂_congr ih
  | intersection parts ih =>
    rw [WellGrouped, partsWellGrouped_iff]
    cases parts using parts_cases with
    | none => exact iff_of_true rfl ⟨fun _ => List.forall_mem_nil _, List.forall_mem_nil _⟩
    | one t =>
      rw [normal_intersection_singleton]
      simp only [List.forall_mem_singleton]
      have hone : ¬ 2 ≤ [t].length := Nat.not_succ_le_self 1
      exact (ih t (List.mem_singleton.2 rfl)).trans (and_iff_right (absurd · hone)).symm
    | several t u rest =>
      have hle : 2 ≤ (t :: u :: rest).length := by simp
      rw [tree_intersection_iff hle, imp_iff_right hle, ← forall₂_congr ih]
      exact ⟨fun h => ⟨fun p hp => (h p hp).1, fun p hp => (h p hp).2⟩,
        fun h p hp => ⟨h.1 p hp, h.2 p hp⟩⟩
  | annotated inner note ih => exact ih

end TypeTerm
end PacketTypings
