import Mathlib.Data.List.Basic
import PacketTypings.Proofs.TypeTerm.Spelling
import PacketTypings.Proofs.TypeTerm.Tree

/-! The normal form of a type: a union or an intersection of one part is that part, and the parts of
a union right inside a union, or of an intersection right inside an intersection, are parts of the
outer one. Main statement: a type and its normal form have the same text, if those of no parts are
kept, which are written as words. -/

namespace PacketTypings

/-- What becomes of a union or an intersection of no parts right inside another one: it is taken
apart like any other, so that nothing is left of it, or it is kept. -/
inductive EmptyParts where
  | spliced
  | kept
deriving DecidableEq, Repr

namespace TypeTerm

def sum : List TypeTerm → TypeTerm
  | [t] => t
  | ts => union ts

def product : List TypeTerm → TypeTerm
  | [t] => t
  | ts => intersection ts

/-- What a type brings to the union that it is a part of. -/
def alternatives (empty : EmptyParts) : TypeTerm → List TypeTerm
  | union [] => if empty = .kept then [union []] else []
  | union parts => parts
  | t => [t]

/-- What a type brings to the intersection that it is a part of. -/
def operands (empty : EmptyParts) : TypeTerm → List TypeTerm
  | intersection [] => if empty = .kept then [intersection []] else []
  | intersection parts => parts
  | t => [t]

mutual

def reduced (empty : EmptyParts) : TypeTerm → TypeTerm
  | record members => record (reducedMembers empty members)
  | array element => array (element.reduced empty)
  | union parts => sum ((reducedParts empty parts).flatMap (alternatives empty))
  | intersection parts => product ((reducedParts empty parts).flatMap (operands empty))
  | annotated inner note => annotated (inner.reduced empty) note
  | t => t

def reducedMembers (empty : EmptyParts) : List (String × TypeTerm) → List (String × TypeTerm)
  | [] => []
  | (key, t) :: rest => (key, t.reduced empty) :: reducedMembers empty rest

def reducedParts (empty : EmptyParts) : List TypeTerm → List TypeTerm
  | [] => []
  | t :: rest => t.reduced empty :: reducedParts empty rest

end

theorem reducedMembers_eq (empty : EmptyParts) (members : List (String × TypeTerm)) :
    reducedMembers empty members = members.map fun m => (m.1, m.2.reduced empty) := by
  induction members with
  | nil => rfl
  | cons m rest ih => rw [reducedMembers, ih, List.map_cons]

theorem reducedParts_eq (empty : EmptyParts) (parts : List TypeTerm) :
    reducedParts empty parts = parts.map (reduced empty) := by
  induction parts with
  | nil => rfl
  | cons t rest ih => rw [reducedParts, ih, List.map_cons]

theorem reduced_union (empty : EmptyParts) (parts : List TypeTerm) : (union parts).reduced empty =
    sum (parts.flatMap fun p => (p.reduced empty).alternatives empty) := by
  rw [reduced, reducedParts_eq, List.flatMap_map]

theorem reduced_intersection (empty : EmptyParts) (parts : List TypeTerm) :
    (intersection parts).reduced empty =
      product (parts.flatMap fun p => (p.reduced empty).operands empty) := by
  rw [reduced, reducedParts_eq, List.flatMap_map]

theorem alternatives_ne_nil (t : TypeTerm) : t.alternatives .kept ≠ [] := by
  cases t with
  | union parts => cases parts <;> nofun
  | _ => nofun

theorem operands_ne_nil (t : TypeTerm) : t.operands .kept ≠ [] := by
  cases t with
  | intersection parts => cases parts <;> nofun
  | _ => nofun

theorem two_le_length_flatMap {f : TypeTerm → List TypeTerm} (hf : ∀ t, f t ≠ []) (t u : TypeTerm)
    (rest : List TypeTerm) : 2 ≤ ((t :: u :: rest).flatMap f).length :=
  Nat.le_trans (by simp) (length_le_length_flatMap fun p _ => hf p)

theorem sum_of_two_le {ts : List TypeTerm} (h : 2 ≤ ts.length) : sum ts = union ts := by
  match ts, h with
  | _ :: _ :: _, _ => rfl

theorem product_of_two_le {ts : List TypeTerm} (h : 2 ≤ ts.length) :
    product ts = intersection ts := by
  match ts, h with
  | _ :: _ :: _, _ => rfl

/-- Taken apart and put together, a type needs parentheses where it did before. -/
theorem effective_sum_alternatives (t : TypeTerm) :
    (sum (t.alternatives .kept)).effective = t.effective := by
  cases t with
  | union parts => cases parts using parts_cases <;> rfl
  | _ => rfl

theorem effective_product_operands (t : TypeTerm) :
    (product (t.operands .kept)).effective = t.effective := by
  cases t with
  | intersection parts => cases parts using parts_cases <;> rfl
  | _ => rfl

/-- Whether a type needs parentheses goes by its effective part. -/
theorem needs_eq_of_effective {t u : TypeTerm} (h : t.effective = u.effective) :
    t.isCompoundUnion = u.isCompoundUnion ∧ t.isLooseElement = u.isLooseElement := by
  unfold isCompoundUnion isLooseElement
  rw [h]
  exact ⟨rfl, rfl⟩

theorem needs_union {parts : List TypeTerm} (h : 2 ≤ parts.length) :
    (union parts).isCompoundUnion = true ∧ (union parts).isLooseElement = true := by
  match parts, h with
  | _ :: _ :: _, _ => exact ⟨rfl, rfl⟩

theorem needs_intersection {parts : List TypeTerm} (h : 2 ≤ parts.length) :
    (intersection parts).isCompoundUnion = false ∧
      (intersection parts).isLooseElement = true := by
  match parts, h with
  | _ :: _ :: _, _ => exact ⟨rfl, rfl⟩

theorem needs_reduced (e : TypeTerm) : (e.reduced .kept).isCompoundUnion = e.isCompoundUnion ∧
    (e.reduced .kept).isLooseElement = e.isLooseElement := by
  induction e with
  | union parts ih =>
    rw [reduced_union]
    cases parts using parts_cases with
    | none => exact ⟨rfl, rfl⟩
    | one t =>
      rw [List.flatMap_singleton]
      have ht := ih t (List.mem_singleton.2 rfl)
      have hsum := needs_eq_of_effective (effective_sum_alternatives (t.reduced .kept))
      exact ⟨hsum.1.trans ht.1, hsum.2.trans ht.2⟩
    | several t u rest =>
      have hlength :=
        two_le_length_flatMap (fun p => (p.reduced .kept).alternatives_ne_nil) t u rest
      rw [sum_of_two_le hlength]
      exact needs_union hlength
  | intersection parts ih =>
    rw [reduced_intersection]
    cases parts using parts_cases with
    | none => exact ⟨rfl, rfl⟩
    | one t =>
      rw [List.flatMap_singleton]
      have ht := ih t (List.mem_singleton.2 rfl)
      have hproduct := needs_eq_of_effective (effective_product_operands (t.reduced .kept))
      exact ⟨hproduct.1.trans ht.1, hproduct.2.trans ht.2⟩
    | several t u rest =>
      have hlength := two_le_length_flatMap (fun p => (p.reduced .kept).operands_ne_nil) t u rest
      rw [product_of_two_le hlength]
      exact needs_intersection hlength
  | primitive | reference | text | truth | record | array | annotated => exact ⟨rfl, rfl⟩

theorem alternativesChars_eq (level : Nat) (parts : List TypeTerm) :
    alternativesChars level parts = parts.flatMap fun t => " | ".toList ++ t.chars level := by
  induction parts with
  | nil => rfl
  | cons t rest ih => rw [alternativesChars, ih, List.flatMap_cons]

theorem operandsChars_eq (level : Nat) (parts : List TypeTerm) : operandsChars level parts =
    parts.flatMap fun t =>
      " & ".toList ++ parenthesized t.isCompoundUnion (t.chars level) := by
  induction parts with
  | nil => rfl
  | cons t rest ih => rw [operandsChars, ih, List.flatMap_cons]

theorem bar_chars_sum (level : Nat) {ts : List TypeTerm} (h : ts ≠ []) :
    " | ".toList ++ (sum ts).chars level = alternativesChars level ts := by
  cases ts using parts_cases with
  | none => exact absurd rfl h
  | one t => exact (List.append_nil _).symm
  | several => exact (List.append_assoc _ _ _).symm

theorem alternativesChars_alternatives (level : Nat) (t : TypeTerm) :
    alternativesChars level (t.alternatives .kept) = " | ".toList ++ t.chars level := by
  cases t with
  | union parts =>
    cases parts with
    | nil => rfl
    | cons u rest => exact List.append_assoc _ _ _
  | _ => exact List.append_nil _

theorem alternativesChars_reduced {level : Nat} {parts : List TypeTerm}
    (h : ∀ p ∈ parts, (p.reduced .kept).chars level = p.chars level) :
    alternativesChars level (parts.flatMap fun p => (p.reduced .kept).alternatives .kept) =
      alternativesChars level parts := by
  rw [alternativesChars_eq, alternativesChars_eq, List.flatMap_assoc]
  refine List.flatMap_congr fun p hp => ?_
  rw [← alternativesChars_eq, alternativesChars_alternatives, h p hp]

theorem ampersand_chars_product (level : Nat) {ts : List TypeTerm} (h : 2 ≤ ts.length) :
    " & ".toList ++ (product ts).chars level = operandsChars level ts := by
  match ts, h with
  | _ :: _ :: _, _ => exact (List.append_assoc _ _ _).symm

theorem operandsChars_operands (level : Nat) (t : TypeTerm) :
    operandsChars level (t.operands .kept) =
      " & ".toList ++ parenthesized t.isCompoundUnion (t.chars level) := by
  cases t with
  | intersection parts =>
    cases parts using parts_cases with
    | none => rfl
    | one u => exact List.append_nil _
    | several => exact List.append_assoc _ _ _
  | _ => exact List.append_nil _

theorem operandsChars_reduced {level : Nat} {parts : List TypeTerm}
    (h : ∀ p ∈ parts, (p.reduced .kept).chars level = p.chars level) :
    operandsChars level (parts.flatMap fun p => (p.reduced .kept).operands .kept) =
      operandsChars level parts := by
  rw [operandsChars_eq, operandsChars_eq, List.flatMap_assoc]
  refine List.flatMap_congr fun p hp => ?_
  rw [← operandsChars_eq, operandsChars_operands, h p hp, p.needs_reduced.1]

theorem chars_product_operands (level : Nat) (t : TypeTerm) :
    (product (t.operands .kept)).chars level = t.chars level := by
  cases t with
  | intersection parts => cases parts using parts_cases <;> rfl
  | _ => rfl

theorem membersChars_reduced {members : List (String × TypeTerm)}
    (h : ∀ m ∈ members, ∀ level, (m.2.reduced .kept).chars level = m.2.chars level) (level : Nat) :
    membersChars level (reducedMembers .kept members) = membersChars level members := by
  induction members with
  | nil => rfl
  | cons m rest ih =>
    obtain ⟨hm, hrest⟩ := List.forall_mem_cons.1 h
    rw [reducedMembers, membersChars, membersChars, hm, ih hrest]

/-- A type is written as its normal form is. -/
theorem chars_reduced (e : TypeTerm) (level : Nat) :
    (e.reduced .kept).chars level = e.chars level := by
  induction e generalizing level with
  | primitive | reference | text | truth => rfl
  | record members ih =>
    rw [reduced]
    cases members with
    | nil => rfl
    | cons m rest =>
      have hmembers := membersChars_reduced ih (level + 1)
      rw [chars_record_cons, ← hmembers]
      rfl
  | array element ih =>
    rw [reduced, chars_array, chars_array, ih, element.needs_reduced.2]
  | union parts ih =>
    rw [reduced_union]
    cases parts with
    | nil => rfl
    | cons t rest =>
      -- behind a bar, every part is written in the same way, and so is the whole union
      refine @List.append_cancel_left _ " | ".toList _ _ ?_
      rw [bar_chars_sum level (by simp [alternatives_ne_nil]),
        alternativesChars_reduced fun p hp => ih p hp level]
      exact List.append_assoc _ _ _
  | intersection parts ih =>
    rw [reduced_intersection]
    cases parts using parts_cases with
    | none => rfl
    | one t =>
      rw [List.flatMap_singleton, chars_product_operands, ih t (List.mem_singleton.2 rfl)]
      rfl
    | several t u rest =>
      have hlength := two_le_length_flatMap (fun p => (p.reduced .kept).operands_ne_nil) t u rest
      refine @List.append_cancel_left _ " & ".toList _ _ ?_
      rw [ampersand_chars_product level hlength, operandsChars_reduced fun p hp => ih p hp level]
      exact List.append_assoc _ _ _
  | annotated inner note ih => rw [reduced, chars_annotated, chars_annotated, ih]

end TypeTerm
end PacketTypings
