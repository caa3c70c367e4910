import PacketTypings.TypeTerm.Primitive

/-! What a written type means: a tree, put together from words and literals. In a flat tree, unions
and intersections have several parts and do not lie right inside their own kind, so that the parts
tell the tree. -/

namespace PacketTypings

theorem length_flatMap_le {α β γ : Type} {f : α → List β} {g : α → List γ} {xs : List α}
    (h : ∀ x ∈ xs, (f x).length ≤ (g x).length) :
    (xs.flatMap f).length ≤ (xs.flatMap g).length := by
  induction xs with
  | nil => exact Nat.le_refl 0
  | cons x xs ih =>
    obtain ⟨hx, hxs⟩ := List.forall_mem_cons.1 h
    simp only [List.flatMap_cons, List.length_append]
    exact Nat.add_le_add hx (ih hxs)

theorem length_le_length_flatMap {α β : Type} {f : α → List β} {xs : List α}
    (h : ∀ x ∈ xs, f x ≠ []) : xs.length ≤ (xs.flatMap f).length := by
  have hle := @length_flatMap_le α α β (fun x => [x]) f xs
    fun x hx => List.length_pos_iff.2 (h x hx)
  rwa [List.flatMap_singleton'] at hle

theorem flatMap_eq_flatMap_iff {α β : Type} {f g : α → List β} {xs : List α}
    (h : ∀ x ∈ xs, (g x).length ≤ (f x).length) :
    xs.flatMap f = xs.flatMap g ↔ ∀ x ∈ xs, f x = g x := by
  induction xs with
  | nil => simp
  | cons x xs ih =>
    obtain ⟨hx, hxs⟩ := List.forall_mem_cons.1 h
    rw [List.flatMap_cons, List.flatMap_cons, List.forall_mem_cons, ← ih hxs]
    refine ⟨fun heq => ?_, fun ⟨heq, heq'⟩ => by rw [heq, heq']⟩
    -- neither part may be longer on the left, so both end at the same place
    have hlength := congrArg List.length heq
    rw [List.length_append, List.length_append] at hlength
    have := length_flatMap_le hxs
    exact List.append_inj heq (by omega)

/-- A list has no part, one, or several. -/
@[elab_as_elim]
theorem parts_cases {α : Type} {motive : List α → Prop} (none : motive [])
    (one : ∀ t, motive [t]) (several : ∀ t u rest, motive (t :: u :: rest)) (parts : List α) :
    motive parts := by
  cases parts with
  | nil => exact none
  | cons t parts =>
    cases parts with
    | nil => exact one t
    | cons u rest => exact several t u rest

namespace TypeText

inductive Tree where
  | word (name : String)
  | literal (value : String)
  | tuple (elements : List Tree)
  | record (members : List (String × Tree))
  | array (element : Tree)
  | union (parts : List Tree)
  | intersection (parts : List Tree)
deriving Inhabited

namespace Tree

def sum : List Tree → Tree
  | [t] => t
  | ts => union ts

def product : List Tree → Tree
  | [t] => t
  | ts => intersection ts

def isUnion : Tree → Bool
  | union _ => true
  | _ => false

def isIntersection : Tree → Bool
  | intersection _ => true
  | _ => false

def alternatives : Tree → List Tree
  | union parts => parts
  | t => [t]

def operands : Tree → List Tree
  | intersection parts => parts
  | t => [t]

/-- A union of no parts is written as the type without values. -/
def unionOf : List Tree → Tree
  | [] => word "never"
  | ts => sum (ts.flatMap alternatives)

/-- An intersection of no parts is written as the type of all values. -/
def intersectionOf : List Tree → Tree
  | [] => word "unknown"
  | ts => product (ts.flatMap operands)

/-- Unions and intersections have several parts, none of which is of the same kind. -/
inductive Flat : Tree → Prop
  | word (name : String) : Flat (word name)
  | literal (value : String) : Flat (literal value)
  | tuple {elements : List Tree} (flat : ∀ t ∈ elements, Flat t) : Flat (tuple elements)
  | record {members : List (String × Tree)} (flat : ∀ m ∈ members, Flat m.2) :
      Flat (record members)
  | array {element : Tree} (flat : Flat element) : Flat (array element)
  | union {parts : List Tree} (several : 2 ≤ parts.length) (flat : ∀ t ∈ parts, Flat t)
      (notUnion : ∀ t ∈ parts, t.isUnion = false) : Flat (union parts)
  | intersection {parts : List Tree} (several : 2 ≤ parts.length) (flat : ∀ t ∈ parts, Flat t)
      (notIntersection : ∀ t ∈ parts, t.isIntersection = false) : Flat (intersection parts)

theorem isIntersection_of_isUnion {t : Tree} (h : t.isUnion = true) : t.isIntersection = false := by
  cases t with
  | intersection => cases h
  | _ => rfl

theorem alternatives_of_not_isUnion {t : Tree} (h : t.isUnion = false) : t.alternatives = [t] := by
  cases t with
  | union => cases h
  | _ => rfl

theorem operands_of_not_isIntersection {t : Tree} (h : t.isIntersection = false) :
    t.operands = [t] := by
  cases t with
  | intersection => cases h
  | _ => rfl

theorem sum_of_two_le {ts : List Tree} (h : 2 ≤ ts.length) : sum ts = union ts := by
  match ts, h with
  | _ :: _ :: _, _ => rfl

theorem product_of_two_le {ts : List Tree} (h : 2 ≤ ts.length) : product ts = intersection ts := by
  match ts, h with
  | _ :: _ :: _, _ => rfl

theorem alternatives_sum {ts : List Tree} (h : ∀ t ∈ ts, t.isUnion = false) :
    (sum ts).alternatives = ts := by
  cases ts using parts_cases with
  | none => rfl
  | one t => exact alternatives_of_not_isUnion (h t (List.mem_singleton.2 rfl))
  | several => rfl

theorem operands_product {ts : List Tree} (h : ∀ t ∈ ts, t.isIntersection = false) :
    (product ts).operands = ts := by
  cases ts using parts_cases with
  | none => rfl
  | one t => exact operands_of_not_isIntersection (h t (List.mem_singleton.2 rfl))
  | several => rfl

theorem sum_inj {ts us : List Tree} (ht : ∀ t ∈ ts, t.isUnion = false)
    (hu : ∀ u ∈ us, u.isUnion = false) : sum ts = sum us ↔ ts = us := by
  refine ⟨fun h => ?_, congrArg sum⟩
  rw [← alternatives_sum ht, h, alternatives_sum hu]

namespace Flat

variable {t : Tree}

theorem sum_alternatives (h : t.Flat) : sum t.alternatives = t := by
  cases h with
  | union several => exact sum_of_two_le several
  | _ => rfl

theorem product_operands (h : t.Flat) : product t.operands = t := by
  cases h with
  | intersection several => exact product_of_two_le several
  | _ => rfl

theorem of_mem_alternatives (h : t.Flat) {u : Tree} (hu : u ∈ t.alternatives) :
    u.Flat ∧ u.isUnion = false := by
  cases h with
  | union several flat notUnion => exact ⟨flat u hu, notUnion u hu⟩
  | word | literal | tuple | record | array | intersection =>
    cases List.mem_singleton.1 hu
    exact ⟨by constructor <;> assumption, rfl⟩

theorem of_mem_operands (h : t.Flat) {u : Tree} (hu : u ∈ t.operands) :
    u.Flat ∧ u.isIntersection = false := by
  cases h with
  | intersection several flat notIntersection => exact ⟨flat u hu, notIntersection u hu⟩
  | word | literal | tuple | record | array | union =>
    cases List.mem_singleton.1 hu
    exact ⟨by constructor <;> assumption, rfl⟩

theorem alternatives_ne_nil (h : t.Flat) : t.alternatives ≠ [] := by
  cases h with
  | union several =>
    rintro rfl
    cases several
  | _ => nofun

theorem operands_ne_nil (h : t.Flat) : t.operands ≠ [] := by
  cases h with
  | intersection several =>
    rintro rfl
    cases several
  | _ => nofun

end Flat

theorem sum_flat {ts : List Tree} (hne : ts ≠ []) (h : ∀ t ∈ ts, t.Flat ∧ t.isUnion = false) :
    (sum ts).Flat := by
  match ts with
  | [t] => exact (h t (List.mem_singleton.2 rfl)).1
  | t :: u :: rest => exact .union (by simp) (fun x hx => (h x hx).1) fun x hx => (h x hx).2

theorem product_flat {ts : List Tree} (hne : ts ≠ [])
    (h : ∀ t ∈ ts, t.Flat ∧ t.isIntersection = false) : (product ts).Flat := by
  match ts with
  | [t] => exact (h t (List.mem_singleton.2 rfl)).1
  | t :: u :: rest => exact .intersection (by simp) (fun x hx => (h x hx).1) fun x hx => (h x hx).2

theorem unionOf_flat {ts : List Tree} (h : ∀ t ∈ ts, t.Flat) : (unionOf ts).Flat := by
  cases ts with
  | nil => exact .word _
  | cons t ts =>
    refine sum_flat ?_ fun u hu => ?_
    · have := length_le_length_flatMap fun x hx => (h x hx).alternatives_ne_nil
      exact List.ne_nil_of_length_pos (Nat.lt_of_lt_of_le (Nat.succ_pos _) this)
    · obtain ⟨x, hx, hu⟩ := List.mem_flatMap.1 hu
      exact (h x hx).of_mem_alternatives hu

theorem intersectionOf_flat {ts : List Tree} (h : ∀ t ∈ ts, t.Flat) :
    (intersectionOf ts).Flat := by
  cases ts with
  | nil => exact .word _
  | cons t ts =>
    refine product_flat ?_ fun u hu => ?_
    · have := length_le_length_flatMap fun x hx => (h x hx).operands_ne_nil
      exact List.ne_nil_of_length_pos (Nat.lt_of_lt_of_le (Nat.succ_pos _) this)
    · obtain ⟨x, hx, hu⟩ := List.mem_flatMap.1 hu
      exact (h x hx).of_mem_operands hu

theorem unionOf_singleton {t : Tree} (h : t.Flat) : unionOf [t] = t := by
  rw [unionOf, List.flatMap_singleton, h.sum_alternatives]
  nofun

theorem intersectionOf_singleton {t : Tree} (h : t.Flat) : intersectionOf [t] = t := by
  rw [intersectionOf, List.flatMap_singleton, h.product_operands]
  nofun

end Tree
end TypeText
end PacketTypings
