import PacketTypings.Proofs.TypeTerm.Tree

/-! What is read between two brackets: alternatives, each a product of operands. Behind `&`, the
last product goes on with the first one of what follows. -/

namespace PacketTypings.TypeText

/-- What has been read since the last bracket: products, the last of which may go on. -/
structure Alternatives where
  closed : List (List Tree)
  last : List Tree

namespace Alternatives

def none : Alternatives := ⟨[], []⟩

def one (t : Tree) : Alternatives := ⟨[], [t]⟩

def or (a b : Alternatives) : Alternatives := ⟨a.closed ++ a.last :: b.closed, b.last⟩

/-- Without parentheses, the last product of the first goes on with the first one of the second. -/
def and (a b : Alternatives) : Alternatives :=
  match b.closed with
  | [] => ⟨a.closed, a.last ++ b.last⟩
  | p :: ps => ⟨a.closed ++ (a.last ++ p) :: ps, b.last⟩

def products (a : Alternatives) : List (List Tree) := a.closed ++ [a.last]

def tree (a : Alternatives) : Tree := Tree.sum (a.products.map Tree.product)

/-- Brackets take hold of the last operand only. -/
def bracketed (a : Alternatives) : Option Alternatives :=
  a.last.getLast?.map fun t => ⟨a.closed, a.last.dropLast ++ [.array t]⟩

theorem none_and (a : Alternatives) : none.and a = a := by
  obtain ⟨closed, last⟩ := a
  cases closed <;> rfl

theorem or_none_and (a b : Alternatives) : (a.or none).and b = a.or b := by
  obtain ⟨closed, last⟩ := b
  cases closed <;> simp [or, none, and]

theorem and_or (a b c : Alternatives) : a.and (b.or c) = (a.and b).or c := by
  obtain ⟨closed, last⟩ := b
  cases closed <;> simp [or, and]

theorem and_assoc (a b c : Alternatives) : (a.and b).and c = a.and (b.and c) := by
  obtain ⟨closed, last⟩ := b
  obtain ⟨closed', last'⟩ := c
  cases closed <;> cases closed' <;> simp [and]

theorem bracketed_and_one (a : Alternatives) (t : Tree) :
    (a.and (one t)).bracketed = some (a.and (one (.array t))) := by
  simp [bracketed, and, one]

theorem tree_one (t : Tree) : (one t).tree = t := rfl

theorem products_ne_nil (a : Alternatives) : a.products ≠ [] := by simp [products]

theorem products_or (a b : Alternatives) : (a.or b).products = a.products ++ b.products := by
  simp [products, or]

theorem products_foldl_or (a : Alternatives) (bs : List Alternatives) :
    (bs.foldl .or a).products = a.products ++ bs.flatMap products := by
  induction bs generalizing a with
  | nil => simp
  | cons b bs ih => rw [List.foldl_cons, ih, products_or, List.append_assoc, List.flatMap_cons]

theorem forall_mem_products_foldl_or {P : List Tree → Prop} {a : Alternatives}
    {bs : List Alternatives} (ha : ∀ p ∈ a.products, P p)
    (hbs : ∀ b ∈ bs, ∀ p ∈ b.products, P p) : ∀ p ∈ (bs.foldl .or a).products, P p := by
  intro p hp
  rw [products_foldl_or] at hp
  rcases List.mem_append.1 hp with hp | hp
  · exact ha p hp
  · obtain ⟨b, hb, hp⟩ := List.mem_flatMap.1 hp
    exact hbs b hb p hp

theorem products_and (a : Alternatives) {b : Alternatives} {p : List Tree} {ps : List (List Tree)}
    (h : b.products = p :: ps) : (a.and b).products = a.closed ++ (a.last ++ p) :: ps := by
  obtain ⟨closed, last⟩ := b
  cases closed <;> cases h <;> simp [products, and]

theorem closed_and_eq_nil_iff (a b : Alternatives) :
    (a.and b).closed = [] ↔ a.closed = [] ∧ b.closed = [] := by
  obtain ⟨closed, last⟩ := b
  cases closed <;> simp [and]

theorem last_and {a b : Alternatives} (h : b.closed = []) : (a.and b).last = a.last ++ b.last := by
  rw [and, h]

theorem closed_foldl_and_eq_nil_iff (a : Alternatives) (bs : List Alternatives) :
    (bs.foldl .and a).closed = [] ↔ a.closed = [] ∧ ∀ b ∈ bs, b.closed = [] := by
  induction bs generalizing a with
  | nil => simp
  | cons b bs ih =>
    rw [List.foldl_cons, ih, closed_and_eq_nil_iff, List.forall_mem_cons]
    exact ⟨fun ⟨⟨h, h'⟩, h''⟩ => ⟨h, h', h''⟩, fun ⟨h, h', h''⟩ => ⟨⟨h, h'⟩, h''⟩⟩

theorem last_foldl_and (a : Alternatives) {bs : List Alternatives} (h : ∀ b ∈ bs, b.closed = []) :
    (bs.foldl .and a).last = a.last ++ bs.flatMap last := by
  induction bs generalizing a with
  | nil => simp
  | cons b bs ih =>
    obtain ⟨hb, hbs⟩ := List.forall_mem_cons.1 h
    rw [List.foldl_cons, ih _ hbs, last_and hb, List.flatMap_cons, List.append_assoc]

/-- Each product has operands, none of them an intersection. -/
def Filled (a : Alternatives) : Prop :=
  ∀ p ∈ a.products, p ≠ [] ∧ ∀ t ∈ p, t.isIntersection = false

/-- No product is a union. -/
def Split (a : Alternatives) : Prop := ∀ p ∈ a.products, (Tree.product p).isUnion = false

variable {a b : Alternatives}

theorem filled_one {t : Tree} (h : t.isIntersection = false) : (one t).Filled := by
  intro p hp
  cases List.mem_singleton.1 hp
  exact ⟨nofun, List.forall_mem_singleton.2 h⟩

theorem split_one {t : Tree} (h : t.isUnion = false) : (one t).Split := by
  intro p hp
  cases List.mem_singleton.1 hp
  exact h

theorem last_mem_products (a : Alternatives) : a.last ∈ a.products :=
  List.mem_append_right _ (List.mem_singleton.2 rfl)

theorem Filled.and (ha : a.Filled) (hb : b.Filled) : (a.and b).Filled := by
  obtain ⟨p, ps, hps⟩ := List.exists_cons_of_ne_nil b.products_ne_nil
  rw [Filled, hps, List.forall_mem_cons] at hb
  rw [Filled, products_and a hps]
  intro q hq
  rcases List.mem_append.1 hq with hq | hq
  · exact ha q (List.mem_append_left _ hq)
  rcases List.mem_cons.1 hq with rfl | hq
  · refine ⟨by simp [hb.1.1], fun t ht => ?_⟩
    exact (List.mem_append.1 ht).elim ((ha _ a.last_mem_products).2 t) (hb.1.2 t)
  · exact hb.2 q hq

/-- Where two products are joined, what comes out is an intersection. -/
theorem split_and (ha : a.Filled) (hb : b.Filled) (ha' : a.closed ≠ [] → a.Split)
    (hb' : b.closed ≠ [] → b.Split) : (a.and b).Split := by
  obtain ⟨p, ps, hps⟩ := List.exists_cons_of_ne_nil b.products_ne_nil
  rw [Split, products_and a hps]
  intro q hq
  rcases List.mem_append.1 hq with hq | hq
  · exact ha' (List.ne_nil_of_mem hq) q (List.mem_append_left _ hq)
  rcases List.mem_cons.1 hq with rfl | hq
  · have hlast := List.length_pos_iff.2 (ha _ a.last_mem_products).1
    have hp := List.length_pos_iff.2 (hb p (hps ▸ List.mem_cons_self)).1
    rw [Tree.product_of_two_le (by rw [List.length_append]; omega)]
    rfl
  · refine hb' ?_ q (hps ▸ List.mem_cons_of_mem p hq)
    intro hclosed
    rw [products, hclosed] at hps
    have hnil : ps = [] := (List.cons.inj hps).2.symm
    rw [hnil] at hq
    cases hq

theorem filled_foldl_and {bs : List Alternatives} (ha : a.Filled) (hbs : ∀ b ∈ bs, b.Filled) :
    (bs.foldl .and a).Filled := by
  induction bs generalizing a with
  | nil => exact ha
  | cons b bs ih =>
    obtain ⟨hb, hbs⟩ := List.forall_mem_cons.1 hbs
    exact ih (ha.and hb) hbs

theorem split_foldl_and {bs : List Alternatives} (ha : a.Filled) (ha' : a.Split)
    (hbs : ∀ b ∈ bs, b.Filled ∧ (b.closed ≠ [] → b.Split)) : (bs.foldl .and a).Split := by
  induction bs generalizing a with
  | nil => exact ha'
  | cons b bs ih =>
    obtain ⟨hb, hbs⟩ := List.forall_mem_cons.1 hbs
    exact ih (ha.and hb.1) (split_and ha hb.1 (fun _ => ha') hb.2) hbs

theorem tree_of_closed_eq_nil (h : a.closed = []) : a.tree = .product a.last := by
  rw [tree, products, h]
  rfl

theorem isUnion_tree_of_closed_ne_nil (h : a.closed ≠ []) : a.tree.isUnion = true := by
  have := List.length_pos_iff.2 h
  rw [tree, Tree.sum_of_two_le (by simp [products]; omega)]
  rfl

theorem isUnion_tree_iff (h : a.Split) : a.tree.isUnion = true ↔ a.closed ≠ [] := by
  refine ⟨?_, isUnion_tree_of_closed_ne_nil⟩
  intro hunion hclosed
  rw [tree_of_closed_eq_nil hclosed, h _ a.last_mem_products] at hunion
  cases hunion

end Alternatives
end PacketTypings.TypeText
