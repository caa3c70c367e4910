import PacketTypings.Schema.Inside
import Mathlib.Data.List.Forall2

/-! Results that may be faults. Each lemma says when a computation made of others has a result, or
which fault it ends with. -/

namespace PacketTypings

theorem bind_eq_error_iff {ε α β : Type} {x : Except ε α} {f : α → Except ε β} {e : ε} :
    (x >>= f) = .error e ↔ x = .error e ∨ ∃ a, x = .ok a ∧ f a = .error e := by
  cases x <;> simp [bind, Except.bind]

theorem map_eq_error_iff {ε α β : Type} {x : Except ε α} {f : α → β} {e : ε} :
    x.map f = .error e ↔ x = .error e := by
  cases x <;> simp [Except.map]

theorem map_eq_ok_iff {ε α β : Type} {x : Except ε α} {f : α → β} {b : β} :
    x.map f = .ok b ↔ ∃ a, x = .ok a ∧ f a = b := by
  cases x <;> simp [Except.map]

theorem exists_of_mapM_eq_error {ε α β : Type} {f : α → Except ε β} {xs : List α} {e : ε}
    (h : xs.mapM f = .error e) : ∃ x ∈ xs, f x = .error e := by
  induction xs with
  | nil => cases h
  | cons x xs ih =>
    rw [List.mapM_cons] at h
    rcases bind_eq_error_iff.1 h with h | ⟨y, -, h⟩
    · exact ⟨x, List.mem_cons_self, h⟩
    · rcases bind_eq_error_iff.1 h with h | ⟨ys, -, h⟩
      · obtain ⟨x', hx', h'⟩ := ih h
        exact ⟨x', List.mem_cons_of_mem _ hx', h'⟩
      · cases h

theorem exists_of_mem_of_mapM_eq_ok {ε α β : Type} {f : α → Except ε β} {xs : List α}
    {ys : List β} {x : α} (h : xs.mapM f = .ok ys) (hx : x ∈ xs) : ∃ y ∈ ys, f x = .ok y := by
  induction xs generalizing ys with
  | nil => cases hx
  | cons x' xs ih =>
    rw [List.mapM_cons] at h
    obtain ⟨y, hy, h⟩ := bind_eq_ok_iff.1 h
    obtain ⟨ys', hys', h⟩ := bind_eq_ok_iff.1 h
    cases h
    rcases List.mem_cons.1 hx with rfl | hx
    · exact ⟨y, List.mem_cons_self, hy⟩
    · obtain ⟨y', hmem, hy'⟩ := ih hys' hx
      exact ⟨y', List.mem_cons_of_mem _ hmem, hy'⟩

/-- What each step makes of its item, a run makes of all items. -/
theorem forall_mem_iff_of_mapM_eq_ok {ε α β : Type} {f : α → Except ε β} {xs : List α}
    {ys : List β} {P : β → Prop} {Q : α → Prop} (h : xs.mapM f = .ok ys)
    (hPQ : ∀ x ∈ xs, ∀ y, f x = .ok y → (P y ↔ Q x)) : (∀ y ∈ ys, P y) ↔ ∀ x ∈ xs, Q x := by
  constructor
  · intro hP x hx
    obtain ⟨y, hy, hxy⟩ := exists_of_mem_of_mapM_eq_ok h hx
    exact (hPQ x hx y hxy).1 (hP y hy)
  · intro hQ y hy
    obtain ⟨x, hx, hxy⟩ := mem_of_mapM_eq_ok h hy
    exact (hPQ x hx y hxy).2 (hQ x hx)

theorem mapM_eq_ok_iff {ε α β : Type} {f : α → Except ε β} {xs : List α} {ys : List β} :
    xs.mapM f = .ok ys ↔ List.Forall₂ (fun x y => f x = .ok y) xs ys := by
  induction xs generalizing ys with
  | nil => simp [pure, Except.pure, eq_comm]
  | cons x xs ih =>
    rw [List.mapM_cons, bind_eq_ok_iff, List.forall₂_cons_left_iff]
    simp only [bind_eq_ok_iff, ih]
    constructor
    · rintro ⟨y, hy, ys', hys', h⟩
      cases h
      exact ⟨y, ys', hy, hys', rfl⟩
    · rintro ⟨y, ys', hy, hys', rfl⟩
      exact ⟨y, hy, ys', hys', rfl⟩

theorem mapM_eq_some_iff {α β : Type} {f : α → Option β} {xs : List α} {ys : List β} :
    xs.mapM f = some ys ↔ List.Forall₂ (fun x y => f x = some y) xs ys := by
  induction xs generalizing ys with
  | nil => simp [eq_comm]
  | cons x xs ih =>
    rw [List.mapM_cons, List.forall₂_cons_left_iff]
    simp only [Option.bind_eq_bind, Option.bind_eq_some_iff, ih]
    constructor
    · rintro ⟨y, hy, ys', hys', h⟩
      cases h
      exact ⟨y, ys', hy, hys', rfl⟩
    · rintro ⟨y, ys', hy, hys', rfl⟩
      exact ⟨y, hy, ys', hys', rfl⟩

/-- What each step keeps of its item, a run keeps of the list. -/
theorem map_eq_map_of_mapM_eq_ok {ε α β γ : Type} {f : α → Except ε β} {p : α → γ} {q : β → γ}
    {xs : List α} {ys : List β} (h : xs.mapM f = .ok ys)
    (hpq : ∀ x y, f x = .ok y → p x = q y) : xs.map p = ys.map q := by
  rw [← List.forall₂_eq_eq_eq, List.forall₂_map_left_iff, List.forall₂_map_right_iff]
  exact (mapM_eq_ok_iff.1 h).imp hpq

/-- If each step makes its item from a third thing, a run makes the list from such things. -/
theorem exists_map_of_mapM_eq_ok {ε α β γ : Type} {f : α → Except ε β} {R : α → γ → Prop}
    {g : γ → β} {xs : List α} {ys : List β} (h : xs.mapM f = .ok ys)
    (hf : ∀ x y, f x = .ok y → ∃ z, R x z ∧ g z = y) :
    ∃ zs, List.Forall₂ R xs zs ∧ zs.map g = ys := by
  have hxy := mapM_eq_ok_iff.1 h
  clear h
  induction hxy with
  | nil => exact ⟨[], .nil, rfl⟩
  | cons head _ ih =>
    obtain ⟨z, hz, rfl⟩ := hf _ _ head
    obtain ⟨zs, hzs, rfl⟩ := ih
    exact ⟨z :: zs, .cons hz hzs, rfl⟩

theorem mapM_map_eq_ok {ε α β γ : Type} {f : α → Except ε β} {g : γ → α} {k : γ → β}
    {xs : List γ} (h : ∀ x ∈ xs, f (g x) = .ok (k x)) :
    (xs.map g).mapM f = .ok (xs.map k) := by
  rw [mapM_eq_ok_iff, List.forall₂_map_left_iff, List.forall₂_map_right_iff, List.forall₂_same]
  exact h

theorem toOption_eq_some_iff {ε α : Type} {x : Except ε α} {a : α} :
    x.toOption = some a ↔ x = .ok a := by
  cases x <;> simp [Except.toOption]

theorem mapError_eq_ok_iff {ε ε' α : Type} {x : Except ε α} {f : ε → ε'} {a : α} :
    x.mapError f = .ok a ↔ x = .ok a := by
  cases x with
  | error e => exact ⟨nofun, nofun⟩
  | ok b => exact ⟨fun h => by cases h; rfl, fun h => by cases h; rfl⟩

theorem mapError_eq_error_iff {ε ε' α : Type} {x : Except ε α} {f : ε → ε'} {e' : ε'} :
    x.mapError f = .error e' ↔ ∃ e, x = .error e ∧ f e = e' := by
  cases x with
  | error e =>
    constructor
    · rintro ⟨⟩
      exact ⟨e, rfl, rfl⟩
    · rintro ⟨_, ⟨⟩, rfl⟩
      rfl
  | ok b => exact ⟨nofun, nofun⟩

end PacketTypings
