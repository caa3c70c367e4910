import PacketTypings.Proofs.Results

/-! Two computations compared. Each lemma carries the comparison over one way of putting a
computation together, so two long computations are compared by comparing their steps. -/

namespace PacketTypings

/-- The second computation ends as the first one does: with a value that `V` relates to that of the
first, or with the same fault. Where `lax` holds, a fault of the first one leaves the second one
free. -/
inductive Follows {ε α β : Type} (lax : Prop) (V : α → β → Prop) :
    Except ε α → Except ε β → Prop
  | ok {a : α} {b : β} (related : V a b) : Follows lax V (.ok a) (.ok b)
  | fault (e : ε) : Follows lax V (.error e) (.error e)
  | free (e : ε) (y : Except ε β) (excused : lax) : Follows lax V (.error e) y

namespace Follows

variable {ε α β γ δ : Type} {lax : Prop} {V : α → β → Prop} {W : γ → δ → Prop}

theorem refl (x : Except ε α) : Follows lax Eq x x := by
  cases x with
  | error e => exact .fault e
  | ok a => exact .ok rfl

theorem eq {x y : Except ε α} (h : Follows False Eq x y) : x = y := by
  cases h with
  | ok related => rw [related]
  | fault e => rfl
  | free e y excused => exact excused.elim

theorem exists_ok {x : Except ε α} {y : Except ε β} {a : α} (h : Follows lax V x y)
    (hx : x = .ok a) : ∃ b, y = .ok b ∧ V a b := by
  subst hx
  cases h with
  | ok related => exact ⟨_, rfl, related⟩

theorem of_exists_ok {x : Except ε α} {y : Except ε β}
    (h : ∀ a, x = .ok a → ∃ b, y = .ok b ∧ V a b) : Follows True V x y := by
  cases x with
  | error e => exact .free e y trivial
  | ok a =>
    obtain ⟨b, rfl, hab⟩ := h a rfl
    exact .ok hab

theorem imp {V' : α → β → Prop} {x : Except ε α} {y : Except ε β} (h : Follows lax V x y)
    (hV : ∀ a b, V a b → V' a b) : Follows lax V' x y := by
  cases h with
  | ok related => exact .ok (hV _ _ related)
  | fault e => exact .fault e
  | free e y excused => exact .free e y excused

theorem bind {x : Except ε α} {y : Except ε β} {f : α → Except ε γ} {g : β → Except ε δ}
    (h : Follows lax V x y) (hfg : ∀ a b, V a b → Follows lax W (f a) (g b)) :
    Follows lax W (x >>= f) (y >>= g) := by
  cases h with
  | ok related => exact hfg _ _ related
  | fault e => exact .fault e
  | free e y excused => exact .free e _ excused

theorem bind_same {x y : Except ε α} {f : α → Except ε γ} {g : α → Except ε δ}
    (h : Follows lax Eq x y) (hfg : ∀ a, Follows lax W (f a) (g a)) :
    Follows lax W (x >>= f) (y >>= g) := by
  apply h.bind
  rintro a _ rfl
  exact hfg a

theorem map {x : Except ε α} {y : Except ε β} {f : α → γ} {g : β → δ} (h : Follows lax V x y)
    (hfg : ∀ a b, V a b → W (f a) (g b)) : Follows lax W (x.map f) (y.map g) := by
  cases h with
  | ok related => exact .ok (hfg _ _ related)
  | fault e => exact .fault e
  | free e y excused => exact .free e _ excused

theorem map_same {x y : Except ε α} (f : α → γ) (h : Follows lax Eq x y) :
    Follows lax Eq (x.map f) (y.map f) :=
  h.map fun _ _ hab => congrArg f hab

theorem mapError {ε' : Type} {x : Except ε α} {y : Except ε β} (f : ε → ε')
    (h : Follows lax V x y) : Follows lax V (x.mapError f) (y.mapError f) := by
  cases h with
  | ok related => exact .ok related
  | fault e => exact .fault (f e)
  | free e y excused => exact .free (f e) _ excused

theorem mapM_forall₂ {f : α → Except ε γ} {g : β → Except ε δ} {xs : List α} {ys : List β}
    (h : List.Forall₂ (fun x y => Follows lax W (f x) (g y)) xs ys) :
    Follows lax (List.Forall₂ W) (xs.mapM f) (ys.mapM g) := by
  induction h with
  | nil => exact .ok .nil
  | cons head _ ih =>
    rw [List.mapM_cons, List.mapM_cons]
    apply head.bind
    intro a b hab
    apply ih.bind
    intro as bs habs
    exact .ok (.cons hab habs)

theorem mapM {f : α → Except ε γ} {g : β → Except ε γ} {xs : List α} {ys : List β}
    (h : List.Forall₂ (fun x y => Follows lax Eq (f x) (g y)) xs ys) :
    Follows lax Eq (xs.mapM f) (ys.mapM g) := by
  apply (mapM_forall₂ h).imp
  intro as bs habs
  rwa [List.forall₂_eq_eq_eq] at habs

end Follows

/-- Both computations end alike: with values that `V` relates, or with faults that `E` relates. -/
inductive Matches {ε ε' α β : Type} (E : ε → ε' → Prop) (V : α → β → Prop) :
    Except ε α → Except ε' β → Prop
  | ok {a : α} {b : β} (related : V a b) : Matches E V (.ok a) (.ok b)
  | fault {e : ε} {e' : ε'} (related : E e e') : Matches E V (.error e) (.error e')

namespace Matches

variable {ε ε' α β γ δ : Type} {E : ε → ε' → Prop} {V : α → β → Prop} {W : γ → δ → Prop}

theorem bind {x : Except ε α} {y : Except ε' β} {f : α → Except ε γ} {g : β → Except ε' δ}
    (h : Matches E V x y) (hfg : ∀ a b, V a b → Matches E W (f a) (g b)) :
    Matches E W (x >>= f) (y >>= g) := by
  cases h with
  | ok related => exact hfg _ _ related
  | fault related => exact .fault related

theorem refl {E : ε → ε → Prop} {V : α → α → Prop} (hE : ∀ e, E e e) (hV : ∀ a, V a a)
    (x : Except ε α) : Matches E V x x := by
  cases x with
  | error e => exact .fault (hE e)
  | ok a => exact .ok (hV a)

/-- The same fault may be told in different words. -/
theorem of_follows {ε'' : Type} {x : Except ε'' α} {y : Except ε'' β} {f : ε'' → ε} {g : ε'' → ε'}
    (h : Follows False V x y) (hE : ∀ e, E (f e) (g e)) :
    Matches E V (x.mapError f) (y.mapError g) := by
  cases h with
  | ok related => exact .ok related
  | fault e => exact .fault (hE e)
  | free e y excused => exact excused.elim

theorem exists_ok {x : Except ε α} {y : Except ε' β} {a : α} (h : Matches E V x y)
    (hx : x = .ok a) : ∃ b, y = .ok b ∧ V a b := by
  subst hx
  cases h with
  | ok related => exact ⟨_, rfl, related⟩

theorem and_eq_ok {x : Except ε α} {y : Except ε' β} (h : Matches E V x y) :
    Matches E (fun a b => x = .ok a ∧ V a b) x y := by
  cases h with
  | ok related => exact .ok ⟨rfl, related⟩
  | fault related => exact .fault related

/-- If both steps make their items from one thing, both runs make their lists from one list. -/
theorem mapM {f : α → Except ε β} {g : α → Except ε' β} {R : α → γ → Prop} {k k' : γ → β}
    {xs : List α} (h : ∀ x ∈ xs,
      Matches E (fun b b' => ∃ z, R x z ∧ b = k z ∧ b' = k' z) (f x) (g x)) :
    Matches E (fun bs bs' => ∃ zs, List.Forall₂ R xs zs ∧ bs = zs.map k ∧ bs' = zs.map k')
      (xs.mapM f) (xs.mapM g) := by
  induction xs with
  | nil => exact .ok ⟨[], .nil, rfl, rfl⟩
  | cons x xs ih =>
    rw [List.forall_mem_cons] at h
    rw [List.mapM_cons, List.mapM_cons]
    apply h.1.bind
    rintro _ _ ⟨z, hz, rfl, rfl⟩
    apply (ih h.2).bind
    rintro _ _ ⟨zs, hzs, rfl, rfl⟩
    exact .ok ⟨z :: zs, .cons hz hzs, rfl, rfl⟩

end Matches
end PacketTypings
