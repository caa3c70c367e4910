import PacketTypings.Scope

/-! Lookups by name and by height. A lookup by name finds the last field of that name, so the
position it finds is unique; a scope has as many scopes above it as it is deep. -/

namespace PacketTypings

namespace Field

/-- `f` stands at position `i`, and no field behind it has its name. -/
structure LatestAt (name : String) (fields : List Field) (i : Nat) (f : Field) : Prop where
  getElem? : fields[i]? = some f
  named : f.name = some name
  later : ∀ j g, i < j → fields[j]? = some g → g.name ≠ some name

theorem latestAt_of_split {name : String} {before after : List Field} {f : Field}
    (hf : f.name = some name) (hafter : ∀ g ∈ after, g.name ≠ some name) :
    LatestAt name (before ++ f :: after) before.length f := by
  refine ⟨by simp, hf, ?_⟩
  intro j g hj hg
  obtain ⟨d, rfl⟩ : ∃ d, j = before.length + (d + 1) := ⟨j - before.length - 1, by omega⟩
  rw [List.getElem?_append_right (by omega), Nat.add_sub_cancel_left,
    List.getElem?_cons_succ] at hg
  exact hafter g (List.mem_of_getElem? hg)

theorem lastNamed_eq_some_iff {name : String} {fields : List Field} {f : Field} :
    lastNamed name fields = some f ↔ ∃ i, LatestAt name fields i f := by
  unfold lastNamed
  rw [List.find?_eq_some_iff_append]
  constructor
  · rintro ⟨hf, after, before, hsplit, hafter⟩
    have hfields : fields = before.reverse ++ f :: after.reverse := by
      rw [← List.reverse_reverse fields, hsplit]
      simp
    rw [hfields]
    refine ⟨_, latestAt_of_split (of_decide_eq_true hf) ?_⟩
    intro g hg
    simpa using hafter g (List.mem_reverse.1 hg)
  · rintro ⟨i, hf, hname, hlater⟩
    obtain ⟨hi, rfl⟩ := List.getElem?_eq_some_iff.1 hf
    refine ⟨decide_eq_true hname, (fields.drop (i + 1)).reverse, (fields.take i).reverse, ?_, ?_⟩
    · simp
    · intro g hg
      obtain ⟨d, hd⟩ := List.getElem?_of_mem (List.mem_reverse.1 hg)
      rw [List.getElem?_drop] at hd
      simpa using hlater _ g (by omega) hd

theorem LatestAt.unique {name : String} {fields : List Field} {i j : Nat} {f g : Field}
    (hf : LatestAt name fields i f) (hg : LatestAt name fields j g) : i = j ∧ f = g := by
  have hij : i = j := by
    rcases Nat.lt_trichotomy i j with h | h | h
    · exact absurd hg.named (hf.later j g h hg.getElem?)
    · exact h
    · exact absurd hf.named (hg.later i f h hf.getElem?)
  subst hij
  exact ⟨rfl, Option.some.inj (hf.getElem?.symm.trans hg.getElem?)⟩

end Field

namespace Scope

/-- The scope `k` steps above `s`. -/
def above? : Nat → Scope → Option Scope
  | 0, s => some s
  | k + 1, s => s.outer?.bind (above? k)

theorem above?_isSome_iff (k : Nat) (s : Scope) : (∃ t, s.above? k = some t) ↔ k ≤ s.depth := by
  induction k generalizing s with
  | zero => simp [above?]
  | succ k ih =>
    cases s with
    | root => simp [above?, outer?, depth]
    | within outer fields index =>
      rw [depth, Nat.add_le_add_iff_right, ← ih outer]
      rfl

/-- The latest field of that name, at position `i`, among those up to the scope's own. -/
inductive Sees : Scope → String → Nat → Field → Prop
  | upTo {outer : Scope} {fields : List Field} {index i : Nat} {name : String} {f : Field}
      (le_index : i ≤ index) (getElem? : fields[i]? = some f) (named : f.name = some name)
      (later : ∀ j g, i < j → j ≤ index → fields[j]? = some g → g.name ≠ some name) :
      Sees (within outer fields index) name i f

theorem sees_iff_latestAt {s : Scope} {name : String} {i : Nat} {f : Field} :
    s.Sees name i f ↔ Field.LatestAt name s.visible i f := by
  constructor
  · rintro ⟨hi, hf, hname, hlater⟩
    refine ⟨?_, hname, ?_⟩
    · rw [visible, List.getElem?_take_of_lt (by omega), hf]
    · intro j g hj hg
      rw [visible, List.getElem?_take] at hg
      split at hg
      · exact hlater j g hj (by omega) hg
      · cases hg
  · rintro ⟨hf, hname, hlater⟩
    cases s with
    | root => cases hf
    | within outer fields index =>
      rw [visible, List.getElem?_take] at hf
      split at hf
      · refine .upTo (by omega) hf hname ?_
        intro j g hj hle hg
        exact hlater j g hj (by rw [visible, List.getElem?_take_of_lt (by omega), hg])
      · cases hf

theorem lookup?_eq_some_iff {s : Scope} {name : String} {f : Field} :
    s.lookup? name = some f ↔ ∃ i, s.Sees name i f := by
  simp only [sees_iff_latestAt]
  exact Field.lastNamed_eq_some_iff

theorem lookup?_eq_none_iff {s : Scope} {name : String} :
    s.lookup? name = none ↔ ∀ f ∈ s.visible, f.name ≠ some name := by
  rw [lookup?, Field.lastNamed, List.find?_eq_none]
  simp only [List.mem_reverse, decide_eq_true_eq, ne_eq]

theorem named_of_lookup? {s : Scope} {name : String} {f : Field} (h : s.lookup? name = some f) :
    f.name = some name := by
  obtain ⟨i, hi⟩ := lookup?_eq_some_iff.1 h
  exact (sees_iff_latestAt.1 hi).named

theorem Sees.unique {s : Scope} {name : String} {i j : Nat} {f g : Field}
    (hf : s.Sees name i f) (hg : s.Sees name j g) : i = j ∧ f = g :=
  (sees_iff_latestAt.1 hf).unique (sees_iff_latestAt.1 hg)

end Scope
end PacketTypings
