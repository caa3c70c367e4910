import PacketTypings.Document.Basic
import Mathlib.Data.List.Sort
import Mathlib.Data.String.Basic

/-! The names that nothing in a document supplies. Main statements: they stand in strictly ascending
order, and a name is among them exactly if a declaration refers to it and none is called so; so the
order of the declarations does not matter. -/

namespace PacketTypings.Document

theorem mem_insertName {x y : String} {names : List String} :
    y ∈ insertName x names ↔ y = x ∨ y ∈ names := by
  induction names with
  | nil => simp [insertName]
  | cons z zs ih =>
    unfold insertName
    split
    · rw [List.mem_cons]
    split
    · next h =>
      subst h
      simp
    · rw [List.mem_cons, ih, List.mem_cons, or_left_comm]

theorem mem_ascending {y : String} {names : List String} : y ∈ ascending names ↔ y ∈ names := by
  induction names with
  | nil => rfl
  | cons x xs ih =>
    change y ∈ insertName x (ascending xs) ↔ _
    rw [mem_insertName, ih, List.mem_cons]

theorem pairwise_insertName {x : String} {names : List String} (h : names.Pairwise (· < ·)) :
    (insertName x names).Pairwise (· < ·) := by
  induction names with
  | nil => exact List.pairwise_singleton _ _
  | cons y ys ih =>
    obtain ⟨hy, hys⟩ := List.pairwise_cons.1 h
    unfold insertName
    split
    · next hxy =>
      refine List.pairwise_cons.2 ⟨fun z hz => ?_, h⟩
      rcases List.mem_cons.1 hz with rfl | hz
      · exact hxy
      · exact lt_trans hxy (hy z hz)
    split
    · exact h
    · next hxy hne =>
      refine List.pairwise_cons.2 ⟨fun z hz => ?_, ih hys⟩
      rcases mem_insertName.1 hz with rfl | hz
      · exact lt_of_le_of_ne (not_lt.1 hxy) (Ne.symm hne)
      · exact hy z hz

theorem pairwise_ascending (names : List String) : (ascending names).Pairwise (· < ·) := by
  induction names with
  | nil => exact .nil
  | cons x xs ih => exact pairwise_insertName ih

/-- What a name stands for is supplied by nothing, though something refers to it. -/
theorem mem_unresolved_iff {d : Document} {name : String} : name ∈ d.unresolved ↔
    (∃ declaration ∈ d.declarations, ∃ r ∈ declaration.references, referredType r = name) ∧
      name ∉ d.knownNames := by
  rw [unresolved, mem_ascending, List.mem_filter, List.mem_map]
  simp only [List.mem_flatMap, Bool.not_eq_true', ← Bool.not_eq_true, List.contains_iff_mem]
  refine and_congr_left fun _ => ?_
  constructor
  · rintro ⟨r, ⟨declaration, hdeclaration, hr⟩, hname⟩
    exact ⟨declaration, hdeclaration, r, hr, hname⟩
  · rintro ⟨declaration, hdeclaration, r, hr, hname⟩
    exact ⟨r, ⟨declaration, hdeclaration, hr⟩, hname⟩

/-- The order of declarations and skipped entries does not matter. -/
theorem unresolved_eq_of_perm {d d' : Document}
    (hdeclarations : d.declarations.Perm d'.declarations)
    (hskipped : d.skipped.Perm d'.skipped) : d.unresolved = d'.unresolved := by
  refine (pairwise_ascending _).eq_of_mem_iff (pairwise_ascending _) fun name => ?_
  change name ∈ d.unresolved ↔ name ∈ d'.unresolved
  have hknown : name ∈ d.knownNames ↔ name ∈ d'.knownNames :=
    ((hdeclarations.map Declaration.name).append hskipped).mem_iff
  simp only [mem_unresolved_iff, hknown, hdeclarations.mem_iff]

end PacketTypings.Document
