import PacketTypings.Proofs.Typing.Comparison
import PacketTypings.Typing.Typer

/-! Paths of one step, which a switch does not walk but looks up where an arm needs their field.
Main statement: the lookup selects just the field that the walk would have come to, unless the step
stays: that step leads to no field, but is looked up as the empty name. -/

namespace PacketTypings

namespace FieldPath

/-- Every alternative of a path has a step. -/
theorem exists_cons_of_alternativesOf {length : Nat} {expected : Expected} {ts : List Token}
    {as : List (List Step)} (h : alternativesOf length expected ts = .ok as) :
    ∃ x steps rest, as = (x :: steps) :: rest := by
  cases ts using alternativesOf.fun_cases with
  | case1 | case2 | case3 | case5 => cases h
  | case4 n w =>
    cases h
    exact ⟨_, _, _, rfl⟩
  | case6 n w m rest =>
    obtain ⟨as', -, h⟩ := bind_eq_ok_iff.1 h
    cases h
    cases as' <;> exact ⟨_, _, _, rfl⟩
  | case7 n w m rest =>
    obtain ⟨as', -, h⟩ := bind_eq_ok_iff.1 h
    cases h
    exact ⟨_, _, _, rfl⟩

/-- A path that is not walked is one step, and no step up. -/
theorem primary_of_sibling {text : String} {path : FieldPath} (read : ofText text = .ok path)
    (sibling : path.isTraversal = false) :
    path.primary = [.current] ∨ ∃ name, path.primary = [.name name] := by
  obtain ⟨as, has, h⟩ := bind_eq_ok_iff.1 read
  cases h
  obtain ⟨x, steps, rest, rfl⟩ := exists_cons_of_alternativesOf has
  rw [isTraversal, Bool.or_eq_false_iff] at sibling
  obtain ⟨hlength, hparent⟩ := sibling
  cases steps with
  | cons y steps => simp [primary] at hlength
  | nil =>
    cases x with
    | parent => simp [primary] at hparent
    | current => exact .inl rfl
    | name name => exact .inr ⟨name, rfl⟩

end FieldPath

namespace Scope

variable {s : Scope} {path : FieldPath} {f : Field}

theorem resolve_current (h : path.primary = [.current]) : s.resolve path = .ok (.scope s) := by
  rw [resolve, h]
  rfl

theorem resolve_name_eq_ok_iff {name : String} (h : path.primary = [.name name]) :
    s.resolve path = .ok (.field f) ↔ ∃ i, s.Sees (Step.fieldPart name) i f := by
  have hwalk : (Target.scope s).walk [.name name] = (Target.scope s).step (.name name) := by
    rw [Target.walk_cons]
    cases (Target.scope s).step (.name name) <;> rfl
  rw [resolve, mapError_eq_ok_iff, h, hwalk, Target.step_name_of_scope_eq_ok_iff]
  constructor
  · rintro ⟨i, g, sees, hg⟩
    cases hg
    exact ⟨i, sees⟩
  · rintro ⟨i, sees⟩
    exact ⟨i, f, sees, rfl⟩

end Scope

namespace Comparison

variable {s : Scope} {path : FieldPath}

theorem sibling_eq_ok_iff_of_name {name : String} (h : path.primary = [.name name]) {f : Field} :
    (Comparison.mk path s none).sibling = .ok f ↔ ∃ i, s.Sees (Step.fieldPart name) i f := by
  have hname : path.siblingName = Step.fieldPart name := by
    rw [FieldPath.siblingName, FieldPath.targetName?, h]
    rfl
  rw [sibling_eq_ok_iff, hname]

theorem sibling_eq_ok_iff_of_current (h : path.primary = [.current]) {f : Field} :
    (Comparison.mk path s none).sibling = .ok f ↔ ∃ i, s.Sees "" i f := by
  have hname : path.siblingName = "" := by
    rw [FieldPath.siblingName, FieldPath.targetName?, h]
    rfl
  rw [sibling_eq_ok_iff, hname]

/-- A path that is not walked selects a field by its lookup exactly if the walk would come to that
field, unless the path stays and a field with the empty name is seen: the walk comes to no field
then, and the lookup to the latest of that name. -/
theorem sibling_iff_resolve {text : String} (read : FieldPath.read text = .ok path)
    (sibling : path.isTraversal = false) (s : Scope) :
    Comparison.ofText text s = .ok ⟨path, s, none⟩ ∧
    ((∀ f, (Comparison.mk path s none).sibling = .ok f ↔ s.resolve path = .ok (.field f)) ↔
      path.primary ≠ [.current] ∨ ∀ f ∈ s.visible, f.name ≠ some "") ∧
    (path.primary = [.current] → s.resolve path = .ok (.scope s) ∧
      ∀ f, (Comparison.mk path s none).sibling = .ok f ↔ ∃ i, s.Sees "" i f) := by
  rw [FieldPath.read_eq_ok_iff] at read
  refine ⟨ofText_eq_ok_iff.2 (.sibling read sibling), ?_, fun hcurrent =>
    ⟨Scope.resolve_current hcurrent, fun f => sibling_eq_ok_iff_of_current hcurrent⟩⟩
  rcases FieldPath.primary_of_sibling read sibling with hcurrent | ⟨name, hname⟩
  · have hnowhere (f : Field) : ¬ s.resolve path = .ok (.field f) := by
      rw [Scope.resolve_current hcurrent]
      rintro ⟨⟩
    have hunnamed : (∀ f, ¬ s.lookup? "" = some f) ↔ ∀ f ∈ s.visible, f.name ≠ some "" := by
      rw [← Scope.lookup?_eq_none_iff, Option.eq_none_iff_forall_ne_some]
    simp only [hnowhere, iff_false, hcurrent, ne_eq, not_true_eq_false, false_or, ← hunnamed,
      sibling_eq_ok_iff_of_current hcurrent, Scope.lookup?_eq_some_iff]
  · refine iff_of_true (fun f => ?_) (.inl (by simp [hname]))
    rw [sibling_eq_ok_iff_of_name hname, Scope.resolve_name_eq_ok_iff hname]

/-- Of two modes the later is selected either way, by a path that goes on to a member. -/
theorem sibling_iff_resolve_of_repeated_mode :
    let later : Field := ⟨some "mode", .primitive "Mode", false⟩
    let s : Scope := .within .root [⟨some "mode", .primitive "bool", false⟩, later,
      ⟨some "data", .primitive "u8", false⟩] 2
    let path : FieldPath := ⟨"mode.open", [[.name "mode.open"]]⟩
    FieldPath.read "mode.open" = .ok path ∧ path.isTraversal = false ∧
      (Comparison.mk path s none).sibling = .ok later ∧ s.resolve path = .ok (.field later) := by
  intro later s path
  have read : FieldPath.read "mode.open" = .ok path := rfl
  have hfound : (Comparison.mk path s none).sibling = .ok later := rfl
  obtain ⟨-, hiff, -⟩ := sibling_iff_resolve read rfl s
  exact ⟨read, rfl, hfound, (hiff.2 (.inl (by decide)) later).1 hfound⟩

/-- The step that stays is looked up as a field with the empty name, and a `true` arm is keyed by
that field. -/
theorem sibling_of_path_that_stays :
    let unnamed : Field := ⟨some "", .primitive "bool", false⟩
    let data : Field := ⟨some "data", .switch "." [("true", .primitive "u8")] none, false⟩
    let s : Scope := .within .root [unnamed, data] 1
    let path : FieldPath := ⟨".", [[.current]]⟩
    FieldPath.read "." = .ok path ∧ path.isTraversal = false ∧
      (Comparison.mk path s none).sibling = .ok unnamed ∧
      s.resolve path ≠ .ok (.field unnamed) ∧ s.resolve path = .ok (.scope s) ∧
      (Typer.mk .omit []).type none .root (.container [unnamed, data]) =
        .ok (.intersection [.record [("", Ground.boolean.term)],
          .union [.record [("", .truth true), ("data", Ground.number.term)]]]) := by
  intro unnamed data s path
  refine ⟨rfl, rfl, rfl, ?_, rfl, rfl⟩
  rintro ⟨⟩

end Comparison
end PacketTypings
