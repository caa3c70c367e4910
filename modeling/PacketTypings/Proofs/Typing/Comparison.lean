import PacketTypings.Proofs.Scope.Resolution
import PacketTypings.Typing.Switch

/-! What a switch compares with. Main statements: a comparison is made exactly if the path can be
read and, where it is walked, leads to a field; a condition fails exactly for a `true` arm whose
sibling is not visible. -/

namespace PacketTypings

/-- The field whose type a sibling's `true` arm goes by; a path that stays has the empty name. -/
def FieldPath.siblingName (p : FieldPath) : String := p.targetName?.getD ""

theorem FieldPath.text_of_ofText {compareTo : String} {path : FieldPath}
    (h : FieldPath.ofText compareTo = .ok path) : path.text = compareTo := by
  obtain ⟨alternatives, -, h⟩ := bind_eq_ok_iff.1 h
  cases h
  rfl

theorem Scope.resolveField_eq_ok_iff {s : Scope} {path : FieldPath} {f : Field} :
    s.resolveField path = .ok f ↔ s.Reaches (Step.moves path.primary) (.field f) := by
  rw [← Scope.resolve_eq_ok_iff, resolveField]
  cases s.resolve path with
  | error e => simp
  | ok t => cases t <;> simp

theorem Scope.exists_name_of_resolveField {s : Scope} {path : FieldPath} {f : Field}
    (h : s.resolveField path = .ok f) : ∃ name, f.name = some name := by
  obtain ⟨k, u, texts, is, -, -, selects⟩ := reaches_field_iff.1 (resolveField_eq_ok_iff.1 h)
  exact selects.exists_name

theorem Scope.resolveField_error {s : Scope} {path : FieldPath} {e : Fault}
    (h : s.resolveField path = .error e) :
    (∀ f, ¬ s.Reaches (Step.moves path.primary) (.field f)) ∧
      ∃ reason, e = .brokenPath path.text reason := by
  constructor
  · intro f hf
    rw [resolveField_eq_ok_iff.2 hf] at h
    cases h
  · rw [resolveField] at h
    split at h
    · next e' hresolve =>
      cases h
      exact Scope.resolve_error hresolve
    · cases h
    · cases h
      exact ⟨.namesScope, rfl⟩

theorem FieldPath.read_eq_ok_iff {text : String} {path : FieldPath} :
    FieldPath.read text = .ok path ↔ FieldPath.ofText text = .ok path := by
  rw [FieldPath.read]
  exact mapError_eq_ok_iff

namespace Comparison

/-- The comparison that a switch makes in a scope. -/
inductive Made (compareTo : String) (s : Scope) : Comparison → Prop
  | walked {path : FieldPath} {f : Field} (read : FieldPath.ofText compareTo = .ok path)
      (traversal : path.isTraversal = true) (resolve : s.resolveField path = .ok f) :
      Made compareTo s ⟨path, s, some f⟩
  | sibling {path : FieldPath} (read : FieldPath.ofText compareTo = .ok path)
      (sibling : path.isTraversal = false) : Made compareTo s ⟨path, s, none⟩

theorem ofText_eq_ok_iff {compareTo : String} {s : Scope} {c : Comparison} :
    ofText compareTo s = .ok c ↔ Made compareTo s c := by
  rw [ofText, bind_eq_ok_iff]
  simp only [FieldPath.read_eq_ok_iff]
  constructor
  · rintro ⟨path, hread, h⟩
    split at h
    · next htraversal =>
      obtain ⟨f, hf, h⟩ := bind_eq_ok_iff.1 h
      cases h
      exact .walked hread htraversal hf
    · next hsibling =>
      cases h
      exact .sibling hread (by simpa using hsibling)
  · rintro (⟨read, traversal, resolve⟩ | ⟨read, sibling⟩)
    · exact ⟨_, read, by rw [if_pos traversal, resolve]; rfl⟩
    · exact ⟨_, read, by rw [if_neg (by simp [sibling])]; rfl⟩

theorem scope_of_ofText {compareTo : String} {s : Scope} {c : Comparison}
    (h : ofText compareTo s = .ok c) : c.scope = s := by
  cases ofText_eq_ok_iff.1 h <;> rfl

theorem sibling_eq_ok_iff {c : Comparison} {f : Field} :
    c.sibling = .ok f ↔ ∃ i, c.scope.Sees c.path.siblingName i f := by
  rw [← Scope.lookup?_eq_some_iff]
  change (c.scope.lookup? c.path.siblingName).elim _ _ = _ ↔ _
  cases c.scope.lookup? c.path.siblingName <;> simp

theorem sibling_eq_error_iff {c : Comparison} {e : Fault} : c.sibling = .error e ↔
    (∀ f ∈ c.scope.visible, f.name ≠ some c.path.siblingName) ∧
      e = .unresolvedDiscriminant c.path.text c.path.siblingName := by
  change (c.scope.lookup? c.path.siblingName).elim _ _ = _ ↔ _
  rw [← Scope.lookup?_eq_none_iff]
  cases c.scope.lookup? c.path.siblingName with
  | none =>
    constructor
    · rintro ⟨⟩
      exact ⟨rfl, rfl⟩
    · rintro ⟨-, rfl⟩
      rfl
  | some f =>
    constructor
    · rintro ⟨⟩
    · rintro ⟨⟨⟩, -⟩

/-- Literal values are compared under the name of the field that a walked path leads to, and under
the text of any other path. -/
theorem Made.exists_label {compareTo : String} {s : Scope} {c : Comparison}
    (h : Made compareTo s c) : ∃ label, (∀ f ∈ c.walked?, f.name = some label) ∧
      (c.walked? = none → label = compareTo) ∧
      ∀ key, key ≠ holdsKey → c.condition key = .ok (label, .text key) := by
  cases h with
  | walked _ _ resolve =>
    obtain ⟨name, hname⟩ := Scope.exists_name_of_resolveField resolve
    refine ⟨name, ?_, nofun, fun key hkey => ?_⟩
    · rintro _ ⟨⟩
      exact hname
    · rw [condition, if_neg hkey, label, Option.bind_some, hname]
      rfl
  | sibling read _ =>
    refine ⟨compareTo, nofun, fun _ => rfl, fun key hkey => ?_⟩
    rw [condition, if_neg hkey, label, Option.bind_none, FieldPath.text_of_ofText read]
    rfl

theorem condition_eq_error_iff {c : Comparison} {key : String} {e : Fault} :
    c.condition key = .error e ↔ key = holdsKey ∧ c.walked? = none ∧ c.sibling = .error e := by
  rw [condition]
  split
  · next hkey =>
    rw [bind_eq_error_iff, target]
    cases c.walked? <;> simp [hkey, pure, Except.pure]
  · next hkey => simp [hkey, pure, Except.pure]

end Comparison
end PacketTypings
