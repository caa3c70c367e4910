import PacketTypings.Proofs.Typing.Agreement
import PacketTypings.Proofs.Typing.Comparison

/-! A node moved to another scope. What a path reaches from a chain of scopes, it reaches as well if
the chain stands on other scopes; only a path that fails can then lead further. Main statement: a
node that has a type at top level has the same type wherever it stands. -/

namespace PacketTypings

namespace Scope

/-- The same chain of scopes, on `base` in place of the root. -/
def onto (base : Scope) : Scope → Scope
  | root => base
  | within outer fields index => within (onto base outer) fields index

theorem above?_onto (base : Scope) {k : Nat} {s u : Scope} (h : s.above? k = some u) :
    (onto base s).above? k = some (onto base u) := by
  induction k generalizing s with
  | zero =>
    cases h
    rfl
  | succ k ih =>
    cases s with
    | root => cases h
    | within outer fields index => exact ih h

theorem Sees.onto (base : Scope) {s : Scope} {name : String} {i : Nat} {f : Field}
    (h : s.Sees name i f) : (Scope.onto base s).Sees name i f := by
  cases h with
  | upTo le_index getElem? named later => exact .upTo le_index getElem? named later

theorem Selects.onto (base : Scope) {s : Scope} {texts : List String} {is : List Nat} {f : Field}
    (h : s.Selects texts is f) : (Scope.onto base s).Selects texts is f := by
  cases h with
  | visible sees rest => exact .visible (sees.onto base) rest

/-- What fails on the shorter chain may succeed on the longer one. -/
theorem agrees_onto (base s : Scope) : s.Agrees True (onto base s) where
  resolveField path := by
    -- what a path leads to is told by how far it climbs and what it selects there
    apply Follows.of_exists_ok
    intro f hf
    rw [resolveField_eq_ok_iff, reaches_field_iff] at hf
    obtain ⟨k, u, texts, is, moves, above, selects⟩ := hf
    refine ⟨f, ?_, rfl, rfl⟩
    rw [resolveField_eq_ok_iff, reaches_field_iff]
    exact ⟨k, onto base u, texts, is, moves, above?_onto base above, selects.onto base⟩
  sibling path := by
    apply Follows.of_exists_ok
    intro f hf
    rw [Comparison.sibling_eq_ok_iff] at hf
    obtain ⟨i, sees⟩ := hf
    refine ⟨f, ?_, rfl, rfl⟩
    rw [Comparison.sibling_eq_ok_iff]
    exact ⟨i, sees.onto base⟩

end Scope

namespace Typer

theorem type_onto (t : Typer) (base : Scope) (owner? : Option String) (s : Scope) (n : Node) :
    Follows True Eq (t.type owner? s n) (t.type owner? (.onto base s) n) := by
  induction n using Node.induction generalizing owner? s with
  | primitive name => exact .refl _
  | mapper literals => exact .refl _
  | bitflags flags => exact .refl _
  | bitfield names => exact .refl _
  | parametrized kind => exact .refl _
  | array element ih => exact follows_array (ih none s)
  | option content ih => exact follows_option rfl (ih none s)
  | encapsulated lengthType content ih => exact follows_encapsulated lengthType (ih none s)
  | container fields ih =>
    -- a field's scope is built on that of its container, so on both sides the chain grows alike
    apply follows_container
    intro i f hf
    apply follows_own rfl rfl rfl fun _ => rfl
    intro _
    exact ih f (List.mem_of_getElem? hf) f.name (.within s fields i)
  | switch compareTo arms default? iharms ihdefault =>
    apply follows_switch (Scope.agrees_onto base s)
    · rw [List.forall₂_same]
      exact fun x hx => ⟨rfl, iharms x hx none s⟩
    · cases default? with
      | none => exact .none
      | some d => exact .some (ihdefault d rfl none s)

theorem type_of_not_isSwitch {n : Node} (h : n.isSwitch = false) (t : Typer)
    (owner? : Option String) (s : Scope) : t.type owner? s n = t.type none s n := by
  cases n with
  | switch => cases h
  | _ => simp only [type]

/-- A node that has a type at top level has the same type in every scope, unless the node is a
switch that a field of that scope owns: nothing of the scope is captured. -/
theorem type_eq_of_type_root {t : Typer} {n : Node} {e : TypeTerm}
    (h : t.type none .root n = .ok e) (s : Scope) {owner? : Option String}
    (free : n.isSwitch = true → owner? = none) : t.type owner? s n = .ok e := by
  have hnone : t.type none s n = .ok e := by
    obtain ⟨e', he', rfl⟩ := (t.type_onto s none .root n).exists_ok h
    exact he'
  by_cases hn : n.isSwitch = true
  · rw [free hn]
    exact hnone
  · rw [type_of_not_isSwitch (by simpa using hn)]
    exact hnone

/-- A container whose inner switch climbs to `kind`, typed in a scope with a `kind` of its own. -/
theorem type_eq_of_type_root_of_kind_inside :
    let switch : Node := .switch "../kind" [("true", .primitive "u8")] (some (.primitive "Rest"))
    let body : Node := .container [⟨some "data", switch, false⟩]
    let n : Node := .container [⟨some "kind", .primitive "bool", false⟩, ⟨some "body", body, false⟩]
    let s : Scope :=
      .within .root [⟨some "kind", .primitive "Mode", false⟩, ⟨some "entry", n, false⟩] 1
    let arms : TypeTerm := .union
      [.record [("kind", .truth true), ("data", .primitive "number")],
        .record [("data", .reference "Rest")]]
    let e : TypeTerm := .record [("kind", .primitive "boolean"),
      ("body", .intersection [.record [], arms])]
    (Typer.mk .omit []).type none .root n = .ok e ∧
      (Typer.mk .omit []).type (some "entry") s n = .ok e := by
  intro switch body n s arms e
  have h : (Typer.mk .omit []).type none .root n = .ok e := rfl
  exact ⟨h, type_eq_of_type_root h s nofun⟩

end Typer
end PacketTypings
