import PacketTypings.Proofs.Results
import PacketTypings.Proofs.Scope.Lookup

/-! What a path leads to. The steps that stay do not matter. Of the others, steps up come first and
names follow: the first name selects a visible field of the scope reached so far, and every other
name a member of the container before it. Nothing else resolves. -/

namespace PacketTypings

namespace Step

/-- The field that a name starts from. -/
def fieldPart (text : String) : String := String.ofList (text.toList.takeWhile (· != '.'))

/-- The steps other than those that stay. -/
def moves (steps : List Step) : List Step := steps.filter (· ≠ current)

theorem climb_unique {k k' : Nat} {texts texts' : List String}
    (h : List.replicate k parent ++ texts.map name = List.replicate k' parent ++ texts'.map name) :
    k = k' ∧ texts = texts' := by
  induction k generalizing k' with
  | zero =>
    cases k' with
    | zero => exact ⟨rfl, List.map_inj_right (fun _ _ => Step.name.inj) |>.1 h⟩
    | succ k' => cases texts <;> cases h
  | succ k ih =>
    cases k' with
    | zero => cases texts' <;> cases h
    | succ k' =>
      rw [List.replicate_succ, List.replicate_succ, List.cons_append, List.cons_append,
        List.cons.injEq] at h
      obtain ⟨rfl, rfl⟩ := ih h.2
      exact ⟨rfl, rfl⟩

end Step

/-- The names lead from a field down through its members, at those positions. -/
inductive Field.Leads : Field → List String → List Nat → Field → Prop
  | here (f : Field) : Leads f [] [] f
  | member {f g h : Field} {fields : List Field} {i : Nat} {is : List Nat} {text : String}
      {texts : List String} (container : f.node = .container fields)
      (latest : Field.LatestAt (Step.fieldPart text) fields i g) (rest : Leads g texts is h) :
      Leads f (text :: texts) (i :: is) h

theorem Field.Leads.unique {f g g' : Field} {texts : List String} {is is' : List Nat}
    (h : f.Leads texts is g) (h' : f.Leads texts is' g') : is = is' ∧ g = g' := by
  induction h generalizing is' with
  | here f =>
    cases h'
    exact ⟨rfl, rfl⟩
  | member container latest _ ih =>
    cases h' with
    | member container' latest' rest' =>
      cases container.symm.trans container'
      obtain ⟨rfl, rfl⟩ := latest.unique latest'
      obtain ⟨rfl, rfl⟩ := ih rest'
      exact ⟨rfl, rfl⟩

/-- What a name leads to has that name. -/
theorem Field.Leads.exists_name {f g : Field} {texts : List String} {is : List Nat}
    (h : f.Leads texts is g) (hf : ∃ name, f.name = some name) : ∃ name, g.name = some name := by
  induction h with
  | here f => exact hf
  | member _ latest _ ih => exact ih ⟨_, latest.named⟩

namespace Scope

/-- The names lead from a visible field of the scope down through its members. -/
inductive Selects : Scope → List String → List Nat → Field → Prop
  | visible {s : Scope} {g h : Field} {i : Nat} {is : List Nat} {text : String}
      {texts : List String} (sees : s.Sees (Step.fieldPart text) i g) (rest : g.Leads texts is h) :
      Selects s (text :: texts) (i :: is) h

theorem Selects.unique {s : Scope} {f f' : Field} {texts : List String} {is is' : List Nat}
    (h : s.Selects texts is f) (h' : s.Selects texts is' f') : is = is' ∧ f = f' := by
  cases h with
  | visible sees rest =>
    cases h' with
    | visible sees' rest' =>
      obtain ⟨rfl, rfl⟩ := sees.unique sees'
      obtain ⟨rfl, rfl⟩ := rest.unique rest'
      exact ⟨rfl, rfl⟩

theorem Selects.exists_name {s : Scope} {f : Field} {texts : List String} {is : List Nat}
    (h : s.Selects texts is f) : ∃ name, f.name = some name := by
  cases h with
  | visible sees rest =>
    cases sees with
    | upTo _ _ named => exact rest.exists_name ⟨_, named⟩

/-- Steps up reach a scope, and names behind them a field selected from it. -/
inductive Reaches (s : Scope) : List Step → Target → Prop
  | scope {k : Nat} {t : Scope} (above : s.above? k = some t) :
      Reaches s (List.replicate k .parent) (.scope t)
  | field {k : Nat} {t : Scope} {texts : List String} {is : List Nat} {f : Field}
      (above : s.above? k = some t) (selects : t.Selects texts is f) :
      Reaches s (List.replicate k .parent ++ texts.map .name) (.field f)

theorem reaches_field_iff {s : Scope} {steps : List Step} {f : Field} :
    s.Reaches steps (.field f) ↔
      ∃ k t texts is, steps = List.replicate k .parent ++ texts.map .name ∧
        s.above? k = some t ∧ t.Selects texts is f := by
  constructor
  · intro h
    cases h with
    | field above selects => exact ⟨_, _, _, _, rfl, above, selects⟩
  · rintro ⟨k, t, texts, is, rfl, above, selects⟩
    exact .field above selects

theorem reaches_nil_iff {s : Scope} {t : Target} : s.Reaches [] t ↔ t = .scope s := by
  constructor
  · generalize hsteps : ([] : List Step) = steps
    rintro (⟨above⟩ | ⟨above, selects⟩)
    · rename_i k u
      obtain rfl : 0 = k := by simpa using congrArg List.length hsteps
      cases above
      rfl
    · cases selects
      simp at hsteps
  · rintro rfl
    exact .scope (k := 0) rfl

theorem reaches_parent_iff {s : Scope} {steps : List Step} {t : Target} :
    s.Reaches (.parent :: steps) t ↔ ∃ o, s.outer? = some o ∧ o.Reaches steps t := by
  constructor
  · generalize hsteps : Step.parent :: steps = all
    rintro (⟨above⟩ | ⟨above, selects⟩)
    · rename_i k u
      cases k with
      | zero => cases hsteps
      | succ k =>
        obtain ⟨o, ho, habove⟩ := Option.bind_eq_some_iff.1 above
        rw [List.replicate_succ, List.cons.injEq] at hsteps
        exact ⟨o, ho, hsteps.2 ▸ .scope habove⟩
    · rename_i k u texts is f
      cases k with
      | zero =>
        cases selects
        simp at hsteps
      | succ k =>
        obtain ⟨o, ho, habove⟩ := Option.bind_eq_some_iff.1 above
        rw [List.replicate_succ, List.cons_append, List.cons.injEq] at hsteps
        exact ⟨o, ho, hsteps.2 ▸ .field habove selects⟩
  · rintro ⟨o, ho, hreaches⟩
    cases hreaches with
    | @scope k u above => exact .scope (k := k + 1) (by rw [above?, ho]; exact above)
    | @field k u texts is f above selects =>
      exact .field (k := k + 1) (by rw [above?, ho]; exact above) selects

theorem reaches_name_iff {s : Scope} {text : String} {steps : List Step} {t : Target} :
    s.Reaches (.name text :: steps) t ↔
      ∃ texts is f, steps = texts.map .name ∧ s.Selects (text :: texts) is f ∧ t = .field f := by
  constructor
  · generalize hsteps : Step.name text :: steps = all
    rintro (⟨above⟩ | ⟨above, selects⟩)
    · rename_i k u
      cases k <;> cases hsteps
    · rename_i k u texts is f
      cases k with
      | zero =>
        cases above
        cases texts with
        | nil => cases selects
        | cons text' texts =>
          simp only [List.replicate_zero, List.nil_append, List.map_cons, List.cons.injEq,
            Step.name.injEq] at hsteps
          obtain ⟨rfl, rfl⟩ := hsteps
          exact ⟨texts, is, f, rfl, selects, rfl⟩
      | succ k => cases hsteps
  · rintro ⟨texts, is, f, rfl, selects, rfl⟩
    exact .field (k := 0) rfl selects

end Scope

namespace Target

theorem walk_cons (t : Target) (x : Step) (steps : List Step) :
    t.walk (x :: steps) = t.step x >>= fun u => u.walk steps := rfl

theorem walk_moves (t : Target) (steps : List Step) :
    t.walk (Step.moves steps) = t.walk steps := by
  induction steps generalizing t with
  | nil => rfl
  | cons x steps ih =>
    by_cases hx : x = .current
    · subst hx
      exact ih t
    · rw [Step.moves, List.filter_cons_of_pos (by simpa using hx), walk_cons, walk_cons]
      congr 1
      funext u
      exact ih u

theorem step_parent_eq_ok_iff {s : Scope} {t : Target} :
    (scope s).step .parent = .ok t ↔ ∃ o, s.outer? = some o ∧ t = .scope o := by
  cases h : s.outer? <;> simp [step, h, eq_comm]

theorem step_name_of_scope_eq_ok_iff {s : Scope} {text : String} {t : Target} :
    (scope s).step (.name text) = .ok t ↔
      ∃ i f, s.Sees (Step.fieldPart text) i f ∧ t = .field f := by
  rw [exists_comm]
  simp only [exists_and_right, ← Scope.lookup?_eq_some_iff]
  change (s.lookup? (Step.fieldPart text)).elim _ _ = _ ↔ _
  cases s.lookup? (Step.fieldPart text) <;> simp [eq_comm]

theorem member?_eq_some_iff {name : String} {node : Node} {g : Field} :
    node.member? name = some g ↔
      ∃ fields, node = .container fields ∧ ∃ i, Field.LatestAt name fields i g := by
  cases node <;> simp [Node.member?, Field.lastNamed_eq_some_iff]

theorem step_name_of_field_eq_ok_iff {f : Field} {text : String} {t : Target} :
    (field f).step (.name text) = .ok t ↔ ∃ fields i g, f.node = .container fields ∧
      Field.LatestAt (Step.fieldPart text) fields i g ∧ t = .field g := by
  have hmember : (field f).step (.name text) = .ok t ↔
      ∃ g, f.node.member? (Step.fieldPart text) = some g ∧ t = .field g := by
    change (f.node.member? (Step.fieldPart text)).elim _ _ = _ ↔ _
    cases f.node.member? (Step.fieldPart text) <;> simp [eq_comm]
  rw [hmember]
  simp only [member?_eq_some_iff]
  constructor
  · rintro ⟨g, ⟨fields, hf, i, hlatest⟩, ht⟩
    exact ⟨fields, i, g, hf, hlatest, ht⟩
  · rintro ⟨fields, i, g, hf, hlatest, ht⟩
    exact ⟨g, ⟨fields, hf, i, hlatest⟩, ht⟩

theorem walk_of_field_eq_ok_iff {f : Field} {steps : List Step} {t : Target}
    (hsteps : .current ∉ steps) : (field f).walk steps = .ok t ↔
      ∃ texts is g, steps = texts.map .name ∧ f.Leads texts is g ∧ t = .field g := by
  induction steps generalizing f with
  | nil =>
    constructor
    · rintro ⟨⟩
      exact ⟨[], [], f, rfl, .here f, rfl⟩
    · rintro ⟨texts, is, g, htexts, hleads, rfl⟩
      cases hleads with
      | here => rfl
      | member => cases htexts
  | cons x steps ih =>
    rw [List.mem_cons, not_or] at hsteps
    rw [walk_cons, bind_eq_ok_iff]
    cases x with
    | current => exact absurd rfl hsteps.1
    | parent =>
      constructor
      · rintro ⟨u, hstep, -⟩
        cases hstep
      · rintro ⟨texts, is, g, htexts, -, -⟩
        cases texts <;> cases htexts
    | name text =>
      constructor
      · rintro ⟨u, hstep, hwalk⟩
        obtain ⟨fields, i, g, hcontainer, hlatest, rfl⟩ := step_name_of_field_eq_ok_iff.1 hstep
        obtain ⟨texts, is, h, rfl, hleads, rfl⟩ := (ih hsteps.2).1 hwalk
        exact ⟨text :: texts, i :: is, h, rfl, .member hcontainer hlatest hleads, rfl⟩
      · rintro ⟨texts, is, g, htexts, hleads, rfl⟩
        cases hleads with
        | here => cases htexts
        | member hcontainer hlatest hrest =>
          cases htexts
          exact ⟨_, step_name_of_field_eq_ok_iff.2 ⟨_, _, _, hcontainer, hlatest, rfl⟩,
            (ih hsteps.2).2 ⟨_, _, _, rfl, hrest, rfl⟩⟩

theorem walk_of_scope_eq_ok_iff {s : Scope} {steps : List Step} {t : Target}
    (hsteps : .current ∉ steps) : (scope s).walk steps = .ok t ↔ s.Reaches steps t := by
  induction steps generalizing s with
  | nil =>
    rw [Scope.reaches_nil_iff]
    exact ⟨fun h => (Except.ok.inj h).symm, fun h => h ▸ rfl⟩
  | cons x steps ih =>
    rw [List.mem_cons, not_or] at hsteps
    rw [walk_cons, bind_eq_ok_iff]
    cases x with
    | current => exact absurd rfl hsteps.1
    | parent =>
      simp only [step_parent_eq_ok_iff, Scope.reaches_parent_iff, ← ih hsteps.2]
      constructor
      · rintro ⟨u, ⟨o, ho, rfl⟩, hwalk⟩
        exact ⟨o, ho, hwalk⟩
      · rintro ⟨o, ho, hwalk⟩
        exact ⟨_, ⟨o, ho, rfl⟩, hwalk⟩
    | name text =>
      simp only [step_name_of_scope_eq_ok_iff, Scope.reaches_name_iff]
      constructor
      · rintro ⟨u, ⟨i, f, hsees, rfl⟩, hwalk⟩
        obtain ⟨texts, is, g, rfl, hleads, rfl⟩ := (walk_of_field_eq_ok_iff hsteps.2).1 hwalk
        exact ⟨texts, i :: is, g, rfl, .visible hsees hleads, rfl⟩
      · rintro ⟨texts, is, g, rfl, ⟨hsees, hleads⟩, rfl⟩
        exact ⟨_, ⟨_, _, hsees, rfl⟩,
          (walk_of_field_eq_ok_iff hsteps.2).2 ⟨_, _, _, rfl, hleads, rfl⟩⟩

end Target

namespace Scope

theorem resolve_eq_ok_iff {s : Scope} {path : FieldPath} {t : Target} :
    s.resolve path = .ok t ↔ s.Reaches (Step.moves path.primary) t := by
  rw [← Target.walk_of_scope_eq_ok_iff (by simp [Step.moves]), Target.walk_moves, resolve]
  exact mapError_eq_ok_iff

theorem resolve_error {s : Scope} {path : FieldPath} {e : Fault} (h : s.resolve path = .error e) :
    ∃ reason, e = .brokenPath path.text reason := by
  obtain ⟨reason, -, rfl⟩ := mapError_eq_error_iff.1 h
  exact ⟨reason, rfl⟩

/-- A path resolves exactly if its moves are steps up, no more than the scope is deep, and names
that select a field from the scope reached; every other path is broken, and told by its text. So
only the moves of the first alternative count. -/
theorem resolve_iff_reaches (s : Scope) (path : FieldPath) :
    (∀ t, s.resolve path = .ok t ↔ s.Reaches (Step.moves path.primary) t) ∧
    ((∀ t, ¬ s.Reaches (Step.moves path.primary) t) →
      ∃ reason, s.resolve path = .error (.brokenPath path.text reason)) ∧
    (∀ k, (∃ outer, s.above? k = some outer) ↔ k ≤ s.depth) ∧
    ∀ text, (s.resolve path).toOption =
      (s.resolve ⟨text, [Step.moves path.primary]⟩).toOption := by
  refine ⟨fun t => resolve_eq_ok_iff, ?_, fun k => above?_isSome_iff k s, ?_⟩
  · intro hnone
    cases h : s.resolve path with
    | ok t => exact absurd (resolve_eq_ok_iff.1 h) (hnone t)
    | error e =>
      obtain ⟨reason, rfl⟩ := resolve_error h
      exact ⟨reason, rfl⟩
  · intro text
    simp only [resolve, FieldPath.primary, List.headD_cons, Target.walk_moves]
    cases (Target.scope s).walk (path.alternatives.headD []) <;> rfl

end Scope
end PacketTypings
