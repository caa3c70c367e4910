import PacketTypings.Proofs.FieldPath.Names
import PacketTypings.Proofs.Typing.Respelling

/-! Fields that a switch names without a walk. Main statement: the name of a field that is seen says
the same with a step that stays before it, although the one is looked up where an arm needs it and
the other is walked at once. -/

namespace PacketTypings

/-- Switches with the same conditions have the same type in scopes that look alike. -/
theorem Typer.type_switch_congr {s s' : Scope} (alike : s.LooksLike s')
    {compareTo compareTo' : String} {c c' : Comparison}
    (hc : Comparison.ofText compareTo s = .ok c)
    (hc' : Comparison.ofText compareTo' s' = .ok c') (h : ∀ key, c'.condition key = c.condition key)
    (t : Typer) (owner? : Option String) (arms : List (String × Node)) (default? : Option Node) :
    t.type owner? s (.switch compareTo arms default?) =
      t.type owner? s' (.switch compareTo' arms default?) := by
  have hs := Comparison.scope_of_ofText hc
  have hs' := Comparison.scope_of_ofText hc'
  have harm : t.arm owner? c' = t.arm owner? c := by
    funext x
    rw [arm, arm, hs, hs', h, alike.type_eq]
  rw [type_switch, type_switch, hc, hc', alike.last_eq]
  change (arms.mapM (t.arm owner? c) >>= _) = (arms.mapM (t.arm owner? c') >>= _)
  rw [harm]

theorem Scope.exists_lookup?_of_visible {s : Scope} {name : String}
    (visible : ∃ f ∈ s.visible, f.name = some name) : ∃ f, s.lookup? name = some f := by
  obtain ⟨f, hf, hname⟩ := visible
  refine Option.ne_none_iff_exists'.1 fun hnone => ?_
  exact lookup?_eq_none_iff.1 hnone f hf hname

/-- A walk that stays and then goes to a name comes to the field that the name is looked up for. -/
theorem Scope.resolveField_current {s : Scope} {name text : String} {f : Field}
    (hname : FieldPath.IsFieldName name) (hf : s.lookup? name = some f) :
    s.resolveField ⟨text, [[.current, .name name]]⟩ = .ok f := by
  have hwalk : (Target.scope s).walk [.name name] = .ok (.field f) := by
    rw [Target.walk_cons, Target.step, hname.fieldName?_eq, Option.getD_some, hf]
    rfl
  have hmoves : Step.moves [.current, .name name] = [.name name] := rfl
  rw [← hmoves, Target.walk_moves] at hwalk
  rw [resolveField_eq, FieldPath.primary, List.headD_cons, hwalk]
  rfl

/-- The name of a visible field says the same as the path that first stays and then goes to that
field, in one scope as well as in the scopes of two fields that own the switches. -/
theorem Typer.type_switch_current_step {name : String} (hname : FieldPath.IsFieldName name)
    {s s' : Scope} (alike : s.LooksLike s') (visible : ∃ f ∈ s.visible, f.name = some name)
    (t : Typer) (owner? : Option String) (arms : List (String × Node)) (default? : Option Node) :
    t.type owner? s (.switch name arms default?) =
      t.type owner? s' (.switch ("./" ++ name) arms default?) := by
  obtain ⟨f, hf⟩ := Scope.exists_lookup?_of_visible visible
  obtain ⟨f', hf', hff'⟩ := alike.exists_lookup? hf
  have hc := Comparison.ofText_eq_ok_iff.2 (.sibling (s := s) hname.ofText_eq rfl)
  have hc' := Comparison.ofText_eq_ok_iff.2
    (.walked hname.ofText_current rfl (Scope.resolveField_current hname hf'))
  apply type_switch_congr alike hc hc'
  refine Comparison.condition_congr ?_ ?_ rfl hff' fun _ => rfl
  · rw [Comparison.label, Option.bind_some, hff'.name, Scope.named_of_lookup? hf]
    rfl
  · change (s.lookup? ((Step.name name).fieldName?.getD "")).elim _ _ = _
    rw [hname.fieldName?_eq, Option.getD_some, hf]
    rfl

/-- The later of two modes is compared, and the switch is the own one of a field. -/
theorem Typer.type_switch_current_step_of_repeated_mode :
    let arms : List (String × Node) := [("1", .primitive "u8"), ("true", .primitive "uuid")]
    let data (compareTo : String) : Node := .switch compareTo arms (some (.primitive "Rest"))
    let s (compareTo : String) : Scope := .within .root [⟨some "mode", .primitive "bool", false⟩,
      ⟨some "mode", .primitive "Mode", false⟩, ⟨some "data", data compareTo, false⟩] 2
    let e : TypeTerm := .union [.record [("mode", .text "1"), ("data", Ground.number.term)],
      .record [("mode", .union [.reference "Mode"]), ("data", Ground.string.term)],
      .record [("data", .reference "Rest")]]
    (Typer.mk .omit []).type (some "data") (s "mode") (data "mode") = .ok e ∧
      (Typer.mk .omit []).type (some "data") (s ("./" ++ "mode")) (data ("./" ++ "mode")) =
        .ok e := by
  intro arms data s e
  have hname : FieldPath.IsFieldName "mode" :=
    ⟨by decide, by decide, by decide, by decide, by decide, by decide⟩
  have alike : (s "mode").LooksLike (s ("./" ++ "mode")) := .respelled .root
    [⟨some "mode", .primitive "bool", false⟩, ⟨some "mode", .primitive "Mode", false⟩] []
    ⟨rfl, .switch _ _ _ _ _ _⟩
  have h : (Typer.mk .omit []).type (some "data") (s "mode") (data "mode") = .ok e := rfl
  have visible : ∃ f ∈ (s "mode").visible, f.name = some "mode" :=
    ⟨_, List.mem_cons_self, rfl⟩
  exact ⟨h, (type_switch_current_step hname alike visible ⟨.omit, []⟩ _ arms _).symm.trans h⟩

end PacketTypings
