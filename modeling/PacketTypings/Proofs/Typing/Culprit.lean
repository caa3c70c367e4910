import PacketTypings.Proofs.Typing.Comparison
import PacketTypings.Proofs.Typing.Origin

/-! Why a node has no type. Main statement: typing a node fails exactly if something inside it is a
culprit, and the fault describes one. -/

namespace PacketTypings

/-- The node at the site has no type because of what it is itself; the fault describes it. -/
inductive Culprit (entries : List String) : Site → Fault → Prop
  | nestedOption (s : Scope) (n : Node) :
      Culprit entries ⟨s, .option (.option n)⟩ (.unsupported .nestedOption)
  | unknownKind (s : Scope) {kind : String} (notGround : Ground.ofName? kind = none)
      (notEntry : kind ∉ entries) :
      Culprit entries ⟨s, .parametrized kind⟩ (.unsupported (.named kind))
  | unreadable (s : Scope) {compareTo : String} {refusal : FieldPath.Refusal}
      (arms : List (String × Node)) (default? : Option Node)
      (refused : FieldPath.ofText compareTo = .error refusal) :
      Culprit entries ⟨s, .switch compareTo arms default?⟩
        (.brokenPath compareTo (.unreadable refusal))
  | astray {s : Scope} {compareTo : String} {path : FieldPath} (arms : List (String × Node))
      (default? : Option Node) (reason : PathFault)
      (read : FieldPath.ofText compareTo = .ok path) (traversal : path.isTraversal = true)
      (noField : ∀ f, ¬ s.Reaches (Step.moves path.primary) (.field f)) :
      Culprit entries ⟨s, .switch compareTo arms default?⟩ (.brokenPath compareTo reason)
  | noSibling {s : Scope} {compareTo : String} {path : FieldPath} {arms : List (String × Node)}
      {n : Node} (default? : Option Node) (read : FieldPath.ofText compareTo = .ok path)
      (sibling : path.isTraversal = false) (holds : (holdsKey, n) ∈ arms)
      (noField : ∀ f ∈ s.visible, f.name ≠ some path.siblingName) :
      Culprit entries ⟨s, .switch compareTo arms default?⟩
        (.unresolvedDiscriminant compareTo path.siblingName)

namespace Comparison

theorem culprit_of_ofText_eq_error (entries : List String) {compareTo : String} {s : Scope}
    {e : Fault} (arms : List (String × Node)) (default? : Option Node)
    (h : ofText compareTo s = .error e) :
    Culprit entries ⟨s, .switch compareTo arms default?⟩ e := by
  rcases bind_eq_error_iff.1 h with h | ⟨path, hpath, h⟩
  · rw [FieldPath.read] at h
    cases hread : FieldPath.ofText compareTo with
    | ok path => rw [hread] at h; cases h
    | error refusal =>
      rw [hread] at h
      cases h
      exact .unreadable s arms default? hread
  · rw [FieldPath.read_eq_ok_iff] at hpath
    split at h
    · next htraversal =>
      rcases bind_eq_error_iff.1 h with h | ⟨f, -, h⟩
      · obtain ⟨hnone, reason, rfl⟩ := Scope.resolveField_error h
        rw [FieldPath.text_of_ofText hpath]
        exact .astray arms default? reason hpath htraversal hnone
      · cases h
    · cases h

theorem culprit_of_condition_eq_error (entries : List String) {compareTo key : String} {s : Scope}
    {c : Comparison} {arms : List (String × Node)} {n : Node} {e : Fault}
    (default? : Option Node) (hc : ofText compareTo s = .ok c) (harm : (key, n) ∈ arms)
    (h : c.condition key = .error e) : Culprit entries ⟨s, .switch compareTo arms default?⟩ e := by
  obtain ⟨rfl, hnone, hsibling⟩ := condition_eq_error_iff.1 h
  obtain ⟨hvisible, rfl⟩ := sibling_eq_error_iff.1 hsibling
  cases ofText_eq_ok_iff.1 hc with
  | walked => cases hnone
  | sibling read sibling =>
    rw [FieldPath.text_of_ofText read]
    exact .noSibling default? read sibling harm hvisible

end Comparison

namespace Typer

theorem parametrized_eq_error {t : Typer} {kind : String} {e : Fault}
    (h : t.parametrized kind = .error e) :
    Ground.ofName? kind = none ∧ kind ∉ t.entries ∧ e = .unsupported (.named kind) := by
  rw [parametrized] at h
  split at h
  · cases h
  · next hknown =>
    cases h
    simp only [Bool.or_eq_true, not_or, List.contains_iff_mem, Bool.not_eq_true,
      Option.isSome_eq_false_iff, Option.isNone_iff_eq_none] at hknown
    exact ⟨hknown.1, hknown.2, rfl⟩

theorem own_eq_error {t : Typer} {s : Scope} {f : Field} {e : Fault}
    (hnamed : f.name = none → f.anonymous = true) (h : t.own s f = .error e) :
    (f.anonymous = true → t.anonymousFields = .flatten) ∧ t.type f.name s f.node = .error e := by
  rw [own] at h
  split at h
  · split at h
    · cases h
    · next hpolicy => exact ⟨fun _ => hpolicy, map_eq_error_iff.1 h⟩
  · next hanonymous =>
    split at h
    · next hname => exact absurd (hnamed hname) hanonymous
    · next name hname =>
      exact ⟨fun hf => absurd hf hanonymous, map_eq_error_iff.1 h⟩

theorem arm_eq_error_iff {t : Typer} {owner? : Option String} {c : Comparison}
    {x : String × Node} {e : Fault} : t.arm owner? c x = .error e ↔
      t.type none c.scope x.2 = .error e ∨
        (∃ value, t.type none c.scope x.2 = .ok value) ∧ c.condition x.1 = .error e := by
  rw [arm, bind_eq_error_iff]
  simp only [bind_eq_error_iff]
  simp [pure, Except.pure]

/-- A node has no type because of itself, or because of a node right inside it. -/
theorem type_eq_error_step {t : Typer} {owner? : Option String} {s : Scope} {n : Node} {e : Fault}
    (hn : n.FieldsNamed) (h : t.type owner? s n = .error e) :
    Culprit t.entries ⟨s, n⟩ e ∨ ∃ i b, Site.Child t.anonymousFields i ⟨s, n⟩ b ∧
      ∃ inner?, t.type inner? b.scope b.node = .error e := by
  cases n with
  | primitive name => cases h
  | mapper literals => cases h
  | bitflags flags => cases h
  | bitfield names => cases h
  | container fields =>
    rw [type_container, map_eq_error_iff, map_eq_error_iff] at h
    obtain ⟨⟨f, i⟩, hf, hown⟩ := exists_of_mapM_eq_error h
    rw [List.mem_zipIdx_iff_getElem?] at hf
    obtain ⟨hkept, htype⟩ := own_eq_error (hn f (List.mem_of_getElem? hf)) hown
    exact .inr ⟨i, _, .field hf hkept, f.name, htype⟩
  | array element =>
    rw [type_array, map_eq_error_iff] at h
    exact .inr ⟨0, _, .element s element, none, h⟩
  | encapsulated lengthType content =>
    rw [type_encapsulated, map_eq_error_iff] at h
    exact .inr ⟨0, _, .encapsulated s lengthType content, none, h⟩
  | option content =>
    rw [type_option] at h
    split at h
    · next hoption =>
      cases h
      cases content <;> cases hoption
      exact .inl (.nestedOption s _)
    · exact .inr ⟨0, _, .content s content, none, map_eq_error_iff.1 h⟩
  | parametrized kind =>
    rw [type] at h
    obtain ⟨hground, hentry, rfl⟩ := parametrized_eq_error h
    exact .inl (.unknownKind s hground hentry)
  | switch compareTo arms default? =>
    rw [type_switch] at h
    rcases bind_eq_error_iff.1 h with h | ⟨c, hc, h⟩
    · exact .inl (Comparison.culprit_of_ofText_eq_error _ arms default? h)
    · rcases bind_eq_error_iff.1 h with h | ⟨terms, -, h⟩
      · obtain ⟨⟨key, m⟩, hmem, harm⟩ := exists_of_mapM_eq_error h
        rcases arm_eq_error_iff.1 harm with h | ⟨-, h⟩
        · obtain ⟨i, hi⟩ := List.getElem?_of_mem hmem
          rw [Comparison.scope_of_ofText hc] at h
          exact .inr ⟨i, _, .arm hi, none, h⟩
        · exact .inl (Comparison.culprit_of_condition_eq_error _ default? hc hmem h)
      · cases default? with
        | none => cases h
        | some d =>
          have h := map_eq_error_iff.1 (map_eq_error_iff.1 h)
          exact .inr ⟨_, _, .default s compareTo arms d, none, h⟩

theorem type_ne_ok_of_culprit {t : Typer} {owner? : Option String} {a : Site} {e : Fault}
    {term : TypeTerm} (h : Culprit t.entries a e) : t.type owner? a.scope a.node ≠ .ok term := by
  intro hterm
  cases h with
  | nestedOption s n => cases hterm
  | unknownKind s hground hentry =>
    rw [type, parametrized, if_neg (by simp [hground, hentry])] at hterm
    cases hterm
  | unreadable s arms default? refused =>
    obtain ⟨c, _, _, hc, -⟩ := type_switch_eq_ok_iff.1 hterm
    cases Comparison.ofText_eq_ok_iff.1 hc with
    | walked read => rw [refused] at read; cases read
    | sibling read => rw [refused] at read; cases read
  | astray arms default? reason read traversal noField =>
    obtain ⟨c, _, _, hc, -⟩ := type_switch_eq_ok_iff.1 hterm
    cases Comparison.ofText_eq_ok_iff.1 hc with
    | walked read' _ resolve =>
      rw [read] at read'
      cases read'
      exact noField _ (Scope.resolveField_eq_ok_iff.1 resolve)
    | sibling read' sibling =>
      rw [read] at read'
      cases read'
      rw [traversal] at sibling
      cases sibling
  | noSibling default? read sibling holds noField =>
    obtain ⟨c, _, _, hc, hterms, -⟩ := type_switch_eq_ok_iff.1 hterm
    obtain ⟨_, -, hone⟩ := exists_of_mem_of_mapM_eq_ok hterms holds
    obtain ⟨_, condition, -, hcondition, -⟩ := arm_eq_ok_iff.1 hone
    cases Comparison.ofText_eq_ok_iff.1 hc with
    | walked read' traversal =>
      rw [read] at read'
      cases read'
      rw [traversal] at sibling
      cases sibling
    | sibling read' =>
      rw [read] at read'
      cases read'
      rw [Comparison.condition_eq_error_iff.2
        ⟨rfl, rfl, Comparison.sibling_eq_error_iff.2 ⟨noField, rfl⟩⟩] at hcondition
      cases hcondition

theorem type_ne_ok_of_part {t : Typer} {owner? : Option String} {a b : Site} {e : Fault}
    {term : TypeTerm} (hpart : Site.Part t.anonymousFields a b) (h : Culprit t.entries b e) :
    t.type owner? a.scope a.node ≠ .ok term := by
  induction hpart generalizing owner? term with
  | self a => exact type_ne_ok_of_culprit h
  | inside hchild _ ih =>
    intro hterm
    obtain ⟨inner, hinner⟩ := exists_type_of_child hterm hchild
    exact ih h hinner

theorem exists_culprit_of_error {t : Typer} {owner? : Option String} {s : Scope} {n : Node}
    {e : Fault} (hn : n.Everywhere Node.FieldsNamed) (h : t.type owner? s n = .error e) :
    ∃ b, Site.Part t.anonymousFields ⟨s, n⟩ b ∧ Culprit t.entries b e := by
  induction hsize : sizeOf n using Nat.strongRecOn generalizing owner? s n with
  | ind size ih =>
    subst hsize
    rcases type_eq_error_step hn.self h with h | ⟨i, b, hchild, inner?, h⟩
    · exact ⟨_, .self _, h⟩
    · have hb := hchild.mem_children
      obtain ⟨c, hpart, hc⟩ := ih _ (Node.sizeOf_lt_of_mem_children hb) (hn.child hb) h rfl
      exact ⟨c, .inside hchild hpart, hc⟩

/-- Typing a node that was read fails exactly if something in it is a culprit, outside of omitted
anonymous fields. The fault describes one of them; it is never one of shape. -/
theorem type_fails_iff_culprit {v : Json} {n : Node} (h : Node.ofJson v = .ok n) (t : Typer)
    (owner? : Option String) (s : Scope) :
    ((∃ e, t.type owner? s n = .error e) ↔
      ∃ b e, Site.Part t.anonymousFields ⟨s, n⟩ b ∧ Culprit t.entries b e) ∧
    ∀ e, t.type owner? s n = .error e →
      (∃ b, Site.Part t.anonymousFields ⟨s, n⟩ b ∧ Culprit t.entries b e) ∧
      ∀ kind reason, e ≠ .malformed kind reason := by
  have hn := Node.fieldsNamed_of_ofJson h
  refine ⟨⟨?_, ?_⟩, ?_⟩
  · rintro ⟨e, he⟩
    obtain ⟨b, hpart, hb⟩ := exists_culprit_of_error hn he
    exact ⟨b, e, hpart, hb⟩
  · rintro ⟨b, e, hpart, hb⟩
    cases hterm : t.type owner? s n with
    | error e' => exact ⟨e', rfl⟩
    | ok term => exact absurd hterm (type_ne_ok_of_part hpart hb)
  · intro e he
    obtain ⟨b, hpart, hb⟩ := exists_culprit_of_error hn he
    refine ⟨⟨b, hpart, hb⟩, ?_⟩
    rintro kind reason rfl
    cases hb

/-- A container whose omitted anonymous field is an option of an option, and whose last field
compares a field that is nowhere: the last one is the culprit. -/
theorem type_fails_iff_culprit_of_unresolved_mode :
    let option : Json := .arr [.str "option", .arr [.str "option", .str "u8"]]
    let switch : Json := .arr [.str "switch",
      .obj [("compareTo", .str "mode"), ("fields", .obj [("true", .str "u8")])]]
    let v : Json := .arr [.str "container", .arr [.obj [("anon", .bool true), ("type", option)],
      .obj [("name", .str "body"), ("type", switch)]]]
    let n : Node := .container [⟨none, .option (.option (.primitive "u8")), true⟩,
      ⟨some "body", .switch "mode" [("true", .primitive "u8")] none, false⟩]
    Node.ofJson v = .ok n ∧
      (Typer.mk .omit []).type none .root n = .error (.unresolvedDiscriminant "mode" "mode") ∧
      ∃ b, Site.Part .omit ⟨.root, n⟩ b ∧
        Culprit [] b (.unresolvedDiscriminant "mode" "mode") := by
  intro option switch v n
  have hname (name : String) : Node.ofJson (.str name) = .ok (.primitive name) := by
    rw [Node.ofJson]
  have hoption (content : Json) : Node.ofJson (.arr [.str "option", content]) =
      Node.ofJson content >>= fun m => .ok (.option m) :=
    Node.ofJson_of_kind (k := .option) rfl [content]
  have hswitch : Node.ofJson switch = .ok (.switch "mode" [("true", .primitive "u8")] none) := by
    rw [Node.ofJson_of_kind (k := .switch) rfl]
    change ([("true", Json.str "u8")].mapM Node.armOfJson >>= _) = _
    simp only [List.mapM_cons, Node.armOfJson, hname]
    rfl
  have hread : Node.ofJson v = .ok n := by
    rw [Node.ofJson_of_kind (k := .container) rfl]
    change ([⟨none, option, true⟩, ⟨some "body", switch, false⟩].mapM Node.fieldOfJson >>= _) = _
    simp only [List.mapM_cons, Node.fieldOfJson, option, hoption, hname, hswitch]
    rfl
  have hfault : (Typer.mk .omit []).type none .root n =
      .error (.unresolvedDiscriminant "mode" "mode") := rfl
  obtain ⟨hculprit, -⟩ := (type_fails_iff_culprit hread ⟨.omit, []⟩ none .root).2 _ hfault
  exact ⟨hread, hfault, hculprit⟩

end Typer
end PacketTypings
