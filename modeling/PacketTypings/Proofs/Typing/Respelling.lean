import PacketTypings.Proofs.Scope.Likeness
import PacketTypings.Proofs.Typing.Agreement

/-! Switches whose paths are spelled differently. In scopes that look alike a node has the same
type. Main statement: of two texts that are read as the same steps, the type of a switch keeps the
text itself only as the key under which literals are compared. -/

namespace PacketTypings

theorem Field.LooksLike.alike {f f' : Field} (h : f.LooksLike f') : f.Alike f' := by
  refine ⟨h.name, ?_⟩
  have hnode := h.node
  generalize f.node = n, f'.node = n' at hnode
  cases hnode with
  | closed _ _ discriminant => exact discriminant
  | container => rfl

namespace Scope.LooksLike

variable {s s' : Scope}

theorem agrees (h : s.LooksLike s') : s.Agrees False s' where
  resolveField path := by
    rw [resolveField_eq, resolveField_eq]
    exact ((h.follows_asField path.primary).imp fun _ _ => Field.LooksLike.alike).mapError _
  sibling path := by
    have hlookup := h.lookup? path.siblingName
    change Follows False Field.Alike ((s.lookup? path.siblingName).elim _ _)
      ((s'.lookup? path.siblingName).elim _ _)
    generalize s.lookup? path.siblingName = x, s'.lookup? path.siblingName = y at hlookup
    cases hlookup with
    | none => exact .fault _
    | some hf => exact .ok hf.alike

/-- In scopes that look alike a node has the same type, or the same fault. -/
theorem follows_type (h : s.LooksLike s') (t : Typer) (owner? : Option String) (n : Node) :
    Follows False Eq (t.type owner? s n) (t.type owner? s' n) := by
  induction n using Node.induction generalizing owner? s s' with
  | primitive name => exact .refl _
  | mapper literals => exact .refl _
  | bitflags flags => exact .refl _
  | bitfield names => exact .refl _
  | parametrized kind => exact .refl _
  | array element ih => exact Typer.follows_array (ih h none)
  | option content ih => exact Typer.follows_option rfl (ih h none)
  | encapsulated lengthType content ih => exact Typer.follows_encapsulated lengthType (ih h none)
  | container fields ih =>
    apply Typer.follows_container
    intro i f hf
    apply Typer.follows_own rfl rfl rfl fun _ => rfl
    intro _
    exact ih f (List.mem_of_getElem? hf) (h.field fields i) f.name
  | switch compareTo arms default? iharms ihdefault =>
    apply Typer.follows_switch h.agrees
    · rw [List.forall₂_same]
      exact fun x hx => ⟨rfl, iharms x hx h none⟩
    · cases default? with
      | none => exact .none
      | some d => exact .some (ihdefault d rfl h none)

theorem type_eq (h : s.LooksLike s') (t : Typer) (owner? : Option String) (n : Node) :
    t.type owner? s n = t.type owner? s' n :=
  (h.follows_type t owner? n).eq

theorem last_eq (h : s.LooksLike s') (t : Typer) (owner? : Option String) (default? : Option Node) :
    t.last owner? s default? = t.last owner? s' default? := by
  cases default? with
  | none => rfl
  | some d => rw [Typer.last, Typer.last, h.type_eq]

end Scope.LooksLike

theorem Discriminant.condition_congr {p p' : FieldPath}
    (h : ∀ type, p'.alternatives.map (alternative type) = p.alternatives.map (alternative type))
    (d : Discriminant) (field label : String) :
    d.condition field label p' = d.condition field label p := by
  cases d with
  | named type => exact congrArg (fun parts => (field, TypeTerm.union parts)) (h type)
  | _ => rfl

namespace Comparison

/-- Arms have the same conditions if literals are compared under the same label, and the compared
fields look alike and are told by the same alternatives. -/
theorem condition_congr {c c' : Comparison} (hlabel : c'.label = c.label) {f f' : Field}
    (hf : c.target = .ok f) (hf' : c'.target = .ok f') (alike : f.LooksLike f')
    (h : ∀ type, c'.path.alternatives.map (Discriminant.alternative type) =
      c.path.alternatives.map (Discriminant.alternative type)) (key : String) :
    c'.condition key = c.condition key := by
  unfold condition
  rw [hlabel, hf, hf']
  by_cases hkey : key = holdsKey
  · rw [if_pos hkey, if_pos hkey]
    change Except.ok _ = Except.ok _
    rw [alike.alike.name, alike.alike.discriminant, Discriminant.condition_congr h]
  · rw [if_neg hkey, if_neg hkey]

end Comparison

/-- The same fault, where only the text of the path may be another one. -/
inductive Fault.Respelled (text text' : String) : Fault → Fault → Prop
  | same (e : Fault) : Respelled text text' e e
  | brokenPath (reason : PathFault) :
      Respelled text text' (.brokenPath text reason) (.brokenPath text' reason)
  | unresolvedDiscriminant (field : String) : Respelled text text'
      (.unresolvedDiscriminant text field) (.unresolvedDiscriminant text' field)

/-- The arm of that key is compared under the text of the path: the path is not walked, and the key
is a literal or says that a field of literals holds. -/
def Scope.ComparesText (s : Scope) (path : FieldPath) (key : String) : Prop :=
  path.isTraversal = false ∧ (key = holdsKey →
    ∃ i f, s.Sees path.siblingName i f ∧ Discriminant.ofNode f.node = .literal)

/-- A condition as it is for each text of the path: the text is its key, or has no part in it. -/
inductive Comparison.Labelled (byText : Prop) : (String → String × TypeTerm) → Prop
  | text (labelled : byText) (type : TypeTerm) : Labelled byText fun text => (text, type)
  | fixed (unlabelled : ¬ byText) (condition : String × TypeTerm) :
      Labelled byText fun _ => condition

/-- One condition for two texts of the path. -/
def Comparison.Relabelled (byText : Prop) (text text' : String)
    (condition condition' : String × TypeTerm) : Prop :=
  ∃ labelled, Labelled byText labelled ∧ condition = labelled text ∧ condition' = labelled text'

theorem armTerm_inj {owner? : Option String} {condition condition' : String × TypeTerm}
    {value : TypeTerm} :
    armTerm owner? condition value = armTerm owner? condition' value ↔ condition = condition' := by
  cases owner? <;> simp [armTerm]

namespace Comparison.Labelled

variable {text text' : String}

theorem eq_iff {byText : Prop} {condition : String → String × TypeTerm}
    (h : Labelled byText condition) :
    condition text = condition text' ↔ text = text' ∨ ¬ byText := by
  cases h with
  | text labelled type => simp [labelled]
  | fixed unlabelled x => exact iff_of_true rfl (.inr unlabelled)

theorem map_armTerm_eq_iff {α : Type} {byText : α → Prop} {owner? : Option String} {arms : List α}
    {parts : List ((String → String × TypeTerm) × TypeTerm)}
    (h : List.Forall₂ (fun arm part => Labelled (byText arm) part.1) arms parts) :
    parts.map (fun part => armTerm owner? (part.1 text) part.2) =
        parts.map (fun part => armTerm owner? (part.1 text') part.2) ↔
      text = text' ∨ ∀ arm ∈ arms, ¬ byText arm := by
  induction h with
  | nil => simp
  | cons head _ ih =>
    rw [List.map_cons, List.map_cons, List.cons.injEq, armTerm_inj, head.eq_iff, ih,
      List.forall_mem_cons, or_and_left]

end Comparison.Labelled

variable {s s' : Scope} {path path' : FieldPath}

theorem Discriminant.relabelled {byText : Prop} {d : Discriminant} (h : byText ↔ d = .literal)
    (field : String) (alternatives : path'.alternatives = path.alternatives) :
    Comparison.Relabelled byText path.text path'.text (d.condition field path.text path)
      (d.condition field path'.text path') := by
  cases d with
  | literal => exact ⟨_, .text (h.2 rfl) (.text holdsKey), rfl, rfl⟩
  | boolean => exact ⟨_, .fixed (fun hlabelled => nomatch h.1 hlabelled) _, rfl, rfl⟩
  | named type =>
    refine ⟨_, .fixed (fun hlabelled => nomatch h.1 hlabelled) _, rfl, ?_⟩
    exact Discriminant.condition_congr (fun type => by rw [alternatives]) _ field _

theorem Scope.LooksLike.matches_resolveField (alike : s.LooksLike s')
    (alternatives : path'.alternatives = path.alternatives) :
    Matches (Fault.Respelled path.text path'.text) Field.LooksLike (s.resolveField path)
      (s'.resolveField path') := by
  rw [resolveField_eq, resolveField_eq, FieldPath.primary, FieldPath.primary, alternatives]
  exact .of_follows (alike.follows_asField _) .brokenPath

namespace Comparison

/-- For both texts the same name is looked up. -/
theorem matches_sibling (alike : s.LooksLike s')
    (alternatives : path'.alternatives = path.alternatives) :
    Matches (Fault.Respelled path.text path'.text)
      (fun f f' => f.LooksLike f' ∧ s.lookup? path.siblingName = some f)
      (sibling ⟨path, s, none⟩) (sibling ⟨path', s', none⟩) := by
  have hname : path'.siblingName = path.siblingName := by
    simp only [FieldPath.siblingName, FieldPath.targetName?, FieldPath.primary, alternatives]
  have hlookup := alike.lookup? path.siblingName
  change Matches _ _ ((s.lookup? path.siblingName).elim _ _)
    ((s'.lookup? path'.siblingName).elim
      (.error (Fault.unresolvedDiscriminant _ path'.siblingName)) _)
  rw [hname]
  generalize s.lookup? path.siblingName = found, s'.lookup? path.siblingName = found' at hlookup
  cases hlookup with
  | none => exact .fault (.unresolvedDiscriminant _)
  | some hf => exact .ok ⟨hf, rfl⟩

theorem matches_condition_of_sibling (sibling : path.isTraversal = false) (alike : s.LooksLike s')
    (alternatives : path'.alternatives = path.alternatives) (key : String) :
    Matches (Fault.Respelled path.text path'.text)
      (Relabelled (s.ComparesText path key) path.text path'.text)
      (condition ⟨path, s, none⟩ key) (condition ⟨path', s', none⟩ key) := by
  unfold condition
  by_cases hkey : key = holdsKey
  · rw [if_pos hkey, if_pos hkey]
    apply (matches_sibling alike alternatives).bind
    rintro f f' ⟨hff', hf⟩
    have hlabelled : s.ComparesText path key ↔ Discriminant.ofNode f.node = .literal := by
      constructor
      · rintro ⟨-, h⟩
        obtain ⟨i, g, hg, hliteral⟩ := h hkey
        cases hf.symm.trans (Scope.lookup?_eq_some_iff.2 ⟨i, hg⟩)
        exact hliteral
      · intro hliteral
        obtain ⟨i, hi⟩ := Scope.lookup?_eq_some_iff.1 hf
        exact ⟨sibling, fun _ => ⟨i, f, hi, hliteral⟩⟩
    rw [hff'.name, hff'.alike.discriminant, Scope.named_of_lookup? hf]
    exact .ok (Discriminant.relabelled hlabelled _ alternatives)
  · rw [if_neg hkey, if_neg hkey]
    exact .ok ⟨_, .text ⟨sibling, fun h => absurd h hkey⟩ (.text key), rfl, rfl⟩

/-- For both texts a switch makes a comparison with the same conditions, up to the text as a key, or
fails to make one. -/
theorem matches_ofText {text text' : String} (read : FieldPath.ofText text = .ok path)
    (read' : FieldPath.ofText text' = .ok path')
    (alternatives : path'.alternatives = path.alternatives) (alike : s.LooksLike s') :
    Matches (Fault.Respelled text text') (fun c c' => c.scope = s ∧ c'.scope = s' ∧ ∀ key,
        Matches (Fault.Respelled text text') (Relabelled (s.ComparesText path key) text text')
          (c.condition key) (c'.condition key))
      (ofText text s) (ofText text' s') := by
  have htraversal : path'.isTraversal = path.isTraversal := by
    rw [FieldPath.isTraversal, FieldPath.isTraversal, FieldPath.primary, FieldPath.primary,
      alternatives]
  obtain rfl := FieldPath.text_of_ofText read
  obtain rfl := FieldPath.text_of_ofText read'
  rw [ofText, ofText, FieldPath.read_eq_ok_iff.2 read, FieldPath.read_eq_ok_iff.2 read']
  change Matches _ _ (if path.isTraversal then _ else _) (if path'.isTraversal then _ else _)
  rw [htraversal]
  cases h : path.isTraversal with
  | false => exact .ok ⟨rfl, rfl, matches_condition_of_sibling h alike alternatives⟩
  | true =>
    apply (alike.matches_resolveField alternatives).and_eq_ok.bind
    rintro f f' ⟨hf, hff'⟩
    refine .ok ⟨rfl, rfl, fun key => ?_⟩
    obtain ⟨name, hname⟩ := Scope.exists_name_of_resolveField hf
    have hlabel : label ⟨path', s', some f'⟩ = label ⟨path, s, some f⟩ := by
      rw [label, label, Option.bind_some, Option.bind_some, hff'.name, hname]
      rfl
    rw [condition_congr hlabel rfl rfl hff' (fun type => by rw [alternatives]) key]
    have hwalked : ¬ s.ComparesText path key := by
      rintro ⟨hsibling, -⟩
      rw [h] at hsibling
      cases hsibling
    exact .refl .same (fun condition => ⟨_, .fixed hwalked condition, rfl, rfl⟩) _

end Comparison

namespace Typer

/-- An arm is the same for both texts, but for the key of a condition that the text labels. -/
theorem matches_arm {text text' : String} (alike : s.LooksLike s') {c c' : Comparison}
    (hs : c.scope = s) (hs' : c'.scope = s') {arm : String × Node}
    (h : Matches (Fault.Respelled text text')
      (Comparison.Relabelled (s.ComparesText path arm.1) text text') (c.condition arm.1)
      (c'.condition arm.1))
    (t : Typer) (owner? : Option String) :
    Matches (Fault.Respelled text text') (fun e e' =>
        ∃ part : (String → String × TypeTerm) × TypeTerm,
          Comparison.Labelled (s.ComparesText path arm.1) part.1 ∧
          e = armTerm owner? (part.1 text) part.2 ∧ e' = armTerm owner? (part.1 text') part.2)
      (t.arm owner? c arm) (t.arm owner? c' arm) := by
  rw [Typer.arm, Typer.arm, hs, hs', alike.type_eq]
  cases t.type none s' arm.2 with
  | error e => exact .fault (.same e)
  | ok value =>
    apply h.bind
    rintro _ _ ⟨labelled, hlabelled, rfl, rfl⟩
    exact .ok ⟨⟨labelled, value⟩, hlabelled, rfl, rfl⟩

/-- Two texts with the same alternatives, such as differ by blanks around the words, give a switch
the same fault, up to the text in it, or types with the same parts. Only the text of a path that is
not walked is seen in the type: it is the key under which literals are compared, and a field of
literals that holds. -/
theorem type_switch_respelled {text text' : String} (read : FieldPath.ofText text = .ok path)
    (read' : FieldPath.ofText text' = .ok path')
    (alternatives : path'.alternatives = path.alternatives) (alike : s.LooksLike s')
    (t : Typer) (owner? : Option String) (arms : List (String × Node)) (default? : Option Node) :
    Matches (Fault.Respelled text text') (fun e e' =>
        (e = e' ↔ text = text' ∨ ∀ arm ∈ arms, ¬ s.ComparesText path arm.1) ∧
        ∃ (parts : List ((String → String × TypeTerm) × TypeTerm)) (rest : List TypeTerm),
          List.Forall₂ (fun arm part =>
            Comparison.Labelled (s.ComparesText path arm.1) part.1) arms parts ∧
          e = .union (parts.map (fun part => armTerm owner? (part.1 text) part.2) ++ rest) ∧
          e' = .union (parts.map (fun part => armTerm owner? (part.1 text') part.2) ++ rest))
      (t.type owner? s (.switch text arms default?))
      (t.type owner? s' (.switch text' arms default?)) := by
  rw [type_switch, type_switch]
  apply (Comparison.matches_ofText read read' alternatives alike).bind
  rintro c c' ⟨hs, hs', hconditions⟩
  apply (Matches.mapM fun arm _ => matches_arm alike hs hs' (hconditions arm.1) t owner?).bind
  rintro _ _ ⟨parts, hparts, rfl, rfl⟩
  rw [alike.last_eq]
  cases t.last owner? s' default? with
  | error e => exact .fault (.same e)
  | ok rest =>
    refine .ok ⟨?_, parts, rest, hparts, rfl, rfl⟩
    rw [TypeTerm.union.injEq, List.append_left_inj]
    exact Comparison.Labelled.map_armTerm_eq_iff hparts

/-- Flags that hold are compared under the name of their field, whatever blanks there are. -/
theorem type_switch_respelled_of_spaced_flags :
    let s : Scope := .within .root [⟨some "flags", .primitive "Flags", false⟩] 0
    let arms : List (String × Node) := [("true", .primitive "u8")]
    let e : TypeTerm := .union [.intersection [.record [("flags",
      .union [.reference "Flags.a", .reference "Flags.b"])], Ground.number.term]]
    (Typer.mk .omit []).type none s (.switch "flags.a||flags.b" arms none) = .ok e ∧
      (Typer.mk .omit []).type none s (.switch " flags.a || flags.b" arms none) = .ok e := by
  intro s arms e
  have read : FieldPath.ofText "flags.a||flags.b" =
      .ok ⟨"flags.a||flags.b", [[.name "flags.a"], [.name "flags.b"]]⟩ := rfl
  have read' : FieldPath.ofText " flags.a || flags.b" =
      .ok ⟨" flags.a || flags.b", [[.name "flags.a"], [.name "flags.b"]]⟩ := rfl
  have h : (Typer.mk .omit []).type none s (.switch "flags.a||flags.b" arms none) = .ok e := rfl
  obtain ⟨e', he', hiff, -⟩ :=
    (type_switch_respelled read read' rfl (.refl s) ⟨.omit, []⟩ none arms none).exists_ok h
  have hflags : s.lookup? "flags" = some ⟨some "flags", .primitive "Flags", false⟩ := rfl
  refine ⟨h, he'.trans (congrArg Except.ok (hiff.2 (.inr ?_)).symm)⟩
  rw [List.forall_mem_singleton]
  rintro ⟨-, hliteral⟩
  obtain ⟨i, f, hf, hliteral⟩ := hliteral rfl
  cases hflags.symm.trans (Scope.lookup?_eq_some_iff.2 ⟨i, hf⟩)
  cases hliteral

/-- A literal is compared under the text of a path that is not walked, blanks and all. -/
theorem type_switch_ne_of_blank :
    let arms : List (String × Node) := [("1", .primitive "u8")]
    let steps : List (List Step) := [[.name "kind"]]
    let e (key : String) : TypeTerm :=
      .union [.intersection [.record [(key, .text "1")], Ground.number.term]]
    FieldPath.ofText "kind" = .ok ⟨"kind", steps⟩ ∧
      FieldPath.ofText " kind" = .ok ⟨" kind", steps⟩ ∧
      (Typer.mk .omit []).type none .root (.switch "kind" arms none) = .ok (e "kind") ∧
      (Typer.mk .omit []).type none .root (.switch " kind" arms none) = .ok (e " kind") ∧
      e "kind" ≠ e " kind" := by
  intro arms steps e
  exact ⟨rfl, rfl, rfl, rfl, by simp [e]⟩

end Typer

end PacketTypings
