import PacketTypings.Proofs.Agreement
import PacketTypings.Proofs.Typing.Step

/-! Nodes typed at two sites. Main statements: if every path leads from both scopes to fields that
look alike, two comparisons give their arms the same conditions; and the types of two nodes agree
if those of the nodes right inside them do. -/

namespace PacketTypings

/-- A switch cannot tell the two fields apart. -/
structure Field.Alike (f f' : Field) : Prop where
  name : f'.name = f.name
  discriminant : Discriminant.ofNode f'.node = Discriminant.ofNode f.node

/-- Where a path leads to a field from the first scope, it leads to one that looks alike from the
second; and so for the siblings that paths name. -/
structure Scope.Agrees (lax : Prop) (s s' : Scope) : Prop where
  resolveField : ∀ path, Follows lax Field.Alike (s.resolveField path) (s'.resolveField path)
  sibling : ∀ path, Follows lax Field.Alike (Comparison.mk path s none).sibling
    (Comparison.mk path s' none).sibling

namespace Comparison

/-- Made in two scopes, the comparisons give every arm the same condition. -/
structure Agrees (lax : Prop) (s s' : Scope) (c c' : Comparison) : Prop where
  scope : c.scope = s
  scope' : c'.scope = s'
  condition : ∀ key, Follows lax Eq (c.condition key) (c'.condition key)

theorem follows_condition {lax : Prop} {c c' : Comparison} (hpath : c'.path = c.path)
    (hlabel : c'.label = c.label) (htarget : Follows lax Field.Alike c.target c'.target)
    (key : String) : Follows lax Eq (c.condition key) (c'.condition key) := by
  unfold condition
  rw [hlabel]
  by_cases hkey : key = holdsKey
  · simp only [if_pos hkey]
    apply htarget.bind
    intro f f' hf
    rw [hf.name, hf.discriminant, hpath]
    exact .refl _
  · simp only [if_neg hkey]
    exact .refl _

theorem follows_ofText {lax : Prop} {s s' : Scope} (hs : s.Agrees lax s') (compareTo : String) :
    Follows lax (Agrees lax s s') (ofText compareTo s) (ofText compareTo s') := by
  unfold ofText
  apply (Follows.refl (FieldPath.read compareTo)).bind_same
  intro path
  by_cases htraversal : path.isTraversal = true
  · simp only [if_pos htraversal]
    apply (hs.resolveField path).bind
    intro f f' hf
    refine .ok ⟨rfl, rfl, follows_condition rfl ?_ (.ok hf)⟩
    simp only [label, Option.bind_some, hf.name]
  · simp only [if_neg htraversal]
    exact .ok ⟨rfl, rfl, follows_condition rfl rfl (hs.sibling path)⟩

end Comparison

namespace Typer

variable {lax : Prop} {t t' : Typer} {owner? : Option String} {s s' : Scope}

theorem follows_array {n n' : Node} (h : Follows lax Eq (t.type none s n) (t'.type none s' n')) :
    Follows lax Eq (t.type owner? s (.array n)) (t'.type owner? s' (.array n')) := by
  rw [type_array, type_array]
  exact h.map_same _

theorem follows_option {n n' : Node} (hoption : n'.isOption = n.isOption)
    (h : Follows lax Eq (t.type none s n) (t'.type none s' n')) :
    Follows lax Eq (t.type owner? s (.option n)) (t'.type owner? s' (.option n')) := by
  rw [type_option, type_option, hoption]
  by_cases hn : n.isOption = true
  · simp only [if_pos hn]
    exact .refl _
  · simp only [if_neg hn]
    exact h.map_same _

theorem follows_encapsulated (lengthType : String) {n n' : Node}
    (h : Follows lax Eq (t.type none s n) (t'.type none s' n')) :
    Follows lax Eq (t.type owner? s (.encapsulated lengthType n))
      (t'.type owner? s' (.encapsulated lengthType n')) := by
  rw [type_encapsulated, type_encapsulated]
  exact h.map_same _

theorem follows_last {default? default?' : Option Node}
    (h : Option.Rel (fun d d' => Follows lax Eq (t.type none s d) (t'.type none s' d'))
      default? default?') :
    Follows lax Eq (t.last owner? s default?) (t'.last owner? s' default?') := by
  cases h with
  | none => exact .ok rfl
  | some h => exact h.map_same _

theorem follows_switch (hs : s.Agrees lax s') (compareTo : String)
    {arms arms' : List (String × Node)} {default? default?' : Option Node}
    (harms : List.Forall₂ (fun x x' => x'.1 = x.1 ∧
      Follows lax Eq (t.type none s x.2) (t'.type none s' x'.2)) arms arms')
    (hdefault : Option.Rel (fun d d' => Follows lax Eq (t.type none s d) (t'.type none s' d'))
      default? default?') :
    Follows lax Eq (t.type owner? s (.switch compareTo arms default?))
      (t'.type owner? s' (.switch compareTo arms' default?')) := by
  rw [type_switch, type_switch]
  apply (Comparison.follows_ofText hs compareTo).bind
  intro c c' hc
  have hterms : Follows lax Eq (arms.mapM (t.arm owner? c)) (arms'.mapM (t'.arm owner? c')) := by
    apply Follows.mapM
    apply harms.imp
    rintro ⟨_, n⟩ ⟨key, n'⟩ ⟨rfl, hn⟩
    unfold arm
    rw [hc.scope, hc.scope']
    apply hn.bind_same
    intro value
    exact (hc.condition key).bind_same fun _ => .refl _
  apply hterms.bind_same
  intro terms
  exact (follows_last hdefault).map_same _

/-- What two fields bring agrees if they differ at most in their nodes and the types of these
agree; of a field that is left out the node does not matter. -/
theorem follows_own {f f' : Field} (hname : f'.name = f.name)
    (hanonymous : f'.anonymous = f.anonymous) (hswitch : f'.node.isSwitch = f.node.isSwitch)
    (hpolicy : f.anonymous = true → t'.anonymousFields = t.anonymousFields)
    (h : (f.anonymous = true → t.anonymousFields = .flatten) →
      Follows lax Eq (t.type f.name s f.node) (t'.type f.name s' f'.node)) :
    Follows lax Eq (t.own s f) (t'.own s' f') := by
  unfold own
  rw [hname, hanonymous, hswitch]
  by_cases hf : f.anonymous = true
  · simp only [if_pos hf, hpolicy hf]
    split
    · exact .refl _
    · next hflatten => exact (h fun _ => hflatten).map_same _
  · simp only [if_neg hf]
    have h := h fun hanonymous => absurd hanonymous hf
    cases hf' : f.name with
    | none => exact .refl _
    | some name =>
      rw [hf'] at h
      exact h.map_same _

theorem follows_container {fields : List Field}
    (h : ∀ i f, fields[i]? = some f →
      Follows lax Eq (t.own (.within s fields i) f) (t'.own (.within s' fields i) f)) :
    Follows lax Eq (t.type owner? s (.container fields))
      (t'.type owner? s' (.container fields)) := by
  rw [type_container, type_container]
  have howns : Follows lax Eq
      (fields.zipIdx.mapM fun x => t.own (.within s fields x.2) x.1)
      (fields.zipIdx.mapM fun x => t'.own (.within s' fields x.2) x.1) := by
    apply Follows.mapM
    rw [List.forall₂_same]
    intro x hx
    exact h x.2 x.1 (List.mem_zipIdx_iff_getElem?.1 hx)
  exact (howns.map_same _).map_same _

end Typer
end PacketTypings
