import PacketTypings.Proofs.Typing.Arms
import PacketTypings.Proofs.Typing.Place
import Mathlib.Logic.Relation

/-! Which switches are a field's own. Nodes are told apart by their places, so a switch somewhere
inside a field's node is not the field's own, even if it equals it. Main statement: wherever a
switch stands in a node, its union stands in the node's type, part by part in the order of
declaration; the values are under the name of the field that the scope was built for exactly if the
switch is at the place of that field's own node. -/

namespace PacketTypings

/-- `u` is the type or stands somewhere inside it. -/
inductive TypeTerm.Inside (u : TypeTerm) : TypeTerm → Prop
  | self : Inside u u
  | member {m : String × TypeTerm} {members : List (String × TypeTerm)} (mem : m ∈ members)
      (inside : Inside u m.2) : Inside u (.record members)
  | element {e : TypeTerm} (inside : Inside u e) : Inside u (.array e)
  | alternative {p : TypeTerm} {parts : List TypeTerm} (mem : p ∈ parts) (inside : Inside u p) :
      Inside u (.union parts)
  | operand {p : TypeTerm} {parts : List TypeTerm} (mem : p ∈ parts) (inside : Inside u p) :
      Inside u (.intersection parts)
  | inner {e : TypeTerm} (note : String) (inside : Inside u e) : Inside u (.annotated e note)

namespace Parts

/-- `u` stands in the type of a member or of a type beside the members. -/
def Holds (u : TypeTerm) (p : Parts) : Prop :=
  (∃ m ∈ p.members, u.Inside m.2) ∨ ∃ e ∈ p.others, u.Inside e

variable {u e : TypeTerm}

theorem holds_append_iff {p q : Parts} : (p ++ q).Holds u ↔ p.Holds u ∨ q.Holds u := by
  change (∃ m ∈ p.members ++ q.members, _) ∨ (∃ e ∈ p.others ++ q.others, _) ↔ _
  simp only [Holds, List.mem_append, or_and_right, exists_or]
  exact or_or_or_comm

theorem holds_foldr_iff {ps : List Parts} :
    (ps.foldr (· ++ ·) empty).Holds u ↔ ∃ p ∈ ps, p.Holds u := by
  induction ps with
  | nil => simp [Holds, empty]
  | cons p ps ih => rw [List.foldr_cons, holds_append_iff, ih, List.exists_mem_cons_iff]

theorem inside_term {p : Parts} (h : p.Holds u) : u.Inside p.term := by
  obtain ⟨members, others⟩ := p
  rcases h with ⟨m, hm, h⟩ | ⟨e, he, h⟩
  · cases others with
    | nil => exact .member hm h
    | cons o others => exact .operand List.mem_cons_self (.member hm h)
  · rw [term_of_mem_others he]
    exact .operand (List.mem_cons_of_mem _ he) h

-- Only records and intersections are taken apart, so a union inside a type stays whole.
theorem holds_ofPart {parts : List TypeTerm} (h : (TypeTerm.union parts).Inside e) :
    (ofPart e).Holds (.union parts) := by
  cases e with
  | record members =>
    cases h with
    | member hm h => exact .inl ⟨_, hm, h⟩
  | _ => exact .inr ⟨_, List.mem_singleton_self _, h⟩

theorem holds_spliced {parts : List TypeTerm} (h : (TypeTerm.union parts).Inside e) :
    (spliced e).Holds (.union parts) := by
  cases e with
  | intersection operands =>
    cases h with
    | operand hp h =>
      rw [spliced_intersection, holds_foldr_iff]
      exact ⟨_, List.mem_map_of_mem hp, holds_ofPart h⟩
  | _ => exact holds_ofPart h

end Parts

namespace Typer

variable {t : Typer} {owner? : Option String} {s : Scope}

/-- What a field that is kept brings holds the unions inside the type of its node. -/
theorem exists_type_of_own {f : Field} (kept : f.anonymous = true → t.anonymousFields = .flatten)
    {own : Parts} (h : t.own s f = .ok own) : ∃ e, t.type f.name s f.node = .ok e ∧
      ∀ parts, (TypeTerm.union parts).Inside e → own.Holds (.union parts) := by
  rw [Typer.own] at h
  split at h
  · next hanonymous =>
    rw [kept hanonymous] at h
    obtain ⟨e, he, rfl⟩ := map_eq_ok_iff.1 h
    exact ⟨e, he, fun _ => Parts.holds_spliced⟩
  · split at h
    · cases h
    · obtain ⟨e, he, rfl⟩ := map_eq_ok_iff.1 h
      refine ⟨e, he, fun parts hinside => ?_⟩
      split
      · exact .inr ⟨e, List.mem_singleton_self _, hinside⟩
      · exact .inl ⟨_, List.mem_singleton_self _, hinside⟩

theorem inside_armTerm {u value : TypeTerm} (condition : String × TypeTerm) (h : u.Inside value) :
    u.Inside (armTerm owner? condition value) := by
  cases owner? with
  | some name => exact .member (List.mem_cons_of_mem _ (List.mem_singleton_self _)) h
  | none => exact .operand (List.mem_cons_of_mem _ (List.mem_singleton_self _)) h

theorem inside_defaultTerm {u value : TypeTerm} (h : u.Inside value) :
    u.Inside (defaultTerm owner? value) := by
  cases owner? with
  | some name => exact .member (List.mem_singleton_self _) h
  | none => exact h

/-- A node right inside another has a type, and the unions inside it are inside the type of the
other. -/
theorem exists_inside_of_child {n : Node} {e : TypeTerm} (h : t.type owner? s n = .ok e) {i : Nat}
    {b : Site} (child : Site.Child t.anonymousFields i ⟨s, n⟩ b) :
    ∃ e', t.type (n.ownerAt i) b.scope b.node = .ok e' ∧
      ∀ parts, (TypeTerm.union parts).Inside e' → (TypeTerm.union parts).Inside e := by
  cases child with
  | @field s fields i f hf kept =>
    rw [type_container] at h
    obtain ⟨_, hparts, rfl⟩ := map_eq_ok_iff.1 h
    obtain ⟨ps, hps, rfl⟩ := map_eq_ok_iff.1 hparts
    obtain ⟨p, hp, hown⟩ :=
      exists_of_mem_of_mapM_eq_ok hps (List.mem_zipIdx_iff_getElem?.2 hf : (f, i) ∈ fields.zipIdx)
    obtain ⟨e', he', hholds⟩ := exists_type_of_own kept hown
    refine ⟨e', ?_, fun parts hinside => ?_⟩
    · rw [Node.ownerAt, hf]
      exact he'
    · exact Parts.inside_term (Parts.holds_foldr_iff.2 ⟨p, hp, hholds parts hinside⟩)
  | arm harm =>
    obtain ⟨c, terms, _, hc, hterms, -, rfl⟩ := type_switch_eq_ok_iff.1 h
    obtain ⟨term, hterm, hone⟩ := exists_of_mem_of_mapM_eq_ok hterms (List.mem_of_getElem? harm)
    obtain ⟨value, condition, hvalue, -, rfl⟩ := arm_eq_ok_iff.1 hone
    rw [Comparison.scope_of_ofText hc] at hvalue
    exact ⟨value, hvalue, fun parts hinside =>
      .alternative (List.mem_append_left _ hterm) (inside_armTerm condition hinside)⟩
  | default s compareTo arms d =>
    obtain ⟨_, terms, rest, -, -, hrest, rfl⟩ := type_switch_eq_ok_iff.1 h
    obtain ⟨value, hvalue, rfl⟩ := map_eq_ok_iff.1 hrest
    exact ⟨value, hvalue, fun parts hinside => .alternative
      (List.mem_append_right _ (List.mem_singleton_self _)) (inside_defaultTerm hinside)⟩
  | element s element =>
    rw [type_array] at h
    obtain ⟨e', he', rfl⟩ := map_eq_ok_iff.1 h
    exact ⟨e', he', fun parts hinside => .element hinside⟩
  | content s content =>
    obtain ⟨-, e', he', rfl⟩ := type_option_eq_ok_iff.1 h
    exact ⟨e', he', fun parts hinside => .alternative List.mem_cons_self hinside⟩
  | encapsulated s lengthType content =>
    rw [type_encapsulated] at h
    obtain ⟨e', he', rfl⟩ := map_eq_ok_iff.1 h
    exact ⟨e', he', fun parts hinside => .inner _ hinside⟩

end Typer

/-- A node that typing comes to: its place inside the node that typing started with, and the place
of the own node of the field that the scope was built for, if typing has come to that. -/
structure Visit where
  place : Place
  own? : Option Place
  site : Site

namespace Visit

/-- Typing starts with the own node of the field that the scope was built for, or with another
node. -/
structure Starts (x : Visit) : Prop where
  place : x.place = []
  own : ∀ p ∈ x.own?, p = [] ∧ ∃ f, x.site.scope.owner? = some f ∧ f.node = x.site.node

/-- Typing goes on to a node right inside. For a field it builds a scope, of which the field's node
is the own one; every other node is typed in the scope of the node around it. -/
inductive Step (policy : AnonymousFields) : Visit → Visit → Prop
  | field {p : Place} {own? : Option Place} {s : Scope} {fields : List Field} {i : Nat} {f : Field}
      (getElem? : fields[i]? = some f) (kept : f.anonymous = true → policy = .flatten) :
      Step policy ⟨p, own?, ⟨s, .container fields⟩⟩
        ⟨p ++ [i], some (p ++ [i]), ⟨.within s fields i, f.node⟩⟩
  | inside {p : Place} {own? : Option Place} {a b : Site} {i : Nat}
      (child : Site.Child policy i a b) (same : b.scope = a.scope) :
      Step policy ⟨p, own?, a⟩ ⟨p ++ [i], own?, b⟩

/-- The node is the own one of the field of that name that its scope was built for. -/
def Owned (x : Visit) (name : String) : Prop :=
  x.own? = some x.place ∧ ∃ f, x.site.scope.owner? = some f ∧ f.node = x.site.node ∧
    f.name = some name

/-- The name that the node is typed for. -/
def owner? (x : Visit) : Option String :=
  if x.own? = some x.place then x.site.scope.owner?.bind FieldOf.name else none

/-- The own node of the scope's field is not further in, and if it is the node itself the scope says
so. -/
structure Sound (x : Visit) : Prop where
  le : ∀ p ∈ x.own?, p.length ≤ x.place.length
  own : x.own? = some x.place → ∃ f, x.site.scope.owner? = some f ∧ f.node = x.site.node

variable {policy : AnonymousFields} {x y : Visit}

theorem Starts.sound (h : x.Starts) : x.Sound where
  le p hp := by simp [(h.own p hp).1]
  own hown := (h.own x.place hown).2

theorem Sound.own?_ne_deeper (h : x.Sound) (i : Nat) : x.own? ≠ some (x.place ++ [i]) := by
  intro hown
  have hle := h.le _ hown
  rw [List.length_append, List.length_singleton] at hle
  omega

theorem Step.sound (step : Step policy x y) (hx : x.Sound) : y.Sound := by
  cases step with
  | field hf _ =>
    refine ⟨?_, fun _ => ⟨_, hf, rfl⟩⟩
    rintro _ ⟨⟩
    exact Nat.le_refl _
  | inside child same =>
    refine ⟨fun q hq => ?_, fun hown => absurd hown (hx.own?_ne_deeper _)⟩
    rw [List.length_append]
    exact Nat.le_add_right_of_le (hx.le q hq)

theorem sound_of_reaches (start : x.Starts) (h : Relation.ReflTransGen (Step policy) x y) :
    y.Sound := by
  induction h with
  | refl => exact start.sound
  | tail _ step ih => exact step.sound ih

theorem Sound.owner?_eq_some_iff (h : x.Sound) {name : String} :
    x.owner? = some name ↔ x.Owned name := by
  unfold owner? Owned
  by_cases hown : x.own? = some x.place
  · obtain ⟨f, hf, hnode⟩ := h.own hown
    simp [hown, hf, hnode]
  · simp [hown]

end Visit

namespace Typer

variable {t : Typer} {x y : Visit} {e : TypeTerm}

/-- What typing comes to next has a type too, and is typed for the field that it is the own node
of. -/
theorem exists_inside_of_step (hx : x.Sound) (step : Visit.Step t.anonymousFields x y)
    (h : t.type x.owner? x.site.scope x.site.node = .ok e) :
    ∃ e', t.type y.owner? y.site.scope y.site.node = .ok e' ∧
      ∀ parts, (TypeTerm.union parts).Inside e' → (TypeTerm.union parts).Inside e := by
  cases step with
  | @field p own? s fields i f hf kept =>
    have hinside := exists_inside_of_child h (.field hf kept)
    have howner : Visit.owner? ⟨p ++ [i], some (p ++ [i]), ⟨.within s fields i, f.node⟩⟩ =
        (Node.container fields).ownerAt i := by
      rw [Visit.owner?, if_pos rfl]
      rfl
    rwa [howner]
  | @inside p own? a b i child same =>
    have hinside := exists_inside_of_child h child
    have howner : Visit.owner? ⟨p ++ [i], own?, b⟩ = a.node.ownerAt i := by
      rw [Visit.owner?, if_neg (hx.own?_ne_deeper i)]
      have hnot (fields : List Field) : a.node ≠ .container fields :=
        child.flattened.not_container same
      cases hnode : a.node with
      | container fields => exact absurd hnode (hnot fields)
      | _ => rfl
    rwa [howner]

theorem exists_inside_of_reaches (start : x.Starts)
    (h : t.type x.owner? x.site.scope x.site.node = .ok e)
    (reaches : Relation.ReflTransGen (Visit.Step t.anonymousFields) x y) :
    ∃ e', t.type y.owner? y.site.scope y.site.node = .ok e' ∧
      ∀ parts, (TypeTerm.union parts).Inside e' → (TypeTerm.union parts).Inside e := by
  induction reaches with
  | refl => exact ⟨e, h, fun _ hinside => hinside⟩
  | tail hreaches step ih =>
    obtain ⟨e', he', hinside⟩ := ih
    obtain ⟨e'', he'', hinside'⟩ :=
      exists_inside_of_step (Visit.sound_of_reaches start hreaches) step he'
    exact ⟨e'', he'', fun parts hparts => hinside parts (hinside' parts hparts)⟩

/-- Wherever typing comes to a switch, its union stands in the type of the node that typing started
with: one part for each arm, of the arm's own condition and of its value typed in the same scope,
and one for the default, without a condition. Parts hold their values under a name exactly if the
switch is the own node of a field of that name that its scope was built for. A literal is compared
under the name of the field that a walked path leads to, or under the text of any other path. -/
theorem switch_nested_iff_owned (start : x.Starts)
    (h : t.type x.owner? x.site.scope x.site.node = .ok e)
    (reaches : Relation.ReflTransGen (Visit.Step t.anonymousFields) x y) {compareTo : String}
    {arms : List (String × Node)} {default? : Option Node}
    (switch : y.site.node = .switch compareTo arms default?) :
    ∃ c label typed values union, Comparison.Made compareTo y.site.scope c ∧
      (∀ f ∈ c.walked?, f.name = some label) ∧ (c.walked? = none → label = compareTo) ∧
      t.TypesArms y.site.scope c arms typed ∧ t.TypesDefault y.site.scope default? values ∧
      List.Forall₂ (fun arm x => arm.1 ≠ holdsKey → x.condition = (label, .text arm.1))
        arms typed ∧
      t.type y.owner? y.site.scope y.site.node = .ok union ∧ union.Inside e ∧
      (∀ name, y.Owned name → union = .union
        (typed.map (fun x => .record [x.condition, (name, x.value)]) ++
          values.map fun value => .record [(name, value)])) ∧
      ((∀ name, ¬ y.Owned name) → union = .union
        (typed.map (fun x => .intersection [.record [x.condition], x.value]) ++ values)) := by
  have sound := Visit.sound_of_reaches start reaches
  obtain ⟨union, hunion, hinside⟩ := exists_inside_of_reaches start h reaches
  obtain ⟨c, typed, values, hc, htyped, hvalues, rfl⟩ :=
    exists_typed_of_type_switch (switch ▸ hunion)
  have hmade := Comparison.ofText_eq_ok_iff.1 hc
  obtain ⟨label, hwalked, htext, hliteral⟩ := hmade.exists_label
  refine ⟨c, label, typed, values, _, hmade, hwalked, htext, htyped, hvalues, ?_, hunion,
    hinside _ .self, ?_, ?_⟩
  · apply htyped.imp
    intro arm x hx hkey
    exact Except.ok.inj (hx.1.symm.trans (hliteral _ hkey))
  · intro name howned
    rw [sound.owner?_eq_some_iff.2 howned, parts_of_named]
    rfl
  · intro hfree
    have hnone : y.owner? = none :=
      Option.eq_none_iff_forall_ne_some.2 fun name hname =>
        hfree name (sound.owner?_eq_some_iff.1 hname)
    rw [hnone, parts_of_unnamed]
    rfl

/-- A field's own switch that holds another one in an arm. Typed in the same scope, the outer one is
keyed by the field and the inner one is not. -/
theorem switch_nested_iff_owned_of_switch_in_arm :
    let kind : Field := ⟨some "kind", .primitive "bool", false⟩
    let inner : Node := .switch "../kind" [("1", .primitive "u8")] (some (.primitive "nbt"))
    let outer : Node := .switch "../kind" [("1", inner)] (some (.primitive "nbt"))
    let data : Field := ⟨some "data", outer, false⟩
    let body : Field := ⟨some "body", .container [data], false⟩
    let start : Visit := ⟨[], none, ⟨.root, .container [kind, body]⟩⟩
    let s : Scope := .within (.within .root [kind, body] 1) [data] 0
    let condition : TypeTerm := .record [("kind", .text "1")]
    let innerTerm : TypeTerm :=
      .union [.intersection [condition, .primitive "number"], .primitive "any"]
    let outerTerm : TypeTerm := .union [.record [("kind", .text "1"), ("data", innerTerm)],
      .record [("data", .primitive "any")]]
    ∃ e, (Typer.mk .omit []).type none .root (.container [kind, body]) = .ok e ∧
      start.Starts ∧ outerTerm.Inside e ∧ innerTerm.Inside e ∧
      (Visit.mk [1, 0] (some [1, 0]) ⟨s, outer⟩).Owned "data" ∧
      ∀ name, ¬ (Visit.mk [1, 0, 0] (some [1, 0]) ⟨s, inner⟩).Owned name := by
  intro kind inner outer data body start s condition innerTerm outerTerm
  have hstart : start.Starts := ⟨rfl, by rintro p ⟨⟩⟩
  have hbody : Visit.Step .omit start ⟨[1], some [1], ⟨.within .root [kind, body] 1, body.node⟩⟩ :=
    .field (p := []) (i := 1) (f := body) rfl Bool.noConfusion
  have hdata : Visit.Step .omit ⟨[1], some [1], ⟨.within .root [kind, body] 1, body.node⟩⟩
      ⟨[1, 0], some [1, 0], ⟨s, outer⟩⟩ :=
    .field (p := [1]) (i := 0) (f := data) rfl Bool.noConfusion
  have hinner : Visit.Step .omit ⟨[1, 0], some [1, 0], ⟨s, outer⟩⟩
      ⟨[1, 0, 0], some [1, 0], ⟨s, inner⟩⟩ := .inside (p := [1, 0]) (i := 0) (.arm rfl) rfl
  have howned : (Visit.mk [1, 0] (some [1, 0]) ⟨s, outer⟩).Owned "data" :=
    ⟨rfl, data, rfl, rfl, rfl⟩
  have hfree (name : String) :
      ¬ (Visit.mk [1, 0, 0] (some [1, 0]) ⟨s, inner⟩).Owned name :=
    fun h => absurd h.1 (by simp)
  obtain ⟨e, he⟩ : ∃ e, (Typer.mk .omit []).type none .root (.container [kind, body]) = .ok e :=
    ⟨_, rfl⟩
  have houter := (Relation.ReflTransGen.single hbody).tail hdata
  obtain ⟨-, -, -, -, union, -, -, -, -, -, -, htype, hinside, -⟩ :=
    switch_nested_iff_owned (t := ⟨.omit, []⟩) hstart he houter rfl
  obtain ⟨-, -, -, -, union', -, -, -, -, -, -, htype', hinside', -⟩ :=
    switch_nested_iff_owned (t := ⟨.omit, []⟩) hstart he (houter.tail hinner) rfl
  cases htype
  cases htype'
  exact ⟨e, he, hstart, hinside, hinside', howned, hfree⟩

end Typer
end PacketTypings
