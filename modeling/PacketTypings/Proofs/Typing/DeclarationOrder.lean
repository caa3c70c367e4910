import PacketTypings.Proofs.Typing.Place

/-! Which of two fields is declared first, the one that a switch compares or the one that it is the
type of. Main statement: the compared field is declared later exactly if the path climbs, comes down
through the fields around the switch, and turns to a member behind the one that it came from. -/

namespace PacketTypings

/-- The positions of the fields that a site is in, from `k` scopes above its own inwards. -/
def Scope.trail : Nat → Scope → List Nat
  | 0, within _ _ index => [index]
  | k + 1, within outer _ index => outer.trail k ++ [index]
  | _, root => []

/-- The second list of positions leaves the first for a position further behind. -/
def TurnsAhead (trail positions : List Nat) : Prop :=
  ∃ along i j rest rest', trail = along ++ i :: rest ∧ positions = along ++ j :: rest' ∧ i < j

/-- From the scope that the path climbs to, its names go along the fields around the site and then
select a member behind the one that the site is in. -/
def Scope.LooksAhead (s : Scope) (path : FieldPath) : Prop :=
  path.isTraversal = true ∧ ∃ k t texts is f,
    Step.moves path.primary = List.replicate k .parent ++ texts.map .name ∧
      s.above? k = some t ∧ t.Selects texts is f ∧ TurnsAhead (s.trail k) is

/-- The place of the field that a scope belongs to. -/
def ownPlace : Scope → List Place → Option Place
  | .within _ _ index, c :: _ => some (c ++ [index])
  | _, _ => none

/-- A path leads from a scope to the field at a place, or names the sibling at that place; `cs` are
the places of the containers that the scope and those above it are of. -/
inductive Finds (s : Scope) (cs : List Place) (path : FieldPath) : Place → Field → Prop
  | walked {k : Nat} {t : Scope} {texts : List String} {is : List Nat} {f : Field} {c : Place}
      (traversal : path.isTraversal = true)
      (moves : Step.moves path.primary = List.replicate k .parent ++ texts.map .name)
      (above : s.above? k = some t) (selects : t.Selects texts is f)
      (container : cs[k]? = some c) : Finds s cs path (c ++ is) f
  | sibling {i : Nat} {f : Field} {c : Place} (sibling : path.isTraversal = false)
      (sees : s.Sees path.siblingName i f) (container : cs[0]? = some c) :
      Finds s cs path (c ++ [i]) f

theorem not_turnsAhead_nil (trail : List Nat) : ¬ TurnsAhead trail [] := by
  rintro ⟨along, _, _, _, _, -, his, -⟩
  cases along <;> cases his

theorem turnsAhead_cons_iff {i j : Nat} {trail is : List Nat} :
    TurnsAhead (i :: trail) (j :: is) ↔ i < j ∨ i = j ∧ TurnsAhead trail is := by
  constructor
  · rintro ⟨along, a, b, rest, rest', htrail, his, hlt⟩
    cases along with
    | nil =>
      cases htrail
      cases his
      exact .inl hlt
    | cons x along =>
      cases htrail
      cases his
      exact .inr ⟨rfl, along, a, b, rest, rest', rfl, rfl, hlt⟩
  · rintro (h | ⟨rfl, along, a, b, rest, rest', rfl, rfl, hlt⟩)
    · exact ⟨[], i, j, trail, is, rfl, rfl, h⟩
    · exact ⟨i :: along, a, b, rest, rest', rfl, rfl, hlt⟩

/-- The way from a container down to the last field around a site: the place of that field and the
positions of the fields passed. A field that is no container itself may hold the next one deeper. -/
inductive Way : List Field → Place → List Nat → Prop
  | own {fields : List Field} {i : Nat} {f : Field} (getElem? : fields[i]? = some f)
      (leaf : ∀ fs, f.node ≠ .container fs) : Way fields [i] [i]
  | next {fields fs : List Field} {i : Nat} {f : Field} {w : Place} {trail : List Nat}
      (getElem? : fields[i]? = some f) (container : f.node = .container fs)
      (way : Way fs w trail) : Way fields (i :: w) (i :: trail)
  | deeper {fields fs : List Field} {i : Nat} {f : Field} {r w : Place} {trail : List Nat}
      (getElem? : fields[i]? = some f) (leaf : ∀ gs, f.node ≠ .container gs)
      (way : Way fs w trail) : Way fields (i :: r ++ w) (i :: trail)

theorem lt_nil_iff_turnsAhead_nil (w : Place) (trail : List Nat) :
    w < [] ↔ TurnsAhead trail [] := by
  simp [not_turnsAhead_nil]

theorem Field.Leads.eq_nil_of_leaf {f g : Field} {texts : List String} {is : List Nat}
    (h : f.Leads texts is g) (hleaf : ∀ fs, f.node ≠ .container fs) : is = [] := by
  cases h with
  | here => rfl
  | member container => exact absurd container (hleaf _)

theorem cons_lt_cons_iff_turnsAhead {fields : List Field} {i j : Nat} {f g : Field} {w is : Place}
    {trail : List Nat} (hf : fields[i]? = some f) (hg : fields[j]? = some g)
    (h : f = g → (w < is ↔ TurnsAhead trail is)) :
    i :: w < j :: is ↔ TurnsAhead (i :: trail) (j :: is) := by
  rw [List.cons_lt_cons_iff, turnsAhead_cons_iff]
  refine or_congr_right (and_congr_right fun hij => h ?_)
  subst hij
  exact Option.some.inj (hf.symm.trans hg)

/-- A field selected inside a container comes after the end of a way exactly if its positions leave
the way for one further behind. -/
theorem Way.lt_iff_turnsAhead {fields : List Field} {w : Place} {trail : List Nat}
    (hway : Way fields w trail) {j : Nat} {is : List Nat} {g f : Field} {texts : List String}
    (hg : fields[j]? = some g) (hleads : g.Leads texts is f) :
    w < j :: is ↔ TurnsAhead trail (j :: is) := by
  induction hway generalizing j is g texts with
  | own hf hleaf =>
    refine cons_lt_cons_iff_turnsAhead hf hg fun hfg => ?_
    subst hfg
    rw [hleads.eq_nil_of_leaf hleaf]
    exact lt_nil_iff_turnsAhead_nil _ _
  | deeper hf hleaf =>
    refine cons_lt_cons_iff_turnsAhead hf hg fun hfg => ?_
    subst hfg
    rw [hleads.eq_nil_of_leaf hleaf]
    exact lt_nil_iff_turnsAhead_nil _ _
  | next hf hcontainer way ih =>
    refine cons_lt_cons_iff_turnsAhead hf hg fun hfg => ?_
    subst hfg
    cases hleads with
    | here => exact lt_nil_iff_turnsAhead_nil _ _
    | member container latest rest =>
      cases hcontainer.symm.trans container
      exact ih latest.getElem? rest

theorem Located.exists_way_outwards {root : Node} {p : Place} {cs : List Place} {outer : Scope}
    {fields fs : List Field} {index : Nat}
    (h : Located root p cs ⟨.within outer fields index, .container fs⟩) {w : Place}
    {trail : List Nat} (hway : Way fs w trail) :
    ∃ c ds w', cs = c :: ds ∧ Located root c ds ⟨outer, .container fields⟩ ∧
      Way fields w' (index :: trail) ∧ c ++ w' = p ++ w := by
  obtain ⟨c, ds, f, r, rfl, houter, hf, rfl, hr⟩ := h.of_within
  refine ⟨c, ds, index :: r ++ w, rfl, houter, ?_, by simp⟩
  rcases hr with ⟨rfl, hf'⟩ | hleaf
  · exact .next hf hf' hway
  · exact .deeper hf hleaf hway

/-- From every scope above a container, a way leads to what a way leads to from that container. -/
theorem Located.exists_way_from {root : Node} {p : Place} {cs : List Place} {s : Scope}
    {fs : List Field} (h : Located root p cs ⟨s, .container fs⟩) {w : Place} {trail : List Nat}
    (hway : Way fs w trail) {k : Nat} {outer : Scope} {fields : List Field} {index : Nat}
    (habove : s.above? k = some (.within outer fields index)) :
    ∃ c ds w', cs[k]? = some c ∧ Located root c ds ⟨outer, .container fields⟩ ∧
      Way fields w' (s.trail k ++ trail) ∧ c ++ w' = p ++ w := by
  induction k generalizing p cs s fs w trail with
  | zero =>
    cases habove
    obtain ⟨c, ds, w', rfl, houter, hway', heq⟩ := h.exists_way_outwards hway
    exact ⟨c, ds, w', rfl, houter, hway', heq⟩
  | succ k ih =>
    cases s with
    | root => cases habove
    | within outer' fields' index' =>
      obtain ⟨c, ds, w', rfl, houter, hway', heq⟩ := h.exists_way_outwards hway
      obtain ⟨c', ds', w'', hc', houter', hway'', heq'⟩ := ih houter hway' habove
      refine ⟨c', ds', w'', hc', houter', ?_, heq'.trans heq⟩
      simpa [Scope.trail] using hway''

/-- From every scope above a node that is no container, a way leads to the field of its scope. -/
theorem Located.exists_way {root : Node} {p : Place} {cs : List Place} {s : Scope} {n : Node}
    (h : Located root p cs ⟨s, n⟩) (hn : ∀ fs, n ≠ .container fs) {k : Nat} {outer : Scope}
    {fields : List Field} {index : Nat} (habove : s.above? k = some (.within outer fields index)) :
    ∃ c ds w, cs[k]? = some c ∧ Located root c ds ⟨outer, .container fields⟩ ∧
      Way fields w (s.trail k) ∧ ownPlace s cs = some (c ++ w) := by
  cases s with
  | root => cases k <;> cases habove
  | within outer' fields' index' =>
    obtain ⟨c, ds, f, r, rfl, houter, hf, rfl, hr⟩ := h.of_within
    have hleaf : ∀ fs, f.node ≠ .container fs := by
      rcases hr with ⟨-, rfl⟩ | hleaf
      · exact hn
      · exact hleaf
    cases k with
    | zero =>
      cases habove
      exact ⟨c, ds, [index], rfl, houter, .own hf hleaf, rfl⟩
    | succ k =>
      obtain ⟨c', ds', w, hc', houter', hway, heq⟩ := houter.exists_way_from (.own hf hleaf) habove
      exact ⟨c', ds', w, hc', houter', hway, by rw [ownPlace, heq]⟩

theorem Located.fieldAt_ownPlace {root : Node} {p : Place} {cs : List Place} {s : Scope} {n : Node}
    (h : Located root p cs ⟨s, n⟩) {o : Place} (ho : ownPlace s cs = some o) :
    ∃ own, s.owner? = some own ∧ FieldAt root o own := by
  cases s with
  | root => cases ho
  | within outer fields index =>
    obtain ⟨c, ds, f, r, rfl, houter, hf, rfl, -⟩ := h.of_within
    cases ho
    exact ⟨f, hf, .mk houter hf⟩

theorem Scope.Selects.exists_within {t : Scope} {texts : List String} {is : List Nat} {f : Field}
    (h : t.Selects texts is f) : ∃ outer fields index j js g texts',
      t = within outer fields index ∧ is = j :: js ∧ j ≤ index ∧ fields[j]? = some g ∧
        g.Leads texts' js f := by
  cases h with
  | visible sees rest =>
    cases sees with
    | upTo le_index getElem? => exact ⟨_, _, _, _, _, _, _, rfl, rfl, le_index, getElem?, rest⟩

theorem append_lt_append_iff (c p q : Place) : c ++ p < c ++ q ↔ p < q := by
  induction c with
  | nil => rfl
  | cons i c ih => rw [List.cons_append, List.cons_append, List.cons_lt_cons_self, ih]

theorem Scope.looksAhead_iff {s t : Scope} {path : FieldPath} {k : Nat} {texts : List String}
    {is : List Nat} {f : Field} (htraversal : path.isTraversal = true)
    (hmoves : Step.moves path.primary = List.replicate k .parent ++ texts.map .name)
    (habove : s.above? k = some t) (hselects : t.Selects texts is f) :
    s.LooksAhead path ↔ TurnsAhead (s.trail k) is := by
  constructor
  · rintro ⟨-, k', t', texts', is', f', hmoves', habove', hselects', hahead⟩
    obtain ⟨rfl, rfl⟩ := Step.climb_unique (hmoves.symm.trans hmoves')
    cases habove.symm.trans habove'
    obtain ⟨rfl, rfl⟩ := hselects.unique hselects'
    exact hahead
  · exact fun hahead => ⟨htraversal, k, t, texts, is, f, hmoves, habove, hselects, hahead⟩

theorem Located.of_finds {root : Node} {p : Place} {cs : List Place} {s : Scope} {n : Node}
    (h : Located root p cs ⟨s, n⟩) (hn : ∀ fs, n ≠ .container fs) {path : FieldPath} {q : Place}
    {f : Field} (hfinds : Finds s cs path q f) :
    FieldAt root q f ∧ ∃ o, ownPlace s cs = some o ∧ (o < q ↔ s.LooksAhead path) := by
  cases hfinds with
  | @walked k t texts is f c traversal moves above selects container =>
    have hlooks := Scope.looksAhead_iff traversal moves above selects
    obtain ⟨outer, fields, index, j, js, g, texts', rfl, rfl, -, hg, hleads⟩ :=
      selects.exists_within
    obtain ⟨c', ds, w, hc', houter, hway, ho⟩ := h.exists_way hn above
    cases container.symm.trans hc'
    have hf : FieldAt root (c ++ [j] ++ js) f := FieldAt.of_leads (.mk houter hg) hleads
    refine ⟨by simpa using hf, c ++ w, ho, ?_⟩
    rw [append_lt_append_iff, hlooks, hway.lt_iff_turnsAhead hg hleads]
  | @sibling i f c sibling sees container =>
    cases sees with
    | @upTo outer fields index i name f le_index getElem? =>
      obtain ⟨c', ds, w, hc', houter, hway, ho⟩ := h.exists_way hn (k := 0) rfl
      cases container.symm.trans hc'
      refine ⟨.mk houter getElem?, c ++ w, ho, ?_⟩
      rw [append_lt_append_iff, hway.lt_iff_turnsAhead getElem? (.here f), Scope.trail,
        turnsAhead_cons_iff, Scope.LooksAhead]
      simp [sibling, not_turnsAhead_nil, le_index]

theorem Located.target_eq_ok_iff {root : Node} {p : Place} {cs : List Place} {s : Scope} {n : Node}
    (h : Located root p cs ⟨s, n⟩) (hn : ∀ fs, n ≠ .container fs) {compareTo : String}
    {c : Comparison} (hc : Comparison.ofText compareTo s = .ok c) (f : Field) :
    c.target = .ok f ↔ ∃ q, Finds s cs c.path q f := by
  cases Comparison.ofText_eq_ok_iff.1 hc with
  | @walked path f' read traversal resolve =>
    have hf' := Scope.reaches_field_iff.1 (Scope.resolveField_eq_ok_iff.1 resolve)
    obtain ⟨k, t, texts, is, moves, above, selects⟩ := hf'
    constructor
    · rintro ⟨⟩
      obtain ⟨outer, fields, index, j, js, g, texts', rfl, -⟩ := selects.exists_within
      obtain ⟨c, ds, w, container, -⟩ := h.exists_way hn above
      exact ⟨c ++ is, .walked traversal moves above selects container⟩
    · rintro ⟨q, hfinds⟩
      cases hfinds with
      | walked _ moves' above' selects' =>
        obtain ⟨rfl, rfl⟩ := Step.climb_unique (moves.symm.trans moves')
        cases above.symm.trans above'
        rw [(selects.unique selects').2]
        rfl
      | sibling sibling =>
        rw [traversal] at sibling
        cases sibling
  | @sibling path read sibling =>
    have hsibling : (Comparison.mk path s none).target = .ok f ↔
        s.lookup? path.siblingName = some f := by
      change (s.lookup? path.siblingName).elim _ _ = _ ↔ _
      cases s.lookup? path.siblingName <;> simp
    rw [hsibling, Scope.lookup?_eq_some_iff]
    constructor
    · rintro ⟨i, sees⟩
      obtain ⟨outer, fields, index, rfl⟩ :
          ∃ outer fields index, s = .within outer fields index := by
        cases sees
        exact ⟨_, _, _, rfl⟩
      obtain ⟨c, ds, w, container, -⟩ := h.exists_way hn (k := 0) rfl
      exact ⟨c ++ [i], .sibling sibling sees container⟩
    · rintro ⟨q, hfinds⟩
      cases hfinds with
      | walked traversal =>
        rw [traversal] at sibling
        cases sibling
      | sibling _ sees => exact ⟨_, sees⟩

/-- The field that a switch compares is the one at a place that its path finds. It is declared later
than the field that the switch is compiled for exactly if the path looks ahead. -/
theorem compared_later_iff_looksAhead {root : Node} {p : Place} {cs : List Place} {s : Scope}
    {compareTo : String} {arms : List (String × Node)} {default? : Option Node}
    (h : Located root p cs ⟨s, .switch compareTo arms default?⟩) {c : Comparison}
    (hc : Comparison.ofText compareTo s = .ok c) :
    (∀ f, c.target = .ok f ↔ ∃ q, Finds s cs c.path q f) ∧
    ∀ q f, Finds s cs c.path q f → FieldAt root q f ∧ ∃ o own, ownPlace s cs = some o ∧
      s.owner? = some own ∧ FieldAt root o own ∧ (o < q ↔ s.LooksAhead c.path) := by
  have hn : ∀ fs, (Node.switch compareTo arms default?) ≠ .container fs := nofun
  refine ⟨h.target_eq_ok_iff hn hc, fun q f hfinds => ?_⟩
  obtain ⟨hf, o, ho, hlater⟩ := h.of_finds hn hfinds
  obtain ⟨own, hown, hat⟩ := h.fieldAt_ownPlace ho
  exact ⟨hf, o, own, ho, hown, hat, hlater⟩

/-- A switch in a container that compares a field of an earlier container. -/
theorem compared_later_iff_looksAhead_of_header :
    let header : Field := ⟨some "header", .container [⟨some "kind", .primitive "u8", false⟩], false⟩
    let switch : Node := .switch "../header/kind" [("1", .primitive "u8")] none
    let body : Field := ⟨some "body", .container [⟨some "data", switch, false⟩], false⟩
    let s : Scope := .within (.within .root [header, body] 1) [⟨some "data", switch, false⟩] 0
    Located (.container [header, body]) [1, 0] [[1], []] ⟨s, switch⟩ ∧
      ∃ c, Comparison.ofText "../header/kind" s = .ok c ∧
        Finds s [[1], []] c.path [0, 0] ⟨some "kind", .primitive "u8", false⟩ ∧
          ¬ s.LooksAhead c.path := by
  intro header switch body s
  have hsite : Located (.container [header, body]) [1, 0] [[1], []] ⟨s, switch⟩ :=
    .field (p := [1]) (i := 0) (f := ⟨some "data", switch, false⟩)
      (.field (p := []) (i := 1) (f := body) .root rfl) rfl
  obtain ⟨c, hc, htraversal, hmoves⟩ : ∃ c, Comparison.ofText "../header/kind" s = .ok c ∧
      c.path.isTraversal = true ∧
      Step.moves c.path.primary = List.replicate 1 .parent ++ ["header", "kind"].map .name :=
    ⟨_, rfl, rfl, rfl⟩
  have hheader : (Scope.within .root [header, body] 1).Sees "header" 0 header :=
    Scope.sees_iff_latestAt.2 (@Field.latestAt_of_split _ [] [body] _ rfl (by decide))
  have hkind : Field.LatestAt "kind" [⟨some "kind", .primitive "u8", false⟩] 0
      ⟨some "kind", .primitive "u8", false⟩ :=
    @Field.latestAt_of_split _ [] [] _ rfl (by decide)
  have hfinds : Finds s [[1], []] c.path [0, 0] ⟨some "kind", .primitive "u8", false⟩ :=
    .walked (c := []) htraversal hmoves rfl
      (.visible hheader (.member rfl hkind (.here _))) rfl
  obtain ⟨-, o, own, ho, -, -, hlater⟩ := (compared_later_iff_looksAhead hsite hc).2 _ _ hfinds
  cases ho
  exact ⟨hsite, c, hc, hfinds, fun hahead => absurd (hlater.2 hahead) (by decide)⟩

/-- A path that climbs and comes down through the field that it climbed out of can reach a member
declared later: the compared field stands behind the one that the switch is compiled for. -/
theorem compared_later_through_enclosing_field :
    let switch : Node := .switch "../outer/kind" [("1", .primitive "u8")] none
    let body : Field := ⟨some "body", switch, false⟩
    let kind : Field := ⟨some "kind", .primitive "u8", false⟩
    let outer : Field := ⟨some "outer", .container [body, kind], false⟩
    let s : Scope := .within (.within .root [outer] 0) [body, kind] 0
    Located (.container [outer]) [0, 0] [[0], []] ⟨s, switch⟩ ∧
      ∃ c, Comparison.ofText "../outer/kind" s = .ok c ∧ c.target = .ok kind ∧
        Finds s [[0], []] c.path [0, 1] kind ∧ FieldAt (.container [outer]) [0, 1] kind ∧
          s.owner? = some body ∧ ownPlace s [[0], []] = some [0, 0] ∧ [0, 0] < [0, 1] := by
  intro switch body kind outer s
  have hsite : Located (.container [outer]) [0, 0] [[0], []] ⟨s, switch⟩ :=
    .field (p := [0]) (i := 0) (f := body) (.field (p := []) (i := 0) (f := outer) .root rfl) rfl
  have houter : (Scope.within .root [outer] 0).Sees "outer" 0 outer :=
    Scope.sees_iff_latestAt.2 (@Field.latestAt_of_split _ [] [] _ rfl (by decide))
  have hkind : Field.LatestAt "kind" [body, kind] 1 kind :=
    @Field.latestAt_of_split _ [body] [] _ rfl (by decide)
  obtain ⟨c, hc, htarget, htraversal, hmoves⟩ : ∃ c, Comparison.ofText "../outer/kind" s = .ok c ∧
      c.target = .ok kind ∧ c.path.isTraversal = true ∧
      Step.moves c.path.primary = List.replicate 1 .parent ++ ["outer", "kind"].map .name :=
    ⟨_, rfl, rfl, rfl, rfl⟩
  have hfinds : Finds s [[0], []] c.path [0, 1] kind :=
    .walked (c := []) htraversal hmoves rfl
      (.visible houter (.member rfl hkind (.here _))) rfl
  have hat : FieldAt (.container [outer]) [0, 1] kind :=
    .mk (p := [0]) (i := 1) (.field (p := []) (i := 0) (f := outer) .root rfl) rfl
  exact ⟨hsite, c, hc, htarget, hfinds, hat, rfl, rfl, by decide⟩

end PacketTypings
