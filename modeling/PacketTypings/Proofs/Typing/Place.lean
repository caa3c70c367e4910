import PacketTypings.Proofs.Typing.Site

/-! Places inside a node. A place is told by the positions that lead down to it, so the order of
places is the order of declaration, and a field comes before what is inside it. Main statement: the
scopes of a site are those of the fields around it, each a container inside the one before. -/

namespace PacketTypings

/-- The positions that lead down from a node to a node inside it. -/
abbrev Place := List Nat

/-- The site at a place inside `root`, and the places of the containers whose fields it is in,
innermost first. -/
inductive Located (root : Node) : Place → List Place → Site → Prop
  | root : Located root [] [] ⟨.root, root⟩
  | field {p : Place} {cs : List Place} {s : Scope} {fields : List Field} {i : Nat} {f : Field}
      (located : Located root p cs ⟨s, .container fields⟩) (getElem? : fields[i]? = some f) :
      Located root (p ++ [i]) (p :: cs) ⟨.within s fields i, f.node⟩
  | inside {p : Place} {cs : List Place} {a b : Site} {i : Nat} (located : Located root p cs a)
      (child : Site.Child .flatten i a b) (same : b.scope = a.scope) :
      Located root (p ++ [i]) cs b

/-- The field at a place. -/
inductive FieldAt (root : Node) : Place → Field → Prop
  | mk {p : Place} {cs : List Place} {s : Scope} {fields : List Field} {i : Nat} {f : Field}
      (located : Located root p cs ⟨s, .container fields⟩) (getElem? : fields[i]? = some f) :
      FieldAt root (p ++ [i]) f

theorem Located.holds {root : Node} {p : Place} {cs : List Place} {a : Site}
    (h : Located root p cs a) : root.Holds a.node := by
  induction h with
  | root => exact .self root
  | field _ hf ih => exact ih.to_child (List.mem_map_of_mem (List.mem_of_getElem? hf))
  | inside _ hchild _ ih => exact ih.to_child hchild.mem_children

theorem FieldAt.holds {root : Node} {q : Place} {f : Field} (h : FieldAt root q f) :
    root.Holds f.node := by
  cases h with
  | mk located hf => exact (Located.field located hf).holds

/-- Whatever is inside a node has a place in it. -/
theorem Located.exists_of_part {root : Node} {p : Place} {cs : List Place} {a b : Site}
    (h : Located root p cs a) (hpart : Site.Part .flatten a b) :
    ∃ q ds, Located root q ds b := by
  induction hpart generalizing p cs with
  | self a => exact ⟨p, cs, h⟩
  | inside hchild _ ih =>
    cases hchild with
    | field hf _ => exact ih (.field h hf)
    | arm harm => exact ih (.inside h (.arm harm) rfl)
    | default s compareTo arms d => exact ih (.inside h (.default s compareTo arms d) rfl)
    | element s n => exact ih (.inside h (.element s n) rfl)
    | content s n => exact ih (.inside h (.content s n) rfl)
    | encapsulated s lengthType n => exact ih (.inside h (.encapsulated s lengthType n) rfl)

/-- Nothing but a field lies right inside a container. -/
theorem Site.Child.not_container {i : Nat} {a b : Site} {fields : List Field}
    (h : Site.Child .flatten i a b) (same : b.scope = a.scope) : a.node ≠ .container fields := by
  rintro ha
  cases h with
  | field hf _ =>
    have := congrArg Scope.depth same
    simp [Scope.depth] at this
  | arm => cases ha
  | default => cases ha
  | element => cases ha
  | content => cases ha
  | encapsulated => cases ha

/-- The innermost scope of a site is that of a field that the site is in. If the field's own node is
a container, nothing lies between the two. -/
theorem Located.of_within {root : Node} {p : Place} {cs : List Place} {outer : Scope}
    {fields : List Field} {index : Nat} {n : Node}
    (h : Located root p cs ⟨.within outer fields index, n⟩) :
    ∃ c ds f r, cs = c :: ds ∧ Located root c ds ⟨outer, .container fields⟩ ∧
      fields[index]? = some f ∧ p = c ++ index :: r ∧
      (r = [] ∧ f.node = n ∨ ∀ fs, f.node ≠ .container fs) := by
  generalize ha : (⟨.within outer fields index, n⟩ : Site) = a at h
  induction h generalizing n with
  | root => cases ha
  | @field p cs s fields' i f located hf =>
    cases ha
    exact ⟨p, cs, f, [], rfl, located, hf, rfl, .inl ⟨rfl, rfl⟩⟩
  | @inside p cs a b i located child same ih =>
    subst ha
    obtain ⟨scope, m⟩ := a
    cases same
    obtain ⟨c, ds, f, r, rfl, houter, hf, rfl, hr⟩ := ih rfl
    refine ⟨c, ds, f, r ++ [i], rfl, houter, hf, by simp, .inr fun fs hfs => ?_⟩
    rcases hr with ⟨-, hm⟩ | hr
    · exact child.not_container rfl (hm.symm.trans hfs)
    · exact hr fs hfs

/-- Names that select a member of a container select a field at a place inside it. -/
theorem FieldAt.of_leads {root : Node} {q : Place} {f g : Field} {texts : List String}
    {is : List Nat} (hf : FieldAt root q f) (h : f.Leads texts is g) :
    FieldAt root (q ++ is) g := by
  induction h generalizing q with
  | here f => simpa using hf
  | @member f g h fields i is text texts container latest rest ih =>
    obtain ⟨located, hget⟩ := hf
    have hinner := Located.field located hget
    rw [container] at hinner
    simpa using ih (.mk hinner latest.getElem?)

end PacketTypings
