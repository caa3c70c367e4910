import PacketTypings.Proofs.Typing.Agreement

/-! The names declared at top level. A type goes by them only where a kind has options of its own.
Main statements: two lists with the same names in them give a node the same type, or the same
fault; and with more names a node keeps the type that it has. -/

namespace PacketTypings

theorem Field.Alike.refl (f : Field) : f.Alike f := ⟨rfl, rfl⟩

theorem Scope.Agrees.refl (lax : Prop) (s : Scope) : s.Agrees lax s where
  resolveField path := by
    apply (Follows.refl _).imp
    rintro f _ rfl
    exact .refl f
  sibling path := by
    apply (Follows.refl _).imp
    rintro f _ rfl
    exact .refl f

namespace Typer

variable {lax : Prop} {t t' : Typer}

/-- Two typers agree on a node if they agree on kinds with own options and either leave out the
same fields or have none to leave out. -/
theorem follows_of_policy {n : Node}
    (hpolicy : t'.anonymousFields = t.anonymousFields ∨ n.Everywhere Node.NoneAnonymous)
    (h : ∀ kind, Follows lax Eq (t.parametrized kind) (t'.parametrized kind))
    (owner? : Option String) (s : Scope) :
    Follows lax Eq (t.type owner? s n) (t'.type owner? s n) := by
  induction n using Node.induction generalizing owner? s with
  | primitive name => exact .refl _
  | mapper literals => exact .refl _
  | bitflags flags => exact .refl _
  | bitfield names => exact .refl _
  | parametrized kind =>
    rw [type, type]
    exact h kind
  | array element ih =>
    exact follows_array (ih (hpolicy.imp_right (·.child List.mem_cons_self)) none s)
  | option content ih =>
    exact follows_option rfl (ih (hpolicy.imp_right (·.child List.mem_cons_self)) none s)
  | encapsulated lengthType content ih =>
    exact follows_encapsulated lengthType
      (ih (hpolicy.imp_right (·.child List.mem_cons_self)) none s)
  | container fields ih =>
    apply follows_container
    intro i f hi
    have hf := List.mem_of_getElem? hi
    apply follows_own rfl rfl rfl
    · intro hanonymous
      refine hpolicy.resolve_right fun hnone => ?_
      rw [hnone.self f hf] at hanonymous
      cases hanonymous
    · intro _
      exact ih f hf (hpolicy.imp_right (·.child (List.mem_map_of_mem hf))) f.name _
  | switch compareTo arms default? iharms ihdefault =>
    apply follows_switch (.refl lax s)
    · rw [List.forall₂_same]
      intro x hx
      have hchild := List.mem_append_left default?.toList (List.mem_map_of_mem (f := Prod.snd) hx)
      exact ⟨rfl, iharms x hx (hpolicy.imp_right (·.child hchild)) none s⟩
    · cases default? with
      | none => exact .none
      | some d =>
        have hchild := List.mem_append_right (arms.map Prod.snd) (List.mem_singleton_self d)
        exact .some (ihdefault d rfl (hpolicy.imp_right (·.child hchild)) none s)

/-- Two typers that leave out the same fields agree if they agree on kinds with own options. -/
theorem follows_of_parametrized (hpolicy : t'.anonymousFields = t.anonymousFields)
    (h : ∀ kind, Follows lax Eq (t.parametrized kind) (t'.parametrized kind))
    (owner? : Option String) (s : Scope) (n : Node) :
    Follows lax Eq (t.type owner? s n) (t'.type owner? s n) :=
  follows_of_policy (.inl hpolicy) h owner? s

/-- Of the declared names it only matters which they are. -/
theorem type_eq_of_entries (hpolicy : t'.anonymousFields = t.anonymousFields)
    (hentries : ∀ name, name ∈ t'.entries ↔ name ∈ t.entries) (owner? : Option String) (s : Scope)
    (n : Node) : t.type owner? s n = t'.type owner? s n := by
  apply (follows_of_parametrized hpolicy ?_ owner? s n).eq
  intro kind
  have hcontains : t'.entries.contains kind = t.entries.contains kind := by
    rw [Bool.eq_iff_iff, List.contains_iff_mem, List.contains_iff_mem, hentries]
  rw [parametrized, parametrized, hcontains]
  exact .refl _

/-- A declared name is only ever asked for, never excluded. -/
theorem type_eq_ok_of_entries_subset (hpolicy : t'.anonymousFields = t.anonymousFields)
    (hentries : t.entries ⊆ t'.entries) {owner? : Option String} {s : Scope} {n : Node}
    {e : TypeTerm} (h : t.type owner? s n = .ok e) : t'.type owner? s n = .ok e := by
  have hkind (kind : String) :
      Follows True Eq (t.parametrized kind) (t'.parametrized kind) := by
    apply Follows.of_exists_ok
    intro e he
    obtain ⟨hknown, rfl⟩ := parametrized_eq_ok_iff.1 he
    have hknown' := hknown.imp_right fun hkind => hentries hkind
    exact ⟨_, parametrized_eq_ok_iff.2 ⟨hknown', rfl⟩, rfl⟩
  obtain ⟨e', he', rfl⟩ := (follows_of_parametrized hpolicy hkind owner? s n).exists_ok h
  exact he'

theorem type_withEntries_eq_ok_of_subset (t : Typer) {names names' : List String}
    (hnames : names ⊆ names') {owner? : Option String} {s : Scope} {n : Node} {e : TypeTerm}
    (h : (t.withEntries names).type owner? s n = .ok e) :
    (t.withEntries names').type owner? s n = .ok e := by
  have hentries : (t.withEntries names).entries ⊆ (t.withEntries names').entries :=
    List.append_subset.2 ⟨List.subset_append_left _ _, List.subset_append_of_subset_right _ hnames⟩
  exact type_eq_ok_of_entries_subset (by rfl) hentries h

theorem type_withEntries_eq_of_mem_iff (t : Typer) {names names' : List String}
    (hnames : ∀ name, name ∈ names' ↔ name ∈ names) (owner? : Option String) (s : Scope)
    (n : Node) : (t.withEntries names).type owner? s n = (t.withEntries names').type owner? s n := by
  have hentries (name : String) :
      name ∈ (t.withEntries names').entries ↔ name ∈ (t.withEntries names).entries := by
    rw [withEntries, withEntries, List.mem_append, List.mem_append, hnames]
  exact type_eq_of_entries (by rfl) hentries owner? s n

theorem foldl_withEntries (t : Typer) (calls : List (List String)) :
    calls.foldl withEntries t = t.withEntries calls.flatten := by
  induction calls generalizing t with
  | nil => simp [withEntries]
  | cons names calls ih => simp [ih, withEntries]

end Typer
end PacketTypings
