import PacketTypings.Proofs.Document.Declared
import PacketTypings.Proofs.Typing.Entries

/-! A protocol that grows. New entries bring new names, and a name only ever helps. Main statement:
what has a type keeps it, and the declarations of the smaller protocol are among those of the larger
one, in their order. -/

namespace PacketTypings

theorem filterMap_sublist_filterMap {α β : Type} {f g : α → Option β} {xs ys : List α}
    (h : xs.Sublist ys) (hfg : ∀ x ∈ xs, ∀ b, f x = some b → g x = some b) :
    (xs.filterMap f).Sublist (ys.filterMap g) := by
  induction h with
  | slnil => exact .slnil
  | cons y _ ih => exact (ih hfg).trans ((List.sublist_cons_self y _).filterMap g)
  | @cons_cons xs ys x _ ih =>
    obtain ⟨hx, hrest⟩ := List.forall_mem_cons.1 hfg
    cases hf : f x with
    | none =>
      rw [List.filterMap_cons_none hf]
      exact (ih hrest).trans ((List.sublist_cons_self x ys).filterMap g)
    | some b =>
      rw [List.filterMap_cons_some hf, List.filterMap_cons_some (hx b hf)]
      exact (ih hrest).cons_cons b

theorem Declaration.ofEntry_eq_ok_of_entries_subset {t t' : Typer}
    (hpolicy : t'.anonymousFields = t.anonymousFields) (hentries : t.entries ⊆ t'.entries)
    {name : String} {raw : Json} {d : Declaration} (h : ofEntry t name raw = .ok d) :
    ofEntry t' name raw = .ok d := by
  rw [ofEntry_eq_ok_iff] at h ⊢
  obtain ⟨n, hread, hd⟩ := h
  refine ⟨n, hread, ?_⟩
  cases hd with
  | constants flags => exact .constants flags
  | type noFlags htype =>
    exact .type noFlags (Typer.type_eq_ok_of_entries_subset hpolicy hentries htype)

theorem Outcome.declared?_ofEntry_of_entries_subset {t t' : Typer}
    (hpolicy : t'.anonymousFields = t.anonymousFields) (hentries : t.entries ⊆ t'.entries)
    {entry : String × Json} {d : Declaration}
    (h : (ofEntry t entry.1 entry.2).declared? = some d) :
    (ofEntry t' entry.1 entry.2).declared? = some d := by
  rw [declared?_ofEntry_eq_some_iff] at h ⊢
  exact ⟨h.1, Declaration.ofEntry_eq_ok_of_entries_subset hpolicy hentries h.2⟩

/-- With more declared names a node keeps the type that it has. How often and in what order they are
declared does not matter. So where a protocol gets more entries, an entry keeps its declaration,
and the document keeps all of them. -/
theorem Typer.type_mono_entries (anonymousFields : AnonymousFields) :
    (∀ calls calls' : List (List String), calls.flatten ⊆ calls'.flatten →
      ∀ owner? s n e, (calls.foldl withEntries ⟨anonymousFields, []⟩).type owner? s n = .ok e →
        (calls'.foldl withEntries ⟨anonymousFields, []⟩).type owner? s n = .ok e) ∧
    (∀ calls calls' : List (List String),
      (∀ name, name ∈ calls'.flatten ↔ name ∈ calls.flatten) →
      ∀ owner? s n, (calls.foldl withEntries ⟨anonymousFields, []⟩).type owner? s n =
        (calls'.foldl withEntries ⟨anonymousFields, []⟩).type owner? s n) ∧
    ∀ p q : Protocol, p.entries.Sublist q.entries →
      (∀ x ∈ p.entries, ∀ declaration,
        (Outcome.ofEntry (p.typer anonymousFields) x.1 x.2).declared? = some declaration →
        (Outcome.ofEntry (q.typer anonymousFields) x.1 x.2).declared? = some declaration) ∧
      ∀ onFailure onFailure' d d', p.generate ⟨anonymousFields, onFailure⟩ = .ok d →
        q.generate ⟨anonymousFields, onFailure'⟩ = .ok d' →
        d.declarations.Sublist d'.declarations := by
  refine ⟨?_, ?_, ?_⟩
  · intro calls calls' hcalls owner? s n e h
    rw [foldl_withEntries] at h ⊢
    exact type_withEntries_eq_ok_of_subset _ hcalls h
  · intro calls calls' hcalls owner? s n
    rw [foldl_withEntries, foldl_withEntries]
    exact type_withEntries_eq_of_mem_iff _ hcalls owner? s n
  · intro p q h
    have hnames : (p.typer anonymousFields).entries ⊆ (q.typer anonymousFields).entries :=
      (h.map Prod.fst).subset
    have hkept : ∀ x ∈ p.entries, ∀ declaration,
        (Outcome.ofEntry (p.typer anonymousFields) x.1 x.2).declared? = some declaration →
        (Outcome.ofEntry (q.typer anonymousFields) x.1 x.2).declared? = some declaration :=
      fun _ _ _ => Outcome.declared?_ofEntry_of_entries_subset (by rfl) hnames
    refine ⟨hkept, fun onFailure onFailure' d d' hd hd' => ?_⟩
    rw [Protocol.declarations_of_generate hd, Protocol.declarations_of_generate hd']
    exact filterMap_sublist_filterMap h hkept

/-- A list of modes, and an entry that is refused until `Rest` is declared. -/
theorem Typer.type_mono_entries_of_declared_rest :
    let packet : String × Json :=
      ("packet", .arr [.str "array", .obj [("type", .arr [.str "Mode"])]])
    let item : String × Json := ("item", .arr [.str "Rest"])
    let mode : String × Json := ("Mode", .str "native")
    let rest : String × Json := ("Rest", .str "native")
    let p : Protocol := ⟨[packet, item, mode]⟩
    let q : Protocol := ⟨[packet, rest, item, mode]⟩
    let n : Node := .array (.parametrized "Mode")
    let e : TypeTerm := .array (.reference "Mode")
    let calls : List (List String) := [["packet", "Mode"]]
    let calls' : List (List String) := [["Rest"], ["Mode", "packet", "Mode"]]
    let calls'' : List (List String) := [["Mode", "Rest", "packet"]]
    (calls.flatten ⊆ calls'.flatten ∧
      (calls.foldl withEntries ⟨.omit, []⟩).type none .root n = .ok e ∧
      (calls'.foldl withEntries ⟨.omit, []⟩).type none .root n = .ok e) ∧
    ((∀ name, name ∈ calls''.flatten ↔ name ∈ calls'.flatten) ∧
      (calls'.foldl withEntries ⟨.omit, []⟩).type none .root n =
        (calls''.foldl withEntries ⟨.omit, []⟩).type none .root n) ∧
    p.entries.Sublist q.entries ∧
      (Outcome.ofEntry (p.typer .omit) packet.1 packet.2).declared? = some (.type "packet" e) ∧
      (Outcome.ofEntry (q.typer .omit) packet.1 packet.2).declared? = some (.type "packet" e) ∧
      ∃ d d', p.generate ⟨.omit, .skipEntry⟩ = .ok d ∧ q.generate ⟨.omit, .skipEntry⟩ = .ok d' ∧
        d.declarations.Sublist d'.declarations := by
  intro packet item mode rest p q n e calls calls' calls''
  obtain ⟨hmore, hsame, hgrown⟩ := type_mono_entries .omit
  have hsubset : calls.flatten ⊆ calls'.flatten := by decide
  have htype : (calls.foldl withEntries ⟨.omit, []⟩).type none .root n = .ok e := rfl
  have hnames (name : String) : name ∈ calls''.flatten ↔ name ∈ calls'.flatten := by
    simp [calls', calls'', or_comm, or_left_comm]
  have hsublist : p.entries.Sublist q.entries := ((List.Sublist.refl _).cons rest).cons_cons packet
  have hread : Node.ofJson packet.2 = .ok n := Node.ofJson_array (Node.ofJson_of_other rfl _)
  have hdeclared :
      (Outcome.ofEntry (p.typer .omit) packet.1 packet.2).declared? = some (.type "packet" e) := by
    rw [Outcome.declared?_ofEntry_eq_some_iff, Declaration.ofEntry_eq_ok_iff]
    exact ⟨rfl, n, hread, .type nofun rfl⟩
  obtain ⟨hkept, hdocument⟩ := hgrown p q hsublist
  exact ⟨⟨hsubset, htype, hmore _ _ hsubset _ _ _ _ htype⟩, ⟨hnames, hsame _ _ hnames _ _ _⟩,
    hsublist, hdeclared, hkept packet List.mem_cons_self _ hdeclared, _, _, rfl, rfl,
    hdocument .skipEntry .skipEntry _ _ rfl rfl⟩

end PacketTypings
