import PacketTypings.Proofs.Document.Run

/-! Which declarations a document has. Main statement: whatever becomes of failures, a document has
the declarations of the entries that are not skipped and can be declared. -/

namespace PacketTypings

namespace Declaration

/-- The declaration of a node under a name: constants for a flag set, for any other node its
type. -/
inductive Of (t : Typer) (name : String) : Node → Declaration → Prop
  | constants (flags : Flags) : Of t name (.bitflags flags) (.constants name flags.constants)
  | type {n : Node} {e : TypeTerm} (noFlags : ∀ flags, n ≠ .bitflags flags)
      (type : t.type none .root n = .ok e) : Of t name n (.type name e)

theorem ofEntry_eq_ok_iff {t : Typer} {name : String} {raw : Json} {d : Declaration} :
    ofEntry t name raw = .ok d ↔ ∃ n, Node.ofJson raw = .ok n ∧ Of t name n d := by
  rw [ofEntry, bind_eq_ok_iff]
  refine exists_congr fun n => and_congr_right fun _ => ?_
  constructor
  · intro h
    split at h
    · cases h
      exact .constants _
    · next noFlags =>
      obtain ⟨e, htype, h⟩ := bind_eq_ok_iff.1 h
      cases h
      exact .type noFlags htype
  · intro h
    cases h with
    | constants flags => rfl
    | type noFlags htype =>
      split
      · exact absurd rfl (noFlags _)
      · rw [htype]
        rfl

end Declaration

theorem Outcome.ofEntry_of_declaration {t : Typer} {name : String} {raw : Json} {d : Declaration}
    (notSkipped : isSkipped name raw = false) (h : Declaration.ofEntry t name raw = .ok d) :
    ofEntry t name raw = .declared d := by
  rw [ofEntry_of_not_isSkipped notSkipped, h]

theorem Outcome.declared?_ofEntry_eq_some_iff {t : Typer} {entry : String × Json}
    {d : Declaration} : (ofEntry t entry.1 entry.2).declared? = some d ↔
      isSkipped entry.1 entry.2 = false ∧ Declaration.ofEntry t entry.1 entry.2 = .ok d := by
  cases hskipped : isSkipped entry.1 entry.2 with
  | true => simp [ofEntry_of_isSkipped hskipped, declared?]
  | false =>
    rw [ofEntry_of_not_isSkipped hskipped]
    cases Declaration.ofEntry t entry.1 entry.2 <;> simp [declared?]

namespace Protocol

variable {p : Protocol} {options : Options} {d : Document}

theorem declarations_of_generate (h : p.generate options = .ok d) : d.declarations =
    p.entries.filterMap fun x =>
      (Outcome.ofEntry (p.typer options.anonymousFields) x.1 x.2).declared? := by
  dsimp only [generate] at h
  split at h
  · cases h
  · cases h
    exact List.filterMap_map

theorem mem_declarations_iff (h : p.generate options = .ok d) {declaration : Declaration} :
    declaration ∈ d.declarations ↔ ∃ x ∈ p.entries, Outcome.isSkipped x.1 x.2 = false ∧
      Declaration.ofEntry (p.typer options.anonymousFields) x.1 x.2 = .ok declaration := by
  rw [declarations_of_generate h, List.mem_filterMap]
  simp only [Outcome.declared?_ofEntry_eq_some_iff]

end Protocol
end PacketTypings
